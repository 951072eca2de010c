import RedisCore.Ziplist.Insert

set_option autoImplicit false

namespace RedisCore.Ziplist

open Buffer List

def storedWidth (prevlen : Nat) : Item → Bool := fun _ => decide (zipBigPrevlen ≤ prevlen)

def deleteItems (front rest : List Item) (num : Nat) : List Item :=
  front ++ if num = 0 then rest else followItems (storedWidth (lastRawlen 0 front)) (rest.drop num)

def dropCount (count deleted : Nat) : Nat := if count < 65535 then count - deleted else count

theorem storedWidth_false (prevlen : Nat) (item : Item) (narrow : storedWidth prevlen item = false) :
    prevlen < zipBigPrevlen := by
  have := of_decide_eq_false narrow
  omega

theorem fits_delete {front rest : List Item} (num : Nat) (fits : Fits 0 (front ++ rest)) :
    Fits 0 (deleteItems front rest num) := by
  obtain ⟨before, after⟩ := (fits_append 0 front rest).mp fits
  refine (fits_append 0 front _).mpr ⟨before, ?_⟩
  split
  next => exact after
  next =>
    have split_rest := (take_append_drop num rest).symm
    rw [split_rest] at after
    exact fits_follow _ ((fits_append _ _ _).mp after).2 (storedWidth_false _)

theorem map_value_delete (front rest : List Item) (num : Nat) : (deleteItems front rest num).map Item.value =
      front.map Item.value ++ (rest.map Item.value).drop num := by
  rw [deleteItems, map_append]
  split
  next none => simp [none]
  next => rw [map_value_follow, map_drop]

theorem deleteSkip_image (num tail count p deleted prev : Nat) (front : Bytes) (items : List Item)
    (fits : Fits prev items) (bound : itemsLen items < 2 ^ 32) (at_front : p = 10 + front.length) :
    deleteSkip (image tail count (front ++ encodeItems prev items)) num p deleted =
      some (p + itemsLen (items.take num), deleted + (items.take num).length) := by
  induction num generalizing items front p deleted prev with
  | zero => simp [deleteSkip]
  | succ num ih =>
    rw [deleteSkip, getElem?_image tail count p front _ at_front]
    cases items with
    | nil => simp [encodeItems]
    | cons item items =>
      rw [itemsLen_cons] at bound
      obtain ⟨first, head, distinct⟩ :=
        item.encode_head (encodeItems item.rawlen items ++ [zipEnd]) fits.1
      have rawlen := zipRawEntryLength_encode (encodeItems item.rawlen items ++ [zipEnd])
        fits.1 (item.value_short (by omega))
      have rest := ih (p + item.rawlen) (deleted + 1) item.rawlen (front ++ item.encode prev) items
        fits.2 (by omega) (by simp [at_front]; omega)
      rw [append_assoc] at rest
      rw [encodeItems, drop_image_append tail count p front _ at_front, append_assoc, head, rawlen]
      simp only [some_bind, distinct, if_false, rest]
      simp only [take_succ_cons, itemsLen_cons, length_cons]
      exact congrArg some (Prod.ext (by dsimp only; omega) (by dsimp only; omega))

theorem zipPrevLenByteDiff_encode {item : Item} (prevlen stale : Nat) (rest : Bytes)
    (fits : item.wide = false → stale < zipBigPrevlen) :
    zipPrevLenByteDiff (item.encode stale ++ rest) prevlen =
      some (widthDiff item.wide (storedWidth prevlen item)) := by
  have size := zipDecodePrevlensize_store (zipEntryBody item.value ++ rest) fits
  rw [zipPrevLenByteDiff, Item.encode, append_assoc, size, some_bind, zipPrevEntryLengthSize_eq]
  by_cases large : zipBigPrevlen ≤ prevlen <;> cases item.wide <;>
    simp [widthDiff, storedWidth, large]

theorem widthDiff_add (old new : Bool) :
    widthDiff old new + (if old then 5 else 1 : Nat) = (if new then 5 else 1 : Nat) := by
  simp [widthDiff]

theorem deleteMove_image (tail tail' count start p totlen prevlen stale : Nat) (new : Bool)
    (front removed : Bytes) (next : Item) (items : List Item)
    (width : new = storedWidth prevlen next) (fits : next.wide = false → stale < zipBigPrevlen)
    (prev_bound : prevlen < 2 ^ 32) (short : next.value.length < 2 ^ 32)
    (rest_fits : Fits next.rawlen items) (at_front : start = 10 + front.length)
    (at_next : p = start + totlen) (total : totlen = removed.length)
    (room : widthDiff next.wide new ≤ totlen) (after : totlen ≤ tail) (tail_bound : tail < 2 ^ 32)
    (bound : front.length + totlen + next.rawlen + itemsLen items + 11 < 2 ^ 32)
    (moved : (tail' : Int) = if items = [] then (tail - totlen : Int)
      else tail - totlen + widthDiff next.wide new) :
    ∃ junk : Bytes, (junk.length : Int) = totlen - widthDiff next.wide new ∧ deleteMove
          (image tail count (front ++ (removed ++ (next.encode stale ++ encodeItems next.rawlen items))))
          start p totlen prevlen =
        some (image tail' count (front ++ (({ next with wide := new : Item }.encode prevlen ++
          encodeItems next.rawlen items) ++ junk)), widthDiff next.wide new) := by
  have sizes := widthDiff_add next.wide new
  have diffs := zipPrevLenByteDiff_encode prevlen stale
    (encodeItems next.rawlen items ++ [zipEnd]) fits
  rw [← width] at diffs
  generalize diff_eq : widthDiff next.wide new = diff at *
  let shrunk : Item := { next with wide := new }
  generalize rest_eq : encodeItems next.rawlen items = rest at *
  have length_rest : rest.length = itemsLen items := by rw [← rest_eq, length_encodeItems]
  let target := ((p : Int) - diff).toNat
  -- The new prevlen field ends where the old one did.
  obtain ⟨kept, old, shape, length_kept, length_old⟩ :=
    split_length (removed ++ storePrevlen next.wide stale) ((totlen : Int) - diff).toNat (by
      simp only [length_append, length_storePrevlen]
      omega)
  have old_width : (storePrevlen new prevlen).length = old.length := by
    rw [length_old]
    simp only [length_append, length_storePrevlen]
    omega
  have kept_value : (kept.length : Int) = totlen - diff := by omega
  have at_target : target = 10 + (front ++ kept).length := by
    simp only [length_append, target]
    omega
  have regroup : front ++ (removed ++ (next.encode stale ++ rest)) =
      (front ++ kept) ++ (old ++ (zipEntryBody next.value ++ rest)) := by
    simp only [Item.encode, append_assoc]
    rw [← append_assoc removed, shape]
    simp
  have write := write_image tail count target (front ++ kept) old (storePrevlen new prevlen)
    (zipEntryBody next.value ++ rest) at_target old_width
  rw [← append_assoc (storePrevlen new prevlen)] at write
  have adjust := adjustTail_image (tail - totlen) tail' count target prevlen next.rawlen diff
    (front ++ kept) shrunk items (fun narrow => storedWidth_false prevlen next (width ▸ narrow))
    prev_bound short rest_fits at_target (by rw [moved, Nat.cast_sub after])
  rw [rest_eq] at adjust
  have shrunk_len : (shrunk.rawlen : Int) = next.rawlen + diff := by
    simp only [Item.rawlen, Item.prevlensize, shrunk]
    omega
  have bytes := ziplistBytes_image tail' count ((front ++ kept) ++ (shrunk.encode prevlen ++ rest)) (by
    simp only [length_append, Item.length_encode, length_rest]
    omega)
  obtain ⟨covered, junk, cut, length_covered, length_junk⟩ :=
    split_length (kept ++ (shrunk.encode prevlen ++ rest)) (shrunk.encode prevlen ++ rest).length (by simp)
  refine ⟨junk, by rw [length_junk, ← kept_value]; simp, ?_⟩
  have read := read_image tail' count target (shrunk.encode prevlen ++ rest).length (front ++ kept)
    (shrunk.encode prevlen ++ rest) [] at_target rfl
  rw [append_nil, append_assoc, cut] at read
  have move := move_image tail' count start target _ front covered junk (shrunk.encode prevlen ++ rest)
    read at_front length_covered.symm
  rw [← cut, ← append_assoc front] at move
  have length : ((front ++ kept) ++ (shrunk.encode prevlen ++ rest)).length + 11 - target - 1 =
      (shrunk.encode prevlen ++ rest).length := by
    rw [at_target]
    simp only [length_append]
    omega
  rw [deleteMove, ← append_assoc front,
    drop_image_append tail count p (front ++ removed) _ (by simp; omega), append_assoc (next.encode _),
    diffs, append_assoc front]
  simp only [some_bind]
  rw [regroup, zipStorePrevEntryLength_eq,
    show decide (zipBigPrevlen ≤ prevlen) = new by rw [width]; rfl,
    show ((p : Int) - diff).toNat = target from rfl, write, some_bind,
    ziplistTailOffset_image tail count _ tail_bound, some_bind,
    setZiplistTailOffset_image tail (tail - totlen) count _ _ (by rw [Nat.cast_sub after]),
    some_bind, show storePrevlen new prevlen ++ zipEntryBody next.value = shrunk.encode prevlen
      from rfl, adjust, some_bind, bytes, some_bind, length, move]
  rfl

theorem first_entry (count : Nat) (front removed rest : List Item) (present : removed ≠ [])
    (fits : Fits 0 (front ++ (removed ++ rest)))
    (bound : itemsLen (front ++ (removed ++ rest)) + 11 < 2 ^ 32) :
    ∃ entry, zipEntry ((render count (front ++ (removed ++ rest))).drop (10 + itemsLen front)) =
      some entry ∧ entry.prevrawlen = lastRawlen 0 front := by
  cases removed with
  | nil => exact absurd rfl present
  | cons first removed =>
    have fits_first := ((fits_append 0 front _).mp fits).2.1
    have last := lastRawlen_le front
    simp only [cons_append, itemsLen_append, itemsLen_cons] at bound
    obtain ⟨entry, decoded, _, prev, _⟩ := zipEntry_encode
      (encodeItems first.rawlen (removed ++ rest) ++ [zipEnd]) fits_first (by omega)
      (first.value_short (by omega))
    refine ⟨entry, ?_, prev⟩
    rw [render_append, drop_image_append _ count _ _ _ (by simp), cons_append, encodeItems, append_assoc, decoded]

theorem deleteSkip_render (count num : Nat) {front rest : List Item} (fits : Fits 0 (front ++ rest))
    (bound : itemsLen (front ++ rest) + 11 < 2 ^ 32) :
    deleteSkip (render count (front ++ rest)) num (10 + itemsLen front) 0 =
      some (10 + itemsLen front + itemsLen (rest.take num), (rest.take num).length) := by
  rw [itemsLen_append] at bound
  rw [render_append, deleteSkip_image num _ count _ 0 _ _ rest ((fits_append 0 front rest).mp fits).2
    (by omega) (by simp), Nat.zero_add]

theorem itemsLen_pos {items : List Item} (present : items ≠ []) : 2 ≤ itemsLen items := by
  cases items with
  | nil => exact absurd rfl present
  | cons item items =>
    have := item.rawlen_pos
    rw [itemsLen_cons]
    omega

theorem itemsLen_dropLast (items : List Item) :
    itemsLen items.dropLast + lastRawlen 0 items = itemsLen items := by
  cases items using List.reverseRecOn with
  | nil => rfl
  | append_singleton front item => simp [lastRawlen]

theorem dropCount_value {count deleted : Nat} (enough : count < 65535 → deleted ≤ count) :
    ((dropCount count deleted : Nat) : Int) =
      if count < 65535 then (count : Int) + -deleted else count := by
  unfold dropCount
  split
  next small => rw [Nat.cast_sub (enough small)]; ring
  next => rfl

theorem delete_to_end {count num : Nat} {front removed : List Item} (present : removed ≠ [])
    (fits : Fits 0 (front ++ removed)) (count_bound : count < 65536)
    (bound : itemsLen (front ++ removed) + 11 < 2 ^ 32) (all : removed.take num = removed)
    (enough : count < 65535 → removed.length ≤ count) :
    __ziplistDelete (render count (front ++ removed)) (10 + itemsLen front) num =
      some (render (dropCount count removed.length) front) := by
  obtain ⟨entry, decoded, prev⟩ := first_entry count front removed [] present (by simpa using fits)
    (by simpa using bound)
  rw [append_nil] at decoded
  have skip := deleteSkip_render count num fits bound
  rw [all] at skip
  have positive := itemsLen_pos present
  have last := itemsLen_dropLast front
  rw [itemsLen_append] at bound
  have bytes (tail : Nat) := ziplistBytes_image tail count
    (encodeItems 0 front ++ encodeItems (lastRawlen 0 front) removed) (by simp; omega)
  have at_end (tail : Nat) := getElem?_image tail count (10 + itemsLen front + itemsLen removed)
    (encodeItems 0 front ++ encodeItems (lastRawlen 0 front) removed) [] (by simp; omega)
  rw [__ziplistDelete, decoded]
  simp only [some_bind, skip, Nat.add_sub_cancel_left, prev]
  rw [if_pos (by omega), render_append]
  simp only [append_nil, nil_append, head?_cons] at at_end
  rw [at_end, some_bind, if_neg (by simp)]
  rw [setZiplistTailOffset_image _ (10 + itemsLen front.dropLast) count _ _ (by push_cast; omega)]
  simp only [some_bind, Option.pure_def]
  rw [bytes, some_bind, ziplistResize_shrink _ count _ _ _ (by simp; omega), some_bind,
    ziplistIncrLength_image _ _ count_bound
      (dropCount_value enough), some_bind, cascadeIfChanged, if_neg (by simp), render]

theorem widthDiff_le_removed (old : Bool) {prevlen : Nat} (item : Item) {removed : List Item}
    (present : removed ≠ []) (fits : Fits prevlen removed) :
    widthDiff old (storedWidth prevlen item) ≤ itemsLen removed := by
  cases removed with
  | nil => exact absurd rfl present
  | cons first removed =>
    have positive := itemsLen_pos present
    cases wide : first.wide with
    | true =>
      have large : 5 ≤ first.rawlen := by simp [Item.rawlen, Item.prevlensize, wide]
      rw [itemsLen_cons]
      have small : widthDiff old (storedWidth prevlen item) ≤ 4 := by
        cases old <;> cases storedWidth prevlen item <;> simp [widthDiff]
      push_cast
      omega
    | false =>
      have narrow : storedWidth prevlen item = false :=
        decide_eq_false (by have := fits.1 wide; omega)
      rw [narrow]
      cases old <;> simp [widthDiff] <;> omega

theorem delete_before {count num : Nat} {front removed : List Item} {next : Item} {items : List Item}
    (present : removed ≠ []) (fits : Fits 0 (front ++ (removed ++ next :: items)))
    (count_bound : count < 65536)
    (old_bound : itemsLen (front ++ (removed ++ next :: items)) + 11 < 2 ^ 32)
    (taken : (removed ++ next :: items).take num = removed)
    (enough : count < 65535 → removed.length ≤ count)
    (bound : itemsLen (front ++ followItems (storedWidth (lastRawlen 0 front)) (next :: items)) + 11 < 2 ^ 32) :
    __ziplistDelete (render count (front ++ (removed ++ next :: items))) (10 + itemsLen front) num =
      some (render (dropCount count removed.length)
        (front ++ followItems (storedWidth (lastRawlen 0 front)) (next :: items))) := by
  let prevlen := lastRawlen 0 front
  let new := storedWidth prevlen next
  let shrunk : Item := { next with wide := new }
  let follow := followItems (storedWidth prevlen) (next :: items)
  obtain ⟨entry, decoded, prev⟩ := first_entry count front removed _ present fits old_bound
  have skip := deleteSkip_render count num fits old_bound
  rw [taken] at skip
  have positive := itemsLen_pos present
  have last := lastRawlen_le front
  obtain ⟨before, rest⟩ := (fits_append 0 front _).mp fits
  obtain ⟨removed_fits, next_fits, rest_fits⟩ := (fits_append _ removed _).mp rest
  have room : widthDiff next.wide new ≤ itemsLen removed :=
    widthDiff_le_removed next.wide next present removed_fits
  have sizes := widthDiff_add next.wide new
  have shrunk_len : (shrunk.rawlen : Int) = next.rawlen + widthDiff next.wide new := by
    simp only [Item.rawlen, Item.prevlensize, shrunk]
    omega
  have tail_le := itemsLen_dropLast_le (next :: items)
  simp only [itemsLen_append, itemsLen_cons] at old_bound bound tail_le
  let T := 10 + (itemsLen front + itemsLen removed) + itemsLen (next :: items).dropLast
  let T' := 10 + itemsLen front + itemsLen (shrunk :: items).dropLast
  have tail_moves : (T' : Int) = if items = [] then (T - itemsLen removed : Int)
      else T - itemsLen removed + widthDiff next.wide new := by
    cases items with
    | nil => simp [T, T']; omega
    | cons after items =>
      rw [if_neg (by simp)]
      simp only [T', T, dropLast_cons_cons, itemsLen_cons]
      push_cast
      omega
  obtain ⟨junk, length_junk, shift⟩ := deleteMove_image T T' count (10 + itemsLen front)
    (10 + itemsLen front + itemsLen removed) (itemsLen removed) prevlen
    (lastRawlen prevlen removed) new (encodeItems 0 front) (encodeItems prevlen removed) next items rfl
    next_fits (by omega) (next.value_short (by omega)) rest_fits (by simp) rfl (by simp) room
    (by simp only [T]; omega) (by simp only [T]; omega) (by simp; omega) tail_moves
  have zl : render count (front ++ (removed ++ next :: items)) =
      image T count (encodeItems 0 front ++ (encodeItems prevlen removed ++
        (next.encode (lastRawlen prevlen removed) ++ encodeItems next.rawlen items))) := by
    rw [render_append, encodeItems_append, encodeItems, ← append_assoc front,
      dropLast_append_of_ne_nil (by simp), itemsLen_append, itemsLen_append]
    simp only [T]
    rw [Nat.add_assoc 10]
  have at_next := getElem?_image T count (10 + itemsLen front + itemsLen removed)
    (encodeItems 0 front ++ encodeItems prevlen removed)
    (next.encode (lastRawlen prevlen removed) ++ encodeItems next.rawlen items) (by simp; omega)
  obtain ⟨head, head_eq, distinct⟩ := next.encode_head
    (encodeItems next.rawlen items ++ [zipEnd]) next_fits
  rw [append_assoc, append_assoc, head_eq] at at_next
  let moved := encodeItems 0 front ++ (shrunk.encode prevlen ++ encodeItems next.rawlen items)
  have length_moved : moved.length = itemsLen front + (shrunk.rawlen + itemsLen items) := by
    simp [moved]
  have bytes := ziplistBytes_image T' count (moved ++ junk) (by
    rw [length_append, length_moved]
    omega)
  have cascade := cascadeIfChanged_image (dropCount count removed.length) prevlen (10 + itemsLen front)
    (storedWidth prevlen) (encodeItems 0 front) (storedWidth_false _ _) (by omega) rest_fits
    (by omega) (by simp; omega) (by simp)
  have final_tail : 10 + (encodeItems 0 front).length + itemsLen follow.dropLast =
      10 + itemsLen (front ++ follow).dropLast := by
    rw [dropLast_append_of_ne_nil (by simp [follow, followItems]), itemsLen_append, length_encodeItems, Nat.add_assoc]
  rw [__ziplistDelete, decoded]
  simp only [some_bind, skip, Nat.add_sub_cancel_left, prev]
  rw [if_pos (by omega), zl, at_next, some_bind, if_pos distinct, shift, ← append_assoc]
  simp only [some_bind]
  change ziplistBytes (image T' count (moved ++ junk)) >>= _ = _
  rw [bytes, some_bind, ziplistResize_shrink T' count _ moved junk (by simp; omega),
    some_bind, ziplistIncrLength_image _ _ count_bound
      (dropCount_value enough), some_bind, render_append, ← final_tail, ← cascade]
  simp only [length_encodeItems]
  rfl

theorem ziplistDelete_render {count num : Nat} {front rest : List Item} (present : rest ≠ [])
    (fits : Fits 0 (front ++ rest)) (count_bound : count < 65536)
    (old_bound : itemsLen (front ++ rest) + 11 < 2 ^ 32)
    (bound : itemsLen (deleteItems front rest num) + 11 < 2 ^ 32)
    (counted : count < 65535 → count = (front ++ rest).length) :
    __ziplistDelete (render count (front ++ rest)) (10 + itemsLen front) num =
      some (render (dropCount count (rest.take num).length) (deleteItems front rest num)) := by
  have enough : count < 65535 → (rest.take num).length ≤ count := by
    intro small
    rw [counted small, length_append, length_take]
    omega
  cases num with
  | zero =>
    obtain ⟨entry, decoded, _⟩ := first_entry count front rest [] present (by simpa using fits)
      (by simpa using old_bound)
    rw [append_nil] at decoded
    simp [__ziplistDelete, decoded, deleteSkip, deleteItems, dropCount]
  | succ num =>
    have shape := take_append_drop (num + 1) rest
    have some_removed : rest.take (num + 1) ≠ [] := by simpa using present
    rw [deleteItems, if_neg (by omega)] at bound ⊢
    cases remaining : rest.drop (num + 1) with
    | nil =>
      rw [remaining, append_nil] at shape
      rw [followItems, append_nil]
      conv_lhs => rw [← shape]
      exact delete_to_end some_removed (by rw [shape]; exact fits) count_bound
        (by rw [shape]; exact old_bound) (by simp) enough
    | cons next items =>
      rw [remaining] at shape bound
      conv_lhs => rw [← shape]
      exact delete_before some_removed (by rw [shape]; exact fits)
        count_bound (by rw [shape]; exact old_bound) (by rw [shape]) enough bound

end RedisCore.Ziplist
