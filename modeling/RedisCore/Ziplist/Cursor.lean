import RedisCore.Ziplist.Refinement

set_option autoImplicit false

namespace RedisCore.Ziplist

open List

variable {zl : Bytes} {values : List Bytes}

def Holds (zl : Bytes) (values : List Bytes) : Prop :=
  ∃ items, Represents zl items ∧ items.map Item.value = values

-- The pointer p stands at the first of rest, or at the terminator when rest is empty.
def Cursor (zl : Bytes) (front rest : List Bytes) (p : Nat) : Prop :=
  ∃ before after, Represents zl (before ++ after) ∧ before.map Item.value = front ∧
    after.map Item.value = rest ∧ p = 10 + itemsLen before

def widest (values : List Bytes) : Nat := (values.map fun s => 5 + (zipEntryBody s).length).sum + 11

theorem layoutBytes_le_widest (items : List Item) : layoutBytes items ≤ widest (items.map Item.value) := by
  unfold layoutBytes widest
  refine Nat.add_le_add_right ?_ 11
  induction items with
  | nil => exact le_rfl
  | cons item items ih =>
    rw [itemsLen_cons, map_cons, map_cons, sum_cons]
    have first : item.rawlen ≤ 5 + (zipEntryBody item.value).length := by
      unfold Item.rawlen Item.prevlensize
      split <;> omega
    exact Nat.add_le_add first ih

theorem widest_sublist (values values' : List Bytes) (sub : values.Sublist values') :
    widest values ≤ widest values' :=
  Nat.add_le_add_right (List.Sublist.sum_le_sum (sub.map _) (fun _ _ => Nat.zero_le _)) 11

theorem Represents.small (items : List Item) (values : List Bytes) (same : items.map Item.value = values)
    (small : widest values < 2 ^ 32) : layoutBytes items < 2 ^ 32 :=
  lt_of_le_of_lt (layoutBytes_le_widest items) (same ▸ small)

theorem Cursor.holds {front rest : List Bytes} {p : Nat} (cursor : Cursor zl front rest p) :
    Holds zl (front ++ rest) := by
  obtain ⟨before, after, related, rfl, rfl, _⟩ := cursor
  exact ⟨before ++ after, related, map_append⟩

theorem Holds.start (holds : Holds zl values) : Cursor zl [] values 10 := by
  obtain ⟨items, related, rfl⟩ := holds
  exact ⟨[], items, related, rfl, rfl, rfl⟩

theorem holds_new : Holds ziplistNew [] := ⟨[], represents_new, rfl⟩

theorem Cursor.bytes {front rest : List Bytes} {p : Nat} (cursor : Cursor zl front rest p)
    (small : widest (front ++ rest) < 2 ^ 32) :
    ∃ before after tail count, before.map Item.value = front ∧ after.map Item.value = rest ∧
      zl = image tail count (encodeItems 0 before ++ encodeItems (lastRawlen 0 before) after) ∧
      Represents zl (before ++ after) ∧ Fits (lastRawlen 0 before) after ∧ p = 10 + itemsLen before ∧
      layoutBytes (before ++ after) < 2 ^ 32 := by
  obtain ⟨before, after, related, rfl, rfl, rfl⟩ := cursor
  have bound := Represents.small (before ++ after) _ map_append small
  obtain ⟨count, rendered, _⟩ := related.rendered
  exact ⟨before, after, _, count, rfl, rfl, by rw [rendered]; exact render_append count before after, related,
    ((fits_append 0 before after).mp related.fits).2, rfl, bound⟩

section

variable {zl : Bytes} (front rest : List Bytes) {value : Bytes} (p : Nat)

variable {front}

theorem Cursor.at_end (cursor : Cursor zl front [] p) (small : widest front < 2 ^ 32) :
    zl[p]? = some zipEnd := by
  obtain ⟨before, after, tail, count, _, empty, shape, _, _, at_p, _⟩ :=
    cursor.bytes (by simpa using small)
  obtain rfl := map_eq_nil_iff.mp empty
  rw [shape, getElem?_image tail count p _ _ (by simp [at_p])]
  rfl

theorem Cursor.entry (cursor : Cursor zl front (value :: rest) p) (small : widest (front ++ value :: rest) < 2 ^ 32) :
    (∃ byte, zl[p]? = some byte ∧ byte ≠ zipEnd) ∧ ziplistGet (zl.drop p) = some (entryValue value) ∧
      (∀ s, ziplistCompare (zl.drop p) s = some (decide (value = s))) ∧
      ∃ rawlen, zipRawEntryLength (zl.drop p) = some rawlen ∧
        Cursor zl (front ++ [value]) rest (p + rawlen) := by
  obtain ⟨before, after, tail, count, front_eq, rest_eq, shape, related, fits, at_p, bound⟩ :=
    cursor.bytes small
  obtain ⟨item, after, rfl, rfl, rfl⟩ := map_eq_cons_iff.mp rest_eq
  have at_front : p = 10 + (encodeItems 0 before).length := by simp [at_p]
  have last := lastRawlen_le before
  simp only [layoutBytes, itemsLen_append, itemsLen_cons] at bound
  have short := item.value_short (by omega)
  have dropped : zl.drop p = item.encode (lastRawlen 0 before) ++ (encodeItems item.rawlen after ++ [zipEnd]) := by
    rw [shape, drop_image_append tail count p _ _ at_front, encodeItems, append_assoc]
  obtain ⟨byte, head, distinct⟩ := item.encode_head
    (encodeItems item.rawlen after ++ [zipEnd]) fits.1
  refine ⟨⟨byte, ?_, distinct⟩, ?_, fun s => ?_, item.rawlen, ?_, ?_⟩
  · rw [← head?_drop, dropped, head]
  · rw [dropped, ziplistGet_encode _ fits.1 (by omega) short]
  · rw [dropped, ziplistCompare_encode _ s fits.1 (by omega) short]
  · rw [dropped, zipRawEntryLength_encode _ fits.1 short]
  · refine ⟨before ++ [item], after, by simpa using related, by simp [front_eq], rfl, ?_⟩
    rw [at_p, itemsLen_append, itemsLen_cons, itemsLen_nil]
    omega

theorem Cursor.get (cursor : Cursor zl front (value :: rest) p) (small : widest (front ++ value :: rest) < 2 ^ 32) :
    ziplistGet (zl.drop p) = some (entryValue value) :=
  (cursor.entry rest p small).2.1

-- The pointer that ziplistIndex and ziplistNext return: NULL at the end.
def entryPointer (rest : List Bytes) (p : Nat) : Option Nat := if rest = [] then none else some p

variable {p}

@[simp] theorem entryPointer_none : entryPointer [] p = none := rfl

variable {rest}

@[simp] theorem entryPointer_some : entryPointer (value :: rest) p = some p := rfl

theorem Cursor.pointer (cursor : Cursor zl front rest p) (small : widest (front ++ rest) < 2 ^ 32) :
    ∃ byte, zl[p]? = some byte ∧ (byte = zipEnd ↔ rest = []) := by
  cases rest with
  | nil => exact ⟨zipEnd, cursor.at_end p (by simpa using small), by simp⟩
  | cons value rest =>
    obtain ⟨⟨byte, read, distinct⟩, _⟩ := cursor.entry rest p small
    exact ⟨byte, read, by simp [distinct]⟩

theorem Cursor.next (cursor : Cursor zl front (value :: rest) p) (small : widest (front ++ value :: rest) < 2 ^ 32) :
    ∃ q, ziplistNext zl p = some (entryPointer rest q) ∧ Cursor zl (front ++ [value]) rest q := by
  obtain ⟨⟨byte, read, distinct⟩, _, _, rawlen, length, moved⟩ := cursor.entry rest p small
  obtain ⟨byte', read', stop⟩ := moved.pointer (by simpa using small)
  refine ⟨p + rawlen, ?_, moved⟩
  simp only [ziplistNext, read, some_bind, distinct, if_false, length, read', stop, entryPointer]
  split <;> rfl

theorem Holds.first (holds : Holds zl values) (small : widest values < 2 ^ 32) :
    ziplistIndex zl 0 = some (entryPointer values 10) := by
  obtain ⟨byte, read, stop⟩ := (holds.start).pointer small
  simp only [ziplistIndex, Int.toNat_zero, indexForward, ziplistHeaderSize, lt_irrefl, if_false, read,
    some_bind, stop, entryPointer]
  split <;> rfl

theorem Cursor.insert (s : Bytes) (cursor : Cursor zl front rest p) (small : widest (front ++ s :: rest) < 2 ^ 32) :
    ∃ zl', ziplistInsert zl p s = some zl' ∧ Cursor zl' front (s :: rest) p := by
  have old_small : widest (front ++ rest) < 2 ^ 32 :=
    lt_of_le_of_lt (widest_sublist _ _ ((List.Sublist.refl front).append (sublist_cons_self s rest))) small
  obtain ⟨before, after, related, rfl, rfl, rfl⟩ := cursor
  have values := map_value_insert before after s
  obtain ⟨zl', inserted, represented⟩ := Represents.insert zl before after s related
    (Represents.small _ _ map_append old_small) (Represents.small _ _ values small)
  refine ⟨zl', inserted, before, _, represented, rfl, ?_, rfl⟩
  simpa [insertItems] using values

theorem Cursor.delete (cursor : Cursor zl front (value :: rest) p)
    (small : widest (front ++ value :: rest) < 2 ^ 32) :
    ∃ zl', ziplistDelete zl p = some (zl', p) ∧ Cursor zl' front rest p := by
  have new_small : widest (front ++ rest) < 2 ^ 32 :=
    lt_of_le_of_lt (widest_sublist _ _ ((List.Sublist.refl front).append (sublist_cons_self value rest))) small
  obtain ⟨before, after, related, rfl, after_eq, rfl⟩ := cursor
  obtain ⟨item, after, rfl, rfl, rfl⟩ := map_eq_cons_iff.mp after_eq
  have values := map_value_delete before (item :: after) 1
  rw [map_cons, drop_one, tail_cons] at values
  obtain ⟨zl', deleted, represented⟩ := Represents.delete zl (by simp) related
    (Represents.small _ _ (by simp) small) (Represents.small _ _ (by simpa using values) new_small)
  refine ⟨zl', by simp [ziplistDelete, deleted], before, _, represented, rfl, ?_, rfl⟩
  simpa [deleteItems] using values

theorem Holds.push (values : List Bytes) (s : Bytes) (holds : Holds zl values)
    (small : widest (values ++ [s]) < 2 ^ 32) :
    ∃ zl', ziplistPush zl s .tail = some zl' ∧ Holds zl' (values ++ [s]) := by
  obtain ⟨items, related, rfl⟩ := holds
  have old_small : widest (items.map Item.value) < 2 ^ 32 :=
    lt_of_le_of_lt (widest_sublist _ _ (sublist_append_left _ _)) small
  have values := map_value_insert items [] s
  obtain ⟨zl', inserted, represented⟩ := Represents.insert zl items [] s (by simpa using related)
    (by simpa using Represents.small items _ rfl old_small) (Represents.small _ _ (by simpa using values) small)
  have size := related.bytes zl items (Represents.small items _ rfl old_small)
  refine ⟨zl', ?_, _, represented, by simpa using values⟩
  have at_end : itemsLen items + 11 - 1 = 10 + itemsLen items := by omega
  simp [ziplistPush, size, at_end, inserted]

end

theorem countEntries_ok (front rest : List Bytes) (fuel p : Nat) (cursor : Cursor zl front rest p)
    (small : widest (front ++ rest) < 2 ^ 32) (enough : rest.length < fuel) :
    countEntries zl fuel p = some rest.length := by
  induction fuel generalizing front rest p with
  | zero => omega
  | succ fuel ih =>
    rw [countEntries]
    cases rest with
    | nil =>
      rw [cursor.at_end p (by simpa using small)]
      rfl
    | cons value rest =>
      obtain ⟨⟨byte, read, distinct⟩, _, _, rawlen, length, moved⟩ := cursor.entry rest p small
      have counted := ih (front ++ [value]) rest (p + rawlen) moved (by simpa using small)
        (by simpa using enough)
      simp [read, distinct, length, counted]

theorem Holds.len (holds : Holds zl values) (small : widest values < 2 ^ 32) :
    ∃ zl', ziplistLen zl = some (zl', values.length) ∧ Holds zl' values := by
  have start := holds.start
  obtain ⟨items, related, rfl⟩ := holds
  have bound := Represents.small items _ rfl small
  obtain ⟨fits, count, rfl, count_bound, counted⟩ := related
  have entries := length_le_itemsLen items
  have read : ziplistLength (render count items) = some count := ziplistLength_image _ count _ count_bound
  have length : (render count items).length = itemsLen items + 11 := by simp [render]
  rcases Nat.lt_or_ge count 65535 with exact | saturated
  · refine ⟨render count items, ?_, items, ⟨fits, count, rfl, count_bound, counted⟩, rfl⟩
    have same := counted exact
    rw [length_map, ← same, ziplistLen, read]
    simp [exact]
  · have all := countEntries_ok [] (items.map Item.value)
      (render count items).length 10 start small (by rw [length_map]; omega)
    rw [length_map] at all
    rcases Nat.lt_or_ge items.length 65535 with fewer | many
    · refine ⟨render items.length items, ?_, items, ⟨fits, items.length, rfl, by omega, fun _ => rfl⟩, rfl⟩
      have stored : setZiplistLength (render count items) (items.length : Int) =
          some (render items.length items) := setZiplistLength_image _ count _ rfl
      simp [ziplistLen, read, Nat.not_lt.mpr saturated, ziplistHeaderSize, all, fewer, stored]
    · refine ⟨render count items, ?_, items, ⟨fits, count, rfl, count_bound, counted⟩, rfl⟩
      simp [ziplistLen, read, Nat.not_lt.mpr saturated, ziplistHeaderSize, all, Nat.not_lt.mpr many]

end RedisCore.Ziplist
