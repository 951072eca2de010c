import RedisCore.Ziplist.Merge

set_option autoImplicit false

namespace RedisCore.Ziplist

open List

theorem widest_le_layoutBytes (items : List Item) :
    widest (items.map Item.value) ≤ layoutBytes items + 4 * items.length := by
  induction items with
  | nil => exact le_rfl
  | cons item items ih =>
    have first : 5 + (zipEntryBody item.value).length ≤ item.rawlen + 4 := by
      unfold Item.rawlen Item.prevlensize
      split <;> omega
    simp only [widest, layoutBytes, map_cons, sum_cons, itemsLen_cons, length_cons] at ih ⊢
    omega

section

variable (zl : Bytes) (values : List Bytes) (holds : Holds zl values) (small : widest values < 2 ^ 32)

include holds

theorem Holds.length_le : zl.length ≤ widest values := by
  obtain ⟨items, ⟨_, count, rfl, _⟩, rfl⟩ := holds
  have wide := layoutBytes_le_widest items
  simpa [render, layoutBytes] using wide

theorem Holds.widest_le : widest values ≤ zl.length + 4 * values.length := by
  obtain ⟨items, ⟨_, count, rfl, _⟩, rfl⟩ := holds
  have narrow := widest_le_layoutBytes items
  simpa [render, layoutBytes] using narrow

theorem Holds.visits (short : zl.length < 2 ^ 32) : (visits zl).map (List.map Visit.value) = some values := by
  obtain ⟨items, related, rfl⟩ := holds
  have bound : layoutBytes items < 2 ^ 32 := by
    obtain ⟨_, count, rfl, _⟩ := related
    simpa [render, layoutBytes] using short
  rw [(related.wellFormed bound).walk, Option.map_some, map_value_visitSlots, map_value_slot]

theorem Holds.entries_le : values.length + 11 ≤ zl.length := by
  obtain ⟨items, ⟨_, count, rfl, _⟩, rfl⟩ := holds
  have entries := length_le_itemsLen items
  simpa [render] using entries

include small

variable {zl values}

theorem Holds.bytes : ziplistBytes zl = some zl.length := by
  obtain ⟨items, related, rfl⟩ := holds
  have size := related.bytes zl items (Represents.small items _ rfl small)
  obtain ⟨_, count, rfl, _⟩ := related
  simpa [render] using size

theorem Holds.at_index (index : Int) :
    match position values.length index with
    | none => ziplistIndex zl index = some none
    | some k => ∃ p, ziplistIndex zl index = some (some p) ∧ Cursor zl (values.take k) (values.drop k) p := by
  obtain ⟨items, related, rfl⟩ := holds
  have found := related.at_index index (Represents.small items _ rfl small)
  rw [length_map]
  cases at_entry : position items.length index with
  | none => simpa [at_entry] using found
  | some k =>
    refine ⟨10 + itemsLen (items.take k), by simpa [at_entry] using found, items.take k, items.drop k, ?_, ?_, ?_, rfl⟩
    · rwa [take_append_drop]
    · exact map_take
    · exact map_drop

theorem Holds.deleteRange (index : Int) (num : Nat) :
    ∃ zl', ziplistDeleteRange zl index num = some zl' ∧
      Holds zl' (match position values.length index with
        | none => values
        | some k => values.take k ++ values.drop (k + num)) := by
  obtain ⟨items, related, rfl⟩ := holds
  have found := related.at_index index (Represents.small items _ rfl small)
  rw [length_map]
  cases at_entry : position items.length index with
  | none =>
    rw [at_entry] at found
    exact ⟨zl, by simp [ziplistDeleteRange, found], items, related, rfl⟩
  | some k =>
    have within := position_lt at_entry
    have remaining := map_value_delete (items.take k) (items.drop k) num
    rw [map_take, map_drop, drop_drop] at remaining
    have sub : ((items.map Item.value).take k ++ (items.map Item.value).drop (k + num)).Sublist
        (items.map Item.value) := by
      conv_rhs => rw [← take_append_drop k (items.map Item.value)]
      refine (List.Sublist.refl _).append ?_
      rw [← drop_drop]
      exact drop_sublist _ _
    obtain ⟨zl', deleted, represented⟩ := Represents.delete zl
      (drop_ne_nil within) (by rwa [take_append_drop])
      (by rw [take_append_drop]; exact Represents.small items _ rfl small)
      (Represents.small _ _ remaining (lt_of_le_of_lt (widest_sublist _ _ sub) small))
    rw [at_entry] at found
    exact ⟨zl', by simp [ziplistDeleteRange, found, deleted], _, represented, remaining⟩

end

theorem Holds.pushHead {zl : Bytes} {values : List Bytes} {s : Bytes} (holds : Holds zl values)
    (small : widest (s :: values) < 2 ^ 32) :
    ∃ zl', ziplistPush zl s .head = some zl' ∧ Holds zl' (s :: values) := by
  obtain ⟨zl', inserted, cursor⟩ := (holds.start).insert s small
  exact ⟨zl', inserted, cursor.holds⟩

theorem Cursor.prev {zl : Bytes} {front rest : List Bytes} {value : Bytes} {p : Nat}
    (cursor : Cursor zl (front ++ [value]) rest p) (present : rest ≠ [])
    (small : widest (front ++ value :: rest) < 2 ^ 32) :
    ∃ q, ziplistPrev zl p = some (some q) ∧ Cursor zl front (value :: rest) q := by
  obtain ⟨next, rest, rfl⟩ := exists_cons_of_ne_nil present
  have again : (front ++ [value]) ++ next :: rest = front ++ value :: next :: rest := by simp
  obtain ⟨⟨byte, read, distinct⟩, _⟩ := cursor.entry rest p (by rwa [again])
  obtain ⟨before, after, tail, count, front_eq, rest_eq, shape, related, fits, at_p, bound⟩ :=
    cursor.bytes (by rwa [again])
  obtain ⟨before, item, rfl, rfl, item_eq⟩ : ∃ start item, before = start ++ [item] ∧
      start.map Item.value = front ∧ item.value = value := by
    obtain ⟨start, last, rfl, start_eq, last_eq⟩ := map_eq_append_iff.mp front_eq
    obtain ⟨item, rfl, item_eq⟩ := map_eq_singleton_iff.mp last_eq
    exact ⟨start, item, rfl, start_eq, item_eq⟩
  obtain ⟨follower, after, rfl, next_eq, after_eq⟩ := map_eq_cons_iff.mp rest_eq
  have last_length : lastRawlen 0 (before ++ [item]) = item.rawlen := by simp [lastRawlen]
  have positive := item.rawlen_pos
  simp only [layoutBytes, itemsLen_append, itemsLen_cons, itemsLen_nil] at bound at_p
  have dropped : zl.drop p = follower.encode item.rawlen ++ (encodeItems follower.rawlen after ++ [zipEnd]) := by
    rw [shape, drop_image_append tail count p _ _ (by simp [at_p]), encodeItems, append_assoc, last_length]
  have decoded : zipDecodePrevlen (zl.drop p) = some (follower.prevlensize, item.rawlen) := by
    rw [dropped, Item.encode, append_assoc]
    rw [last_length] at fits
    exact zipDecodePrevlen_store _ fits.1 (by omega)
  refine ⟨p - item.rawlen, ?_, before, item :: follower :: after, by simpa using related, rfl, ?_, by omega⟩
  · have inside : p ≠ 10 := by omega
    simp [ziplistPrev, read, distinct, ziplistHeaderSize, inside, decoded, show 0 < item.rawlen by omega]
  · simp [item_eq, next_eq, after_eq]

theorem Cursor.prev_first {zl : Bytes} {rest : List Bytes} {p : Nat} (cursor : Cursor zl [] rest p) (present : rest ≠ [])
    (small : widest rest < 2 ^ 32) : ziplistPrev zl p = some none := by
  obtain ⟨next, rest, rfl⟩ := exists_cons_of_ne_nil present
  obtain ⟨⟨byte, read, distinct⟩, _⟩ := cursor.entry rest p small
  obtain ⟨before, after, _, empty, _, rfl⟩ := cursor
  obtain rfl := map_eq_nil_iff.mp empty
  rw [itemsLen_nil, Nat.add_zero] at read ⊢
  simp [ziplistPrev, read, distinct, ziplistHeaderSize]

theorem Holds.merge {first second : Bytes} {values values' : List Bytes} (holds : Holds first values)
    (holds' : Holds second values') (present : values ≠ []) (present' : values' ≠ [])
    (small : widest (values ++ values') < 2 ^ 32) :
    ∃ zl kept, ziplistMerge first second = some (zl, kept) ∧ Holds zl (values ++ values') := by
  obtain ⟨items, related, rfl⟩ := holds
  obtain ⟨items', related', rfl⟩ := holds'
  have merged := map_value_merge items items'
  obtain ⟨zl, kept, ran, represented⟩ := Represents.merge
    (by simpa using present) (by simpa using present') related related' (Represents.small _ _ merged small)
  exact ⟨zl, kept, ran, _, represented, merged⟩

end RedisCore.Ziplist
