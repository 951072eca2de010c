import RedisCore.Lib.Simulation
import RedisCore.Ziplist.Formed
import RedisCore.Ziplist.Delete

set_option autoImplicit false

namespace RedisCore.Ziplist

open Buffer List

theorem indexForward_image (index tail count p prev : Nat) (front : Bytes) (items : List Item)
    (fits : Fits prev items) (bound : itemsLen items < 2 ^ 32) (at_front : p = 10 + front.length) :
    indexForward (image tail count (front ++ encodeItems prev items)) index p =
      some (if index < items.length then some (p + itemsLen (items.take index)) else none) := by
  induction index generalizing items front p prev with
  | zero =>
    rw [indexForward, getElem?_image tail count p front _ at_front]
    cases items with
    | nil => simp [encodeItems]
    | cons item items =>
      obtain ⟨first, head, distinct⟩ :=
        item.encode_head (encodeItems item.rawlen items ++ [zipEnd]) fits.1
      rw [encodeItems, append_assoc, head]
      simp [distinct]
  | succ index ih =>
    rw [indexForward, getElem?_image tail count p front _ at_front]
    cases items with
    | nil => simp [encodeItems]
    | cons item items =>
      rw [itemsLen_cons] at bound
      obtain ⟨first, head, distinct⟩ :=
        item.encode_head (encodeItems item.rawlen items ++ [zipEnd]) fits.1
      have rawlen := zipRawEntryLength_encode (encodeItems item.rawlen items ++ [zipEnd])
        fits.1 (item.value_short (by omega))
      have rest := ih (p + item.rawlen) item.rawlen (front ++ item.encode prev) items fits.2
        (by omega) (by simp [at_front]; omega)
      rw [append_assoc] at rest
      rw [encodeItems, drop_image_append tail count p front _ at_front, append_assoc, head, rawlen]
      simp only [some_bind, distinct, if_false, rest]
      simp only [length_cons, Nat.add_lt_add_iff_right, take_succ_cons, itemsLen_cons,
        Nat.add_assoc]

theorem indexBackward_image (index tail count : Nat) (front : List Item) (item : Item)
    (items : List Item) (fits : Fits 0 (front ++ item :: items))
    (bound : itemsLen (front ++ item :: items) + 11 < 2 ^ 32) :
    indexBackward (image tail count (encodeItems 0 (front ++ item :: items))) index (10 + itemsLen front) =
      some (if index ≤ front.length then some (10 + itemsLen (front.take (front.length - index)))
        else none) := by
  induction index generalizing front item items with
  | zero => simp [indexBackward]
  | succ index ih =>
    obtain ⟨before, item_fits, _⟩ := (fits_append 0 front (item :: items)).mp fits
    have last := lastRawlen_le front
    have total := bound
    rw [itemsLen_append, itemsLen_cons] at total
    have decoded := zipDecodePrevlen_store
      (zipEntryBody item.value ++ (encodeItems item.rawlen items ++ [zipEnd])) item_fits (by omega)
    have suffix : (image tail count (encodeItems 0 (front ++ item :: items))).drop (10 + itemsLen front) =
        storePrevlen item.wide (lastRawlen 0 front) ++
          (zipEntryBody item.value ++ (encodeItems item.rawlen items ++ [zipEnd])) := by
      rw [encodeItems_append, drop_image_append _ count _ _ _ (by simp), encodeItems, Item.encode]
      simp
    rw [indexBackward, suffix, decoded, some_bind]
    cases front using List.reverseRecOn with
    | nil => simp [lastRawlen]
    | append_singleton front previous =>
      have step := ih front previous (item :: items) (by simpa using fits) (by simpa using bound)
      have back : 10 + itemsLen (front ++ [previous]) - lastRawlen 0 (front ++ [previous]) =
          10 + itemsLen front := by
        simp [lastRawlen]
        omega
      have positive : 0 < lastRawlen 0 (front ++ [previous]) := by
        have := previous.rawlen_pos
        simp only [lastRawlen, getLast?_concat, Option.map_some, Option.getD_some]
        omega
      simp only [positive, if_true]
      rw [back, append_assoc, singleton_append, step]
      simp only [length_append, length_singleton, Nat.add_le_add_iff_right,
        Nat.add_sub_add_right]
      rw [take_append_of_le_length (by omega)]

-- The entry that an index counted from the head (or, when negative, from the tail) denotes.
def position (length : Nat) (index : Int) : Option Nat :=
  if index < 0 then
    if -index ≤ length then some (length - (-index).toNat) else none
  else if index < length then some index.toNat else none

theorem ziplistIndex_render (count : Nat) {items : List Item} (index : Int) (fits : Fits 0 items)
    (bound : itemsLen items + 11 < 2 ^ 32) :
    ziplistIndex (render count items) index =
      some ((position items.length index).map fun at_entry => 10 + itemsLen (items.take at_entry)) := by
  unfold ziplistIndex position
  by_cases negative : index < 0
  · simp only [negative, if_true]
    have tail_le := itemsLen_dropLast_le items
    rw [render, ziplistTailOffset_image _ count _ (by omega), some_bind]
    cases items using List.reverseRecOn with
    | nil =>
      have at_end := getElem?_image 10 count 10 [] [] rfl
      change ((image 10 count [])[10]?.bind _) = _
      rw [append_nil] at at_end
      rw [at_end, if_neg (by simp; omega)]
      simp
    | append_singleton front item =>
      obtain ⟨_, item_fits, _⟩ := (fits_append 0 front [item]).mp fits
      obtain ⟨first, head, distinct⟩ := item.encode_head [zipEnd] item_fits
      have found : (image (10 + itemsLen front) count (encodeItems 0 (front ++ [item])))[10 + itemsLen front]? =
          some first := by
        rw [encodeItems_append, getElem?_image _ count _ _ _ (by simp)]
        simpa [encodeItems] using head
      rw [dropLast_concat, found, some_bind, if_neg distinct, indexBackward_image _ _ count front item [] fits bound]
      by_cases inside : -index ≤ ((front ++ [item]).length : Int)
      · rw [if_pos inside, if_pos (by simp at inside; omega), Option.map_some]
        have same : (front ++ [item]).length - (-index).toNat = front.length - (-index - 1).toNat := by
          simp only [length_append, length_singleton]
          omega
        rw [same, take_append_of_le_length (by omega)]
      · rw [if_neg inside, if_neg (by simp at inside; omega)]
        rfl
  · simp only [negative, if_false]
    have forward := indexForward_image index.toNat (10 + itemsLen items.dropLast) count 10 0 [] items fits
      (by omega) rfl
    rw [nil_append] at forward
    rw [ziplistHeaderSize, render, forward]
    by_cases inside : index < items.length
    · rw [if_pos inside, if_pos (by omega), Option.map_some]
    · rw [if_neg inside, if_neg (by omega)]
      rfl

inductive Op where
  | push (position : Where) (s : Bytes)
  | insert (index : Int) (s : Bytes)
  | insertAtEnd (s : Bytes)
  | delete (index : Int)
  | deleteRange (index : Int) (num : Nat)
  deriving DecidableEq, Repr

-- Entry pointers come from ziplistIndex; a NULL pointer is not passed on.
def step (zl : Bytes) : Op → Option Bytes
  | .push position s => ziplistPush zl s position
  | .insert index s => do
    match ← ziplistIndex zl index with
    | some p => ziplistInsert zl p s
    | none => pure zl
  | .insertAtEnd s => do ziplistInsert zl ((← ziplistBytes zl) - 1) s
  | .delete index => do
    match ← ziplistIndex zl index with
    | some p => (ziplistDelete zl p).map Prod.fst
    | none => pure zl
  | .deleteRange index num => ziplistDeleteRange zl index num

def run (ops : List Op) : Option Bytes := ops.foldlM step ziplistNew

def listStep (values : List Bytes) : Op → List Bytes
  | .push .head s => s :: values
  | .push .tail s => values ++ [s]
  | .insert index s =>
    match position values.length index with
    | some at_entry => values.take at_entry ++ s :: values.drop at_entry
    | none => values
  | .insertAtEnd s => values ++ [s]
  | .delete index =>
    match position values.length index with
    | some at_entry => values.eraseIdx at_entry
    | none => values
  | .deleteRange index num =>
    match position values.length index with
    | some at_entry => values.take at_entry ++ values.drop (at_entry + num)
    | none => values

def listRun (ops : List Op) : List Bytes := ops.foldl listStep []

def layoutStep (items : List Item) : Op → List Item
  | .push .head s => insertItems [] items s
  | .push .tail s => insertItems items [] s
  | .insert index s =>
    match position items.length index with
    | some at_entry => insertItems (items.take at_entry) (items.drop at_entry) s
    | none => items
  | .insertAtEnd s => insertItems items [] s
  | .delete index =>
    match position items.length index with
    | some at_entry => deleteItems (items.take at_entry) (items.drop at_entry) 1
    | none => items
  | .deleteRange index num =>
    match position items.length index with
    | some at_entry => deleteItems (items.take at_entry) (items.drop at_entry) num
    | none => items

def layoutRun (ops : List Op) : List Item := ops.foldl layoutStep []

def layoutBytes (items : List Item) : Nat := itemsLen items + 11

structure Represents (zl : Bytes) (items : List Item) : Prop where
  fits : Fits 0 items
  rendered : ∃ count, zl = render count items ∧ count < 65536 ∧ (count < 65535 → count = items.length)

theorem position_lt {length at_entry : Nat} {index : Int} (found : position length index = some at_entry) :
    at_entry < length := by
  unfold position at found
  split at found <;> split at found <;> simp at found <;> omega

theorem map_value_layoutStep (items : List Item) (op : Op) :
    (layoutStep items op).map Item.value = listStep (items.map Item.value) op := by
  have length : (items.map Item.value).length = items.length := by simp
  cases op with
  | push place s => cases place <;> simp [layoutStep, listStep, map_value_insert]
  | insert index s =>
    simp only [layoutStep, listStep, length]
    cases position items.length index <;> simp [map_value_insert]
  | insertAtEnd s => simp [layoutStep, listStep, map_value_insert]
  | delete index =>
    simp only [layoutStep, listStep, length]
    cases position items.length index with
    | none => rfl
    | some at_entry =>
      simp only [map_value_delete, map_take, map_drop, drop_drop]
      rw [eraseIdx_eq_take_drop_succ]
  | deleteRange index num =>
    simp only [layoutStep, listStep, length]
    cases position items.length index with
    | none => rfl
    | some at_entry => simp [map_value_delete, drop_drop]

theorem map_value_layoutRun (ops : List Op) :
    (layoutRun ops).map Item.value = listRun ops := by
  unfold layoutRun listRun
  induction ops using List.reverseRecOn with
  | nil => rfl
  | append_singleton ops op ih =>
    rw [foldl_append, foldl_append, ← ih]
    exact map_value_layoutStep _ op

theorem Represents.insert (zl : Bytes) (front rest : List Item) (s : Bytes)
    (related : Represents zl (front ++ rest)) (old_bound : layoutBytes (front ++ rest) < 2 ^ 32)
    (bound : layoutBytes (insertItems front rest s) < 2 ^ 32) :
    ∃ next, __ziplistInsert zl (10 + itemsLen front) s = some next ∧
      Represents next (insertItems front rest s) := by
  obtain ⟨fits, count, rfl, count_bound, counted⟩ := related
  refine ⟨_, ziplistInsert_render fits count_bound old_bound bound, fits_insert s fits, bumpCount count, rfl, ?_, ?_⟩
  · unfold bumpCount
    split <;> omega
  · have length := congrArg List.length (map_value_insert front rest s)
    simp only [length_map, length_append, length_cons] at length counted
    unfold bumpCount
    split <;> omega

theorem Represents.delete (zl : Bytes) {front rest : List Item} {num : Nat} (present : rest ≠ [])
    (related : Represents zl (front ++ rest)) (old_bound : layoutBytes (front ++ rest) < 2 ^ 32)
    (bound : layoutBytes (deleteItems front rest num) < 2 ^ 32) :
    ∃ next, __ziplistDelete zl (10 + itemsLen front) num = some next ∧
      Represents next (deleteItems front rest num) := by
  obtain ⟨fits, count, rfl, count_bound, counted⟩ := related
  refine ⟨_, ziplistDelete_render present fits count_bound old_bound bound counted,
    fits_delete num fits, dropCount count (rest.take num).length, rfl, ?_, ?_⟩
  · unfold dropCount
    split <;> omega
  · have length := congrArg List.length (map_value_delete front rest num)
    simp only [length_map, length_append, length_drop] at length counted
    rw [length_take]
    unfold dropCount
    split <;> omega

theorem Represents.at_index {zl : Bytes} {items : List Item} (index : Int)
    (related : Represents zl items) (bound : layoutBytes items < 2 ^ 32) :
    ziplistIndex zl index =
      some ((position items.length index).map fun at_entry => 10 + itemsLen (items.take at_entry)) := by
  obtain ⟨fits, count, rfl, _, _⟩ := related
  exact ziplistIndex_render count index fits bound

theorem Represents.bytes (zl : Bytes) (items : List Item) (related : Represents zl items)
    (bound : layoutBytes items < 2 ^ 32) : ziplistBytes zl = some (itemsLen items + 11) := by
  obtain ⟨_, count, rfl, _, _⟩ := related
  have size := ziplistBytes_image (10 + itemsLen items.dropLast) count (encodeItems 0 items)
    (by simpa [layoutBytes] using bound)
  simpa [render] using size

theorem represents_new : Represents ziplistNew [] :=
  ⟨trivial, 0, ziplistNew_eq, by omega, fun _ => rfl⟩

theorem drop_ne_nil {items : List Item} {at_entry : Nat} (within : at_entry < items.length) :
    items.drop at_entry ≠ [] := by
  intro empty
  have := congrArg List.length empty
  simp at this
  omega

theorem step_simulates {zl : Bytes} {items : List Item} {op : Op} (related : Represents zl items)
    (old_bound : layoutBytes items < 2 ^ 32) (bound : layoutBytes (layoutStep items op) < 2 ^ 32) :
    ∃ next, step zl op = some next ∧ Represents next (layoutStep items op) := by
  have found (index : Int) := related.at_index index old_bound
  have size := related.bytes zl items old_bound
  have at_end : itemsLen items + 11 - 1 = 10 + itemsLen items := by omega
  have tail (s : Bytes) (bound : layoutBytes (insertItems items [] s) < 2 ^ 32) :=
    Represents.insert zl items [] s (by simpa using related) (by simpa using old_bound) bound
  have split_at (at_entry : Nat) := take_append_drop at_entry items
  cases op with
  | push place s =>
    cases place with
    | head => exact Represents.insert zl [] items s related old_bound bound
    | tail =>
      simp only [step, ziplistPush, size, Option.map_some, at_end]
      exact tail s bound
  | insert index s =>
    simp only [step, found, layoutStep, ziplistInsert] at bound ⊢
    cases place : position items.length index with
    | none => exact ⟨zl, rfl, related⟩
    | some at_entry =>
      rw [place] at bound
      exact Represents.insert zl _ _ s (by rw [split_at]; exact related) (by rw [split_at]; exact old_bound) bound
  | insertAtEnd s =>
    simp only [step, size, ziplistInsert, some_bind, at_end]
    exact tail s bound
  | delete index =>
    simp only [step, found, layoutStep, ziplistDelete] at bound ⊢
    cases place : position items.length index with
    | none => exact ⟨zl, rfl, related⟩
    | some at_entry =>
      rw [place] at bound
      obtain ⟨next, deleted, represented⟩ := Represents.delete zl
        (drop_ne_nil (position_lt place)) (by rw [split_at]; exact related)
        (by rw [split_at]; exact old_bound) bound
      exact ⟨next, by simp [deleted], represented⟩
  | deleteRange index num =>
    simp only [step, found, layoutStep, ziplistDeleteRange] at bound ⊢
    cases place : position items.length index with
    | none => exact ⟨zl, rfl, related⟩
    | some at_entry =>
      rw [place] at bound
      exact Represents.delete zl (drop_ne_nil (position_lt place))
        (by rw [split_at]; exact related) (by rw [split_at]; exact old_bound) bound

theorem run_represents {ops : List Op} (bound : ∀ done, done <+: ops → layoutBytes (layoutRun done) < 2 ^ 32) :
    ∃ zl, run ops = some zl ∧ Represents zl (layoutRun ops) :=
  Simulation.run_simulates step layoutStep Represents (fun items => layoutBytes items < 2 ^ 32)
    (fun _ _ _ related old_bound bound => step_simulates related old_bound bound) ziplistNew [] represents_new bound

def Item.slot (item : Item) : Slot := ⟨item.cell, item.value⟩

theorem Item.slot_ok (item : Item) (short : item.value.length < 2 ^ 32) : item.slot.Ok := by
  refine ⟨entryValue item.value, ?_, toBytes_entryValue item.value⟩
  intro rest
  obtain ⟨body⟩ := zipEntryBody_read rest short
  have within : body.lensize ≤ (zipEntryBody item.value).length := by
    have size := body.size
    omega
  have length : ((zipEntryBody item.value).drop body.lensize).length = body.len := by
    have size := body.size
    rw [length_drop]
    omega
  have read := body.read
  rw [drop_append_of_le_length within] at read
  refine ⟨body.encoding, body.lensize, body.len, body.decoded, body.size, ?_⟩
  cases kind : zipIsStr body.encoding with
  | true =>
    rw [kind, if_pos rfl, if_neg (by simp [length])] at read
    refine .inl ⟨rfl, ?_⟩
    rw [← Option.some.inj read, ← length, take_left]
    rfl
  | false =>
    rw [kind, if_neg (by simp)] at read
    obtain ⟨z, loaded, same⟩ := Option.map_eq_some_iff.mp read
    exact .inr ⟨rfl, z, loaded, same.symm⟩

theorem map_cell_slot (items : List Item) : (items.map Item.slot).map Slot.cell = items.map Item.cell := by
  rw [map_map]
  rfl

theorem map_value_slot (items : List Item) : (items.map Item.slot).map Slot.value = items.map Item.value := by
  rw [map_map]
  rfl

theorem render_cells (count : Nat) (items : List Item) : render count items = renderCells count (items.map Item.cell) := by
  rw [render, renderCells, encodeItems_cells, itemsLen_cells, map_dropLast]

theorem Represents.wellFormed {zl : Bytes} {items : List Item} (related : Represents zl items)
    (bound : layoutBytes items < 2 ^ 32) : WellFormed zl (visitSlots 10 0 (items.map Item.slot)) := by
  obtain ⟨fits, count, rfl, count_bound, counted⟩ := related
  unfold layoutBytes at bound
  have ok : ∀ slot ∈ items.map Item.slot, slot.Ok := by
    intro slot inside
    obtain ⟨item, member, rfl⟩ := mem_map.mp inside
    have within : item.rawlen ≤ itemsLen items := single_le_sum (by simp) _ (mem_map_of_mem member)
    exact item.slot_ok (item.value_short (by omega))
  have formed := wellFormed_slots count (by rw [map_cell_slot]; exact (fits_cells 0 items).mp fits) ok
    (by rw [map_cell_slot, ← itemsLen_cells]; exact bound) count_bound (by simpa using counted)
  rwa [map_cell_slot, ← render_cells] at formed

theorem ziplist_refines_list (ops : List Op) (bound : ∀ done, done <+: ops → layoutBytes (layoutRun done) < 2 ^ 32) :
    ∃ zl visited, run ops = some zl ∧ WellFormed zl visited ∧ zl.length = layoutBytes (layoutRun ops) ∧
      visited.map Visit.value = listRun ops := by
  obtain ⟨zl, ran, related⟩ := run_represents bound
  have small := bound ops (prefix_refl ops)
  have formed := related.wellFormed small
  have size := related.bytes zl _ small
  rw [formed.bytes] at size
  exact ⟨zl, _, ran, formed, Option.some.inj size, by
    rw [map_value_visitSlots, map_value_slot, map_value_layoutRun]⟩

def mixedOps : List Op :=
  [.push .tail [97], .push .head [49, 50], .insert 1 [98], .deleteRange (-1) 1]

theorem ziplist_refines_list_mixed : ∃ zl visited, run mixedOps = some zl ∧ WellFormed zl visited ∧
    zl.length = 16 ∧ visited.map Visit.value = [[49, 50], [98]] := by
  have small : ∀ done ∈ mixedOps.inits, layoutBytes (layoutRun done) < 2 ^ 32 := by decide +kernel
  obtain ⟨zl, visited, ran, formed, size, values⟩ :=
    ziplist_refines_list mixedOps (fun done within => small done ((mem_inits _ _).mpr within))
  exact ⟨zl, visited, ran, formed, by rw [size]; decide +kernel, by rw [values]; decide +kernel⟩

end RedisCore.Ziplist
