import RedisCore.Ziplist.Merge

set_option autoImplicit false

namespace RedisCore.Ziplist

open Util List

def Visit.narrow (zl : Bytes) (visit : Visit) : Bool := decide ((zl.getD visit.offset 0).toNat < zipBigPrevlen)

def cascadeGrowth (zl : Bytes) : (prev : Nat) → List Visit → Nat
  | _, [] => 0
  | prev, visit :: visited =>
    if visit.narrow zl = true ∧ zipBigPrevlen ≤ prev then 4 + cascadeGrowth zl (visit.rawlen + 4) visited else 0

theorem narrow_visit (tail count p prev prevlen : Nat) (front rest : Bytes) {cell : Cell} (rawlen : Nat) (value : Bytes)
    (at_front : p = 10 + front.length) (fits : cell.wide = false → prev < zipBigPrevlen) :
    (Visit.mk p prevlen rawlen value).narrow (image tail count (front ++ (cell.encode prev ++ rest))) = true ↔ cell.wide = false := by
  obtain ⟨first, after, shape, _, width⟩ := storePrevlen_head (cell.body ++ (rest ++ [zipEnd])) fits
  have head := getElem?_image tail count p front (cell.encode prev ++ rest) at_front
  rw [Cell.encode, append_assoc, append_assoc, append_assoc, shape, head?_cons] at head
  rw [Visit.narrow, decide_eq_true_iff, ← width, getD_eq_getElem?_getD, Cell.encode, append_assoc, head]
  rfl

theorem cellsLen_cascade (tail count p prev rawlen : Nat) (front : Bytes) {slots : List Slot}
    (fits : CellsFit prev (slots.map Slot.cell)) (at_front : p = 10 + front.length) :
    cellsLen (cascadeCells rawlen (slots.map Slot.cell)) = cellsLen (slots.map Slot.cell) +
      cascadeGrowth (image tail count (front ++ encodeCells prev (slots.map Slot.cell))) rawlen (visitSlots p prev slots) := by
  induction slots generalizing p prev rawlen front with
  | nil => rfl
  | cons slot slots ih =>
    rw [map_cons] at fits ⊢
    have narrow := narrow_visit tail count p prev prev front (encodeCells slot.cell.rawlen (slots.map Slot.cell))
      slot.cell.rawlen slot.value at_front fits.1
    rw [cascadeCells, visitSlots, cascadeGrowth, encodeCells]
    simp only [narrow]
    by_cases grows : slot.cell.wide = false ∧ zipBigPrevlen ≤ rawlen
    · have rest := ih (p + slot.cell.rawlen) slot.cell.rawlen slot.cell.widen.rawlen (front ++ slot.cell.encode prev) fits.2
        (by simp [at_front]; omega)
      rw [append_assoc, slot.cell.rawlen_widen grows.1] at rest
      rw [if_pos grows, if_pos grows, cellsLen_cons, cellsLen_cons, slot.cell.rawlen_widen grows.1, rest]
      omega
    · rw [if_neg grows, if_neg grows]
      rfl

theorem map_body_cascade (rawlen : Nat) (cells : List Cell) :
    (cascadeCells rawlen cells).map Cell.body = cells.map Cell.body := by
  induction cells generalizing rawlen with
  | nil => rfl
  | cons cell cells ih =>
    rw [cascadeCells]
    split
    · simp [Cell.widen, ih]
    · rfl

theorem slots_of_bodies (slots : List Slot) (cells : List Cell) (ok : ∀ slot ∈ slots, slot.Ok)
    (same : cells.map Cell.body = (slots.map Slot.cell).map Cell.body) :
    ∃ slots' : List Slot, slots'.map Slot.cell = cells ∧ slots'.map Slot.value = slots.map Slot.value ∧ ∀ slot ∈ slots', slot.Ok := by
  induction slots generalizing cells with
  | nil => exact ⟨[], by simpa using same.symm, rfl, nofun⟩
  | cons slot slots ih =>
    obtain ⟨cell, rest, rfl, body, others⟩ := map_eq_cons_iff.mp same
    obtain ⟨slots', cells_eq, values_eq, ok'⟩ := ih rest (fun other inside => ok other (mem_cons_of_mem _ inside)) others
    obtain ⟨value, reads, text⟩ := ok slot mem_cons_self
    refine ⟨⟨cell, slot.value⟩ :: slots', by simp [cells_eq], by simp [values_eq], ?_⟩
    intro any inside
    rcases mem_cons.mp inside with rfl | inside
    · exact ⟨value, by rw [body]; exact reads, text⟩
    · exact ok' any inside

theorem lastCellRawlen_visits (slots : List Slot) (p prev : Nat) :
    lastCellRawlen 0 (slots.map Slot.cell) = ((visitSlots p prev slots).getLast?.map Visit.rawlen).getD 0 := by
  rw [← getLast?_map, map_rawlen_visitSlots, getLast?_map, lastCellRawlen]

theorem ziplistMerge_wellFormed (first second : Bytes) (visited visited' : List Visit) (formed : WellFormed first visited)
    (formed' : WellFormed second visited') (present : visited ≠ []) (present' : visited' ≠ [])
    (room : first.length + second.length - 11 +
      cascadeGrowth second ((visited.getLast?.map Visit.rawlen).getD 0) visited' < 2 ^ 32) :
    ∃ merged kept visited'' count count', ziplistMerge first second = some (merged, kept) ∧ WellFormed merged visited'' ∧
      visited''.map Visit.value = visited.map Visit.value ++ visited'.map Visit.value ∧
      merged.length = first.length + second.length - 11 +
        cascadeGrowth second ((visited.getLast?.map Visit.rawlen).getD 0) visited' ∧
      ziplistLength first = some count ∧ ziplistLength second = some count' ∧
      ziplistLength merged = some (min (count + count') 65535) ∧ kept = decide (count' ≤ count) := by
  obtain ⟨slots, count, rfl, fits, ok, rfl, bound, length, count_bound, counted⟩ := formed.slots
  obtain ⟨slots', count', rfl, fits', ok', rfl, bound', length', count_bound', counted'⟩ := formed'.slots
  have grown := cellsLen_cascade (10 + cellsLen (slots'.map Slot.cell).dropLast) count' 10 0
    (lastCellRawlen 0 (slots.map Slot.cell)) [] fits' rfl
  rw [nil_append, ← renderCells, lastCellRawlen_visits slots 10 0] at grown
  have total : cellsLen (mergeCells (slots.map Slot.cell) (slots'.map Slot.cell)) + 11 =
      (renderCells count (slots.map Slot.cell)).length + (renderCells count' (slots'.map Slot.cell)).length - 11 +
        cascadeGrowth (renderCells count' (slots'.map Slot.cell))
          (((visitSlots 10 0 slots).getLast?.map Visit.rawlen).getD 0) (visitSlots 10 0 slots') := by
    rw [mergeCells, cellsLen_append, lastCellRawlen_visits slots 10 0, grown, length_renderCells, length_renderCells]
    omega
  have some_slot : slots ≠ [] := by
    rintro rfl
    exact present rfl
  have some_slot' : slots' ≠ [] := by
    rintro rfl
    exact present' rfl
  have decode : ∀ cell ∈ slots.map Slot.cell ++ slots'.map Slot.cell, Decodes cell.body := by
    intro cell inside
    rw [← map_append] at inside
    obtain ⟨slot, member, rfl⟩ := mem_map.mp inside
    rcases mem_append.mp member with member | member
    · obtain ⟨_, reads, _⟩ := ok slot member
      exact reads.decodes
    · obtain ⟨_, reads, _⟩ := ok' slot member
      exact reads.decodes
  have joined := ziplistMerge_cells (by simpa using some_slot)
    (by simpa using some_slot') fits fits' count_bound count_bound' decode (by rw [total]; exact room)
  obtain ⟨merged, cells_eq, values_eq, merged_ok⟩ := slots_of_bodies (slots ++ slots')
    (mergeCells (slots.map Slot.cell) (slots'.map Slot.cell))
    (fun slot inside => (mem_append.mp inside).elim (ok slot) (ok' slot))
    (by rw [mergeCells, map_append, map_body_cascade, map_append, map_append])
  have merged_length := congrArg List.length values_eq
  simp only [length_map, length_append] at merged_length
  rw [← cells_eq] at joined total
  refine ⟨_, _, visitSlots 10 0 merged, count, count', joined, ?_, ?_, ?_, length, length', ?_, rfl⟩
  · apply wellFormed_slots _ (by rw [cells_eq]; exact cellsFit_merge fits fits') merged_ok (by rw [total]; exact room)
      (by omega)
    intro exact
    have left := counted (by omega)
    have right := counted' (by omega)
    omega
  · rw [map_value_visitSlots, values_eq, map_append, map_value_visitSlots, map_value_visitSlots]
  · rw [← total, length_renderCells]
  · exact ziplistLength_image _ _ _ (by omega)

def single (s : Bytes) : Bytes := render 1 [⟨false, s⟩]

theorem represents_single (s : Bytes) : Represents (single s) [⟨false, s⟩] :=
  ⟨⟨fun _ => by decide, trivial⟩, 1, rfl, by norm_num, fun _ => rfl⟩

theorem ziplistMerge_wellFormed_pair : ∃ merged kept visited, ziplistMerge (single [97]) (single [49]) = some (merged, kept) ∧
    WellFormed merged visited ∧ visited.map Visit.value = [[97], [49]] ∧ merged.length = 16 := by
  have formed := (represents_single [97]).wellFormed (by decide +kernel)
  have formed' := (represents_single [49]).wellFormed (by decide +kernel)
  obtain ⟨merged, kept, visited, _, _, joined, whole, values, length, _⟩ := ziplistMerge_wellFormed _ _ _ _ formed formed'
    (by decide) (by decide) (by decide +kernel)
  exact ⟨merged, kept, visited, joined, whole, values, length.trans (by decide +kernel)⟩

theorem zipDecodeLength_long {p : Bytes} {encoding : UInt8} {lensize len : Nat}
    (decoded : zipDecodeLength p = some (encoding, lensize, len)) (str : zipIsStr encoding = true) (long : 64 ≤ len) :
    2 ≤ lensize := by
  cases p with
  | nil => cases decoded
  | cons first tail =>
    unfold zipDecodeLength at decoded
    dsimp only at decoded
    generalize (if first < zipStrMask then first &&& zipStrMask else first) = stored at decoded
    split_ifs at decoded with below short medium large
    · cases decoded
      omega
    · split at decoded <;> cases decoded
      exact le_rfl
    · split at decoded <;> cases decoded
      norm_num
    · obtain ⟨size, _, same⟩ := Option.map_eq_some_iff.mp decoded
      cases same
      rw [(not_str_iff _).mpr below] at str
      cases str

theorem Slot.long_body (slot : Slot) (ok : slot.Ok) (long : 64 ≤ slot.value.length) :
    slot.value.length + 2 ≤ slot.cell.body.length := by
  obtain ⟨value, reads, text⟩ := ok
  obtain ⟨encoding, lensize, len, decoded, size, ⟨kind, rfl⟩ | ⟨kind, z, loaded, rfl⟩⟩ := reads []
  · have length := congrArg List.length text
    simp only [ZlValue.toBytes, length_drop] at length
    have header := zipDecodeLength_long decoded kind (by omega)
    omega
  · have range := zipLoadInteger_range loaded
    have short := (Word.length_llString_le range).2
    rw [← ll2string_eq_llString 32 range (by norm_num), ← ZlValue.toBytes, text] at short
    omega

theorem cellsLen_widened {slots : List Slot} (prev : Nat) (large : zipBigPrevlen ≤ prev)
    (fits : CellsFit prev (slots.map Slot.cell)) (ok : ∀ slot ∈ slots, slot.Ok)
    (long : ∀ value ∈ slots.map Slot.value, value.length = 250) : 257 * slots.length ≤ cellsLen (slots.map Slot.cell) := by
  induction slots generalizing prev with
  | nil => exact le_rfl
  | cons slot slots ih =>
    rw [map_cons] at fits long ⊢
    have wide : slot.cell.wide = true := by
      by_contra narrow
      have small := fits.1 (by simpa using narrow)
      omega
    have length := long slot.value mem_cons_self
    have body := slot.long_body (ok slot mem_cons_self) (by omega)
    have rawlen : 257 ≤ slot.cell.rawlen := by
      rw [Cell.rawlen, Cell.prevlensize, if_pos wide]
      omega
    have rest := ih slot.cell.rawlen (by rw [zipBigPrevlen]; omega) fits.2 (fun other inside => ok other (mem_cons_of_mem _ inside))
      (fun value inside => long value (mem_cons_of_mem _ inside))
    rw [cellsLen_cons, length_cons]
    omega

theorem rawlen_text (wide : Bool) {n : Nat} (low : 64 ≤ n) (high : n ≤ 0x3fff) :
    (Item.mk wide (List.replicate n 97)).rawlen = (if wide then 5 else 1) + (n + 2) := by
  have plain : zipTryEncoding (List.replicate n 97) = none := if_pos (.inl (by simp; omega))
  have header : (zipStoreEntryEncoding 0 n).length = 2 := by
    rw [zipStoreEntryEncoding, if_pos (by decide), if_neg (by omega), if_pos high]
    rfl
  rw [Item.rawlen, Item.prevlensize, zipEntryBody, plain]
  simp [header]
  omega

-- Entries of 253 bytes, the most that a prevlen field of one byte can record.
def brim (n : Nat) : List Item := List.replicate n ⟨false, List.replicate 250 97⟩

theorem length_brim (n : Nat) : (brim n).length = n := length_replicate

theorem fits_brim (n : Nat) (prev : Nat) (small : prev < zipBigPrevlen) : Fits prev (brim n) := by
  induction n generalizing prev with
  | zero => trivial
  | succ n ih =>
    refine ⟨fun _ => small, ih _ ?_⟩
    rw [rawlen_text false (by norm_num) (by norm_num)]
    decide

theorem itemsLen_brim (n : Nat) : itemsLen (brim n) = 253 * n := by
  rw [itemsLen, brim, map_replicate, rawlen_text false (by norm_num) (by norm_num), sum_replicate]
  simp [Nat.mul_comm]

-- Behind an entry of 254 bytes every one of them needs a wider field, and 257 bytes each are too many.
theorem ziplistMerge_overflows : ∃ first second visited visited', WellFormed first visited ∧ WellFormed second visited' ∧
    visited ≠ [] ∧ visited' ≠ [] ∧ first.length + second.length < 2 ^ 32 ∧
    ¬∃ merged kept visited'', ziplistMerge first second = some (merged, kept) ∧ WellFormed merged visited'' ∧
      visited''.map Visit.value = visited.map Visit.value ++ visited'.map Visit.value := by
  have head_length : layoutBytes [⟨false, List.replicate 251 97⟩] = 265 := by
    rw [layoutBytes, itemsLen_cons, rawlen_text false (by norm_num) (by norm_num)]
    rfl
  have size := itemsLen_brim 16975000
  have related : Represents (render 65535 (brim 16975000)) (brim 16975000) :=
    ⟨fits_brim _ 0 (by decide), 65535, rfl, by norm_num, fun short => absurd short (by norm_num)⟩
  have formed := (represents_single (List.replicate 251 97)).wellFormed (by rw [head_length]; norm_num)
  have formed' := related.wellFormed (by rw [layoutBytes, size]; norm_num)
  refine ⟨_, _, _, _, formed, formed', cons_ne_nil _ _, ?_, ?_, ?_⟩
  · intro none
    have length := congrArg List.length none
    rw [← length_map Visit.value, map_value_visitSlots, length_map, length_map, length_brim] at length
    cases length
  · have first_length : (single (List.replicate 251 97)).length = 265 := by
      rw [← head_length, single, render_cells, length_renderCells, layoutBytes, itemsLen_cells]
    have second_length : (render 65535 (brim 16975000)).length = 253 * 16975000 + 11 := by
      rw [render_cells, length_renderCells, ← itemsLen_cells, size]
    rw [first_length, second_length]
    norm_num
  · rintro ⟨merged, kept, visited'', _, whole, values⟩
    obtain ⟨slots, count, _, fits, ok, rfl, bound, _⟩ := whole.slots
    rw [map_value_visitSlots, map_value_visitSlots, map_value_visitSlots, map_value_slot, map_value_slot] at values
    obtain ⟨slot, rest, rfl, first_value, rest_values⟩ := map_eq_cons_iff.mp values
    have head_size : slot.value.length = 251 := (congrArg List.length first_value).trans length_replicate
    have others : rest.map Slot.value = (brim 16975000).map Item.value := rest_values
    have body := slot.long_body (ok slot mem_cons_self) (by omega)
    have seam : zipBigPrevlen ≤ slot.cell.rawlen := by
      rw [Cell.rawlen, zipBigPrevlen]
      unfold Cell.prevlensize
      split <;> omega
    have count_rest : rest.length = 16975000 := by
      rw [← length_map Slot.value, others, length_map, length_brim]
    have widened := cellsLen_widened slot.cell.rawlen seam fits.2 (fun other inside => ok other (mem_cons_of_mem _ inside))
      (by
        rw [others]
        intro value inside
        obtain ⟨item, member, rfl⟩ := mem_map.mp inside
        rw [eq_of_mem_replicate member]
        exact length_replicate)
    rw [map_cons, cellsLen_cons] at bound
    omega

end RedisCore.Ziplist
