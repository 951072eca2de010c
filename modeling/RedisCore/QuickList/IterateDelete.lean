import RedisCore.QuickList.Depth
import RedisCore.Ziplist.MergeFormed

set_option autoImplicit false

namespace RedisCore.QuickList

open Ziplist List

variable {cells : List Cell} {chosen : List Bool} {ql : Quicklist}

def inOrder : Where → List Bytes → List Bytes
  | .head, values => values
  | .tail, values => values.reverse

def unchosen (values : List Bytes) (chosen : List Bool) : List Bytes :=
  ((values.zip chosen).filter fun entry => !entry.2).map Prod.fst

theorem unchosen_cons (v : Bytes) (values : List Bytes) (gone : Bool) (chosen : List Bool) :
    unchosen (v :: values) (gone :: chosen) = if gone then unchosen values chosen else v :: unchosen values chosen := by
  cases gone <;> simp [unchosen]

theorem position_head (front rest : List Bytes) (v : Bytes) :
    position (front ++ v :: rest).length (iterIndex .head front.length) = some front.length := by
  rw [iterIndex, position, if_neg (by omega), if_pos (by simp)]
  rfl

theorem position_tail (front rest : List Bytes) (v : Bytes) :
    position (front ++ v :: rest).length (iterIndex .tail rest.length) = some front.length := by
  rw [iterIndex, position, if_pos (by omega), if_pos (by simp)]
  congr 1
  simp

-- The induction follows the script; front holds the entries that were met and kept.
theorem specIterate_head (front rest : List Bytes) (every : chosen.length = rest.length) :
    specIterate .head (chosen ++ [false]) front.length (front ++ rest) = (front ++ unchosen rest chosen, rest) := by
  induction chosen generalizing front rest with
  | nil =>
    obtain rfl := length_eq_zero_iff.mp every.symm
    have stop := iter_position_end front .head
    simp only [nil_append, append_nil, specIterate, stop]
    simp [unchosen]
  | cons gone chosen ih =>
    obtain ⟨v, rest, rfl⟩ := exists_cons_of_length_eq_add_one every.symm
    have every' : chosen.length = rest.length := Nat.succ.inj every
    have found : (front ++ v :: rest)[front.length]? = some v := by simp
    rw [cons_append, specIterate, position_head, unchosen_cons]
    simp only [found, Option.getD_some]
    cases gone with
    | true =>
      rw [if_pos rfl, eraseIdx_append_of_length_le (le_refl _), Nat.sub_self, eraseIdx_cons_zero, ih front rest every']
    | false =>
      have next := ih (front ++ [v]) rest every'
      simp only [length_append, length_cons, length_nil, Nat.zero_add, append_assoc, cons_append, nil_append] at next
      simp only [next, Bool.false_eq_true, if_false]

-- Here back holds the entries that were met and kept, and rest the others from the tail on.
theorem specIterate_tail (chosen : List Bool) (rest back : List Bytes) (every : chosen.length = rest.length) :
    specIterate .tail (chosen ++ [false]) back.length (rest.reverse ++ back) =
      ((unchosen rest chosen).reverse ++ back, rest) := by
  induction chosen generalizing rest back with
  | nil =>
    obtain rfl := length_eq_zero_iff.mp every.symm
    have stop := iter_position_end back .tail
    simp only [nil_append, reverse_nil, specIterate, stop]
    rfl
  | cons gone chosen ih =>
    obtain ⟨v, rest, rfl⟩ := exists_cons_of_length_eq_add_one every.symm
    have every' : chosen.length = rest.length := Nat.succ.inj every
    have shape : (v :: rest).reverse ++ back = rest.reverse ++ v :: back := by simp
    have found : (rest.reverse ++ v :: back)[rest.reverse.length]? = some v := by simp
    rw [shape, cons_append, specIterate, position_tail, unchosen_cons]
    simp only [found, Option.getD_some]
    cases gone with
    | true =>
      rw [if_pos rfl, eraseIdx_append_of_length_le (le_refl _), Nat.sub_self, eraseIdx_cons_zero, ih rest back every']
    | false =>
      have next := ih rest (v :: back) every'
      rw [length_cons] at next
      simp [next]

theorem specIterate_all (direction : Where) {values : List Bytes} (every : chosen.length = values.length) :
    specIterate direction (chosen ++ [false]) 0 values =
      (inOrder direction (unchosen (inOrder direction values) chosen), inOrder direction values) := by
  cases direction with
  | head => exact specIterate_head [] values every
  | tail =>
    have run := specIterate_tail chosen values.reverse [] (by simpa using every)
    simpa [inOrder] using run

def Sized (ql : Quicklist) (cells : List Cell) : Prop :=
  ∀ cell ∈ cells, ∀ node, ql.node cell.1 = some node → node.sz < 2 ^ 32

theorem Trimmed.bounded {limit : Nat} {cells' : List Cell} (trimmed : Trimmed cells' cells) (bounded : Bounded limit cells) :
    Bounded limit cells' := by
  induction trimmed with
  | nil => nofun
  | cons same _ ih =>
    intro cell inside
    rcases mem_cons.mp inside with rfl | inside
    · exact lt_of_le_of_lt (widest_sublist _ _ same.2) (bounded _ mem_cons_self)
    · exact ih (fun cell inside => bounded cell (mem_cons_of_mem _ inside)) cell inside
  | cons_right _ ih => exact ih fun cell inside => bounded cell (mem_cons_of_mem _ inside)

variable {lzf : Lzf}

theorem Good.sized (good : Good lzf ql cells) (bounded : Bounded (2 ^ 32) cells) :
    Sized ql cells := by
  intro cell inside node found
  obtain ⟨node', found', stored⟩ := good.nodes cell inside
  rw [found] at found'
  cases found'
  obtain ⟨zl, plain, holds⟩ := stored.zl
  rw [plain.size]
  exact lt_of_le_of_lt (holds.length_le zl cell.2) (bounded cell inside)

-- The script says for every entry whether it is deleted; the last call of quicklistNext finds no more.
variable (lzf) in
theorem iterateLoop_deletes_chosen (ql : Quicklist) (cells : List Cell) (direction : Where) (chosen : List Bool)
    (good : Good lzf ql cells) (count : ql.count = (contents cells).length) (every : chosen.length = (contents cells).length)
    (room : Bounded (2 ^ 32) cells) :
    ∃ ql₁ iter ql' cells', iterateLoop lzf (chosen ++ [false]) ql (quicklistGetIterator ql direction) =
        .ok (ql₁, iter, inOrder direction (contents cells)) ∧
      quicklistReleaseIterator lzf ql₁ iter = .ok ql' ∧ Good lzf ql' cells' ∧ Sized ql' cells' ∧ Trimmed cells' cells ∧
      contents cells' = inOrder direction (unchosen (inOrder direction (contents cells)) chosen) ∧
      ql'.count = (contents cells').length := by
  obtain ⟨ql₁, iter, cells', k, ran, good₁, contents', count₁, standing, trimmed, _⟩ := iterateLoop_ok (chosen ++ [false]) ql
    (quicklistGetIterator ql direction) cells 0 good count room (standing_start direction good)
  have spec := specIterate_all direction every
  rw [show (quicklistGetIterator ql direction).direction = direction from rfl, spec] at ran contents'
  obtain ⟨ql', released, good', steady⟩ := quicklistReleaseIterator_ok good₁ standing
  exact ⟨ql₁, iter, ql', cells', ran, released, good', good'.sized (trimmed.bounded room), trimmed, contents',
    steady.count.trans count₁⟩

theorem widest_cell {cell : Cell} (inside : cell ∈ cells) : widest cell.2 ≤ widest (contents cells) := by
  obtain ⟨front, back, rfl⟩ := append_of_mem inside
  refine widest_sublist _ _ ?_
  rw [contents_append, contents_cons]
  exact (sublist_append_left _ _).trans (sublist_append_right _ _)

theorem every_second_deleted_from_tail :
    ∃ ql₁ iter ql' cells', iterateLoop plainLzf [true, false, true, false, true, false, false] (afterOps plainLzf 3 0 twoNodes)
        (quicklistGetIterator (afterOps plainLzf 3 0 twoNodes) .tail) = .ok (ql₁, iter, [[6], [5], [4], [3], [2], [1]]) ∧
      quicklistReleaseIterator plainLzf ql₁ iter = .ok ql' ∧ Good plainLzf ql' cells' ∧ Sized ql' cells' ∧
      contents cells' = [[1], [3], [5]] ∧ ql'.count = (contents cells').length := by
  obtain ⟨cells, good, same, count⟩ := models_afterOps plainLzf 3 0 twoNodes (by decide +kernel)
  have values : contents cells = [[1], [2], [3], [4], [5], [6]] := same
  obtain ⟨ql₁, iter, ql', cells', ran, released, good', sized, _, contents', count'⟩ := iterateLoop_deletes_chosen plainLzf _ cells
    .tail [true, false, true, false, true, false] good (by rw [count, same]) (by rw [values]; rfl)
    (fun cell inside => lt_of_le_of_lt (widest_cell inside) (by rw [values]; decide +kernel))
  rw [values] at ran contents'
  exact ⟨ql₁, iter, ql', cells', ran, released, good', sized, contents', count'⟩

-- Without compression an iteration only removes nodes.
structure AtMost (most : Nat) (ql : Quicklist) : Prop where
  compress : ql.compress = 0
  len : ql.len ≤ most

section

variable {most n : Nat} {ql' : Quicklist} (within : AtMost most ql)

include within

theorem compressNode_atMost (ran : quicklistCompress lzf ql n = .ok ql') : AtMost most ql' := by
  obtain ⟨node, -, rest⟩ := Lib.bind_ok.mp ran
  split at rest
  · cases rest
    exact ⟨within.compress, within.len⟩
  · rw [__quicklistCompress, if_pos (.inl within.compress)] at rest
    cases rest
    exact within

theorem delIndex_atMost {p : Nat} {gone : Bool} (ran : quicklistDelIndex lzf ql n p = .ok (ql', gone)) : AtMost most ql' := by
  obtain ⟨node, -, rest⟩ := Lib.bind_ok.mp ran
  obtain ⟨zl, -, rest⟩ := Lib.bind_ok.mp rest
  obtain ⟨shorter, -, rest⟩ := Lib.bind_ok.mp rest
  dsimp only at rest
  split at rest
  · obtain ⟨removed, deleted, last⟩ := Lib.bind_ok.mp rest
    cases last
    rw [__quicklistDelNode, __quicklistCompress, if_pos (.inl within.compress), ok_bind] at deleted
    obtain ⟨_, -, last⟩ := Lib.bind_ok.mp deleted
    cases last
    exact ⟨within.compress, (Nat.sub_le _ _).trans within.len⟩
  · obtain ⟨stored, -, last⟩ := Lib.bind_ok.mp rest
    cases last
    exact ⟨within.compress, within.len⟩

theorem nextPointer_atMost {iter iter' : QuicklistIter} (ran : nextPointer lzf ql iter n = .ok (ql', iter')) : AtMost most ql' := by
  obtain ⟨node, -, rest⟩ := Lib.bind_ok.mp ran
  split at rest
  all_goals
    obtain ⟨zl, -, rest⟩ := Lib.bind_ok.mp rest
    obtain ⟨zi, -, last⟩ := Lib.bind_ok.mp rest
    cases last
    exact ⟨within.compress, within.len⟩

end

theorem next_atMost {most fuel : Nat} {ql ql' : Quicklist} {iter iter' : QuicklistIter} {entry : Option QuicklistEntry}
    (within : AtMost most ql) (ran : quicklistNext lzf fuel ql iter = .ok (ql', iter', entry)) : AtMost most ql' := by
  induction fuel generalizing ql iter with
  | zero => cases ran
  | succ fuel ih =>
    unfold quicklistNext at ran
    split at ran
    · cases ran
      exact within
    · obtain ⟨⟨moved, next⟩, pointed, rest⟩ := Lib.bind_ok.mp ran
      have still := nextPointer_atMost within pointed
      dsimp only at rest
      split at rest
      · obtain ⟨node, -, rest⟩ := Lib.bind_ok.mp rest
        obtain ⟨zl, -, rest⟩ := Lib.bind_ok.mp rest
        obtain ⟨value, -, last⟩ := Lib.bind_ok.mp rest
        cases last
        exact still
      · obtain ⟨compressed, done, rest⟩ := Lib.bind_ok.mp rest
        exact ih (compressNode_atMost still done) rest

theorem iterateLoop_atMost {most : Nat} {script : List Bool} {ql ql' : Quicklist} {iter iter' : QuicklistIter} {values : List Bytes}
    (within : AtMost most ql) (ran : iterateLoop lzf script ql iter = .ok (ql', iter', values)) : AtMost most ql' := by
  induction script generalizing ql iter values with
  | nil =>
    cases ran
    exact within
  | cons delete script ih =>
    unfold iterateLoop at ran
    obtain ⟨⟨found, next, entry⟩, stepped, rest⟩ := Lib.bind_ok.mp ran
    have still := next_atMost within stepped
    dsimp only at rest
    cases entry with
    | none =>
      cases rest
      exact still
    | some entry =>
      obtain ⟨⟨visited, after⟩, deleted, rest⟩ := Lib.bind_ok.mp rest
      obtain ⟨⟨final, last, others⟩, looped, ended⟩ := Lib.bind_ok.mp rest
      cases ended
      refine ih ?_ looped
      cases delete with
      | false =>
        cases deleted
        exact still
      | true =>
        obtain ⟨pointers, -, rest⟩ := Lib.bind_ok.mp deleted
        obtain ⟨⟨left, gone⟩, removed, ended⟩ := Lib.bind_ok.mp rest
        cases ended
        exact delIndex_atMost still removed

theorem rawlen_long (wide : Bool) {n : Nat} (low : 0x3fff < n) :
    (Item.mk wide (List.replicate n 97)).rawlen = (if wide then 5 else 1) + (n + 5) := by
  have plain : zipTryEncoding (List.replicate n 97) = none := if_pos (.inl (by rw [length_replicate]; omega))
  have header : (zipStoreEntryEncoding 0 n).length = 5 := by
    rw [zipStoreEntryEncoding, if_pos (by decide), if_neg (by omega), if_neg (by omega)]
    rfl
  rw [Item.rawlen, Item.prevlensize, zipEntryBody, plain]
  simp only [length_append, length_replicate, header]
  omega

section

variable (n : Nat)

-- The second entry lets the third and the fourth have prevlen fields of one byte.
def nearLimit : List Item :=
  [⟨false, List.replicate 251 97⟩, ⟨true, [98]⟩, ⟨false, List.replicate 250 97⟩, ⟨false, List.replicate 250 97⟩,
    ⟨false, List.replicate n 97⟩]

theorem itemsLen_nearLimit (low : 0x3fff < n) : itemsLen (nearLimit n) = 773 + n := by
  rw [nearLimit, itemsLen_cons, itemsLen_cons, itemsLen_cons, itemsLen_cons, itemsLen_cons,
    rawlen_text false (by norm_num) (by norm_num), rawlen_text false (by norm_num) (by norm_num), rawlen_long false low,
    show (Item.mk true [98]).rawlen = 7 by decide +kernel, show itemsLen [] = 0 from rfl]
  simp only [Bool.false_eq_true, if_false]
  omega

theorem fits_nearLimit : Fits 0 (nearLimit n) := by
  have third : (Item.mk false (List.replicate 250 97)).rawlen < zipBigPrevlen := by
    rw [rawlen_text false (by norm_num) (by norm_num)]
    decide
  exact ⟨fun _ => by decide, nofun, fun _ => by decide +kernel, fun _ => third, fun _ => third, trivial⟩

def nearLimitNode : QuicklistNode := ⟨render 5 (nearLimit n), (render 5 (nearLimit n)).length, 5, .raw, false⟩

def nearLimitList : Quicklist :=
  { quicklistNew 0 0 with
    head := some 0, tail := some 0, count := 5, len := 1, node := Function.update (fun _ => none) 0 (some (nearLimitNode n)),
    fresh := 1 }

def nearLimitCells : List Cell := [(0, (nearLimit n).map Item.value)]

theorem good_nearLimit : Good plainLzf (nearLimitList n) (nearLimitCells n) := by
  have holds : Holds (render 5 (nearLimit n)) ((nearLimit n).map Item.value) :=
    ⟨nearLimit n, ⟨fits_nearLimit n, 5, rfl, by norm_num, fun _ => rfl⟩, rfl⟩
  have quiet : Quiet (nearLimitList n) 0 := ⟨nearLimitNode n, rfl, rfl, rfl⟩
  refine ⟨⟨⟨rfl, rfl, trivial⟩, nodup_singleton 0, rfl, rfl, ?_⟩, rfl, ?_, ?_, ?_, fun _ => ⟨?_, ?_⟩⟩
  · intro m inside
    rw [mem_singleton.mp inside]
    exact Nat.zero_lt_one
  · intro cell inside
    rw [mem_singleton.mp inside]
    exact ⟨nearLimitNode n, rfl, nodeHolds_raw rfl rfl rfl rfl holds (cons_ne_nil _ _) (show 5 < 65536 by norm_num)⟩
  · exact show (0 : Int) < 32768 by decide
  · exact show 0 < 65536 by decide
  · rintro m (first | last)
    · cases first
      exact quiet
    · cases last
      exact quiet
  · intro _ m inside
    rw [mem_singleton.mp inside]
    exact quiet

-- Without the second entry the third has to record 254 bytes, and then every prevlen field is five bytes wide.
theorem itemsLen_without_second {items : List Item} (low : 0x3fff < n) (fits : Fits 0 items)
    (values : items.map Item.value = [List.replicate 251 97, List.replicate 250 97, List.replicate 250 97, List.replicate n 97]) :
    778 + n ≤ itemsLen items := by
  obtain ⟨first, rest, rfl, first_value, values⟩ := map_eq_cons_iff.mp values
  obtain ⟨third, rest, rfl, third_value, values⟩ := map_eq_cons_iff.mp values
  obtain ⟨fourth, rest, rfl, fourth_value, values⟩ := map_eq_cons_iff.mp values
  obtain ⟨fifth, rest, rfl, fifth_value, values⟩ := map_eq_cons_iff.mp values
  obtain ⟨_, third_fits, fourth_fits, fifth_fits, _⟩ := fits
  obtain ⟨wide₁, _⟩ := first
  obtain ⟨wide₃, _⟩ := third
  obtain ⟨wide₄, _⟩ := fourth
  obtain ⟨wide₅, _⟩ := fifth
  subst first_value third_value fourth_value fifth_value
  rw [rawlen_text wide₁ (by norm_num) (by norm_num), zipBigPrevlen] at third_fits
  rw [rawlen_text wide₃ (by norm_num) (by norm_num), zipBigPrevlen] at fourth_fits
  rw [rawlen_text wide₄ (by norm_num) (by norm_num), zipBigPrevlen] at fifth_fits
  obtain rfl : wide₃ = true := by
    by_contra narrow
    have small := third_fits (by simpa using narrow)
    split at small <;> omega
  obtain rfl : wide₄ = true := by
    by_contra narrow
    have small := fourth_fits (by simpa using narrow)
    simp at small
  obtain rfl : wide₅ = true := by
    by_contra narrow
    have small := fifth_fits (by simpa using narrow)
    simp at small
  rw [itemsLen_cons, itemsLen_cons, itemsLen_cons, itemsLen_cons, rawlen_text wide₁ (by norm_num) (by norm_num),
    rawlen_text true (by norm_num) (by norm_num), rawlen_long true low]
  simp only [if_true]
  split <;> omega

theorem nearLimit_refuses (low : 0x3fff < n) (high : 2 ^ 32 ≤ 789 + n)
    (good : Good plainLzf ql cells) (sized : Sized ql cells) (few : cells.length ≤ 1)
    (left : contents cells = [List.replicate 251 97, List.replicate 250 97, List.replicate 250 97, List.replicate n 97]) : False := by
  obtain ⟨⟨id, values⟩, rfl⟩ : ∃ cell, cells = [cell] := by
    refine length_eq_one_iff.mp (le_antisymm few (length_pos_iff.mpr ?_))
    rintro rfl
    cases left
  obtain ⟨node, found, stored⟩ := good.nodes _ mem_cons_self
  obtain ⟨zl, plain, items, ⟨fits, count, rendered, _⟩, same⟩ := stored.zl
  have size := sized _ mem_cons_self node found
  have long := itemsLen_without_second n low fits (by rw [same, ← left]; simp)
  rw [plain.size, rendered, render_cells, length_renderCells, ← itemsLen_cells] at size
  omega

end

-- One node of 2^32 - 1 bytes. Deleting the short second entry widens the prevlen fields behind it.
theorem deletion_overflows_node : ∃ ql cells chosen, Good plainLzf ql cells ∧ Sized ql cells ∧
    ql.count = (contents cells).length ∧ chosen.length = (contents cells).length ∧
    ¬∃ ql₁ iter ql' cells', iterateLoop plainLzf (chosen ++ [false]) ql (quicklistGetIterator ql .head) =
          .ok (ql₁, iter, inOrder .head (contents cells)) ∧
        quicklistReleaseIterator plainLzf ql₁ iter = .ok ql' ∧ Good plainLzf ql' cells' ∧ Sized ql' cells' ∧
        contents cells' = inOrder .head (unchosen (inOrder .head (contents cells)) chosen) := by
  refine ⟨nearLimitList 4294966511, nearLimitCells 4294966511, [false, true, false, false, false], good_nearLimit _, ?_, rfl, rfl, ?_⟩
  · intro cell inside node found
    rw [mem_singleton.mp inside] at found
    obtain rfl : nearLimitNode 4294966511 = node := Option.some.inj found
    rw [nearLimitNode, render_cells, length_renderCells, ← itemsLen_cells, itemsLen_nearLimit _ (by norm_num)]
    norm_num
  · rintro ⟨ql₁, iter, ql', cells', ran, released, good, sized, left⟩
    have start : AtMost 1 (nearLimitList 4294966511) := ⟨rfl, le_rfl⟩
    have within := iterateLoop_atMost start ran
    have few : AtMost 1 ql' := by
      unfold quicklistReleaseIterator compressOld at released
      split at released
      · cases released
        exact within
      · exact compressNode_atMost within released
    exact nearLimit_refuses 4294966511 (by norm_num) (by norm_num) good sized (good.len ▸ few.len) left

end RedisCore.QuickList
