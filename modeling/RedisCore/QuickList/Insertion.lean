import RedisCore.QuickList.Merging

set_option autoImplicit false

namespace RedisCore.QuickList

open Ziplist List

variable {values : List Bytes} {offset : Int} {ql : Quicklist}

def inserted (value v : Bytes) (rest : List Bytes) (after : Bool) : List Bytes :=
  if after then v :: value :: rest else value :: v :: rest

theorem length_inserted (value v : Bytes) (rest : List Bytes) (after : Bool) :
    (inserted value v rest after).length = rest.length + 2 := by
  cases after <;> rfl

theorem widest_inserted (before : List Bytes) (value v : Bytes) (rest : List Bytes) (after : Bool) :
    widest (before ++ inserted value v rest after) + 11 = widest (before ++ v :: rest) + widest [value] := by
  have base : widest [] = 11 := rfl
  have whole := widest_append before (inserted value v rest after)
  have part := widest_append before (v :: rest)
  have grown : widest (inserted value v rest after) + 11 = widest (v :: rest) + widest [value] := by
    cases after <;> simp only [inserted, widest_cons, Bool.false_eq_true, if_false, if_true] <;> omega
  omega

variable {lzf : Lzf}

theorem Good.recompressOnly {front back : List Cell} {n : Nat}
    (good : Good lzf ql (front ++ (n, values) :: back)) :
    ∃ node, quicklistRecompressOnly lzf ql n = .ok (ql.set n node) ∧ Good lzf (ql.set n node) (front ++ (n, values) :: back) ∧
      (flagged ql n = false → node.recompress = false) := by
  obtain ⟨node, found, stored⟩ := good.found
  refine ⟨_, modify_ok _ found, good.set _ values found ?_ ?_, fun unset => ?_⟩
  · split
    · exact stored.recode (recoded_compress node)
    · exact stored
  · rintro ⟨raw, unflagged⟩
    rw [if_neg (by simp [unflagged])]
    exact ⟨raw, unflagged⟩
  · rw [flagged, found, Option.any_some] at unset
    rw [if_neg (by simp [unset]), unset]

section

variable {ql : Quicklist} {front back : List Cell} {n : Nat} {before : List Bytes} {v : Bytes} {rest : List Bytes}
  (value : Bytes) (after : Bool)

theorem insertInside_ok {zl : Bytes} {p : Nat} (good : Good lzf ql (front ++ (n, before ++ v :: rest) :: back))
    (opened : Opened ql n zl) (cursor : Cursor zl before (v :: rest) p)
    (small : widest (before ++ inserted value v rest after) < 2 ^ 32)
    (few : (before ++ v :: rest).length + 1 < 65536) :
    ∃ ql', insertInside lzf ql n p value after = .ok ql' ∧
      Good lzf ql' (front ++ (n, before ++ inserted value v rest after) :: back) ∧ Steady ql ql' := by
  obtain ⟨node, found, raw, rfl, _, count, holds, _, _⟩ := good.holds opened
  have same : quicklistDecompressNodeForUse lzf node = node := by
    rw [quicklistDecompressNodeForUse, if_neg (by simp [raw])]
  have old_small : widest (before ++ v :: rest) < 2 ^ 32 := by
    have := widest_inserted before value v rest after
    have : 11 ≤ widest [value] := by rw [widest_cons]; exact Nat.le_add_left _ _
    omega
  obtain ⟨zl', edited, holds'⟩ : ∃ zl', insertZl node.zl p value after = some zl' ∧ Holds zl' (before ++ inserted value v rest after) := by
    cases after with
    | false =>
      obtain ⟨zl', ran, cursor'⟩ := cursor.insert value small
      exact ⟨zl', ran, cursor'.holds⟩
    | true =>
      obtain ⟨q, moved, cursor'⟩ := cursor.next old_small
      cases rest with
      | nil =>
        obtain ⟨zl', ran, holds'⟩ := holds.push (before ++ [v]) value (by simpa [inserted] using small)
        exact ⟨zl', by rw [insertZl, moved]; exact ran, by simpa [inserted] using holds'⟩
      | cons w rest =>
        obtain ⟨zl', ran, cursor''⟩ := cursor'.insert value
          (by simpa [inserted] using small)
        exact ⟨zl', by rw [insertZl, moved]; exact ran, by simpa [inserted] using cursor''.holds⟩
  have length_eq : (before ++ inserted value v rest after).length = node.count + 1 := by
    rw [count]
    simp only [length_append, length_inserted, length_cons]
    omega
  have few' : (before ++ inserted value v rest after).length < 65536 := by rw [length_eq, count]; exact few
  have stored := storeZl_ok node holds' small few'
  have present : before ++ inserted value v rest after ≠ [] := by
    intro empty
    rw [empty] at length_eq
    cases length_eq
  have good₁ := good.store found raw holds' present few'
  rw [length_eq] at stored good₁
  obtain ⟨node', ran, good', _⟩ := good₁.recompressOnly
  refine ⟨_, ?_, good', rfl, rfl, rfl, rfl⟩
  simp only [insertInside, get_ok found, same, rawZl_ok raw, edited, ofZiplist, ok_bind, stored, ran]

end

theorem insertNeighbour_ok {front back : List Cell} {n : Nat} (value : Bytes)
    (place : Where) (good : Good lzf ql (front ++ (n, values) :: back)) (small : widest (value :: values) < 2 ^ 32)
    (few : values.length + 1 < 65536) :
    ∃ ql', insertNeighbour lzf ql n value place = .ok ql' ∧
      Good lzf ql' (front ++ (n, pushed value values place) :: back) ∧ Steady ql ql' := by
  obtain ⟨node, zl, found, raw, rfl, holds, good₁⟩ := good.use
  obtain ⟨node₂, pushes, good₂⟩ := pushInside_ok value place good₁
    (opened_set ql n raw) small few
  obtain ⟨node', ran, good', _⟩ := good₂.recompressOnly
  refine ⟨_, ?_, good', rfl, rfl, rfl, rfl⟩
  simp only [insertNeighbour, modify_ok _ found, ok_bind, pushes, ran]

def cutRange (values : List Bytes) (index : Int) (num : Nat) : List Bytes :=
  match position values.length index with
  | none => values
  | some k => values.take k ++ values.drop (k + num)

theorem cutZl_ok {zl : Bytes} {values' : List Bytes} (start extent : Int) (holds : Holds zl values)
    (small : widest values < 2 ^ 32) (sub : values'.Sublist values)
    (cut : cutRange values start (uint32 extent) = values') :
    ∃ zl', cutZl zl start extent = .ok (zl', values'.length) ∧ Holds zl' values' := by
  obtain ⟨zl₁, deleted, holds₁⟩ := holds.deleteRange small start (uint32 extent)
  change Holds zl₁ (cutRange values start (uint32 extent)) at holds₁
  rw [cut] at holds₁
  obtain ⟨zl', counted, holds'⟩ := holds₁.len (lt_of_le_of_lt (widest_sublist _ _ sub) small)
  exact ⟨zl', by simp [cutZl, deleted, counted, ofZiplist], holds'⟩

section

variable (before : List Bytes) (v : Bytes) (rest : List Bytes)

def keptPart (after : Bool) : List Bytes := if after then before ++ [v] else v :: rest

def splitPart (after : Bool) : List Bytes := if after then rest else before

theorem keptPart_sublist (after : Bool) : (keptPart before v rest after).Sublist (before ++ v :: rest) := by
  cases after
  · exact sublist_append_right _ _
  · exact (List.Sublist.refl before).append (List.Sublist.cons_cons v (nil_sublist rest))

theorem splitPart_sublist (after : Bool) : (splitPart before rest after).Sublist (before ++ v :: rest) := by
  cases after
  · exact sublist_append_left _ _
  · exact (sublist_cons_self v rest).trans (sublist_append_right _ _)

theorem keptPart_ne_nil (after : Bool) : keptPart before v rest after ≠ [] := by
  cases after <;> simp [keptPart]

variable {before v rest}

theorem cut_front (few : (before ++ v :: rest).length < 65536) (at_entry : offset = before.length) :
    cutRange (before ++ v :: rest) 0 (uint32 offset) = v :: rest ∧
      cutRange (before ++ v :: rest) 0 (uint32 (offset + 1)) = rest := by
  have first : position (before ++ v :: rest).length 0 = some 0 := by simp [position]; omega
  have short : before.length + 1 < 2 ^ 32 := by simp at few; omega
  have extent : uint32 offset = before.length ∧ uint32 (offset + 1) = before.length + 1 := by
    unfold uint32
    omega
  simp only [cutRange, first, extent.1, extent.2]
  simp

theorem cut_back (few : (before ++ v :: rest).length < 65536) (at_entry : offset = before.length) :
    cutRange (before ++ v :: rest) offset (uint32 (-1)) = before ∧
      cutRange (before ++ v :: rest) (offset + 1) (uint32 (-1)) = before ++ [v] := by
  have extent : uint32 (-1) = 2 ^ 32 - 1 := by decide
  have gone : ∀ k, (before ++ v :: rest).drop (k + uint32 (-1)) = [] := fun k => drop_eq_nil_of_le (by omega)
  have here : position (before ++ v :: rest).length offset = some before.length := by
    rw [position, if_neg (by omega), if_pos (by simp; omega)]
    congr 1
    omega
  constructor
  · simp only [cutRange, here, gone, append_nil]
    exact take_left
  · cases rest with
    | nil =>
      have past : position (before ++ [v]).length (offset + 1) = none := by
        rw [position, if_neg (by omega), if_neg (by simp; omega)]
      simp only [cutRange, past]
    | cons w rest =>
      have past : position (before ++ v :: w :: rest).length (offset + 1) = some (before.length + 1) := by
        rw [position, if_neg (by omega), if_pos (by simp; omega)]
        congr 1
        omega
      simp only [cutRange, past, gone, append_nil]
      rw [show before ++ v :: w :: rest = (before ++ [v]) ++ w :: rest by simp]
      exact take_left' (by simp)

theorem quicklistSplitNode_ok {node : QuicklistNode} (after : Bool) (raw : node.encoding = .raw)
    (size : node.sz = node.zl.length) (holds : Holds node.zl (before ++ v :: rest))
    (small : widest (before ++ v :: rest) < 2 ^ 32) (few : (before ++ v :: rest).length < 65536)
    (at_entry : offset = before.length) :
    ∃ zl zl', _quicklistSplitNode node offset after =
        .ok ({ node with zl := zl, sz := zl.length, count := (keptPart before v rest after).length },
          { quicklistCreateNode with zl := zl', sz := zl'.length, count := (splitPart before rest after).length }) ∧
      Holds zl (keptPart before v rest after) ∧ Holds zl' (splitPart before rest after) := by
  have kept_sub := keptPart_sublist before v rest after
  have split_sub := splitPart_sublist before v rest after
  obtain ⟨zl, kept, holds₁⟩ := cutZl_ok (if after then offset + 1 else 0)
    (if after then -1 else offset) holds small kept_sub (by
      cases after
      · exact (cut_front few at_entry).1
      · exact (cut_back few at_entry).2)
  obtain ⟨zl', split, holds₂⟩ := cutZl_ok (if after then 0 else offset)
    (if after then offset + 1 else -1) holds small split_sub (by
      cases after
      · exact (cut_back few at_entry).1
      · exact (cut_front few at_entry).2)
  refine ⟨zl, zl', ?_, holds₁, holds₂⟩
  have stored := storeZl_ok node holds₁ (lt_of_le_of_lt (widest_sublist _ _ kept_sub) small)
    (lt_of_le_of_lt kept_sub.length_le few)
  have stored' := storeZl_ok quicklistCreateNode holds₂ (lt_of_le_of_lt (widest_sublist _ _ split_sub) small)
    (lt_of_le_of_lt split_sub.length_le few)
  simp only [_quicklistSplitNode, rawZl_ok raw, size, take_length, kept, split, stored, stored', ok_bind]
  rfl

end

theorem pushNode_ok (lzf : Lzf) (node : QuicklistNode) (zl v : Bytes) (place : Where) (at_zl : node.zl = zl)
    (count : node.count = values.length) (raw : node.encoding = .raw) (unflagged : node.recompress = false)
    (holds : Holds zl values) (small : widest (v :: values) < 2 ^ 32) (few : values.length + 1 < 65536) :
    ∃ node', pushNode node v place = .ok node' ∧ NodeHolds lzf node' (pushed v values place) ∧ Settled node' := by
  obtain ⟨zl', ran, holds'⟩ := ziplistPush_ok place holds small
  have few' : (pushed v values place).length < 65536 := by rw [length_pushed]; exact few
  have stored := storeZl_ok node holds' (by rw [widest_pushed]; exact small) few'
  rw [length_pushed, ← count] at stored
  refine ⟨{ node with zl := zl', sz := zl'.length, count := node.count + 1 },
    by simp only [pushNode, at_zl, ran, ofZiplist, ok_bind, stored], ?_, raw, unflagged⟩
  exact nodeHolds_raw raw rfl rfl (by rw [length_pushed, ← count]) holds' (pushed_ne_nil v values place) few'

theorem set_set (ql : Quicklist) (n : Nat) (node node' : QuicklistNode) : (ql.set n node).set n node' = ql.set n node' := by
  simp [Quicklist.set]

section

variable (ql : Quicklist) (front back : List Cell) (n : Nat) (before : List Bytes) (v : Bytes) (rest : List Bytes)
  (value : Bytes) (after : Bool) (offset : Int)

theorem insertSplit_ok (good : Good lzf ql (front ++ (n, before ++ v :: rest) :: back))
    (small : Bounded (2 ^ 30) (front ++ (n, before ++ v :: rest) :: back)) (short : widest [value] < 2 ^ 30)
    (at_entry : offset = before.length) :
    ∃ ql' cells', insertSplit lzf ql n offset value after = .ok ql' ∧ Good lzf ql' cells' ∧
      contents cells' = contents (front ++ (n, before ++ inserted value v rest after) :: back) ∧ ql'.count = ql.count ∧
      (Clear 3 (Inner 2 2 front back) ql (front ++ (n, before ++ v :: rest) :: back) → Raw ql n → ql'.exposed = false) := by
  have below := small.node
  obtain ⟨node, zl, found, raw, rfl, holds, good₁⟩ := good.use
  have few : (before ++ v :: rest).length < 65536 := by
    obtain ⟨_, _, stored⟩ := good.found
    exact stored.few
  have size : (quicklistDecompressNodeForUse lzf node).sz = (quicklistDecompressNodeForUse lzf node).zl.length := by
    obtain ⟨other, again, _, _, size, _⟩ := good₁.holds (opened_set ql n raw)
    have same : (ql.set n (quicklistDecompressNodeForUse lzf node)).node n = some (quicklistDecompressNodeForUse lzf node) := by
      simp [Quicklist.set]
    rw [same] at again
    cases again
    exact size
  obtain ⟨zl, zl', splits, kept, split⟩ := quicklistSplitNode_ok after raw size holds (by omega) few at_entry
  have few_split : (splitPart before rest after).length + 1 < 65536 := by
    cases after <;> simp [splitPart] at few ⊢ <;> omega
  have small_split : widest (value :: splitPart before rest after) < 2 ^ 31 := by
    have sub := widest_sublist _ _ (splitPart_sublist before v rest after)
    have sum := widest_cons_single value (splitPart before rest after)
    omega
  obtain ⟨new, pushes, new_holds, settled⟩ := pushNode_ok lzf
    { quicklistCreateNode with zl := zl', sz := zl'.length, count := (splitPart before rest after).length } zl' value
    (if after then .head else .tail) rfl rfl rfl rfl split (by omega) few_split
  have good₂ := good₁.store (by simp [Quicklist.set]) raw kept (keptPart_ne_nil before v rest after)
    (lt_of_le_of_lt (keptPart_sublist before v rest after).length_le few)
  rw [set_set] at good₂
  generalize kept_eq : ({ quicklistDecompressNodeForUse lzf node with
    zl := zl, sz := zl.length, count := (keptPart before v rest after).length } : QuicklistNode) = keptNode at good₂ splits
  have small₂ : Bounded (2 ^ 31) (front ++ (n, keptPart before v rest after) :: back) :=
    (small.set n n (lt_of_le_of_lt (widest_sublist _ _ (keptPart_sublist before v rest after)) below)).mono (by decide)
  obtain ⟨ql₃, placed, front₃, back₃, good₃, small₃, contents₃, count₃, clear₃⟩ : ∃ ql₃,
      __quicklistInsertNode lzf ((ql.set n keptNode).alloc new) (some n) ql.fresh after = .ok ql₃ ∧ ∃ front₃ back₃,
        Good lzf ql₃ (front₃ ++ (n, keptPart before v rest after) :: back₃) ∧
        Bounded (2 ^ 31) (front₃ ++ (n, keptPart before v rest after) :: back₃) ∧
        contents (front₃ ++ (n, keptPart before v rest after) :: back₃) =
          contents (front ++ (n, before ++ inserted value v rest after) :: back) ∧ ql₃.count = ql.count ∧
        (Clear 3 (Inner 2 2 front back) (ql.set n keptNode) (front ++ (n, keptPart before v rest after) :: back) →
          Clear 4 (Inner 2 2 front₃ back₃) ql₃ (front₃ ++ (n, keptPart before v rest after) :: back₃)) := by
    cases after with
    | true =>
      rw [append_cons] at good₂
      obtain ⟨ql₃, placed, good₃, steady, carries, unset⟩ := good₂.insertNode (some n) true new_holds settled ⟨by simp, by simp⟩
      refine ⟨ql₃, placed, front, ((ql.set n keptNode).fresh, pushed value (splitPart before rest true) .head) :: back,
        by simpa using good₃, ?_, by simp [keptPart, splitPart, inserted, pushed], steady.count, fun clear => ?_⟩
      · have small₃ := Bounded.insert _ (front ++ [(n, keptPart before v rest true)]) back (ql.set n keptNode).fresh
          (pushed value (splitPart before rest true) .head) (by simpa using small₂) (by rw [widest_pushed]; exact small_split)
        simpa using small₃
      · rw [append_cons] at clear
        rw [pair_left]
        exact clear.insert good₂ steady carries unset fun place =>
          ⟨by simp, place.outer.2, place.1, Nat.lt_succ_of_lt place.2⟩
    | false =>
      obtain ⟨ql₃, placed, good₃, steady, carries, unset⟩ := good₂.insertNode (some n) false new_holds settled ⟨by simp, by simp⟩
      refine ⟨ql₃, placed, front ++ [((ql.set n keptNode).fresh, pushed value (splitPart before rest false) .tail)], back,
        by simpa using good₃, ?_, by simp [keptPart, splitPart, inserted, pushed], steady.count, fun clear => ?_⟩
      · have small₃ := Bounded.insert _ front ((n, keptPart before v rest false) :: back) (ql.set n keptNode).fresh
          (pushed value (splitPart before rest false) .tail) small₂ (by rw [widest_pushed]; exact small_split)
        simpa using small₃
      · rw [← pair_left]
        exact clear.insert good₂ steady carries unset fun place =>
          ⟨place.outer.1, cons_ne_nil _ _, by rw [length_append]; exact Nat.lt_succ_of_lt place.1, place.2⟩
  obtain ⟨ql', cells', merges, good', contents', count', unexposed⟩ := quicklistMergeNodes_ok good₃ small₃
  refine ⟨ql', cells', ?_, good', contents'.trans contents₃, count'.trans count₃, ?_⟩
  · simp only [insertSplit, get_ok found, ok_bind, splits, pushes, placed, merges]
  · rintro clear ⟨other, again, was_raw⟩
    rw [found] at again
    cases again
    rw [append_cons] at clear
    have cut : Clear 3 (Inner 2 2 front back) ql (front ++ [(n, keptPart before v rest after)] ++ back) :=
      clear.swap (fun m inside => .inl inside) (fun place => ⟨place.outer.1, place.outer.2, place⟩) le_rfl
    refine unexposed (clear₃ ?_)
    rw [append_cons]
    exact cut.tamed (tames_set _ found (by rw [← kept_eq, quicklistDecompressNodeForUse, if_neg (by simp [was_raw])]))

variable {ql front back n v rest value}

theorem insertBeside_ok (good : Good lzf ql (front ++ (n, v :: rest) :: back))
    (small : Bounded (2 ^ 30) (front ++ (n, v :: rest) :: back)) (short : widest [value] < 2 ^ 30) :
    ∃ ql' cells', insertBeside lzf ql n (ql.prev n) 0 value .tail false = .ok ql' ∧ Good lzf ql' cells' ∧
      contents cells' = contents (front ++ (n, value :: v :: rest) :: back) ∧ ql'.count = ql.count ∧
      (ql.exposed = false → front ≠ [] ∨ Clear 3 (Inner 2 2 front back) ql (front ++ (n, v :: rest) :: back) → Raw ql n →
        ql'.exposed = false) := by
  have prev := good.next.2
  dsimp only at prev
  rw [prev]
  cases front using List.reverseRecOn with
  | nil =>
    obtain ⟨ql', cells', ran, good', contents', count', unexposed'⟩ := insertSplit_ok ql [] back n [] v rest value false 0
      good small short rfl
    exact ⟨ql', cells', ran, good', contents', count', fun _ clear => unexposed' (clear.resolve_left fun some => some rfl)⟩
  | append_singleton front cell =>
    obtain ⟨m, values⟩ := cell
    have before := good
    rw [append_assoc, singleton_append] at before
    have below : widest values < 2 ^ 30 := small (m, values) (by simp)
    have sum := widest_cons_single value values
    obtain ⟨room, tested, few⟩ := allowsInsert_ok value before (by omega)
    rw [ids_append, ids_cons, ids_nil, getLast?_concat]
    cases room with
    | true =>
      obtain ⟨ql', ran, good', steady⟩ := insertNeighbour_ok value .tail before (by omega) (few rfl)
      refine ⟨ql', _, ?_, good', by simp [pushed], steady.count, fun unexposed _ _ => steady.exposed.trans unexposed⟩
      simp only [insertBeside, tested, ok_bind, if_true, ran]
    | false =>
      obtain ⟨ql', ran, good', steady, _⟩ := insertSingle_ok ql (front ++ [(m, values)]) ((n, v :: rest) :: back) (some n)
        value .head false good (by omega) ⟨by simp, by simp⟩
      refine ⟨ql', _, ?_, good', by simp, steady.count, fun unexposed _ _ => steady.exposed.trans unexposed⟩
      simp only [insertBeside, tested, ok_bind, Bool.false_eq_true, if_false, ran]

-- The entry's offset has to count from the head of a node that has no room.
theorem quicklistInsert_ok {entry : QuicklistEntry} {node : QuicklistNode}
    (located : Located lzf ql entry front n before v rest back)
    (small : Bounded (2 ^ 30) (front ++ (n, before ++ v :: rest) :: back)) (short : widest [value] < 2 ^ 30)
    (found : ql.node n = some node)
    (forward : entry.offset = before.length ∨ _quicklistNodeAllowInsert node ql.fill value.length = true) :
    ∃ ql' cells', _quicklistInsert lzf ql entry value after = .ok ql' ∧ Good lzf ql' cells' ∧
      contents cells' = contents (front ++ (n, before ++ inserted value v rest after) :: back) ∧
      ql'.count = add64 ql.count 1 ∧
      (ql.exposed = false → (_quicklistNodeAllowInsert node ql.fill value.length = false →
        (after = false ∧ entry.offset = 0 ∧ front ≠ []) ∨
          Clear 3 (Inner 2 2 front back) ql (front ++ (n, before ++ v :: rest) :: back)) → ql'.exposed = false) := by
  obtain ⟨zl, p, opened, at_p, cursor⟩ := located.pointer
  have good := located.good
  have raw : Raw ql n := by
    obtain ⟨node, found, raw, _⟩ := opened
    exact ⟨node, found, raw⟩
  suffices inserts : ∃ ql' cells', insertAt lzf ql n p entry.offset value after = .ok ql' ∧ Good lzf ql' cells' ∧
      contents cells' = contents (front ++ (n, before ++ inserted value v rest after) :: back) ∧ ql'.count = ql.count ∧
      (ql.exposed = false → (_quicklistNodeAllowInsert node ql.fill value.length = false →
        (after = false ∧ entry.offset = 0 ∧ front ≠ []) ∨
          Clear 3 (Inner 2 2 front back) ql (front ++ (n, before ++ v :: rest) :: back)) → ql'.exposed = false) by
    obtain ⟨ql', cells', ran, good', contents', count', unexposed'⟩ := inserts
    refine ⟨addCount ql' 1, cells', ?_, good'.recount _, contents', by rw [← count']; rfl, unexposed'⟩
    simp only [_quicklistInsert, located.node, entryPointers, at_p, ok_bind, ran]
    rfl
  have below := small.node
  have grows := widest_inserted before value v rest after
  have sum := widest_cons_single value (before ++ v :: rest)
  obtain ⟨room, tested, few⟩ := allowsInsert_ok value good (by omega)
  have same_room : _quicklistNodeAllowInsert node ql.fill value.length = room := by
    simp only [allowsInsert, get_ok found, ok_bind] at tested
    exact Except.ok.inj tested
  simp only [insertAt, get_ok found, ok_bind, same_room]
  rw [same_room] at forward
  cases room with
  | true =>
    obtain ⟨ql', ran, good', steady⟩ := insertInside_ok value after good opened cursor
      (by omega) (few rfl)
    exact ⟨ql', _, ran, good', rfl, steady.count, fun unexposed _ => steady.exposed.trans unexposed⟩
  | false =>
    have at_entry : entry.offset = before.length := forward.resolve_right Bool.false_ne_true
    have below : entry.offset < node.count := by
      obtain ⟨other, again, stored⟩ := good.found
      rw [found] at again
      cases again
      rw [stored.count, at_entry]
      simp
    rw [if_neg Bool.false_ne_true, insertFull, if_neg (by omega)]
    by_cases first : after = false ∧ entry.offset = 0
    · obtain ⟨rfl, at_zero⟩ := first
      obtain rfl : before = [] := length_eq_zero_iff.mp (by omega)
      rw [if_pos ⟨rfl, at_zero⟩, at_zero]
      obtain ⟨ql', cells', ran, good', contents', count', unexposed'⟩ := insertBeside_ok good small short
      exact ⟨ql', cells', ran, good', contents', count',
        fun unexposed clear => unexposed' unexposed ((clear rfl).imp_left fun beside => beside.2.2) raw⟩
    · rw [if_neg first]
      obtain ⟨ql', cells', ran, good', contents', count', unexposed'⟩ := insertSplit_ok ql front back n before v rest value after
        entry.offset good small short at_entry
      exact ⟨ql', cells', ran, good', contents', count',
        fun _ clear => unexposed' ((clear rfl).resolve_left fun beside => first ⟨beside.1, beside.2.1⟩) raw⟩

end

end RedisCore.QuickList
