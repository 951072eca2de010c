import RedisCore.QuickList.Insertion

set_option autoImplicit false

namespace RedisCore.QuickList

open Ziplist List

variable {cells : List Cell} {ql ql' : Quicklist} {iter iter' : QuicklistIter} {zl v : Bytes} {direction : Where} {k : Nat}

-- The offset at which an iterator stands between the entries of a node that it has passed and the others.
def offsetFrom (before rest : List Bytes) : Where → Int
  | .head => before.length
  | .tail => -((rest.length : Int) + 1)

def passed (front back : List Cell) (before rest : List Bytes) : Where → Nat
  | .head => (contents front).length + before.length
  | .tail => rest.length + (contents back).length

def pending (before rest : List Bytes) : Where → Option (List Bytes × Bytes × List Bytes)
  | .head => match rest with
    | [] => none
    | w :: rest => some (before, w, rest)
  | .tail => match before.getLast? with
    | none => none
    | some w => some (before.dropLast, w, rest)

theorem pending_some {before rest b r : List Bytes} {w : Bytes}
    (next : pending before rest direction = some (b, w, r)) :
    before ++ rest = b ++ w :: r ∧ (direction = .head ∧ b = before ∨ direction = .tail ∧ r = rest) := by
  cases direction with
  | head =>
    cases rest with
    | nil => cases next
    | cons first rest =>
      simp only [pending, Option.some.injEq, Prod.mk.injEq] at next
      obtain ⟨rfl, rfl, rfl⟩ := next
      exact ⟨rfl, .inl ⟨rfl, rfl⟩⟩
  | tail =>
    cases before using List.reverseRecOn with
    | nil => simp [pending] at next
    | append_singleton before last =>
      simp only [pending, getLast?_concat, dropLast_concat, Option.some.injEq, Prod.mk.injEq] at next
      obtain ⟨rfl, rfl, rfl⟩ := next
      exact ⟨by simp, .inr ⟨rfl, rfl⟩⟩

theorem pending_none {before rest : List Bytes} (stop : pending before rest direction = none) :
    direction = .head ∧ rest = [] ∨ direction = .tail ∧ before = [] := by
  cases direction with
  | head =>
    cases rest with
    | nil => exact .inl ⟨rfl, rfl⟩
    | cons first rest => cases stop
  | tail =>
    cases before using List.reverseRecOn with
    | nil => exact .inr ⟨rfl, rfl⟩
    | append_singleton before last => simp [pending] at stop

variable {lzf : Lzf}

-- Where an iterator stands that has passed k entries.
inductive Standing (ql : Quicklist) (iter : QuicklistIter) (cells : List Cell) (k : Nat) : Prop where
  | done (none_left : iter.current = none) (all : k = (contents cells).length)
  | ready (front : List Cell) (n : Nat) (before rest : List Bytes) (back : List Cell)
    (shape : cells = front ++ (n, before ++ rest) :: back) (current : iter.current = some n) (unset : iter.zi = none)
    (offset : iter.offset = offsetFrom before rest iter.direction) (count : k = passed front back before rest iter.direction)
  | seen (front : List Cell) (n : Nat) (before : List Bytes) (v : Bytes) (rest : List Bytes) (back : List Cell) (zl : Bytes)
    (p : Nat) (shape : cells = front ++ (n, before ++ v :: rest) :: back) (current : iter.current = some n)
    (pointer : iter.zi = some p) (opened : Opened ql n zl) (cursor : Cursor zl before (v :: rest) p)
    (offset : iter.offset = offsetFrom before rest iter.direction)
    (count : k = passed front back before rest iter.direction + 1)

theorem standing_start (direction : Where) (good : Good lzf ql cells) :
    Standing ql (quicklistGetIterator ql direction) cells 0 := by
  cases direction with
  | head =>
    have head := good.chain.head
    cases cells with
    | nil => exact .done head rfl
    | cons cell back => exact .ready [] cell.1 [] cell.2 back rfl head rfl rfl rfl
  | tail =>
    have tail := good.chain.tail
    cases cells using List.reverseRecOn with
    | nil => exact .done tail rfl
    | append_singleton front cell =>
      rw [ids_append, ids_cons, ids_nil, getLast?_concat] at tail
      exact .ready front cell.1 cell.2 [] [] (by simp) tail rfl rfl rfl

section

variable (ql : Quicklist) (iter : QuicklistIter) (front : List Cell) (n : Nat) (before rest : List Bytes) (back : List Cell)

variable (lzf) in
structure Looked (ql' : Quicklist) (iter' : QuicklistIter) (zl : Bytes) : Prop where
  good : Good lzf ql' (front ++ (n, before ++ rest) :: back)
  steady : Steady ql ql'
  opened : Opened ql' n zl
  same : iter'.current = iter.current ∧ iter'.direction = iter.direction
  offset : iter'.offset = offsetFrom before rest iter.direction
  pointer : match pending before rest iter.direction with
    | none => iter'.zi = none
    | some (b, w, r) => ∃ q, iter'.zi = some q ∧ Cursor zl b (w :: r) q

variable {ql iter front n before rest back}

theorem nextPointer_ready (good : Good lzf ql (front ++ (n, before ++ rest) :: back)) (small : widest (before ++ rest) < 2 ^ 32)
    (unset : iter.zi = none) (offset : iter.offset = offsetFrom before rest iter.direction) :
    ∃ ql' iter' zl, nextPointer lzf ql iter n = .ok (ql', iter') ∧ Looked lzf ql iter front n before rest back ql' iter' zl := by
  obtain ⟨node, zl, found, raw, rfl, holds, good'⟩ := good.use
  have index := holds.at_index small iter.offset
  have ran (zi : Option Nat) (at_zi : ziplistIndex (quicklistDecompressNodeForUse lzf node).zl iter.offset = some zi) :
      nextPointer lzf ql iter n = .ok (ql.set n (quicklistDecompressNodeForUse lzf node), { iter with zi := zi }) := by
    simp only [nextPointer, get_ok found, unset, rawZl_ok raw, at_zi, ofZiplist, ok_bind]
    rfl
  have looked (zi : Option Nat) (pointer : match pending before rest iter.direction with
      | none => zi = none
      | some (b, w, r) => ∃ q, zi = some q ∧ Cursor (quicklistDecompressNodeForUse lzf node).zl b (w :: r) q) :
      Looked lzf ql iter front n before rest back (ql.set n (quicklistDecompressNodeForUse lzf node)) { iter with zi := zi }
        (quicklistDecompressNodeForUse lzf node).zl :=
    ⟨good', ⟨rfl, rfl, rfl, rfl⟩, opened_set ql n raw, ⟨rfl, rfl⟩, offset, pointer⟩
  cases next : pending before rest iter.direction with
  | none =>
    have stop := pending_none next
    have missing : position (before ++ rest).length iter.offset = none := by
      rcases stop with ⟨direction, rfl⟩ | ⟨direction, rfl⟩
      · simp [offset, direction, offsetFrom, position]
      · rw [offset, direction, offsetFrom, position, if_pos (by omega), if_neg (by simp)]
    rw [missing] at index
    refine ⟨_, _, _, ran none index, looked none ?_⟩
    rw [next]
  | some found_entry =>
    obtain ⟨b, w, r⟩ := found_entry
    obtain ⟨shape, side⟩ := pending_some next
    have at_entry : position (before ++ rest).length iter.offset = some b.length := by
      have length_eq : (before ++ rest).length = b.length + (r.length + 1) := by rw [shape]; simp
      rw [offset, length_eq]
      rcases side with ⟨direction, rfl⟩ | ⟨direction, rfl⟩
      · rw [direction, offsetFrom, position, if_neg (by omega), if_pos (by omega)]
        rfl
      · rw [direction, offsetFrom, position, if_pos (by omega), if_pos (by omega)]
        congr 1
        omega
    rw [at_entry] at index
    obtain ⟨q, at_q, cursor⟩ := index
    rw [shape, take_left, drop_left] at cursor
    refine ⟨_, _, _, ran _ at_q, looked _ ?_⟩
    rw [next]
    exact ⟨q, rfl, cursor⟩

theorem nextPointer_seen {p : Nat} (good : Good lzf ql (front ++ (n, before ++ v :: rest) :: back))
    (small : widest (before ++ v :: rest) < 2 ^ 32) (opened : Opened ql n zl) (pointer : iter.zi = some p)
    (cursor : Cursor zl before (v :: rest) p) (offset : iter.offset = offsetFrom before rest iter.direction) :
    ∃ iter' before' rest', nextPointer lzf ql iter n = .ok (ql, iter') ∧ before' ++ rest' = before ++ v :: rest ∧
      passed front back before' rest' iter.direction = passed front back before rest iter.direction + 1 ∧
      Looked lzf ql iter front n before' rest' back ql iter' zl := by
  obtain ⟨node, found, raw, rfl⟩ := opened
  cases direction : iter.direction with
  | head =>
    obtain ⟨q, moved, cursor'⟩ := cursor.next small
    refine ⟨{ iter with zi := entryPointer rest q, offset := iter.offset + 1 }, before ++ [v], rest, ?_, by simp,
      by simp [passed]; omega, by simpa using good, ⟨rfl, rfl, rfl, rfl⟩, ⟨node, found, raw, rfl⟩, ⟨rfl, rfl⟩, ?_, ?_⟩
    · simp only [nextPointer, get_ok found, pointer, direction, rawZl_ok raw, moved, ofZiplist, ok_bind]
      rfl
    · simp [offset, direction, offsetFrom]
    · rw [direction]
      cases rest with
      | nil => rfl
      | cons w rest => exact ⟨q, rfl, cursor'⟩
  | tail =>
    have ran (zi : Option Nat) (moved : ziplistPrev node.zl p = some zi) : nextPointer lzf ql iter n =
        .ok (ql, { iter with zi := zi, offset := iter.offset - 1 }) := by
      simp only [nextPointer, get_ok found, pointer, direction, rawZl_ok raw, moved, ofZiplist, ok_bind]
      rfl
    have offset' : iter.offset - 1 = offsetFrom before (v :: rest) .tail := by
      rw [offset, direction]
      simp [offsetFrom]
      omega
    cases before using List.reverseRecOn with
    | nil =>
      refine ⟨_, [], v :: rest, ran none (cursor.prev_first (by simp) small), rfl,
        by simp [passed]; omega, good, ⟨rfl, rfl, rfl, rfl⟩, ⟨node, found, raw, rfl⟩, ⟨rfl, rfl⟩, by rw [direction]; exact offset', ?_⟩
      rw [direction]
      rfl
    | append_singleton before w =>
      obtain ⟨q, moved, cursor'⟩ := cursor.prev (by simp) (by simpa using small)
      refine ⟨_, before ++ [w], v :: rest, ran _ moved, rfl, by simp [passed]; omega, good, ⟨rfl, rfl, rfl, rfl⟩,
        ⟨node, found, raw, rfl⟩, ⟨rfl, rfl⟩, by rw [direction]; exact offset', ?_⟩
      simp only [direction, pending, getLast?_concat, dropLast_concat]
      exact ⟨q, rfl, cursor'⟩

theorem Standing.look (standing : Standing ql iter cells k) (good : Good lzf ql cells)
    (small : Bounded (2 ^ 32) cells) (current : iter.current = some n) :
    ∃ front before rest back ql' iter' zl, cells = front ++ (n, before ++ rest) :: back ∧
      k = passed front back before rest iter.direction ∧ nextPointer lzf ql iter n = .ok (ql', iter') ∧
      Looked lzf ql iter front n before rest back ql' iter' zl := by
  cases standing with
  | done none_left =>
    rw [current] at none_left
    cases none_left
  | ready front m before rest back shape at_m unset offset count =>
    rw [current] at at_m
    cases at_m
    subst shape
    obtain ⟨ql', iter', zl, ran, looked⟩ := nextPointer_ready good
      (small.node) unset offset
    exact ⟨front, before, rest, back, ql', iter', zl, rfl, count, ran, looked⟩
  | seen front m before v rest back zl p shape at_m pointer opened cursor offset count =>
    rw [current] at at_m
    cases at_m
    subst shape
    obtain ⟨iter', before', rest', ran, same, count', looked⟩ := nextPointer_seen good
      (small.node) opened pointer cursor offset
    exact ⟨front, before', rest', back, ql, iter', zl, by rw [same], by rw [count, count'], ran, looked⟩

structure Returned (iter : QuicklistIter) (entry : QuicklistEntry) (n : Nat) (before rest : List Bytes) : Prop where
  current : iter.current = some n
  pointer : iter.zi = entry.zi
  offset : iter.offset = offsetFrom before rest iter.direction
  same : entry.offset = iter.offset

theorem Returned.standing {entry : QuicklistEntry} (returned : Returned iter entry n before rest)
    (located : Located lzf ql entry front n before v rest back) :
    Standing ql iter (front ++ (n, before ++ v :: rest) :: back) (passed front back before rest iter.direction + 1) := by
  obtain ⟨zl, p, opened, at_p, cursor⟩ := located.pointer
  exact .seen front n before v rest back zl p rfl returned.current (returned.pointer.trans at_p) opened cursor returned.offset rfl

theorem quicklistNext_here (fuel k : Nat) {b : List Bytes} {w : Bytes} {r : List Bytes}
    (current : iter.current = some n) (ran : nextPointer lzf ql iter n = .ok (ql', iter'))
    (looked : Looked lzf ql iter front n before rest back ql' iter' zl)
    (small : Bounded (2 ^ 32) (front ++ (n, before ++ rest) :: back))
    (count : k = passed front back before rest iter.direction)
    (next : pending before rest iter.direction = some (b, w, r)) :
    ∃ entry, quicklistNext lzf (fuel + 1) ql iter = .ok (ql', iter', some entry) ∧ before ++ rest = b ++ w :: r ∧
      k = passed front back b r iter.direction ∧ Located lzf ql' entry front n b w r back ∧ Returned iter' entry n b r := by
  obtain ⟨shape, side⟩ := pending_some next
  have pointer := looked.pointer
  rw [next] at pointer
  obtain ⟨q, at_q, cursor⟩ := pointer
  obtain ⟨node, found, raw, rfl⟩ := looked.opened
  have small_node : widest (b ++ w :: r) < 2 ^ 32 := by
    rw [← shape]
    exact small.node
  have got := cursor.get r q small_node
  have offset : iter'.offset = offsetFrom b r iter'.direction := by
    rw [looked.offset, looked.same.2]
    rcases side with ⟨direction, rfl⟩ | ⟨direction, rfl⟩ <;> rw [direction] <;> rfl
  refine ⟨⟨some n, some q, some (entryValue w), iter'.offset⟩, ?_, shape, ?_, ⟨?_, rfl, ⟨node.zl, q, ?_, rfl, cursor⟩, rfl⟩,
    looked.same.1.trans current, at_q, offset, rfl⟩
  · simp only [quicklistNext, current, ran, ok_bind, at_q, get_ok found, rawZl_ok raw, got, ofZiplist]
    rfl
  · rw [count]
    have length_eq := congrArg List.length shape
    rcases side with ⟨direction, rfl⟩ | ⟨direction, rfl⟩ <;> rw [direction] <;> simp [passed]
  · rw [← shape]
    exact looked.good
  · exact ⟨node, found, raw, rfl⟩

end

-- An iterator that has moved to a node and not looked at it yet, or has nowhere to move.
def Fresh (iter : QuicklistIter) (cells : List Cell) (k : Nat) : Prop :=
  iter.current = none ∧ k = (contents cells).length ∨
    ∃ front n before rest back, cells = front ++ (n, before ++ rest) :: back ∧ iter.current = some n ∧ iter.zi = none ∧
      iter.offset = offsetFrom before rest iter.direction ∧ k = passed front back before rest iter.direction ∧
      pending before rest iter.direction ≠ none

theorem Fresh.standing (ql : Quicklist) (fresh : Fresh iter cells k) :
    Standing ql iter cells k := by
  rcases fresh with ⟨none_left, all⟩ | ⟨front, n, before, rest, back, shape, current, unset, offset, count, _⟩
  · exact .done none_left all
  · exact .ready front n before rest back shape current unset offset count

def edge (front back : List Cell) : Where → Option Nat
  | .head => (ids back).head?
  | .tail => (ids front).getLast?

def passedEdge (front back : List Cell) : Where → Nat
  | .head => (contents front).length
  | .tail => (contents back).length

theorem fresh_edge (front back : List Cell) (direction : Where) (present : ∀ cell ∈ front ++ back, cell.2 ≠ []) :
    Fresh ⟨edge front back direction, none, startOffset direction, direction⟩ (front ++ back)
      (passedEdge front back direction) := by
  cases direction with
  | head =>
    cases back with
    | nil => exact .inl ⟨rfl, by simp [passedEdge]⟩
    | cons cell back =>
      refine .inr ⟨front, cell.1, [], cell.2, back, rfl, rfl, rfl, rfl, rfl, ?_⟩
      obtain ⟨v, rest, same⟩ := exists_cons_of_ne_nil (present cell (by simp))
      simp [pending, same]
  | tail =>
    cases front using List.reverseRecOn with
    | nil => exact .inl ⟨rfl, by simp [passedEdge]⟩
    | append_singleton front cell =>
      refine .inr ⟨front, cell.1, cell.2, [], back, by simp, by simp [edge], rfl, rfl, by simp [passed, passedEdge], ?_⟩
      obtain ⟨v, last⟩ := Option.isSome_iff_exists.mp (getLast?_isSome.mpr (present cell (by simp)))
      simp [pending, last]

theorem Good.present (good : Good lzf ql cells) : ∀ cell ∈ cells, cell.2 ≠ [] :=
  fun cell inside => good.nonempty cell inside

theorem Good.follow {front back : List Cell} {cell : Cell} (direction : Where)
    (good : Good lzf ql (front ++ cell :: back)) : ql.follow direction cell.1 = edge front back direction := by
  cases direction with
  | head => exact good.next.1
  | tail => exact good.next.2

section

variable {front : List Cell} {n : Nat} {before rest : List Bytes} {back : List Cell}

theorem quicklistNext_move (fuel k : Nat) (current : iter.current = some n)
    (ran : nextPointer lzf ql iter n = .ok (ql', iter'))
    (looked : Looked lzf ql iter front n before rest back ql' iter' zl)
    (count : k = passed front back before rest iter.direction) (next : pending before rest iter.direction = none) :
    ∃ ql'' iter'', quicklistNext lzf (fuel + 1) ql iter = quicklistNext lzf fuel ql'' iter'' ∧
      Good lzf ql'' (front ++ (n, before ++ rest) :: back) ∧ Steady ql ql'' ∧
      iter''.direction = iter.direction ∧ Fresh iter'' (front ++ (n, before ++ rest) :: back) k := by
  have pointer := looked.pointer
  rw [next] at pointer
  obtain ⟨ql'', compressed, good, recodes⟩ := looked.good.quicklistCompress n (by simp)
  refine ⟨ql'', ⟨ql''.follow iter'.direction n, none, startOffset iter'.direction, iter'.direction⟩, ?_, good,
    looked.steady.trans recodes.steady, looked.same.2, ?_⟩
  · simp only [quicklistNext, current, ran, ok_bind, pointer, compressed]
  · have present := good.present
    rw [good.follow, looked.same.2, count]
    rcases pending_none next with ⟨direction, rfl⟩ | ⟨direction, rfl⟩
    · rw [direction]
      have fresh := fresh_edge (front ++ [(n, before ++ [])]) back .head (by simpa using present)
      simpa [edge, passedEdge, passed] using fresh
    · rw [direction]
      have fresh := fresh_edge front ((n, [] ++ rest) :: back) .tail (by simpa using present)
      simpa [edge, passedEdge, passed] using fresh

end

def Yields (lzf : Lzf) (ql : Quicklist) (iter : QuicklistIter) (cells : List Cell) (k : Nat)
    (result : Except Fault (Quicklist × QuicklistIter × Option QuicklistEntry)) : Prop :=
  ∃ ql' iter' entry, result = .ok (ql', iter', entry) ∧ Good lzf ql' cells ∧ Steady ql ql' ∧
    iter'.direction = iter.direction ∧ match entry with
    | none => k = (contents cells).length ∧ Standing ql' iter' cells k
    | some entry => ∃ front n before v rest back, cells = front ++ (n, before ++ v :: rest) :: back ∧
        k = passed front back before rest iter.direction ∧ Located lzf ql' entry front n before v rest back ∧
        Returned iter' entry n before rest

section

variable (fuel : Nat) {ql : Quicklist} {iter : QuicklistIter} {cells : List Cell} {k : Nat} (good : Good lzf ql cells)
  (small : Bounded (2 ^ 32) cells)

include good small

theorem quicklistNext_fresh (fresh : Fresh iter cells k) :
    Yields lzf ql iter cells k (quicklistNext lzf (fuel + 1) ql iter) := by
  rcases fresh with ⟨none_left, all⟩ | ⟨front, n, before, rest, back, rfl, current, unset, offset, count, some_left⟩
  · refine ⟨ql, iter, none, ?_, good, ⟨rfl, rfl, rfl, rfl⟩, rfl, all, .done none_left all⟩
    simp only [quicklistNext, none_left]
  · obtain ⟨ql', iter', zl, ran, looked⟩ := nextPointer_ready good
      (small.node) unset offset
    obtain ⟨⟨b, w, r⟩, next⟩ := Option.ne_none_iff_exists'.mp some_left
    obtain ⟨entry, steps, shape, count', located, returned⟩ := quicklistNext_here fuel k current ran looked small count next
    exact ⟨ql', iter', some entry, steps, looked.good, looked.steady, looked.same.2,
      front, n, b, w, r, back, by rw [shape], count', located, returned⟩

theorem quicklistNext_ok (standing : Standing ql iter cells k) :
    Yields lzf ql iter cells k (quicklistNext lzf (fuel + 2) ql iter) := by
  cases current : iter.current with
  | none =>
    have all : k = (contents cells).length := by
      cases standing with
      | done _ all => exact all
      | ready _ _ _ _ _ _ at_n => rw [current] at at_n; cases at_n
      | seen _ _ _ _ _ _ _ _ _ at_n => rw [current] at at_n; cases at_n
    exact quicklistNext_fresh (fuel + 1) good small (.inl ⟨current, all⟩)
  | some n =>
    obtain ⟨front, before, rest, back, ql', iter', zl, rfl, count, ran, looked⟩ :=
      standing.look good small current
    cases next : pending before rest iter.direction with
    | none =>
      obtain ⟨ql'', iter'', steps, good'', steady'', direction'', fresh⟩ := quicklistNext_move (fuel + 1) k current ran looked count next
      obtain ⟨ql₃, iter₃, entry, ran₃, good₃, steady₃, direction₃, result⟩ := quicklistNext_fresh fuel good'' small fresh
      rw [direction''] at direction₃ result
      exact ⟨ql₃, iter₃, entry, steps.trans ran₃, good₃, steady''.trans steady₃, direction₃, result⟩
    | some found =>
      obtain ⟨b, w, r⟩ := found
      obtain ⟨entry, steps, shape, count', located, returned⟩ := quicklistNext_here (fuel + 1) k current ran looked small count next
      exact ⟨ql', iter', some entry, steps, looked.good, looked.steady, looked.same.2,
        front, n, b, w, r, back, by rw [shape], count', located, returned⟩

end

-- Deleting the entry just returned: the iterator stands where that entry was.
theorem quicklistDelEntry_ok {entry : QuicklistEntry} {front : List Cell} {n : Nat}
    {before : List Bytes} {rest : List Bytes} {back : List Cell}
    (located : Located lzf ql entry front n before v rest back) (returned : Returned iter entry n before rest)
    (small : widest (before ++ v :: rest) < 2 ^ 32) :
    ∃ ql' iter', quicklistDelEntry lzf ql iter entry = .ok (ql', iter') ∧
      Good lzf ql' (front ++ (cellOf n (before ++ rest) ++ back)) ∧ ql'.count = sub64 ql.count 1 ∧
      (ql.exposed = false → leavesHidden ql n = true → ql'.exposed = false) ∧ iter'.direction = iter.direction ∧
      Standing ql' iter' (front ++ (cellOf n (before ++ rest) ++ back)) (passed front back before rest iter.direction) := by
  obtain ⟨zl, p, opened, at_p, cursor⟩ := located.pointer
  obtain ⟨ql', deleted, good, count, unexposed⟩ := delIndex_ok ql front back n p before v rest zl located.good opened cursor small
  have pointers : entryPointers entry = .ok (n, p) := by simp [entryPointers, located.node, at_p]
  have follow := located.good.follow iter.direction
  have hidden (was : ql.exposed = false) (hidden : leavesHidden ql n = true) := unexposed was (located.good.leavesHidden hidden)
  by_cases empty : before ++ rest = []
  · obtain ⟨rfl, rfl⟩ := append_eq_nil_iff.mp empty
    refine ⟨ql', ⟨edge front back iter.direction, none, startOffset iter.direction, iter.direction⟩, ?_, good, count, hidden, rfl, ?_⟩
    · simp only [quicklistDelEntry, pointers, deleted, ok_bind, append_nil, decide_true, if_true, ← follow]
      rfl
    · have present := good.present
      rw [cellOf, if_pos empty, nil_append] at present ⊢
      have fresh := fresh_edge front back iter.direction present
      have passed_eq : passed front back [] [] iter.direction = passedEdge front back iter.direction := by
        cases iter.direction <;> simp [passed, passedEdge]
      rw [passed_eq]
      exact fresh.standing ql'
  · refine ⟨ql', { iter with zi := none }, ?_, good, count, hidden, rfl, ?_⟩
    · simp only [quicklistDelEntry, pointers, deleted, ok_bind, decide_eq_false empty, Bool.false_eq_true, if_false]
      rfl
    · rw [cellOf, if_neg empty, singleton_append]
      exact .ready front n before rest back rfl returned.current rfl returned.offset rfl

theorem quicklistReleaseIterator_ok
    (good : Good lzf ql cells) (standing : Standing ql iter cells k) :
    ∃ ql', quicklistReleaseIterator lzf ql iter = .ok ql' ∧ Good lzf ql' cells ∧ Steady ql ql' := by
  have inside : iter.current = none ∨ ∃ n ∈ ids cells, iter.current = some n := by
    cases standing with
    | done none_left => exact .inl none_left
    | ready _ n _ _ _ shape current => exact .inr ⟨n, by simp [shape], current⟩
    | seen _ n _ _ _ _ _ _ shape current => exact .inr ⟨n, by simp [shape], current⟩
  rcases inside with none_left | ⟨n, inside, current⟩
  · exact ⟨ql, by rw [quicklistReleaseIterator, none_left]; rfl, good, rfl, rfl, rfl, rfl⟩
  · obtain ⟨ql', ran, good', recodes⟩ := good.quicklistCompress n inside
    exact ⟨ql', by rw [quicklistReleaseIterator, current]; exact ran, good', recodes.steady⟩

end RedisCore.QuickList
