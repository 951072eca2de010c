import RedisCore.QuickList.EndOps

set_option autoImplicit false

namespace RedisCore.QuickList

open Ziplist List

variable {ql : Quicklist}

theorem allowMerge_small {a b : QuicklistNode} {fill : Int} (fits : a.sz + b.sz < 2 ^ 32) (entries_a : a.count + 11 ≤ a.sz)
    (allowed : _quicklistNodeAllowMerge a b fill = true) : a.sz + b.sz ≤ 65547 := by
  have size : uint32 ((a.sz : Int) + b.sz - 11) = a.sz + b.sz - 11 := by
    unfold uint32
    omega
  unfold _quicklistNodeAllowMerge at allowed
  rw [size] at allowed
  dsimp only at allowed
  split at allowed
  next meets =>
    unfold _quicklistNodeSizeMeetsOptimizationRequirement at meets
    split at meets
    · cases meets
    · split at meets
      · cases meets
      next level found =>
        have bound : level ≤ 65536 := by
          have inside := mem_of_getElem? found
          simp [optimizationLevel] at inside
          omega
        have := of_decide_eq_true meets
        omega
  next =>
    split at allowed
    · cases allowed
    next safe =>
      have limit : sizeSafetyLimit = 8192 := rfl
      omega

variable {lzf : Lzf}

section

variable {ql : Quicklist} {front back : List Cell} {n : Nat} {values : List Bytes}

theorem Good.decompress (good : Good lzf ql (front ++ (n, values) :: back)) :
    ∃ node, ql.modify n (quicklistDecompressNode lzf) = .ok (ql.set n node) ∧ node.encoding = .raw ∧
      Good lzf (ql.set n node) (front ++ (n, values) :: back) ∧ ∀ cells, Tames ql (ql.set n node) cells := by
  obtain ⟨node, found, stored⟩ := good.found
  obtain ⟨zl, plain, holds⟩ := stored.zl
  have shape := decompress_plain plain
  refine ⟨_, modify_ok _ found, by rw [shape], ?_, fun cells => tames_set cells found (by rw [shape])⟩
  refine good.set _ values found (stored.recode (recoded_decompress plain)) ?_
  rintro ⟨_, unflagged⟩
  rw [shape]
  exact ⟨rfl, unflagged⟩

theorem Good.opened {node : QuicklistNode} (good : Good lzf ql (front ++ (n, values) :: back))
    (found : ql.node n = some node) (raw : node.encoding = .raw) : Holds node.zl values ∧ node.count = values.length := by
  obtain ⟨_, again, _, _, _, count, holds, _⟩ := good.holds ⟨node, found, raw, rfl⟩
  rw [found] at again
  cases again
  exact ⟨holds, count⟩

end

theorem pair_left (front back : List Cell) (a b : Cell) : front ++ a :: b :: back = (front ++ [a]) ++ b :: back := by simp

theorem quicklistZiplistMerge_ok {front back : List Cell} {a b : Nat} {va vb : List Bytes}
    (good : Good lzf ql (front ++ (a, va) :: (b, vb) :: back)) (small : widest (va ++ vb) < 2 ^ 32)
    (few : (va ++ vb).length < 65536) :
    ∃ ql' keep, _quicklistZiplistMerge lzf ql a b = .ok (ql', keep) ∧
      Good lzf ql' (front ++ (keep, va ++ vb) :: back) ∧ ql'.count = ql.count ∧ (keep = a ∨ keep = b) ∧
      Tames ql ql' (front ++ (keep, va ++ vb) :: back) := by
  have apart : a ≠ b := Ne.symm (good.apart (mem_append_right front mem_cons_self))
  obtain ⟨nodeA, ranA, rawA, goodA, tamesA⟩ := good.decompress
  rw [pair_left] at goodA
  obtain ⟨nodeB, ranB, rawB, goodB, tamesB⟩ := goodA.decompress
  have opens (cells : List Cell) := (tamesA cells).trans (tamesB cells)
  have foundA : ((ql.set a nodeA).set b nodeB).node a = some nodeA := by simp [Quicklist.set, apart]
  have foundB : ((ql.set a nodeA).set b nodeB).node b = some nodeB := by simp [Quicklist.set]
  obtain ⟨holdsB, _⟩ := goodB.opened foundB rawB
  have presentB : vb ≠ [] := goodB.nonempty (b, vb) (by simp)
  have presentA : va ≠ [] := goodB.nonempty (a, va) (by simp)
  rw [← pair_left] at goodB
  obtain ⟨holdsA, _⟩ := goodB.opened foundA rawA
  generalize open_eq : (ql.set a nodeA).set b nodeB = ql₂ at *
  have count₂ : ql₂.count = ql.count := by rw [← open_eq]; rfl
  obtain ⟨merged, append, merges, holds⟩ := holdsA.merge holdsB presentA presentB small
  obtain ⟨zl, counts, holds⟩ := holds.len small
  have present : va ++ vb ≠ [] := by simp [presentA]
  -- Both buffers end in the same state; only the node that keeps it differs.
  cases append with
  | true =>
    have good₃ := goodB.store foundA rawA holds present few
    have stored := storeZl_ok nodeA holds small few
    generalize kept_eq : { nodeA with zl := zl, sz := zl.length, count := (va ++ vb).length } = kept at good₃ stored
    rw [pair_left] at good₃
    obtain ⟨ql₄, deleted, good₄, count₄, removed⟩ := good₃.delNode { nodeB with zl := [], count := 0 } ql₂.count
    rw [append_assoc, singleton_append] at good₄ removed
    obtain ⟨ql', compressed, good', recodes⟩ := good₄.quicklistCompress a (by simp)
    have stores (cells : List Cell) : Tames ql (ql₂.set a kept) cells :=
      (opens cells).trans (tames_set cells foundA (by rw [← kept_eq]))
    refine ⟨ql', a, ?_, good', ?_, .inl rfl,
      ((stores _).trans removed).trans (good₄.tames recodes.steady fun m _ => recodes.carries m)⟩
    · have deleted' : __quicklistDelNode lzf ((ql₂.set a kept).set b { nodeB with zl := [], count := 0 }) b = .ok ql₄ := deleted
      simp only [_quicklistZiplistMerge, ranA, ranB, ok_bind, get_ok foundA,
        get_ok foundB, rawZl_ok rawA, rawZl_ok rawB, merges, counts, ofZiplist, if_true, stored,
        deleted', compressed]
      rfl
    · rw [recodes.fields.2.1, count₄, sub64_of_le _ _ (Nat.zero_le _), count₂]
      rfl
  | false =>
    rw [pair_left] at goodB
    have good₃ := goodB.store foundB rawB holds present few
    have stored := storeZl_ok nodeB holds small few
    generalize kept_eq : { nodeB with zl := zl, sz := zl.length, count := (va ++ vb).length } = kept at good₃ stored
    rw [← pair_left] at good₃
    obtain ⟨ql₄, deleted, good₄, count₄, removed⟩ := good₃.delNode { nodeA with zl := [], count := 0 } ql₂.count
    obtain ⟨ql', compressed, good', recodes⟩ := good₄.quicklistCompress b (by simp)
    have stores (cells : List Cell) : Tames ql (ql₂.set b kept) cells :=
      (opens cells).trans (tames_set cells foundB (by rw [← kept_eq]))
    refine ⟨ql', b, ?_, good', ?_, .inr rfl,
      ((stores _).trans removed).trans (good₄.tames recodes.steady fun m _ => recodes.carries m)⟩
    · have deleted' : __quicklistDelNode lzf ((ql₂.set b kept).set a { nodeA with zl := [], count := 0 }) a = .ok ql₄ := deleted
      simp only [_quicklistZiplistMerge, ranA, ranB, ok_bind, get_ok foundA,
        get_ok foundB, rawZl_ok rawA, rawZl_ok rawB, merges, counts, ofZiplist, Bool.false_eq_true,
        if_false, stored, deleted', compressed]
      rfl
    · rw [recodes.fields.2.1, count₄, sub64_of_le _ _ (Nat.zero_le _), count₂]
      rfl

theorem mergeIfAllowed_pair {front back : List Cell} {a b : Nat} (other : Nat) {va vb : List Bytes}
    (good : Good lzf ql (front ++ (a, va) :: (b, vb) :: back))
    (small : Bounded (2 ^ 31) (front ++ (a, va) :: (b, vb) :: back)) :
    ∃ ql' target middle, mergeIfAllowed lzf ql (some a) (some b) other = .ok (ql', target) ∧
      Good lzf ql' (front ++ middle ++ back) ∧ Bounded (2 ^ 31) (front ++ middle ++ back) ∧ ql'.count = ql.count ∧
      (∀ spare (inner inner' : Prop), (inner → front ≠ [] ∧ back ≠ [] ∧ inner') →
        Clear (spare + 1) inner ql (front ++ (a, va) :: (b, vb) :: back) → Clear spare inner' ql' (front ++ middle ++ back)) ∧
      (target = other ∧ middle = [(a, va), (b, vb)] ∨ middle = [(target, va ++ vb)]) := by
  obtain ⟨nodeA, foundA, storedA⟩ := good.found
  obtain ⟨nodeB, foundB, storedB⟩ := good.nodes (b, vb) (by simp)
  have pair : front ++ (a, va) :: (b, vb) :: back = front ++ [(a, va), (b, vb)] ++ back := by simp
  have tested : allowsMerge ql (some a) (some b) = .ok (_quicklistNodeAllowMerge nodeA nodeB ql.fill) := by
    simp only [allowsMerge, get_ok foundA, get_ok foundB, ok_bind]
    rfl
  cases allowed : _quicklistNodeAllowMerge nodeA nodeB ql.fill with
  | false =>
    refine ⟨ql, other, [(a, va), (b, vb)], ?_, by simpa using good, by simpa using small, rfl,
      fun spare inner inner' place clear => ?_, .inl ⟨rfl, rfl⟩⟩
    · simp only [mergeIfAllowed, tested, allowed, ok_bind]
      rfl
    · rw [pair] at clear
      exact clear.swap (fun m inside => .inl inside) place (by omega)
  | true =>
    obtain ⟨zlA, plainA, holdsA⟩ := storedA.zl
    obtain ⟨zlB, plainB, holdsB⟩ := storedB.zl
    have longA := holdsA.length_le zlA va
    have longB := holdsB.length_le zlB vb
    have entriesA := holdsA.entries_le zlA va
    have entriesB := holdsB.entries_le zlB vb
    have narrowA := holdsA.widest_le zlA va
    have narrowB := holdsB.widest_le zlB vb
    have sum := widest_append va vb
    have belowA := small.node
    have belowB : widest vb < 2 ^ 31 := small (b, vb) (by simp)
    rw [← plainA.size] at longA entriesA narrowA
    rw [← plainB.size] at longB entriesB narrowB
    have sizes := allowMerge_small (by omega) (by rw [storedA.count]; exact entriesA) allowed
    have few : (va ++ vb).length < 65536 := by rw [length_append]; omega
    obtain ⟨ql', keep, ran, good', count', kept, tames⟩ := quicklistZiplistMerge_ok good (by omega) few
    rw [append_cons, ← singleton_append] at good' tames
    refine ⟨ql', keep, [(keep, va ++ vb)], ?_, by simpa using good', ?_, count', fun spare inner inner' place clear => ?_, .inr rfl⟩
    · simp only [mergeIfAllowed, tested, allowed, ok_bind, ran]
    · intro cell inside
      simp only [append_assoc, singleton_append] at inside
      rcases (mem_middle).mp inside with rfl | elsewhere
      · dsimp only
        omega
      · exact small cell (by simp only [mem_append, mem_cons] at elsewhere ⊢; tauto)
    · rw [pair] at clear
      have fewer : Clear spare inner' ql (front ++ [(keep, va ++ vb)] ++ back) :=
        clear.swap (fun m inside => .inl (by simpa [mem_singleton.mp inside] using kept)) place (by simp)
      exact fewer.tamed tames

theorem mergeIfAllowed_none (ql : Quicklist) {a b : Option Nat} (other : Nat) (missing : a = none ∨ b = none) :
    mergeIfAllowed lzf ql a b other = .ok (ql, other) := by
  rcases missing with rfl | rfl
  · cases b <;> rfl
  · cases a <;> rfl

theorem Good.next_next {front back : List Cell} {cell : Cell}
    (good : Good lzf ql (front ++ cell :: back)) : (ids back).head?.bind ql.next = (ids back.tail).head? := by
  cases back with
  | nil => rfl
  | cons second back =>
    rw [pair_left] at good
    exact good.next.1

-- More than these many nodes on both sides.
def Inner (before after : Nat) (front back : List Cell) : Prop := before < front.length ∧ after < back.length

theorem Inner.outer {a b : Nat} {front back : List Cell} (inner : Inner a b front back) : front ≠ [] ∧ back ≠ [] :=
  ⟨ne_nil_of_length_pos (Nat.zero_lt_of_lt inner.1), ne_nil_of_length_pos (Nat.zero_lt_of_lt inner.2)⟩

section

variable {ql : Quicklist} {front back : List Cell} {center : Nat} {values : List Bytes}
  (good : Good lzf ql (front ++ (center, values) :: back))
  (small : Bounded (2 ^ 31) (front ++ (center, values) :: back))

include good small

theorem merge_front :
    ∃ ql' front' other, mergeIfAllowed lzf ql ((ql.prev center).bind ql.prev) (ql.prev center) center = .ok (ql', other) ∧
      Good lzf ql' (front' ++ (center, values) :: back) ∧ Bounded (2 ^ 31) (front' ++ (center, values) :: back) ∧
      contents front' = contents front ∧ ql'.count = ql.count ∧
      (Clear 4 (Inner 2 2 front back) ql (front ++ (center, values) :: back) →
        Clear 3 (Inner 1 2 front' back) ql' (front' ++ (center, values) :: back)) := by
  have prev := good.next.2
  cases front using List.reverseRecOn with
  | nil =>
    exact ⟨ql, [], center, mergeIfAllowed_none ql center (.inr prev), good, small, rfl, rfl,
      fun clear => clear.lose fun inside => absurd inside.1 (by simp)⟩
  | append_singleton front b =>
    obtain ⟨b, vb⟩ := b
    rw [append_assoc, singleton_append] at good small ⊢
    rw [ids_append, ids_cons, ids_nil, getLast?_concat] at prev
    have prev_prev := good.next.2
    cases front using List.reverseRecOn with
    | nil =>
      refine ⟨ql, [(b, vb)], center, mergeIfAllowed_none ql center (.inl ?_), good, small, rfl, rfl,
        fun clear => clear.lose fun inside => absurd inside.1 (by simp)⟩
      rw [prev]
      exact prev_prev
    | append_singleton front a =>
      obtain ⟨a, va⟩ := a
      rw [ids_append, ids_cons, ids_nil, getLast?_concat] at prev_prev
      rw [← pair_left] at good small
      obtain ⟨ql', target, middle, ran, good', small', count', clear', shape⟩ :=
        mergeIfAllowed_pair center good small
      refine ⟨ql', front ++ middle, target, ?_, good', small', ?_, count', fun clear => clear' 3 _ _ ?_ (by simpa using clear)⟩
      · rw [prev, Option.bind_some, prev_prev]
        exact ran
      · rcases shape with ⟨_, rfl⟩ | rfl <;> simp
      · rintro ⟨long, some_back⟩
        have left : 0 < front.length := by simpa using long
        have still : 0 < middle.length := by rcases shape with ⟨_, rfl⟩ | rfl <;> simp
        exact ⟨ne_nil_of_length_pos left, cons_ne_nil _ _, by rw [length_append]; omega, some_back⟩

theorem merge_back :
    ∃ ql' back' other, mergeIfAllowed lzf ql (ids back).head? (ids back.tail).head? center = .ok (ql', other) ∧
      Good lzf ql' (front ++ (center, values) :: back') ∧ Bounded (2 ^ 31) (front ++ (center, values) :: back') ∧
      contents back' = contents back ∧ ql'.count = ql.count ∧
      (Clear 3 (Inner 1 2 front back) ql (front ++ (center, values) :: back) →
        Clear 2 (Inner 1 1 front back') ql' (front ++ (center, values) :: back')) := by
  match back with
  | [] =>
    exact ⟨ql, [], center, mergeIfAllowed_none ql center (.inl rfl), good, small, rfl, rfl,
      fun clear => clear.lose fun inside => absurd inside.2 (by simp)⟩
  | [(a, va)] =>
    exact ⟨ql, [(a, va)], center, mergeIfAllowed_none ql center (.inr rfl), good, small, rfl, rfl,
      fun clear => clear.lose fun inside => absurd inside.2 (by simp)⟩
  | (a, va) :: (b, vb) :: back =>
    rw [pair_left] at good small ⊢
    obtain ⟨ql', target, middle, ran, good', small', count', clear', shape⟩ :=
      mergeIfAllowed_pair center good small
    refine ⟨ql', middle ++ back, target, ran, by simpa using good', by simpa using small', ?_, count', fun clear => ?_⟩
    · rcases shape with ⟨_, rfl⟩ | rfl <;> simp
    · have place : Inner 1 2 front ((a, va) :: (b, vb) :: back) →
          front ++ [(center, values)] ≠ [] ∧ back ≠ [] ∧ Inner 1 1 front (middle ++ back) := by
        rintro ⟨some_front, long⟩
        have left : 0 < back.length := by simpa using long
        have still : 0 < middle.length := by rcases shape with ⟨_, rfl⟩ | rfl <;> simp
        exact ⟨by simp, ne_nil_of_length_pos left, some_front, by rw [length_append]; omega⟩
      simpa using clear' 2 _ _ place clear

theorem merge_center :
    ∃ ql' front' target values', mergeIfAllowed lzf ql (ql.prev center) (some center) center = .ok (ql', target) ∧
      Good lzf ql' (front' ++ (target, values') :: back) ∧ Bounded (2 ^ 31) (front' ++ (target, values') :: back) ∧
      contents front' ++ values' = contents front ++ values ∧ ql'.count = ql.count ∧
      (Clear 2 (Inner 1 1 front back) ql (front ++ (center, values) :: back) →
        Clear 1 (Inner 0 1 front' back) ql' (front' ++ (target, values') :: back)) := by
  have prev := good.next.2
  cases front using List.reverseRecOn with
  | nil =>
    exact ⟨ql, [], center, values, mergeIfAllowed_none ql center (.inl prev), good, small, rfl, rfl,
      fun clear => clear.lose fun inside => absurd inside.1 (by simp)⟩
  | append_singleton front b =>
    obtain ⟨b, vb⟩ := b
    rw [ids_append, ids_cons, ids_nil, getLast?_concat] at prev
    rw [append_assoc, singleton_append] at good small ⊢
    obtain ⟨ql', target, middle, ran, good', small', count', clear', shape⟩ :=
      mergeIfAllowed_pair center good small
    have place (front' : List Cell) (kept : front.length ≤ front'.length) : Inner 1 1 (front ++ [(b, vb)]) back →
        front ≠ [] ∧ back ≠ [] ∧ Inner 0 1 front' back := by
      intro place
      have left : 0 < front.length := by simpa using place.1
      exact ⟨ne_nil_of_length_pos left, place.outer.2, by omega, place.2⟩
    rcases shape with ⟨rfl, rfl⟩ | rfl
    · exact ⟨ql', front ++ [(b, vb)], _, values, by rw [prev]; exact ran, by simpa using good', by simpa using small',
        by simp, count', fun clear => by simpa using clear' 1 _ _ (place _ (by simp)) clear⟩
    · exact ⟨ql', front, target, vb ++ values, by rw [prev]; exact ran, by simpa using good', by simpa using small',
        by simp, count', fun clear => by simpa using clear' 1 _ _ (place _ le_rfl) clear⟩

theorem merge_next (other : Nat) :
    ∃ ql' cells' target, mergeIfAllowed lzf ql (some center) (ql.next center) other = .ok (ql', target) ∧
      Good lzf ql' cells' ∧ contents cells' = contents (front ++ (center, values) :: back) ∧ ql'.count = ql.count ∧
      (Clear 1 (Inner 0 1 front back) ql (front ++ (center, values) :: back) → ql'.exposed = false) := by
  have next := good.next.1
  match back with
  | [] => exact ⟨ql, _, other, mergeIfAllowed_none ql other (.inr next), good, rfl, rfl, fun clear => clear.hidden⟩
  | (b, vb) :: back =>
    obtain ⟨ql', target, middle, ran, good', _, count', clear', shape⟩ :=
      mergeIfAllowed_pair other good small
    refine ⟨ql', _, target, ?_, good', ?_, count', fun clear => (clear' 0 _ True ?_ clear).hidden⟩
    · rw [next]
      exact ran
    · rcases shape with ⟨_, rfl⟩ | rfl <;> simp
    · rintro ⟨some_front, long⟩
      exact ⟨ne_nil_of_length_pos some_front, ne_nil_of_length_pos (by simpa using long), trivial⟩

end

theorem quicklistMergeNodes_ok {front back : List Cell} {center : Nat} {values : List Bytes}
    (good : Good lzf ql (front ++ (center, values) :: back))
    (small : Bounded (2 ^ 31) (front ++ (center, values) :: back)) :
    ∃ ql' cells', _quicklistMergeNodes lzf ql center = .ok ql' ∧ Good lzf ql' cells' ∧
      contents cells' = contents (front ++ (center, values) :: back) ∧ ql'.count = ql.count ∧
      (Clear 4 (Inner 2 2 front back) ql (front ++ (center, values) :: back) → ql'.exposed = false) := by
  have same : contents (front ++ (center, values) :: back) = contents front ++ (values ++ contents back) := by simp
  have next := good.next.1
  have next_next := good.next_next
  obtain ⟨ql₁, front₁, _, ran₁, good₁, small₁, contents₁, count₁, clear₁⟩ := merge_front good small
  obtain ⟨ql₂, back₂, _, ran₂, good₂, small₂, contents₂, count₂, clear₂⟩ := merge_back good₁ small₁
  obtain ⟨ql₃, front₃, target, values₃, ran₃, good₃, small₃, contents₃, count₃, clear₃⟩ :=
    merge_center good₂ small₂
  have same₃ : contents (front₃ ++ (target, values₃) :: back₂) = contents (front ++ (center, values) :: back) := by
    rw [same, ← contents₂, ← append_assoc, ← contents₁, ← contents₃]
    simp
  obtain ⟨ql₄, cells₄, _, ran₄, good₄, contents₄, count₄, clear₄⟩ := merge_next good₃ small₃ center
  refine ⟨ql₄, cells₄, ?_, good₄, contents₄.trans same₃, by rw [count₄, count₃, count₂, count₁],
    fun clear => clear₄ (clear₃ (clear₂ (clear₁ clear)))⟩
  dsimp only at next
  simp only [_quicklistMergeNodes, ran₁, next, next_next, ran₂, ran₃, ran₄, ok_bind]
  rfl

end RedisCore.QuickList
