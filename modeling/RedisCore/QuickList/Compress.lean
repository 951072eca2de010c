import RedisCore.QuickList.Operations
import RedisCore.Ziplist.Values

set_option autoImplicit false
set_option linter.style.nameCheck false

namespace RedisCore.QuickList

open DoublyLinked List

variable {lzf : Lzf}
variable {n : Nat} {ql : Quicklist} {reached : Reached}

-- The ziplist that a node stands for. A compressed node never has its recompress flag set.
structure Plain (lzf : Lzf) (node : QuicklistNode) (zl : Bytes) : Prop where
  size : node.sz = zl.length
  raw : node.encoding = .raw → node.zl = zl
  packed : node.encoding = .lzf → lzf.compress zl = some node.zl ∧ node.recompress = false

structure Recoded (lzf : Lzf) (node node' : QuicklistNode) : Prop where
  count : node'.count = node.count
  plain : ∀ zl, Plain lzf node zl → Plain lzf node' zl
  flag : node'.recompress = true → node.recompress = true

section

variable (node : QuicklistNode) {zl : Bytes}

theorem Recoded.refl : Recoded lzf node node := ⟨rfl, fun _ plain => plain, id⟩

theorem recoded_compress : Recoded lzf node (quicklistCompressNode lzf node) := by
  unfold quicklistCompressNode
  split
  next is_raw =>
    unfold __quicklistCompressNode
    split
    · exact Recoded.refl node
    · split
      · exact Recoded.refl node
      next packed compressed =>
        split
        · exact Recoded.refl node
        · refine ⟨rfl, fun zl plain => ⟨plain.size, nofun, fun _ => ⟨?_, rfl⟩⟩, nofun⟩
          rwa [plain.raw is_raw, plain.size, take_length] at compressed
  next => exact Recoded.refl node

variable {node}

theorem decompress_plain (plain : Plain lzf node zl) :
    quicklistDecompressNode lzf node = { node with zl := zl, encoding := .raw } := by
  unfold quicklistDecompressNode
  cases encoding : node.encoding with
  | raw =>
    have same := plain.raw encoding
    cases node
    simp_all
  | lzf =>
    have back := lzf.lossless zl node.zl (plain.packed encoding).1
    rw [← plain.size] at back
    simp [__quicklistDecompressNode, back]

theorem use_plain (plain : Plain lzf node zl) : quicklistDecompressNodeForUse lzf node =
      { node with zl := zl, encoding := .raw, recompress := node.recompress || decide (node.encoding = .lzf) } := by
  have opened := decompress_plain plain
  unfold quicklistDecompressNode at opened
  unfold quicklistDecompressNodeForUse
  cases encoding : node.encoding with
  | raw =>
    have same := plain.raw encoding
    cases node
    simp_all
  | lzf =>
    rw [if_pos encoding] at opened
    simp [opened]

theorem recoded_decompress (plain : Plain lzf node zl) : Recoded lzf node (quicklistDecompressNode lzf node) := by
  rw [decompress_plain plain]
  refine ⟨rfl, fun zl' plain' => ⟨plain'.size, fun _ => ?_, nofun⟩, id⟩
  cases encoding : node.encoding with
  | raw => rw [← plain.raw encoding, ← plain'.raw encoding]
  | lzf =>
    have first := lzf.lossless zl node.zl (plain.packed encoding).1
    have second := lzf.lossless zl' node.zl (plain'.packed encoding).1
    rw [← plain.size] at first
    rw [← plain'.size, first] at second
    exact Option.some.inj second

end

def Raw (ql : Quicklist) (n : Nat) : Prop := ∃ node, ql.node n = some node ∧ node.encoding = .raw

def Sound (lzf : Lzf) (ql : Quicklist) (n : Nat) : Prop := ∃ node zl, ql.node n = some node ∧ Plain lzf node zl

structure Recodes (lzf : Lzf) (ql ql' : Quicklist) : Prop where
  shape : ql' = { ql with node := ql'.node }
  nodes : ∀ n node, ql.node n = some node → ∃ node', ql'.node n = some node' ∧ Recoded lzf node node'

section

variable {ql' ql'' : Quicklist} {node node' : QuicklistNode}

theorem Recodes.refl : Recodes lzf ql ql := ⟨rfl, fun _ node found => ⟨node, found, Recoded.refl node⟩⟩

theorem Recodes.trans (first : Recodes lzf ql ql') (second : Recodes lzf ql' ql'') : Recodes lzf ql ql'' := by
  refine ⟨?_, fun n node found => ?_⟩
  · rw [second.shape, first.shape]
  · obtain ⟨middle, found', recoded⟩ := first.nodes n node found
    obtain ⟨last, found'', recoded'⟩ := second.nodes n middle found'
    exact ⟨last, found'', recoded'.count.trans recoded.count, fun zl plain => recoded'.plain zl (recoded.plain zl plain),
      fun flag => recoded.flag (recoded'.flag flag)⟩

theorem Recodes.fields (recodes : Recodes lzf ql ql') : ql'.len = ql.len ∧ ql'.count = ql.count ∧
    ql'.fill = ql.fill ∧ ql'.compress = ql.compress ∧ ql'.exposed = ql.exposed := by
  rw [recodes.shape]
  exact ⟨rfl, rfl, rfl, rfl, rfl⟩

theorem Recodes.sound (recodes : Recodes lzf ql ql') (sound : Sound lzf ql n) : Sound lzf ql' n := by
  obtain ⟨node, zl, found, plain⟩ := sound
  obtain ⟨node', found', recoded⟩ := recodes.nodes n node found
  exact ⟨node', zl, found', recoded.plain zl plain⟩

theorem recodes_set (found : ql.node n = some node) (recoded : Recoded lzf node node') :
    Recodes lzf ql (ql.set n node') := by
  refine ⟨rfl, fun m other at_m => ?_⟩
  by_cases same : m = n
  · subst same
    rw [found] at at_m
    cases at_m
    exact ⟨node', by simp [Quicklist.set], recoded⟩
  · exact ⟨other, by simpa [Quicklist.set, same] using at_m, Recoded.refl other⟩

theorem raw_set {m : Nat} (raw : Raw ql m) (kept : m = n → node'.encoding = .raw) : Raw (ql.set n node') m := by
  by_cases same : m = n
  · exact ⟨node', by simp [Quicklist.set, same], kept same⟩
  · obtain ⟨node, found, encoding⟩ := raw
    exact ⟨node, by simpa [Quicklist.set, same] using found, encoding⟩

theorem get_ok (found : ql.node n = some node) : ql.get n = .ok node := by
  simp [Quicklist.get, found]

theorem modify_ok (f : QuicklistNode → QuicklistNode) (found : ql.node n = some node) :
    ql.modify n f = .ok (ql.set n (f node)) := by
  rw [Quicklist.modify, get_ok found]
  rfl

end

def Opens (lzf : Lzf) (ql : Quicklist) (n : Nat) : Prop :=
  ∃ node, ql.node n = some node ∧ (node.encoding = .lzf → ∃ zl, lzf.decompress node.zl node.sz = some zl)

-- Nothing has changed but that some of these nodes are decompressed.
structure Reopened (lzf : Lzf) (ids : List Nat) (ql ql' : Quicklist) : Prop where
  shape : ql' = { ql with node := ql'.node }
  nodes : ∀ n node, ql.node n = some node →
    ql'.node n = some node ∨ n ∈ ids ∧ ql'.node n = some (quicklistDecompressNode lzf node)

theorem decompress_twice (lzf : Lzf) (node : QuicklistNode) :
    quicklistDecompressNode lzf (quicklistDecompressNode lzf node) = quicklistDecompressNode lzf node := by
  by_cases packed : node.encoding = .lzf
  · cases opened : lzf.decompress node.zl node.sz with
    | none => simp [quicklistDecompressNode, __quicklistDecompressNode, packed, opened]
    | some zl => simp [quicklistDecompressNode, __quicklistDecompressNode, packed, opened]
  · simp [quicklistDecompressNode, packed]

theorem decompress_raw {node : QuicklistNode} (opens : node.encoding = .lzf → ∃ zl, lzf.decompress node.zl node.sz = some zl) :
    (quicklistDecompressNode lzf node).encoding = .raw := by
  cases encoding : node.encoding with
  | raw => simp [quicklistDecompressNode, encoding]
  | lzf =>
    obtain ⟨zl, opened⟩ := opens encoding
    simp [quicklistDecompressNode, __quicklistDecompressNode, encoding, opened]

section

variable {ids : List Nat} {ql' ql'' : Quicklist}

theorem Reopened.refl : Reopened lzf ids ql ql := ⟨rfl, fun _ _ found => .inl found⟩

theorem Reopened.trans (first : Reopened lzf ids ql ql') (second : Reopened lzf ids ql' ql'') : Reopened lzf ids ql ql'' := by
  refine ⟨by rw [second.shape, first.shape], fun n node found => ?_⟩
  rcases first.nodes n node found with same | ⟨inside, opened⟩
  · exact second.nodes n node same
  · rcases second.nodes n _ opened with same | ⟨_, again⟩
    · exact .inr ⟨inside, same⟩
    · exact .inr ⟨inside, by rw [again, decompress_twice]⟩

theorem Reopened.opens (reopened : Reopened lzf ids ql ql') (opens : Opens lzf ql n) : Opens lzf ql' n := by
  obtain ⟨node, found, packed⟩ := opens
  rcases reopened.nodes n node found with same | ⟨_, opened⟩
  · exact ⟨node, same, packed⟩
  · refine ⟨_, opened, fun still => ?_⟩
    rw [decompress_raw packed] at still
    cases still

theorem Reopened.recodes (reopened : Reopened lzf ids ql ql') (sound : ∀ n ∈ ids, Sound lzf ql n) : Recodes lzf ql ql' := by
  refine ⟨reopened.shape, fun n node found => ?_⟩
  rcases reopened.nodes n node found with same | ⟨inside, opened⟩
  · exact ⟨node, same, Recoded.refl node⟩
  · obtain ⟨same, zl, again, plain⟩ := sound n inside
    obtain rfl := Option.some.inj (found.symm.trans again)
    exact ⟨_, opened, recoded_decompress plain⟩

theorem Sound.opens (sound : Sound lzf ql n) : Opens lzf ql n := by
  obtain ⟨node, zl, found, plain⟩ := sound
  refine ⟨node, found, fun packed => ⟨zl, ?_⟩⟩
  rw [plain.size]
  exact lzf.lossless zl node.zl (plain.packed packed).1

theorem decompress_ok (inside : n ∈ ids) (opens : Opens lzf ql n) :
    ∃ ql', onNode ql (some n) (quicklistDecompressNode lzf) = .ok ql' ∧ Reopened lzf ids ql ql' ∧ Raw ql' n ∧
      ∀ m, Raw ql m → Raw ql' m := by
  obtain ⟨node, found, packed⟩ := opens
  have is_raw := decompress_raw packed
  refine ⟨_, modify_ok _ found, ⟨rfl, fun m other at_m => ?_⟩, ?_, ?_⟩
  · by_cases same : m = n
    · subst same
      obtain rfl := Option.some.inj (found.symm.trans at_m)
      exact .inr ⟨inside, by simp [Quicklist.set]⟩
    · exact .inl (by simpa [Quicklist.set, same] using at_m)
  · exact ⟨_, by simp [Quicklist.set], is_raw⟩
  · exact fun m raw => raw_set raw fun _ => is_raw

end

theorem compress_ok (lzf : Lzf) (ql : Quicklist) (target : Option Nat) (present : ∀ n, target = some n → ∃ node, ql.node n = some node) :
    ∃ ql', onNode ql target (quicklistCompressNode lzf) = .ok ql' ∧ Recodes lzf ql ql' ∧
      ∀ m, Raw ql m → target ≠ some m → Raw ql' m := by
  cases target with
  | none => exact ⟨ql, rfl, Recodes.refl, fun m raw _ => raw⟩
  | some n =>
    obtain ⟨node, found⟩ := present n rfl
    refine ⟨_, modify_ok _ found, recodes_set found (recoded_compress node), fun m raw other => ?_⟩
    exact raw_set raw fun same => absurd (same ▸ rfl) other

theorem compress_twice (lzf : Lzf) (node : QuicklistNode) :
    quicklistCompressNode lzf (quicklistCompressNode lzf node) = quicklistCompressNode lzf node := by
  by_cases raw : (quicklistCompressNode lzf node).encoding = .raw
  · have same : quicklistCompressNode lzf node = node := by
      unfold quicklistCompressNode __quicklistCompressNode at raw ⊢
      split_ifs at raw ⊢
      · rfl
      · split at raw
        · rfl
        · split_ifs at raw ⊢
          rfl
      · rfl
    rw [same, same]
  · rw [quicklistCompressNode, if_neg raw]

theorem compress_cell {ql' : Quicklist} {target : Option Nat} {cell : QuicklistNode}
    (ran : onNode ql target (quicklistCompressNode lzf) = .ok ql') (found : ql.node n = some cell) :
    ql'.node n = some (if target = some n then quicklistCompressNode lzf cell else cell) := by
  cases target with
  | none =>
    cases ran
    exact found
  | some m =>
    obtain ⟨node, at_m, rfl⟩ : ∃ node, ql.node m = some node ∧ ql.set m (quicklistCompressNode lzf node) = ql' := by
      cases at_m : ql.node m with
      | none => simp [onNode, Quicklist.modify, Quicklist.get, at_m] at ran
      | some node => exact ⟨node, rfl, Except.ok.inj ((modify_ok _ at_m).symm.trans ran)⟩
    by_cases same : m = n
    · subst same
      cases found.symm.trans at_m
      simp [Quicklist.set]
    · simpa [Quicklist.set, same, Ne.symm same] using found

structure Chain (ql : Quicklist) (ids : List Nat) : Prop where
  linked : Linked ql.prev ql.next none ids none
  distinct : ids.Nodup
  head : ql.head = ids.head?
  tail : ql.tail = ids.getLast?
  old : ∀ n ∈ ids, n < ql.fresh

theorem Chain.recode {ql' : Quicklist} {ids : List Nat} (chain : Chain ql ids) (recodes : Recodes lzf ql ql') :
    Chain ql' ids := by
  rw [recodes.shape]
  exact { chain with }

section

variable (node : Option Nat) (ids : List Nat)

-- What the loop leaves: the outer nodes on both sides are raw and forward and reverse stand behind them.
def Walked (ql : Quicklist) (rounds : Nat) : Option Reached → Prop
  | none => ids.length + 1 = 2 * rounds ∧ ∀ n ∈ ids, Raw ql n
  | some reached => ∃ front middle back, ids = front ++ middle ++ back ∧ front.length = rounds ∧
      back.length = rounds ∧ reached.forward = (middle ++ back).head? ∧
      reached.reverse = (front ++ middle).getLast? ∧ (∀ n ∈ front ++ back, Raw ql n) ∧
      (reached.inDepth = false → ∀ n ∈ front ++ back, node ≠ some n)

theorem compressWalk_opens (rounds : Nat) (ql : Quicklist) (front middle back : List Nat) (inDepth : Bool)
    (shape : ids = front ++ middle ++ back) (linked : Linked ql.prev ql.next none ids none) (distinct : ids.Nodup)
    (opens : ∀ n ∈ ids, Opens lzf ql n) (enough : 2 * rounds ≤ middle.length + 1)
    (level : back.length = front.length) (raw : ∀ n ∈ front ++ back, Raw ql n)
    (seen : inDepth = false → ∀ n ∈ front ++ back, node ≠ some n) :
    ∃ ql' reached, compressWalk lzf node rounds ql (middle ++ back).head? (front ++ middle).getLast? inDepth =
        .ok (ql', reached) ∧ Reopened lzf ids ql ql' ∧ Walked node ids ql' (front.length + rounds) reached := by
  induction rounds generalizing ql front middle back inDepth with
  | zero =>
    exact ⟨ql, _, rfl, .refl, front, middle, back, shape, rfl, level, rfl, rfl, raw, seen⟩
  | succ rounds ih =>
    cases middle with
    | nil =>
      rw [length_nil] at enough
      omega
    | cons f middle =>
      have f_mem : f ∈ ids := by simp [shape]
      obtain ⟨ql₁, opened, reopened₁, raw_f, keeps₁⟩ := decompress_ok f_mem (opens f f_mem)
      cases middle using List.reverseRecOn with
      | nil =>
        -- forward and reverse are the same node
        obtain ⟨ql₂, again, reopened₂, _, keeps₂⟩ := decompress_ok f_mem (reopened₁.opens (opens f f_mem))
        refine ⟨ql₂, none, ?_, reopened₁.trans reopened₂, ?_, fun n inside => ?_⟩
        · simp [compressWalk, opened, again]
        · simp only [shape, length_append, length_singleton] at enough ⊢
          omega
        · rw [shape] at inside
          simp only [mem_append, mem_singleton] at inside
          rcases inside with (in_front | rfl) | in_back
          · exact keeps₂ n (keeps₁ n (raw n (by simp [in_front])))
          · exact keeps₂ n raw_f
          · exact keeps₂ n (keeps₁ n (raw n (by simp [in_back])))
      | append_singleton middle r =>
        have r_mem : r ∈ ids := by simp [shape]
        obtain ⟨ql₂, again, reopened₂, raw_r, keeps₂⟩ := decompress_ok r_mem (reopened₁.opens (opens r r_mem))
        have reopened := reopened₁.trans reopened₂
        have prev_same : ql₂.prev = ql.prev := by rw [reopened.shape]
        have next_same : ql₂.next = ql.next := by rw [reopened.shape]
        have around_f : ids = front ++ f :: (middle ++ r :: back) := by simp [shape]
        have around_r : ids = (front ++ f :: middle) ++ r :: back := by simp [shape]
        have apart : f ≠ r := by
          rw [around_f] at distinct
          have := (nodup_cons.mp (nodup_append.mp distinct).2.1).1
          rintro rfl
          simp at this
        have forth : ql.next f = (middle ++ r :: back).head? :=
          (Linked.at_cell (around_f ▸ linked)).2
        have back_r : ql.prev r = (front ++ f :: middle).getLast? :=
          (Linked.at_cell (around_r ▸ linked)).1
        have raw' : ∀ n ∈ (front ++ [f]) ++ (r :: back), Raw ql₂ n := by
          intro n inside
          simp only [mem_append, mem_cons, not_mem_nil, or_false] at inside
          rcases inside with (in_front | rfl) | rfl | in_back
          · exact keeps₂ n (keeps₁ n (raw n (by simp [in_front])))
          · exact keeps₂ n raw_f
          · exact raw_r
          · exact keeps₂ n (keeps₁ n (raw n (by simp [in_back])))
        have seen' : (inDepth || decide (some f = node) || decide (some r = node)) = false →
            ∀ n ∈ (front ++ [f]) ++ (r :: back), node ≠ some n := by
          intro unseen n inside
          simp only [Bool.or_eq_false_iff, decide_eq_false_iff_not] at unseen
          simp only [mem_append, mem_cons, not_mem_nil, or_false] at inside
          rcases inside with (in_front | rfl) | rfl | in_back
          · exact seen unseen.1.1 n (by simp [in_front])
          · exact Ne.symm unseen.1.2
          · exact Ne.symm unseen.2
          · exact seen unseen.1.1 n (by simp [in_back])
        obtain ⟨ql', reached, walked, reopened', result⟩ := ih ql₂ (front ++ [f]) middle (r :: back) _
          (by simp [shape]) (by rw [prev_same, next_same]; exact linked)
          (fun n inside => reopened.opens (opens n inside))
          (by simp at enough; omega) (by simp [level]) raw' seen'
        refine ⟨ql', reached, ?_, reopened.trans reopened', ?_⟩
        · have first : (f :: (middle ++ [r]) ++ back).head? = some f := rfl
          have last : (front ++ f :: (middle ++ [r])).getLast? = some r := by
            rw [← cons_append, ← append_assoc, getLast?_concat]
          rw [first, last, compressWalk, opened]
          simp only [ok_bind, again, Option.some.injEq, apart, if_false, next_same, prev_same, forth, back_r]
          rw [← walked]
          simp
        · rwa [length_append, length_singleton, Nat.add_assoc, Nat.add_comm 1] at result

end

def Idle (ql : Quicklist) : Prop := ql.compress = 0 ∨ ql.len < 2 * ql.compress

instance (ql : Quicklist) : Decidable (Idle ql) := inferInstanceAs (Decidable (_ ∨ _))

def IsEnd (ids : List Nat) (n : Nat) : Prop := ids.head? = some n ∨ ids.getLast? = some n

theorem IsEnd.mem {ids : List Nat} (is_end : IsEnd ids n) : n ∈ ids :=
  is_end.elim mem_of_head? mem_of_getLast?

theorem head_ne_last {cells : List Nat} (distinct : cells.Nodup) (two : 1 < cells.length)
    (head : cells.head? = some n) : cells.getLast? ≠ some n := by
  match cells with
  | [_] => simp at two
  | a :: b :: rest =>
    obtain rfl : a = n := by simpa using head
    rw [getLast?_cons_cons]
    exact fun last => (nodup_cons.mp distinct).1 (mem_of_getLast? last)

section

variable {front middle back : List Nat} {n : Nat} (distinct : (front ++ middle ++ back).Nodup)
  (is_end : IsEnd (front ++ middle ++ back) n)

include is_end

theorem end_inside (left : front ≠ []) (right : back ≠ []) : n ∈ front ++ back := by
  rcases is_end with head | last
  · rw [append_assoc, head?_append_of_ne_nil front left] at head
    simp [mem_of_head? head]
  · rw [getLast?_append_of_ne_nil _ right] at last
    simp [mem_of_getLast? last]

include distinct

theorem forward_inner (left : front ≠ []) (deep : 1 < back.length) : (middle ++ back).head? ≠ some n := by
  intro forward
  have nodup := distinct
  rw [append_assoc, nodup_append] at nodup
  rcases is_end with head | last
  · rw [append_assoc, head?_append_of_ne_nil front left] at head
    exact nodup.2.2 n (mem_of_head? head) n (mem_of_head? forward) rfl
  · have right : middle ++ back ≠ [] := fun empty => by simp_all
    rw [append_assoc, getLast?_append_of_ne_nil _ right] at last
    exact head_ne_last nodup.2.1 (by rw [length_append]; omega) forward last

theorem reverse_inner (deep : 1 < front.length) (right : back ≠ []) : (front ++ middle).getLast? ≠ some n := by
  intro reverse
  have nodup := nodup_append.mp distinct
  rcases is_end with head | last
  · have left : front ++ middle ≠ [] := fun empty => by simp_all
    rw [head?_append_of_ne_nil _ left] at head
    exact head_ne_last nodup.1 (by rw [length_append]; omega) head reverse
  · rw [getLast?_append_of_ne_nil _ right] at last
    exact nodup.2.2 n (mem_of_getLast? reverse) n (mem_of_getLast? last) rfl

end

theorem compressBeyond_keeps (lzf : Lzf) (ql : Quicklist) (node : Option Nat) (reached : Reached)
    (present : ∀ n, node = some n ∨ reached.forward = some n ∨ reached.reverse = some n → ∃ cell, ql.node n = some cell) :
    ∃ ql', compressBeyond lzf node ql reached = .ok ql' ∧ Recodes lzf ql ql' ∧
      (∀ n, Raw ql n → (reached.inDepth = false → node ≠ some n) →
        (1 < ql.compress → reached.forward ≠ some n ∧ reached.reverse ≠ some n) → Raw ql' n) ∧
      ∀ n cell, 1 < ql.compress → reached.forward = some n ∨ reached.reverse = some n → ql.node n = some cell →
        ql'.node n = some (quicklistCompressNode lzf cell) := by
  obtain ⟨ql₁, ran₁, recodes₁, keeps₁⟩ := compress_ok lzf ql (if reached.inDepth then none else node) (by
    intro n chosen
    split at chosen
    · cases chosen
    · exact present n (.inl chosen))
  have depth₁ : ql₁.compress = ql.compress := by rw [recodes₁.shape]
  obtain ⟨ql₂, ran₂, recodes₂, keeps₂⟩ := compress_ok lzf ql₁ (if 1 < ql₁.compress then reached.forward else none) (by
    intro n chosen
    split at chosen
    · obtain ⟨cell, found⟩ := present n (.inr (.inl chosen))
      obtain ⟨cell', found', _⟩ := recodes₁.nodes n cell found
      exact ⟨cell', found'⟩
    · cases chosen)
  have recodes := recodes₁.trans recodes₂
  have depth₂ : ql₂.compress = ql.compress := by rw [recodes.shape]
  obtain ⟨ql₃, ran₃, recodes₃, keeps₃⟩ := compress_ok lzf ql₂ (if 1 < ql₂.compress then reached.reverse else none) (by
    intro n chosen
    split at chosen
    · obtain ⟨cell, found⟩ := present n (.inr (.inr chosen))
      obtain ⟨cell', found', _⟩ := recodes.nodes n cell found
      exact ⟨cell', found'⟩
    · cases chosen)
  refine ⟨ql₃, ?_, recodes.trans recodes₃, fun n raw unseen beyond => ?_, fun n cell deep chosen found => ?_⟩
  · simp only [compressBeyond, ok_bind, ran₁, ran₂, ran₃]
  · rw [depth₁] at keeps₂
    rw [depth₂] at keeps₃
    refine keeps₃ n (keeps₂ n (keeps₁ n raw ?_) ?_) ?_
    · split
      · simp
      next shallow => exact unseen (by simpa using shallow)
    · split
      next deep => exact (beyond deep).1
      next => simp
    · split
      next deep => exact (beyond deep).2
      next => simp
  · have last := compress_cell ran₃ (compress_cell ran₂ (compress_cell ran₁ found))
    rw [depth₁, depth₂, if_pos deep, if_pos deep] at last
    rw [last]
    split_ifs
    all_goals simp_all [compress_twice]

theorem Walked.present {ids : List Nat} {node : Option Nat} {rounds : Nat}
    (walked : Walked node ids ql rounds (some reached)) :
    ∀ n, reached.forward = some n ∨ reached.reverse = some n → n ∈ ids := by
  obtain ⟨front, middle, back, rfl, _, _, forward, reverse, _⟩ := walked
  rintro n (chosen | chosen)
  · rw [forward] at chosen
    rw [append_assoc]
    exact mem_append_right _ (mem_of_head? chosen)
  · rw [reverse] at chosen
    exact mem_append_left _ (mem_of_getLast? chosen)

theorem compressBeyond_ok {ids : List Nat} {node : Option Nat}
    (positive : 0 < ql.compress) (distinct : ids.Nodup) (sound : ∀ n ∈ ids, Sound lzf ql n)
    (inside : ∀ n, node = some n → n ∈ ids) (walked : Walked node ids ql ql.compress (some reached)) :
    ∃ ql', compressBeyond lzf node ql reached = .ok ql' ∧ Recodes lzf ql ql' ∧ ∀ n, IsEnd ids n → Raw ql' n := by
  obtain ⟨ql', ran, recodes, keeps, -⟩ := compressBeyond_keeps lzf ql node reached (by
    intro n chosen
    obtain ⟨cell, _, found, _⟩ := sound n (chosen.elim (inside n) (walked.present n))
    exact ⟨cell, found⟩)
  obtain ⟨front, middle, back, rfl, front_length, back_length, forward, reverse, raw, seen⟩ := walked
  have left : front ≠ [] := ne_nil_of_length_pos (by omega)
  have right : back ≠ [] := ne_nil_of_length_pos (by omega)
  refine ⟨ql', ran, recodes, fun n is_end => ?_⟩
  -- An end of the list is none of the three nodes that are compressed.
  have outer := end_inside is_end left right
  refine keeps n (raw n outer) (fun unseen => seen unseen n outer) fun deep => ?_
  rw [forward, reverse]
  exact ⟨forward_inner distinct is_end left (by omega), reverse_inner distinct is_end (by omega) right⟩

theorem __quicklistCompress_unfold (node : Option Nat) (busy : ¬Idle ql) :
    __quicklistCompress lzf ql node = (do
      match ← compressWalk lzf node ql.compress ql ql.head ql.tail false with
      | (ql, none) => pure ql
      | (ql, some reached) => compressBeyond lzf node ql reached) := if_neg busy

theorem __quicklistCompress_ok {ids : List Nat} (node : Option Nat) (chain : Chain ql ids)
    (sound : ∀ n ∈ ids, Sound lzf ql n) (enough : ¬Idle ql → 2 * ql.compress ≤ ids.length + 1)
    (inside : ∀ n, node = some n → n ∈ ids) :
    ∃ ql', __quicklistCompress lzf ql node = .ok ql' ∧ Recodes lzf ql ql' ∧ (Idle ql → ql' = ql) ∧
      (¬Idle ql → (∀ n, IsEnd ids n → Raw ql' n) ∧
        (ids.length + 1 = 2 * ql.compress → ∀ n ∈ ids, Raw ql' n)) := by
  by_cases idle : Idle ql
  · exact ⟨ql, if_pos idle, Recodes.refl, fun _ => rfl, fun busy => absurd idle busy⟩
  have positive : 0 < ql.compress := Nat.pos_of_ne_zero fun zero => idle (.inl zero)
  obtain ⟨ql₁, reached, walk, reopened, walked⟩ := compressWalk_opens node ids ql.compress ql [] ids [] false
    (by simp) chain.linked chain.distinct (fun n inside => (sound n inside).opens) (enough idle) rfl (by simp) (by simp)
  have recodes₁ := reopened.recodes sound
  rw [append_nil, nil_append, ← chain.head, ← chain.tail] at walk
  rw [length_nil, Nat.zero_add] at walked
  have depth₁ : ql₁.compress = ql.compress := by rw [recodes₁.shape]
  rw [__quicklistCompress_unfold node idle, walk]
  cases reached with
  | none =>
    exact ⟨ql₁, rfl, recodes₁, fun absurd_idle => absurd absurd_idle idle,
      fun _ => ⟨fun n is_end => walked.2 n is_end.mem, fun _ => walked.2⟩⟩
  | some reached =>
    obtain ⟨ql₂, ran, recodes₂, ends⟩ := compressBeyond_ok (depth₁ ▸ positive) chain.distinct
      (fun n inside => recodes₁.sound (sound n inside)) inside (depth₁ ▸ walked)
    refine ⟨ql₂, ran, recodes₁.trans recodes₂, fun absurd_idle => absurd absurd_idle idle,
      fun _ => ⟨ends, fun short => ?_⟩⟩
    obtain ⟨front, middle, back, rfl, front_length, back_length, _⟩ := walked
    simp only [length_append] at short
    omega

end RedisCore.QuickList
