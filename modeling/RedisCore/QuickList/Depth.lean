import RedisCore.QuickList.Refinement

set_option autoImplicit false

namespace RedisCore.QuickList

open Ziplist Simulation List

variable {lzf : Lzf}

theorem NodeCorrect.same {ql : Quicklist} {stored : StoredNode} {zl : Bytes} (correct : NodeCorrect lzf ql stored)
    (plain : Plain lzf stored.node zl) : stored.zl = zl := by
  cases encoding : stored.node.encoding with
  | raw => exact (correct.raw encoding).symm.trans (plain.raw encoding)
  | lzf =>
    have one := lzf.lossless _ _ (correct.packed encoding)
    have other := lzf.lossless _ _ (plain.packed encoding).1
    rw [← correct.sz] at one
    rw [← plain.size] at other
    exact Option.some.inj (one.symm.trans other)

def afterOps (lzf : Lzf) (fill compress : Int) (ops : List Op) : Quicklist :=
  match runOut (step lzf) ops (quicklistNew fill compress) with
  | .ok (ql, _) => ql
  | .error _ => quicklistNew fill compress

theorem models_afterOps (lzf : Lzf) (fill compress : Int) (ops : List Op)
    (guarded : Guarded (step lzf) (fits lzf) (fun _ => true) ops (quicklistNew fill compress) = true) :
    Models lzf (afterOps lzf fill compress ops) (specOut specStep ops []).1 := by
  obtain ⟨ql, ran, represents⟩ := run_ok fill compress ops guarded
  have same : afterOps lzf fill compress ops = ql := by rw [afterOps, ran]
  rw [same]
  exact represents.models

def twoNodes : List Op := [1, 2, 3, 4, 5, 6].map fun v => .push .tail [v]

theorem outer_split (front middle back : List Nat) {depth : Nat} (left : front.length = depth) (right : back.length = depth) :
    (front ++ middle ++ back).take depth = front ∧
      (front ++ middle ++ back).drop ((front ++ middle ++ back).length - depth) = back := by
  constructor
  · rw [append_assoc, ← left, take_left]
  · rw [length_append, ← right, Nat.add_sub_cancel, drop_left]

theorem beyond_outer {front middle back : List Nat} (distinct : (front ++ middle ++ back).Nodup) (inner : middle ≠ []) {n : Nat}
    (outer : n ∈ front ++ back) : (middle ++ back).head? ≠ some n ∧ (front ++ middle).getLast? ≠ some n := by
  have apart : n ∉ middle := by
    intro inside
    rw [nodup_append, nodup_append] at distinct
    obtain ⟨⟨_, _, before⟩, _, after⟩ := distinct
    rcases mem_append.mp outer with in_front | in_back
    · exact before n in_front n inside rfl
    · exact after n (mem_append_right _ inside) n in_back rfl
  constructor
  · rw [head?_append_of_ne_nil middle inner]
    exact fun head => apart (mem_of_head? head)
  · rw [getLast?_append_of_ne_nil front inner]
    exact fun last => apart (mem_of_getLast? last)

-- A node that the compression would leave as it is: its ziplist is short or shrinks too little.
def Stays (lzf : Lzf) (ql : Quicklist) (n : Nat) : Prop :=
  ∀ node, ql.node n = some node → (quicklistCompressNode lzf (quicklistDecompressNode lzf node)).encoding = .raw

/-- The two nodes in the middle of a list of 2 * compress nodes. -/
def Innermost (ids : List Nat) (depth n : Nat) : Prop := (ids.take depth).getLast? = some n ∨ (ids.drop depth).head? = some n

-- Where the depths overlap, every node is an outer one.
theorem outer_of_short {ids : List Nat} {depth n : Nat} (few : ids.length < 2 * depth) (inside : n ∈ ids) :
    n ∈ ids.take depth ∨ n ∈ ids.drop (ids.length - depth) := by
  rw [← take_append_drop depth ids] at inside
  refine (mem_append.mp inside).imp id fun behind => ?_
  rw [← Nat.sub_add_cancel (show ids.length - depth ≤ depth by omega), Nat.add_comm, ← drop_drop] at behind
  exact mem_of_mem_drop behind

theorem Reopened.decompressed {ids : List Nat} {ql ql' : Quicklist} {n : Nat} {node : QuicklistNode} (reopened : Reopened lzf ids ql ql')
    (found : ql.node n = some node) (raw : Raw ql' n) : ql'.node n = some (quicklistDecompressNode lzf node) := by
  rcases reopened.nodes n node found with same | ⟨_, opened⟩
  · obtain ⟨_, again, encoding⟩ := raw
    cases again.symm.trans same
    rw [same, quicklistDecompressNode, if_neg (by simp [encoding])]
  · exact opened

variable (lzf) in
theorem quicklistCompress_depth_raw (ql : Quicklist) (ids : List Nat) (node : Option Nat) (chain : Chain ql ids)
    (counted : ql.len = ids.length) (opens : ∀ n ∈ ids, Opens lzf ql n)
    (present : ∀ n, node = some n → ∃ cell, ql.node n = some cell) :
    ∃ ql', __quicklistCompress lzf ql node = .ok ql' ∧ Chain ql' ids ∧
      ((∀ n, n ∈ ids.take ql.compress ∨ n ∈ ids.drop (ids.length - ql.compress) → Raw ql' n) ↔
        (ids.length < 2 * ql.compress → ∀ n ∈ ids, Raw ql n) ∧
        (ids.length = 2 * ql.compress → 2 ≤ ql.compress → ∀ n, Innermost ids ql.compress n → Stays lzf ql n)) := by
  by_cases idle : Idle ql
  · refine ⟨ql, if_pos idle, chain, fun raw => ⟨fun few n inside => raw n (outer_of_short few inside), ?_⟩, fun ⟨short, _⟩ n outer => ?_⟩
    · rintro even deep
      rcases idle with none | few <;> omega
    · rcases idle with none | few
      · simp [none] at outer
      · exact short (by omega) n (outer.elim mem_of_mem_take mem_of_mem_drop)
  have enough : 2 * ql.compress ≤ ids.length := by
    by_contra few
    exact idle (.inr (by omega))
  obtain ⟨ql₁, reached, walk, reopened, walked⟩ := compressWalk_opens node ids ql.compress ql [] ids [] false
    (by simp) chain.linked chain.distinct opens (by omega) rfl (by simp) (by simp)
  rw [append_nil, nil_append, ← chain.head, ← chain.tail] at walk
  rw [length_nil, Nat.zero_add] at walked
  have depth₁ : ql₁.compress = ql.compress := by rw [reopened.shape]
  have chain₁ : Chain ql₁ ids := by
    rw [reopened.shape]
    exact ⟨chain.linked, chain.distinct, chain.head, chain.tail, chain.old⟩
  rw [__quicklistCompress_unfold node idle, walk]
  cases reached with
  | none =>
    have odd := walked.1
    omega
  | some reached =>
    have exists_after (n : Nat) (before : ∃ cell, ql.node n = some cell) : ∃ cell, ql₁.node n = some cell := by
      obtain ⟨cell, found⟩ := before
      rcases reopened.nodes n cell found with same | ⟨_, opened⟩
      · exact ⟨_, same⟩
      · exact ⟨_, opened⟩
    obtain ⟨ql', ran, recodes, keeps, packs⟩ := compressBeyond_keeps lzf ql₁ node reached (by
      intro n chosen
      refine exists_after n (chosen.elim (present n) fun chosen => ?_)
      obtain ⟨cell, found, _⟩ := opens n (walked.present n chosen)
      exact ⟨cell, found⟩)
    refine ⟨ql', ran, chain₁.recode recodes, ?_⟩
    have reaches := walked.present
    obtain ⟨front, middle, back, rfl, front_length, back_length, forward, reverse, raw, seen⟩ := walked
    obtain ⟨first, last⟩ := outer_split front middle back front_length back_length
    rw [depth₁] at packs keeps
    simp only [first, last, ← mem_append]
    -- forward and reverse are outer nodes only if nothing is between the two sides
    by_cases inner : middle = [] ∧ 1 < ql.compress
    · obtain ⟨rfl, deep⟩ := inner
      have reached_iff (n : Nat) : Innermost (front ++ [] ++ back) ql.compress n ↔ reached.forward = some n ∨ reached.reverse = some n := by
        rw [Innermost, first, forward, reverse, append_nil, drop_left' front_length, nil_append, or_comm]
      have stays_iff (n : Nat) (innermost : Innermost (front ++ [] ++ back) ql.compress n) : Raw ql' n ↔ Stays lzf ql n := by
        have chosen := (reached_iff n).mp innermost
        have inside := reaches n chosen
        obtain ⟨cell, found, _⟩ := opens n inside
        have opened := reopened.decompressed found (raw n (by simpa using inside))
        simp only [Raw, Stays, packs n _ deep chosen opened, found, Option.some.injEq, exists_eq_left', forall_eq']
      constructor
      · refine fun all => ⟨fun few => by omega, fun _ _ n innermost => (stays_iff n innermost).mp (all n ?_)⟩
        simpa using reaches n ((reached_iff n).mp innermost)
      · rintro ⟨-, stays⟩ n outer
        by_cases innermost : Innermost (front ++ [] ++ back) ql.compress n
        · refine (stays_iff n innermost).mpr (stays ?_ deep n innermost)
          simp only [length_append, length_nil]
          omega
        · rw [reached_iff, not_or] at innermost
          exact keeps n (raw n outer) (fun unseen => seen unseen n outer) fun _ => innermost
    · refine ⟨fun _ => ⟨fun few => by omega, fun even deep => ?_⟩, fun _ n outer => keeps n (raw n outer) (fun unseen => seen unseen n outer) fun deep => ?_⟩
      · refine absurd ⟨length_eq_zero_iff.mp ?_, deep⟩ inner
        simp only [length_append] at even
        omega
      · rw [forward, reverse]
        exact beyond_outer chain.distinct (fun empty => inner ⟨empty, deep⟩) outer

def encodings (ql : Quicklist) : List (Option Encoding) :=
  (chainIds ql).map fun n => (ql.node n).map QuicklistNode.encoding

def encodingsAfter (lzf : Lzf) (ql : Quicklist) (node : Option Nat) : Option (List (Option Encoding)) :=
  match __quicklistCompress lzf ql node with
  | .ok ql => some (encodings ql)
  | .error _ => none

def fourNodes : List Op := List.replicate 4 (.push .tail run40)

def shrunk : List Op :=
  [.push .tail run40, .push .tail run40, .push .tail run40, .index 1, .pop .head, .pop .tail, .replace 0 run40]

theorem quicklistCompress_depth_raw_five : ∃ ids ql', ids.length = 5 ∧
    __quicklistCompress sampleLzf (afterOps sampleLzf 1 2 (fourNodes ++ [.push .tail run40])) none = .ok ql' ∧ Chain ql' ids ∧
    ∀ n, n ∈ ids.take 2 ∨ n ∈ ids.drop (ids.length - 2) → Raw ql' n := by
  obtain ⟨cells, good, _⟩ := models_afterOps sampleLzf 1 2 (fourNodes ++ [.push .tail run40]) (by decide +kernel)
  have five : (afterOps sampleLzf 1 2 (fourNodes ++ [.push .tail run40])).len = 5 := by decide +kernel
  have two : (afterOps sampleLzf 1 2 (fourNodes ++ [.push .tail run40])).compress = 2 := by decide +kernel
  have length : (ids cells).length = 5 := by rw [length_ids, ← good.len, five]
  obtain ⟨ql', ran, chain, outer⟩ := quicklistCompress_depth_raw sampleLzf _ (ids cells) none good.chain
    (by rw [good.len, length_ids]) (fun n inside => (good.sound n inside).opens) nofun
  rw [two, length] at outer
  exact ⟨ids cells, ql', length, ran, chain, length ▸ outer.mpr ⟨by omega, by omega⟩⟩

-- With twice as many nodes as the depth, forward and reverse have passed each other and stand on outer nodes. The second
-- list has one node, which was compressed because of its flag and is not looked at again.
theorem outer_nodes_compressed :
    (encodings (afterOps sampleLzf 1 2 fourNodes) = [some .raw, some .raw, some .raw, some .raw] ∧
      (afterOps sampleLzf 1 2 fourNodes).len = 4 ∧ (afterOps sampleLzf 1 2 fourNodes).compress = 2 ∧
      encodingsAfter sampleLzf (afterOps sampleLzf 1 2 fourNodes) none = some [some .raw, some .lzf, some .lzf, some .raw]) ∧
    ((afterOps sampleLzf 1 1 shrunk).len = 1 ∧ (afterOps sampleLzf 1 1 shrunk).compress = 1 ∧
      encodingsAfter sampleLzf (afterOps sampleLzf 1 1 shrunk) none = some [some .lzf]) ∧
    encodings (afterOps sampleLzf 1 2 (fourNodes ++ [.replace 0 run40])) = [some .raw, some .lzf, some .lzf, some .raw] := by
  refine ⟨⟨?_, ?_, ?_, ?_⟩, ⟨?_, ?_, ?_⟩, ?_⟩ <;> decide +kernel

end RedisCore.QuickList
