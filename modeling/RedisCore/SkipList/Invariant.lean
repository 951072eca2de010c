import RedisCore.SkipList.Delete

set_option autoImplicit false

namespace RedisCore.SkipList

open List

section

variable {S E : Type}

def chainFrom (zsl : Zskiplist S E) (i : Nat) : (fuel : Nat) → Ref → Option (List Nat)
  | 0, _ => none
  | fuel + 1, x =>
    match zsl.forward (x, i) with
    | none => some []
    | some y => (chainFrom zsl i fuel (some y)).map (y :: ·)

def chain (zsl : Zskiplist S E) (i : Nat) : Option (List Nat) := chainFrom zsl i (zsl.length + 1) none

def tallIds (i : Nat) (cells : List (Cell S E)) : List Nat :=
  (cells.filter fun c => i < c.node.height).map Cell.id

theorem chainFrom_ok {zsl : Zskiplist S E} {cells : List (Cell S E)} (linked : Linked zsl cells) (i fuel : Nat)
    (front after : List (Cell S E)) (shape : cells = front ++ after) (reaches : Reaches zsl.level front i)
    (enough : after.length < fuel) :
    chainFrom zsl i fuel (lastRef front) = some (tallIds i after) := by
  induction fuel generalizing front after with
  | zero => omega
  | succ fuel ih =>
    rw [chainFrom, (linked.links front after i shape reaches).1]
    rcases split_first_tall i after with short | ⟨gap, c, rest, rfl, short, tall⟩
    · have empty : tallIds i after = [] := by
        rw [tallIds, filter_eq_nil_iff.mpr (by simpa using short), map_nil]
      rw [(next_none short).1, empty]
    · have gap_empty : gap.filter (fun d => i < d.node.height) = [] :=
        filter_eq_nil_iff.mpr (by simpa using short)
      have step := ih (front ++ gap ++ [c]) rest (by rw [shape]; simp) ((reaches_concat _ _ _ _).mpr tall)
        (by simp at enough; omega)
      rw [lastRef_concat] at step
      rw [(next_found rest short tall).1]
      simp [step, tallIds, gap_empty, tall]

theorem chain_ok {zsl : Zskiplist S E} {cells : List (Cell S E)} (linked : Linked zsl cells) (i : Nat) :
    chain zsl i = some (tallIds i cells) := by
  rcases Nat.lt_or_ge i zsl.level with inside | above
  · exact chainFrom_ok linked i (zsl.length + 1) [] cells rfl inside (by rw [linked.length]; omega)
  · have empty : tallIds i cells = [] := by
      rw [tallIds, filter_eq_nil_iff.mpr, map_nil]
      intro c member
      have low := (linked.heights c member).2
      simp
      omega
    rw [chain, chainFrom, linked.above i above, empty]

theorem nextDist_le (i : Nat) (cells : List (Cell S E)) : nextDist i cells ≤ cells.length := by
  induction cells with
  | nil => exact le_rfl
  | cons c cells ih =>
    rw [nextDist, length_cons]
    split <;> omega

theorem cells_unique {zsl : Zskiplist S E} (xs ys : List (Cell S E))
    (xs_nodes : ∀ c ∈ xs, zsl.node c.id = some c.node) (ys_nodes : ∀ c ∈ ys, zsl.node c.id = some c.node)
    (same : xs.map Cell.id = ys.map Cell.id) : xs = ys := by
  induction xs generalizing ys with
  | nil => exact (map_eq_nil_iff.mp same.symm).symm
  | cons x xs ih =>
    cases ys with
    | nil => exact absurd same (by simp)
    | cons y ys =>
      obtain ⟨id_eq, rest⟩ := List.cons.inj same
      have node_eq : some x.node = some y.node := by
        rw [← xs_nodes x (by simp), ← ys_nodes y (by simp), id_eq]
      have head : x = y := by
        cases x
        cases y
        simp_all
      rw [head, ih ys (fun c member => xs_nodes c (by simp [member]))
        (fun c member => ys_nodes c (by simp [member])) rest]

theorem foldr_max_le (heights : List Nat) {level : Nat} (bound : ∀ h ∈ heights, h ≤ level) (low : 1 ≤ level) :
    heights.foldr max 1 ≤ level := by
  induction heights with
  | nil => exact low
  | cons h heights ih =>
    exact max_le (bound h (by simp)) (ih fun k member => bound k (mem_cons_of_mem _ member))

theorem le_foldr_max (heights : List Nat) : 1 ≤ heights.foldr max 1 ∧ ∀ h ∈ heights, h ≤ heights.foldr max 1 := by
  induction heights with
  | nil => simp
  | cons h heights ih =>
    refine ⟨le_max_of_le_right ih.1, fun k member => ?_⟩
    rcases mem_cons.mp member with rfl | inside
    · exact le_max_left _ _
    · exact le_max_of_le_right (ih.2 k inside)

end

section

variable {S E : Type} [LinearOrder S] [LinearOrder E]

def NodeLt (a b : ZskiplistNode S E) : Prop := a.score < b.score ∨ a.score = b.score ∧ a.ele < b.ele

def Sorted (cells : List (Cell S E)) : Prop := cells.Pairwise fun a b => NodeLt a.node b.node

-- The representation invariant; cells lists the nodes of the level-0 chain in order.
structure Invariant (zsl : Zskiplist S E) (cells : List (Cell S E)) : Prop where
  chains : ∀ i < zskiplistMaxlevel, chain zsl i = some (tallIds i cells)
  bottom : chain zsl 0 = some (cells.map Cell.id)
  nodes : ∀ c ∈ cells, zsl.node c.id = some c.node
  sorted : Sorted cells
  spans : ∀ front after i, cells = front ++ after → Reaches zsl.level front i →
    (zsl.span (lastRef front, i)).toNat = nextDist i after
  backward : ∀ front c after, cells = front ++ c :: after → zsl.backward c.id = lastRef front
  tail : zsl.tail = lastRef cells
  length : zsl.length = cells.length
  level : zsl.level = (cells.map fun c => c.node.height).foldr max 1

-- What holds whatever the length; the spans are only right modulo their width.
structure Good (zsl : Zskiplist S E) (cells : List (Cell S E)) : Prop where
  linked : Linked zsl cells
  topped : Topped zsl cells
  sorted : Sorted cells

theorem Good.bottom (zsl : Zskiplist S E) (cells : List (Cell S E)) (good : Good zsl cells) :
    chain zsl 0 = some (cells.map Cell.id) := by
  rw [chain_ok good.linked, tallIds, filter_eq_self.mpr]
  intro c member
  exact decide_eq_true (good.linked.heights c member).1

theorem Good.invariant {zsl : Zskiplist S E} {cells : List (Cell S E)} (good : Good zsl cells)
    (small : zsl.length < 2 ^ 32) : Invariant zsl cells where
  chains := fun i _ => chain_ok good.linked i
  bottom := good.bottom
  nodes := good.linked.nodes
  sorted := good.sorted
  spans := fun front after i shape reaches => by
    have within := nextDist_le i after
    have total := good.linked.length
    rw [shape, length_append] at total
    rw [(good.linked.links front after i shape reaches).2, BitVec.toNat_ofNat, Nat.mod_eq_of_lt (by omega)]
  backward := good.linked.backward
  tail := good.linked.tail
  length := good.linked.length
  level := by
    obtain ⟨positive, highest⟩ := le_foldr_max (cells.map fun c => c.node.height)
    apply le_antisymm
    · rcases good.topped with one | ⟨c, member, top⟩
      · rw [one]
        exact positive
      · exact highest _ (mem_map.mpr ⟨c, member, top⟩)
    · refine foldr_max_le _ ?_ good.linked.level_pos
      intro h member
      obtain ⟨c, inside, rfl⟩ := mem_map.mp member
      exact (good.linked.heights c inside).2

theorem good_create : Good (zslCreate : Zskiplist S E) [] where
  linked :=
    { nodes := by simp, fresh := by simp, distinct := by simp, heights := by simp,
      level_pos := le_rfl, level_le := by simp [zslCreate, zskiplistMaxlevel],
      links := by
        intro front after i shape _
        obtain ⟨rfl, rfl⟩ := append_eq_nil_iff.mp shape.symm
        exact ⟨rfl, rfl⟩
      above := fun _ _ => rfl
      backward := by simp
      tail := rfl
      length := rfl }
  topped := Or.inl rfl
  sorted := List.Pairwise.nil

theorem nodeBefore_iff (score : S) (ele : E) (node : ZskiplistNode S E) (height : Nat) :
    nodeBefore score ele node = true ↔ NodeLt node ⟨ele, score, height⟩ := by
  simp [nodeBefore, NodeLt]

theorem nodeLt_iff (a b : ZskiplistNode S E) : NodeLt a b ↔ toLex (a.score, a.ele) < toLex (b.score, b.ele) := by
  rw [Prod.Lex.toLex_lt_toLex]
  rfl

theorem NodeLt.trans {a b c : ZskiplistNode S E} (ab : NodeLt a b) (bc : NodeLt b c) : NodeLt a c := by
  rw [nodeLt_iff] at ab bc ⊢
  exact lt_trans ab bc

theorem not_nodeBefore {score : S} {ele : E} {node : ZskiplistNode S E} (height : Nat)
    (stays : nodeBefore score ele node = false) (other : ¬(node.score = score ∧ node.ele = ele)) :
    NodeLt ⟨ele, score, height⟩ node := by
  simp only [nodeBefore, decide_eq_false_iff_not, not_or, not_and, not_lt] at stays
  rcases lt_or_eq_of_le stays.1 with less | same
  · exact Or.inl less
  · refine Or.inr ⟨same, ?_⟩
    exact lt_of_le_of_ne (stays.2 same.symm) fun equal => other ⟨same.symm, equal.symm⟩

theorem front_before {front : List (Cell S E)} (score : S) (ele : E) (sorted : Sorted front)
    (arrived : Arrived (fun _ => nodeBefore score ele) front) :
    ∀ c ∈ front, nodeBefore score ele c.node = true := by
  intro c member
  cases front using List.reverseRecOn with
  | nil => exact absurd member (by simp)
  | append_singleton front last =>
    have at_last : nodeBefore score ele last.node = true := arrived last (by simp)
    rcases mem_append.mp member with inside | same
    · have less := (pairwise_append.mp sorted).2.2 c inside last (by simp)
      rw [nodeBefore_iff score ele _ 0] at at_last ⊢
      exact less.trans at_last
    · rw [mem_singleton.mp same]
      exact at_last

theorem after_not_before {front after : List (Cell S E)} (score : S) (ele : E) (sorted : Sorted after)
    (blocked : Blocks (fun _ => nodeBefore score ele) 0 front.length after) :
    ∀ c ∈ after, nodeBefore score ele c.node = false := by
  intro c member
  cases after with
  | nil => exact absurd member (by simp)
  | cons d after =>
    rcases mem_cons.mp member with rfl | inside
    · exact blocked.2
    · have less := (pairwise_cons.mp sorted).1 c inside
      have stays : nodeBefore score ele d.node = false := blocked.2
      by_contra before
      rw [Bool.not_eq_false, nodeBefore_iff score ele _ 0] at before
      have := (nodeBefore_iff score ele d.node 0).mpr (less.trans before)
      rw [stays] at this
      exact absurd this (by simp)

theorem sorted_insert {front after : List (Cell S E)} (new : Cell S E) (sorted : Sorted (front ++ after))
    (before : ∀ c ∈ front, NodeLt c.node new.node) (behind : ∀ c ∈ after, NodeLt new.node c.node) :
    Sorted (front ++ new :: after) := by
  obtain ⟨first, last, across⟩ := pairwise_append.mp sorted
  refine pairwise_append.mpr ⟨first, pairwise_cons.mpr ⟨behind, last⟩, ?_⟩
  intro c in_front d in_rest
  rcases mem_cons.mp in_rest with rfl | later
  · exact before c in_front
  · exact across c in_front d later

section

variable {zsl : Zskiplist S E} {cells : List (Cell S E)}

theorem Good.insert (score : S) {ele : E} {level : Nat}
    (good : Good zsl cells) (absent : ∀ c ∈ cells, c.node.ele ≠ ele) (low : 1 ≤ level)
    (high : level ≤ zskiplistMaxlevel) :
    ∃ zsl' front after, zslInsert zsl score ele level = some zsl' ∧ cells = front ++ after ∧
      Good zsl' (front ++ ⟨zsl.fresh, ⟨ele, score, level⟩⟩ :: after) ∧
      (∀ c ∈ front, nodeBefore score ele c.node = true) ∧
      ∀ c ∈ after, nodeBefore score ele c.node = false := by
  obtain ⟨zsl', front, after, ran, shape, arrived, blocked, linked, level_eq⟩ :=
    zslInsert_ok score ele good.linked low high
  have sorted := good.sorted
  rw [shape] at sorted
  have before := front_before score ele (pairwise_append.mp sorted).1 arrived
  have behind := after_not_before score ele (pairwise_append.mp sorted).2.1 blocked
  refine ⟨zsl', front, after, ran, shape, ⟨linked, ?_, sorted_insert _ sorted ?_ ?_⟩, before, behind⟩
  · rcases Nat.lt_or_ge level zsl.level with small | large
    · rcases good.topped with one | ⟨c, member, top⟩
      · omega
      · refine Or.inr ⟨c, ?_, by rw [top, level_eq]; omega⟩
        rw [shape] at member
        simp only [mem_append, mem_cons] at member ⊢
        tauto
    · exact Or.inr ⟨⟨zsl.fresh, ⟨ele, score, level⟩⟩, by simp, by rw [level_eq]; dsimp only; omega⟩
  · intro c member
    exact (nodeBefore_iff score ele c.node level).mp (before c member)
  · intro c member
    exact not_nodeBefore level (behind c member) fun same => absent c (by rw [shape]; simp [member]) same.2

theorem Good.deleteRange (ahead inRange : Nat → ZskiplistNode S E → Bool) (good : Good zsl cells)
    (stable : ∀ reached position node, Counts cells.length reached position →
      ahead reached node = ahead position node) :
    ∃ zsl' cells', (SkipList.deleteRange zsl ahead inRange).map Prod.fst = some zsl' ∧ Good zsl' cells' := by
  obtain ⟨zsl', removed, front, after, rest, ran, shape, suffix, linked, topped⟩ :=
    deleteRange_ok ahead inRange good.linked good.topped stable
  have sublist : (front ++ rest).Sublist cells := by
    rw [shape]
    exact (List.Sublist.refl front).append suffix.sublist
  exact ⟨zsl', front ++ rest, by rw [ran]; rfl, linked, topped, good.sorted.sublist sublist⟩

theorem Good.delete (score : S) (ele : E) (good : Good zsl cells) :
    ∃ zsl' found cells', zslDelete zsl score ele = some (zsl', found) ∧ Good zsl' cells' := by
  obtain ⟨front, after, shape, result⟩ := zslUnlink_ok score ele good.linked
  rcases result with ⟨c, rest, zsl', after_eq, ran, linked, topped⟩ | ran
  · refine ⟨zslFreeNode zsl' c.id, true, front ++ rest, by rw [zslDelete, ran]; rfl, linked, topped,
      good.sorted.sublist ?_⟩
    rw [shape, after_eq]
    exact (List.Sublist.refl front).append (sublist_cons_self c rest)
  · exact ⟨zsl, false, cells, by rw [zslDelete, ran]; rfl, good⟩

end

inductive Op (S E : Type) where
  | insert (score : S) (ele : E) (level : Nat)
  | delete (score : S) (ele : E)
  | deleteRangeByScore (range : Zrangespec S)
  | deleteRangeByLex (range : Zlexrangespec E)
  | deleteRangeByRank (start stop : Nat)

def step (zsl : Zskiplist S E) : Op S E → Option (Zskiplist S E)
  | .insert score ele level => zslInsert zsl score ele level
  | .delete score ele => (zslDelete zsl score ele).map Prod.fst
  | .deleteRangeByScore range => (zslDeleteRangeByScore zsl range).map Prod.fst
  | .deleteRangeByLex range => (zslDeleteRangeByLex zsl range).map Prod.fst
  | .deleteRangeByRank start stop => (zslDeleteRangeByRank zsl start stop).map Prod.fst

def Contains (zsl : Zskiplist S E) (ele : E) : Prop :=
  ∃ ids, chain zsl 0 = some ids ∧ ∃ id ∈ ids, ∃ node, zsl.node id = some node ∧ node.ele = ele

-- The caller looks the element up first, and zslRandomLevel stays within its range.
def Admissible (zsl : Zskiplist S E) : Op S E → Prop
  | .insert _ ele level => ¬Contains zsl ele ∧ 1 ≤ level ∧ level ≤ zskiplistMaxlevel
  | _ => True

inductive Reachable (Ok : Zskiplist S E → Prop) : Zskiplist S E → Prop where
  | create : Reachable Ok zslCreate
  | step (zsl zsl' : Zskiplist S E) (op : Op S E) : Reachable Ok zsl → Ok zsl → Admissible zsl op →
      step zsl op = some zsl' → Reachable Ok zsl'

section

variable {zsl : Zskiplist S E} {cells : List (Cell S E)}

theorem Good.not_contains (good : Good zsl cells) {ele : E}
    (absent : ¬Contains zsl ele) : ∀ c ∈ cells, c.node.ele ≠ ele := by
  intro c member same
  exact absent ⟨_, good.bottom, c.id, mem_map_of_mem member, c.node, good.linked.nodes c member, same⟩

theorem Good.absent (good : Good zsl cells) (ele : E)
    (absent : ∀ c ∈ cells, c.node.ele ≠ ele) : ¬Contains zsl ele := by
  rintro ⟨ids, chained, id, listed, node, at_id, same⟩
  rw [good.bottom] at chained
  cases chained
  obtain ⟨c, member, rfl⟩ := mem_map.mp listed
  rw [good.linked.nodes c member] at at_id
  exact absent c member (Option.some.inj at_id ▸ same)

theorem Good.step {op : Op S E} (good : Good zsl cells)
    (small : zsl.length < 2 ^ 32) (admissible : Admissible zsl op) :
    ∃ zsl' cells', SkipList.step zsl op = some zsl' ∧ Good zsl' cells' := by
  rw [good.linked.length] at small
  cases op with
  | insert score ele level =>
    obtain ⟨absent, low, high⟩ := admissible
    obtain ⟨zsl', front, after, ran, _, good', _⟩ :=
      good.insert score (good.not_contains absent) low high
    exact ⟨zsl', _, ran, good'⟩
  | delete score ele =>
    obtain ⟨zsl', found, cells', ran, good'⟩ := good.delete score ele
    exact ⟨zsl', cells', by simp [SkipList.step, ran], good'⟩
  | deleteRangeByScore range => exact good.deleteRange _ _ fun _ _ _ _ => rfl
  | deleteRangeByLex range => exact good.deleteRange _ _ fun _ _ _ _ => rfl
  | deleteRangeByRank start stop =>
    exact good.deleteRange _ _ fun reached position _ counts => by rw [counts.2 small]

end

theorem reachable_good {zsl : Zskiplist S E} (reachable : Reachable (fun zsl => zsl.length < 2 ^ 32) zsl) :
    ∃ cells, Good zsl cells := by
  induction reachable with
  | create => exact ⟨[], good_create⟩
  | step zsl zsl' op _ small admissible stepped ih =>
    obtain ⟨cells, good⟩ := ih
    obtain ⟨final, cells', ran, good'⟩ := good.step small admissible
    rw [stepped] at ran
    exact ⟨cells', Option.some.inj ran ▸ good'⟩

theorem append_greatest {zsl : Zskiplist Nat Nat} {cells : List (Cell Nat Nat)} (n level : Nat)
    (good : Good zsl cells) (below : ∀ c ∈ cells, c.node.score < n ∧ c.node.ele < n) (low : 1 ≤ level)
    (high : level ≤ zskiplistMaxlevel) :
    ∃ zsl', step zsl (.insert n n level) = some zsl' ∧ Admissible zsl (.insert n n level) ∧
      Good zsl' (cells ++ [⟨zsl.fresh, ⟨n, n, level⟩⟩]) := by
  have absent (c : Cell Nat Nat) (member : c ∈ cells) : c.node.ele ≠ n := (below c member).2.ne
  obtain ⟨zsl', front, after, ran, shape, good', _, behind⟩ := good.insert n absent low high
  have empty : after = [] := by
    rw [eq_nil_iff_forall_not_mem]
    intro c member
    have stays := behind c member
    have less := (below c (by rw [shape]; simp [member])).1
    simp [nodeBefore, less] at stays
  subst empty
  rw [append_nil] at shape
  exact ⟨zsl', ran, ⟨good.absent n absent, low, high⟩, shape ▸ good'⟩

-- Spans are unsigned ints, hence the bound on the number of nodes.
theorem skiplist_invariant (zsl : Zskiplist S E)
    (reachable : Reachable (fun zsl => zsl.length < 2 ^ 32) zsl) (small : zsl.length < 2 ^ 32) :
    (∃ cells, Invariant zsl cells) ∧
      ∀ op, Admissible zsl op → ∃ zsl', step zsl op = some zsl' := by
  obtain ⟨cells, good⟩ := reachable_good reachable
  refine ⟨⟨cells, good.invariant small⟩, fun op admissible => ?_⟩
  obtain ⟨zsl', _, ran, _⟩ := good.step small admissible
  exact ⟨zsl', ran⟩

def insertThreeDeleteOne : List (Op Nat Nat) :=
  [.insert 0 0 3, .insert 1 1 1, .insert 2 2 2, .deleteRangeByScore ⟨1, 1, false, false⟩]

theorem skiplist_invariant_three : ∃ zsl, insertThreeDeleteOne.foldlM step zslCreate = some zsl ∧
    zsl.length = 2 ∧ zsl.level = 3 ∧ ∃ cells, Invariant zsl cells := by
  obtain ⟨one, first, allowed₁, good₁⟩ := append_greatest 0 3 good_create (by simp) (by decide) (by decide)
  obtain ⟨two, second, allowed₂, good₂⟩ := append_greatest 1 1 good₁ (by simp) (by decide) (by decide)
  obtain ⟨three, third, allowed₃, good₃⟩ := append_greatest 2 2 good₂ (by simp) (by decide) (by decide)
  have small₁ : one.length < 2 ^ 32 := by simp [good₁.linked.length]
  have small₂ : two.length < 2 ^ 32 := by simp [good₂.linked.length]
  have small₃ : three.length < 2 ^ 32 := by simp [good₃.linked.length]
  have allowed₄ : Admissible three (.deleteRangeByScore ⟨1, 1, false, false⟩) := trivial
  obtain ⟨zsl, _, fourth, _⟩ := good₃.step small₃ allowed₄
  have reachable : Reachable (fun zsl => zsl.length < 2 ^ 32) zsl :=
    .step _ _ _ (.step _ _ _ (.step _ _ _ (.step _ _ _ .create (by decide) allowed₁ first) small₁ allowed₂ second) small₂ allowed₃ third)
      small₃ allowed₄ fourth
  have ran : insertThreeDeleteOne.foldlM step zslCreate = some zsl := by
    simp [insertThreeDeleteOne, first, second, third, fourth]
  have fields : (insertThreeDeleteOne.foldlM step zslCreate).map (fun zsl => (zsl.length, zsl.level)) = some (2, 3) := by decide
  rw [ran, Option.map_some, Option.some.injEq, Prod.mk.injEq] at fields
  exact ⟨zsl, ran, fields.1, fields.2, (skiplist_invariant zsl reachable (by rw [fields.1]; decide)).1⟩

end

theorem ascending_reachable (n : Nat) :
    ∃ (zsl : Zskiplist Nat Nat) (cells : List (Cell Nat Nat)), Reachable (fun _ => True) zsl ∧
      Good zsl cells ∧ cells.length = n ∧
      ∀ c ∈ cells, c.node.score < n ∧ c.node.ele < n ∧ c.node.height = 1 := by
  induction n with
  | zero => exact ⟨zslCreate, [], .create, good_create, rfl, by simp⟩
  | succ n ih =>
    obtain ⟨zsl, cells, reachable, good, length, below⟩ := ih
    obtain ⟨zsl', ran, admissible, good'⟩ := append_greatest n 1 good
      (fun c member => ⟨(below c member).1, (below c member).2.1⟩) le_rfl (by decide)
    refine ⟨zsl', _, .step _ _ _ reachable trivial admissible ran, good', by simp [length], ?_⟩
    intro c member
    rcases mem_append.mp member with inside | last
    · obtain ⟨score, ele, height⟩ := below c inside
      exact ⟨by omega, by omega, height⟩
    · rw [mem_singleton.mp last]
      exact ⟨Nat.lt_succ_self n, Nat.lt_succ_self n, rfl⟩

-- With 2^32 nodes the header's span to the last one, the only one of height 2, is stored as 0.
theorem span_wraps : ∃ zsl : Zskiplist Nat Nat, Reachable (fun _ => True) zsl ∧ ¬∃ cells, Invariant zsl cells := by
  obtain ⟨n, full⟩ : ∃ n, n + 1 = 2 ^ 32 := ⟨2 ^ 32 - 1, rfl⟩
  obtain ⟨zsl, cells, reachable, good, length, below⟩ := ascending_reachable n
  obtain ⟨zsl', ran, admissible, good'⟩ := append_greatest n 2 good
    (fun c member => ⟨(below c member).1, (below c member).2.1⟩) (by omega) (by decide)
  refine ⟨zsl', .step _ _ _ reachable trivial admissible ran, ?_⟩
  rintro ⟨other, invariant⟩
  have chained := invariant.bottom.symm.trans good'.bottom
  obtain rfl := cells_unique other _ invariant.nodes good'.linked.nodes (Option.some.inj chained)
  have two_levels : 2 ≤ zsl'.level := (good'.linked.heights ⟨zsl.fresh, ⟨n, n, 2⟩⟩ (by simp)).2
  have span := invariant.spans [] (cells ++ [⟨zsl.fresh, ⟨n, n, 2⟩⟩]) 1 rfl two_levels
  have distance : nextDist 1 (cells ++ [⟨zsl.fresh, ⟨n, n, 2⟩⟩]) = n + 1 := by
    rw [nextDist_short 1 cells _ (fun c member => (below c member).2.2.le), length]
    rfl
  have small := (zsl'.span (lastRef ([] : List (Cell Nat Nat)), 1)).isLt
  omega

end RedisCore.SkipList
