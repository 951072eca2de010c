import RedisCore.SkipList.Invariant

set_option autoImplicit false

namespace RedisCore.SkipList

open List

section

variable {S E : Type}

/-- A search with this test goes past the cells of front and stops before those of rest. -/
structure Cut (ahead : Nat → ZskiplistNode S E → Bool) (front rest : List (Cell S E)) : Prop where
  passed : ∀ before c after, front = before ++ c :: after → ahead (before.length + 1) c.node = true
  stopped : ∀ before c after, rest = before ++ c :: after → ahead (front.length + before.length + 1) c.node = false

-- Every span on a level in use is small enough for its field.
def Spanned (zsl : Zskiplist S E) (cells : List (Cell S E)) : Prop :=
  ∀ front after i, cells = front ++ after → Reaches zsl.level front i → nextDist i after < 2 ^ 32

theorem spanned_of_length (zsl : Zskiplist S E) (cells : List (Cell S E)) (small : cells.length < 2 ^ 32) : Spanned zsl cells := by
  intro front after i shape _
  have near := nextDist_le i after
  have total := congrArg List.length shape
  rw [length_append] at total
  omega

theorem cut_of_node {test : ZskiplistNode S E → Bool} {front rest : List (Cell S E)} (passed : ∀ c ∈ front, test c.node = true)
    (stopped : ∀ c ∈ rest, test c.node = false) : Cut (fun _ => test) front rest where
  passed := by
    rintro before c after rfl
    exact passed c (by simp)
  stopped := by
    rintro before c after rfl
    exact stopped c (by simp)

theorem cut_of_rank (cells : List (Cell S E)) (rank : Nat) :
    Cut (fun reached _ => decide (reached ≤ rank)) (cells.take rank) (cells.drop rank) where
  passed := by
    intro before c after shape
    have total := congrArg List.length shape
    simp only [length_take, length_append, length_cons] at total
    exact decide_eq_true (by omega)
  stopped := by
    intro before c after shape
    have total := congrArg List.length shape
    simp only [length_drop, length_append, length_cons] at total
    rw [length_take]
    exact decide_eq_false (by omega)

section

variable {zsl : Zskiplist S E} {ahead : Nat → ZskiplistNode S E → Bool} {front rest : List (Cell S E)}
  (linked : Linked zsl (front ++ rest)) (spanned : Spanned zsl (front ++ rest)) (cut : Cut ahead front rest)

include linked spanned cut

theorem walk_cut (i fuel : Nat) (pre mid : List (Cell S E)) (shape : front = pre ++ mid) (reaches : Reaches zsl.level pre i)
    (enough : mid.length < fuel) :
    ∃ pre' gap, walk zsl ahead i fuel (lastRef pre) pre.length = some (lastRef pre', pre'.length) ∧ front = pre' ++ gap ∧
      (∀ c ∈ gap, c.node.height ≤ i) ∧ Reaches zsl.level pre' i := by
  induction fuel generalizing pre mid with
  | zero => omega
  | succ fuel ih =>
    have whole : front ++ rest = pre ++ (mid ++ rest) := by rw [shape, append_assoc]
    have height := linked.height_eq (mid ++ rest) whole reaches
    obtain ⟨forward, span⟩ := linked.links pre (mid ++ rest) i whole reaches
    have distance : (zsl.span (lastRef pre, i)).toNat = nextDist i (mid ++ rest) := by
      rw [span, BitVec.toNat_ofNat, Nat.mod_eq_of_lt (spanned pre (mid ++ rest) i whole reaches)]
    rw [walk, if_pos height, forward, distance]
    rcases split_first_tall i mid with short | ⟨gap, c, others, rfl, short, tall⟩
    · refine ⟨pre, mid, ?_, shape, short, reaches⟩
      rw [nextRef_short i mid rest short, nextDist_short i mid rest short]
      rcases split_first_tall i rest with all_short | ⟨gap, c, after, rest_eq, low, tall⟩
      · rw [(next_none all_short).1]
      · have node := linked.nodes c (by rw [rest_eq]; simp)
        have stops := cut.stopped gap c after rest_eq
        rw [shape, length_append] at stops
        rw [rest_eq, (next_found after low tall).1, (next_found after low tall).2]
        have place : pre.length + (mid.length + (gap.length + 1)) = pre.length + mid.length + gap.length + 1 := by omega
        simp only [node, some_bind, place, stops]
        rfl
    · have node := linked.nodes c (by rw [shape]; simp)
      have moves := cut.passed (pre ++ gap) c others (by rw [shape]; simp)
      obtain ⟨pre', left, ran, shape', low, reaches'⟩ := ih (pre ++ gap ++ [c]) others (by rw [shape]; simp)
        ((reaches_concat _ _ _ _).mpr tall) (by simp at enough; omega)
      refine ⟨pre', left, ?_, shape', low, reaches'⟩
      have regroup : gap ++ c :: others ++ rest = gap ++ c :: (others ++ rest) := by simp
      have place : pre.length + (gap.length + 1) = (pre ++ gap).length + 1 := by simp; omega
      rw [regroup, (next_found _ short tall).1, (next_found _ short tall).2]
      simp only [node, some_bind, place, moves]
      rw [lastRef_concat, length_append, length_singleton] at ran
      exact ran

theorem descend_cut (levels : Nat) (pre mid : List (Cell S E)) (path : Path) (shape : front = pre ++ mid)
    (short : ∀ c ∈ mid, c.node.height ≤ levels) (reaches : ∀ j < levels, Reaches zsl.level pre j) :
    ∃ path', descend zsl ahead levels (lastRef pre) pre.length path = some (path', lastRef front, front.length) := by
  induction levels generalizing pre mid path with
  | zero =>
    rw [linked.none_short (by rw [shape]; simp) short, append_nil] at shape
    exact ⟨path, by rw [shape]; rfl⟩
  | succ i ih =>
    have total := linked.length
    rw [shape, length_append, length_append] at total
    obtain ⟨pre', gap, ran, shape', low, reaches'⟩ := walk_cut linked spanned cut i (zsl.length + 1) pre mid
      shape (reaches i (Nat.lt_succ_self i)) (by omega)
    obtain ⟨path', done⟩ := ih pre' gap
      { update := Function.update path.update i (lastRef pre')
        rank := Function.update path.rank i (BitVec.ofNat 32 pre'.length) } shape' low
      (fun j lower => reaches'.mono _ (Nat.le_of_lt lower))
    refine ⟨path', ?_⟩
    simp only [descend, ran, some_bind]
    exact done

theorem search_cut : ∃ path, search zsl ahead = some (path, lastRef front, front.length) :=
  descend_cut linked spanned cut zsl.level [] front _ rfl
    (fun c member => (linked.heights c (mem_append_left _ member)).2) (fun _ lower => lower)

end

end

section

variable {S E : Type} [LinearOrder S] [LinearOrder E]

def nodeUpTo (score : S) (ele : E) (node : ZskiplistNode S E) : Bool :=
  decide (node.score < score ∨ node.score = score ∧ node.ele ≤ ele)

-- The header, where x->ele is NULL, never matches.
def rankLoop (zsl : Zskiplist S E) (score : S) (ele : E) : (levels : Nat) → Ref → (rank : Nat) → Option Nat
  | 0, _, _ => some 0
  | i + 1, x, rank => do
    match ← walk zsl (fun _ => nodeUpTo score ele) i (zsl.length + 1) x rank with
    | (none, rank) => rankLoop zsl score ele i none rank
    | (some y, rank) =>
      let node ← zsl.node y
      if node.ele = ele then pure rank else rankLoop zsl score ele i (some y) rank

def zslGetRank (zsl : Zskiplist S E) (score : S) (ele : E) : Option Nat :=
  rankLoop zsl score ele zsl.level none 0

theorem cut_upTo {front rest : List (Cell S E)} {c : Cell S E} (sorted : Sorted (front ++ c :: rest)) :
    Cut (fun _ => nodeUpTo c.node.score c.node.ele) (front ++ [c]) rest := by
  obtain ⟨_, last, across⟩ := pairwise_append.mp sorted
  refine cut_of_node ?_ ?_
  · intro d member
    rcases mem_append.mp member with before | here
    · rcases across d before c mem_cons_self with less | ⟨same, less⟩
      · simp [nodeUpTo, less]
      · simp [nodeUpTo, same, less.le]
    · rw [mem_singleton.mp here]
      simp [nodeUpTo]
  · intro d member
    rcases (pairwise_cons.mp last).1 d member with less | ⟨same, less⟩
    · simp [nodeUpTo, less.le, less.ne']
    · simp [nodeUpTo, same, less]

-- The walks never pass the node sought and one of them ends on it.
theorem rankLoop_ok {zsl : Zskiplist S E} {front rest : List (Cell S E)} {c : Cell S E}
    (linked : Linked zsl (front ++ [c] ++ rest)) (spanned : Spanned zsl (front ++ [c] ++ rest))
    (cut : Cut (fun _ => nodeUpTo c.node.score c.node.ele) (front ++ [c]) rest)
    (distinct : ((front ++ [c]).map fun d => d.node.ele).Nodup) (levels : Nat) (pre mid : List (Cell S E))
    (shape : front ++ [c] = pre ++ mid) (short : ∀ d ∈ mid, d.node.height ≤ levels)
    (reaches : ∀ j < levels, Reaches zsl.level pre j) (missed : mid ≠ []) :
    rankLoop zsl c.node.score c.node.ele levels (lastRef pre) pre.length = some (front.length + 1) := by
  induction levels generalizing pre mid with
  | zero => exact absurd (linked.none_short (by rw [shape]; simp) short) missed
  | succ i ih =>
    have total := linked.length
    rw [shape, length_append, length_append] at total
    obtain ⟨pre', gap, ran, shape', low, reaches'⟩ := walk_cut linked spanned cut i (zsl.length + 1)
      pre mid shape (reaches i (Nat.lt_succ_self i)) (by omega)
    have below := fun j (lower : j < i) => reaches'.mono _ (Nat.le_of_lt lower)
    rw [rankLoop, ran]
    cases pre' using List.reverseRecOn with
    | nil => exact ih [] gap shape' low below (by rintro rfl; simp at shape')
    | append_singleton pre' d =>
      have node := linked.nodes d (by rw [shape']; simp)
      rw [lastRef_concat]
      simp only [some_bind, node]
      split
      next same =>
        have split : pre' ++ d :: gap = front ++ c :: [] := by simpa using shape'.symm
        have found := split_unique (fun e : Cell S E => e.node.ele) split (by rw [split]; exact distinct) same
        rw [found, length_append, length_singleton]
        rfl
      next differs =>
        have left : gap ≠ [] := by
          rintro rfl
          rw [append_nil] at shape'
          exact differs (by rw [(append_inj' shape' rfl).2 |> singleton_inj.mp])
        have further := ih (pre' ++ [d]) gap shape' low below left
        rwa [lastRef_concat] at further

theorem zslGetRank_spanned {zsl : Zskiplist S E} {front rest : List (Cell S E)} {c : Cell S E}
    (good : Good zsl (front ++ c :: rest)) (spanned : Spanned zsl (front ++ c :: rest))
    (distinct : ((front ++ c :: rest).map fun d => d.node.ele).Nodup) :
    zslGetRank zsl c.node.score c.node.ele = some (front.length + 1) := by
  have cut := cut_upTo good.sorted
  have linked := good.linked
  have whole : front ++ c :: rest = front ++ [c] ++ rest := by simp
  rw [whole] at linked spanned distinct
  rw [map_append] at distinct
  exact rankLoop_ok linked spanned cut distinct.of_append_left zsl.level [] _ rfl
    (fun d member => (linked.heights d (mem_append_left _ member)).2) (fun _ lower => lower) (by simp)

end

end RedisCore.SkipList
