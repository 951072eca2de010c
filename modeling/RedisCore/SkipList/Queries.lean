import RedisCore.SkipList.Rank
import RedisCore.Lib.OrderedSplit

set_option autoImplicit false

namespace RedisCore.SkipList

open OrderedSplit List

section

variable {S E : Type}

-- The result is a node pointer, the header for rank 0.
def elementLoop (zsl : Zskiplist S E) (rank : Nat) : (levels : Nat) → Ref → (traversed : Nat) → Option (Option Ref)
  | 0, _, _ => some none
  | i + 1, x, traversed => do
    let (x, traversed) ← walk zsl (fun reached _ => decide (reached ≤ rank)) i (zsl.length + 1) x traversed
    if traversed = rank then pure (some x) else elementLoop zsl rank i x traversed

def zslGetElementByRank (zsl : Zskiplist S E) (rank : Nat) : Option (Option Ref) := elementLoop zsl rank zsl.level none 0

end

section

variable {S E : Type} [LinearOrder S]

def zslValueGteMin (value : S) (spec : Zrangespec S) : Bool :=
  if spec.minex then decide (spec.min < value) else decide (spec.min ≤ value)

def zslValueLteMax (value : S) (spec : Zrangespec S) : Bool :=
  if spec.maxex then decide (value < spec.max) else decide (value ≤ spec.max)

def emptyRange (range : Zrangespec S) : Bool :=
  decide (range.max < range.min) || decide (range.min = range.max) && (range.minex || range.maxex)

section

variable (zsl : Zskiplist S E) (range : Zrangespec S)

def zslIsInRange : Option Bool :=
  if emptyRange range then some false
  else
    match zsl.tail with
    | none => some false
    | some x => do
      let last ← zsl.node x
      if zslValueGteMin last.score range then
        match zsl.forward (none, 0) with
        | none => pure false
        | some y =>
          let first ← zsl.node y
          pure (zslValueLteMax first.score range)
      else pure false

def zslFirstInRange : Option (Option Nat) := do
  if ← zslIsInRange zsl range then
    let (_, x, _) ← search zsl fun _ node => !zslValueGteMin node.score range
    match zsl.forward (x, 0) with
    -- serverAssert(x != NULL)
    | none => none
    | some y =>
      let node ← zsl.node y
      pure (if zslValueLteMax node.score range then some y else none)
  else pure none

def zslLastInRange : Option (Option Nat) := do
  if ← zslIsInRange zsl range then
    let (_, x, _) ← search zsl fun _ node => zslValueLteMax node.score range
    match x with
    -- The header holds no element.
    | none => none
    | some y =>
      let node ← zsl.node y
      pure (if zslValueGteMin node.score range then some y else none)
  else pure none

end

end

section

variable {S A : Type} [LinearOrder S]

theorem gteMin_mono {range : Zrangespec S} {a b : S} (le : a ≤ b) (passes : zslValueGteMin a range = true) :
    zslValueGteMin b range = true := by
  unfold zslValueGteMin at passes ⊢
  split_ifs at passes ⊢
  · exact decide_eq_true ((of_decide_eq_true passes).trans_le le)
  · exact decide_eq_true ((of_decide_eq_true passes).trans le)

theorem lteMax_mono {range : Zrangespec S} {a b : S} (le : a ≤ b) (passes : zslValueLteMax b range = true) :
    zslValueLteMax a range = true := by
  unfold zslValueLteMax at passes ⊢
  split_ifs at passes ⊢
  · exact decide_eq_true (le.trans_lt (of_decide_eq_true passes))
  · exact decide_eq_true (le.trans (of_decide_eq_true passes))

theorem emptyRange_sound {range : Zrangespec S} (empty : emptyRange range = true) (value : S) :
    ¬(zslValueGteMin value range = true ∧ zslValueLteMax value range = true) := by
  rintro ⟨low, high⟩
  simp only [emptyRange, Bool.or_eq_true, Bool.and_eq_true, decide_eq_true_eq] at empty
  unfold zslValueGteMin at low
  unfold zslValueLteMax at high
  rcases empty with inverted | ⟨same, exclusive⟩
  · have ordered : range.min ≤ range.max := by
      split at low <;> split at high <;> simp only [decide_eq_true_eq] at low high
      · exact (low.trans high).le
      · exact (low.trans_le high).le
      · exact (low.trans_lt high).le
      · exact low.trans high
    exact absurd inverted (not_lt_of_ge ordered)
  · rw [← same] at high
    split at low <;> split at high <;> simp only [decide_eq_true_eq] at low high
    · exact absurd (low.trans high) (lt_irrefl _)
    · exact absurd (low.trans_le high) (lt_irrefl _)
    · exact absurd (low.trans_lt high) (lt_irrefl _)
    · simp_all

/-- What it means for an element to be in a range of scores. -/
def scoreInside (range : Zrangespec S) (score : A → S) : A → Bool :=
  inside (fun a => zslValueGteMin (score a) range) fun a => zslValueLteMax (score a) range

theorem ordered_scores (range : Zrangespec S) {score : A → S} {values : List A}
    (sorted : values.Pairwise fun a b => score a ≤ score b) :
    Ordered (fun a => zslValueGteMin (score a) range) (fun a => zslValueLteMax (score a) range) values where
  lower := sorted.imp fun le passes => gteMin_mono le passes
  upper := sorted.imp fun le passes => lteMax_mono le passes

end

section

variable {S E : Type}

theorem elementLoop_ok {zsl : Zskiplist S E} {cells : List (Cell S E)} {rank : Nat}
    (linked : Linked zsl (cells.take rank ++ cells.drop rank)) (spanned : Spanned zsl (cells.take rank ++ cells.drop rank))
    (levels : Nat) (pre mid : List (Cell S E)) (shape : cells.take rank = pre ++ mid)
    (short : ∀ c ∈ mid, c.node.height ≤ levels) (reaches : ∀ j < levels, Reaches zsl.level pre j) (missed : pre.length ≠ rank) :
    elementLoop zsl rank levels (lastRef pre) pre.length =
      some (if rank ≤ cells.length then some (lastRef (cells.take rank)) else none) := by
  have length := congrArg List.length shape
  rw [length_take, length_append] at length
  induction levels generalizing pre mid with
  | zero =>
    rw [linked.none_short (by rw [shape]; simp) short, length_nil] at length
    rw [elementLoop, if_neg (by omega)]
  | succ i ih =>
    have total := linked.length
    rw [length_append, shape, length_append] at total
    obtain ⟨pre', gap, ran, shape', low, reaches'⟩ := walk_cut linked spanned (cut_of_rank cells rank) i (zsl.length + 1)
      pre mid shape (reaches i (Nat.lt_succ_self i)) (by omega)
    have length' := congrArg List.length shape'
    rw [length_take, length_append] at length'
    simp only [elementLoop, ran, some_bind]
    split
    next arrived =>
      have none_left : gap = [] := length_eq_zero_iff.mp (by omega)
      rw [none_left, append_nil] at shape'
      rw [if_pos (by omega), shape']
      rfl
    next passed => exact ih pre' gap shape' low (fun j lower => reaches'.mono _ (Nat.le_of_lt lower)) passed length'

theorem zslGetElementByRank_ok {zsl : Zskiplist S E} {cells : List (Cell S E)} (linked : Linked zsl cells)
    (spanned : Spanned zsl cells) (rank : Nat) (positive : 0 < rank) :
    zslGetElementByRank zsl rank = some (if rank ≤ cells.length then some (lastRef (cells.take rank)) else none) := by
  have split : cells.take rank ++ cells.drop rank = cells := take_append_drop rank cells
  rw [← split] at linked spanned
  exact elementLoop_ok linked spanned zsl.level [] _ rfl
    (fun c member => (linked.heights c (mem_append_left _ member)).2) (fun _ lower => lower) (by simp; omega)

variable [LinearOrder S]

section

variable {zsl : Zskiplist S E} {range : Zrangespec S} {below within above : List (Cell S E)}
  (linked : Linked zsl (below ++ (within ++ above))) (spanned : Spanned zsl (below ++ (within ++ above)))
  (parts : Parts (fun c : Cell S E => zslValueGteMin c.node.score range) (fun c => zslValueLteMax c.node.score range) below within above)

include linked parts

-- The tests on the ends never reject a range that holds something; what they accept has both ends on the right side.
theorem zslIsInRange_ok : ∃ answer, zslIsInRange zsl range = some answer ∧ (answer = false → within = []) ∧
    (answer = true → within ++ above ≠ [] ∧ ∀ c, (below ++ (within ++ above)).head? = some c → zslValueLteMax c.node.score range = true) := by
  have first := forward_lastRef zsl [] (below ++ (within ++ above)) linked
  have tail := linked.tail
  rw [zslIsInRange]
  split
  next empty => exact ⟨false, rfl, fun _ => parts.empty fun c => emptyRange_sound empty c.node.score, nofun⟩
  next =>
    cases last : (below ++ (within ++ above)).getLast? with
    | none =>
      have nothing := getLast?_eq_none_iff.mp last
      rw [lastRef, last] at tail
      refine ⟨false, by rw [tail]; rfl, fun _ => ?_, nofun⟩
      simp only [append_eq_nil_iff] at nothing
      exact nothing.2.1
    | some c =>
      have node := linked.nodes c (mem_of_getLast? last)
      have reaches := parts.last_low c last
      rw [lastRef, last] at tail
      obtain ⟨d, others, starts⟩ := exists_cons_of_ne_nil (ne_nil_of_mem (mem_of_getLast? last))
      have node' := linked.nodes d (by rw [starts]; exact mem_cons_self)
      have head : (below ++ (within ++ above)).head? = some d := by rw [starts]; rfl
      rw [lastRef_nil, head] at first
      simp only [tail, Option.map_some, node, some_bind, first, node']
      cases low : zslValueGteMin c.node.score range with
      | false =>
        refine ⟨false, rfl, fun _ => ?_, nofun⟩
        have nothing : within ++ above = [] := by simpa [low] using reaches
        exact (append_eq_nil_iff.mp nothing).1
      | true =>
        refine ⟨zslValueLteMax d.node.score range, rfl, parts.first_high d head, fun passes => ⟨reaches.mp low, fun e at_head => ?_⟩⟩
        rwa [← Option.some.inj (head.symm.trans at_head)]

include spanned

theorem firstInRange_parts : zslFirstInRange zsl range = some (within.head?.map Cell.id) := by
  obtain ⟨answer, tested, rejected, accepted⟩ := zslIsInRange_ok linked parts
  rw [zslFirstInRange, tested]
  cases answer with
  | false =>
    rw [rejected rfl]
    rfl
  | true =>
    have present := (accepted rfl).1
    have cut : Cut (fun _ node => !zslValueGteMin node.score range) below (within ++ above) := by
      refine cut_of_node (fun c member => ?_) (fun c member => ?_)
      · rw [parts.before c member]
        rfl
      · rcases mem_append.mp member with inside | after
        · rw [(parts.both c inside).1]
          rfl
        · rw [(parts.past c after).1]
          rfl
    obtain ⟨path, searched⟩ := search_cut linked spanned cut
    have forward := forward_lastRef zsl below (within ++ above) linked
    obtain ⟨c, others, starts⟩ := exists_cons_of_ne_nil present
    have node := linked.nodes c (by rw [starts]; simp)
    rw [starts] at forward
    simp only [some_bind, if_true, searched, forward, head?_cons, Option.map_some, node]
    cases within with
    | nil =>
      rw [nil_append] at starts
      rw [(parts.past c (by rw [starts]; exact mem_cons_self)).2]
      rfl
    | cons d within =>
      obtain rfl : d = c := (List.cons.inj starts).1
      rw [(parts.both d mem_cons_self).2]
      rfl

theorem lastInRange_parts (ordered : (below ++ (within ++ above)).Pairwise fun a b => zslValueLteMax b.node.score range = true → zslValueLteMax a.node.score range = true) :
    zslLastInRange zsl range = some (within.getLast?.map Cell.id) := by
  obtain ⟨answer, tested, rejected, accepted⟩ := zslIsInRange_ok linked parts
  rw [zslLastInRange, tested]
  cases answer with
  | false =>
    rw [rejected rfl]
    rfl
  | true =>
    obtain ⟨present, starts⟩ := accepted rfl
    -- The search ends where the upper test first fails, which is behind the last element inside if there is one.
    have ends : ∃ front rest, below ++ (within ++ above) = front ++ rest ∧ (∀ c ∈ front, zslValueLteMax c.node.score range = true) ∧
        (∀ c ∈ rest, zslValueLteMax c.node.score range = false) ∧ (within ≠ [] → front = below ++ within) := by
      by_cases inside : within = []
      · refine ⟨_, _, (takeWhile_append_dropWhile (p := fun c : Cell S E => zslValueLteMax c.node.score range)).symm, fun c member => ?_,
          dropWhile_fails _ ordered, fun some_inside => absurd inside some_inside⟩
        exact mem_takeWhile_imp (p := fun c : Cell S E => zslValueLteMax c.node.score range) member
      · refine ⟨below ++ within, above, by simp, fun c member => ?_, fun c member => (parts.past c member).2, fun _ => rfl⟩
        rcases mem_append.mp member with before | here
        · exact parts.reached inside c before
        · exact (parts.both c here).2
    obtain ⟨front, rest, shape, passed, stopped, at_end⟩ := ends
    rw [shape] at linked spanned
    have cut : Cut (fun _ node => zslValueLteMax node.score range) front rest := cut_of_node passed stopped
    obtain ⟨path, searched⟩ := search_cut linked spanned cut
    have moved : front ≠ [] := by
      rintro rfl
      obtain ⟨c, others, first⟩ := exists_cons_of_ne_nil (append_ne_nil_of_right_ne_nil below present)
      have passes := starts c (by rw [first]; rfl)
      rw [stopped c (by rw [← nil_append rest, ← shape, first]; exact mem_cons_self)] at passes
      cases passes
    obtain ⟨before, c, rfl⟩ : ∃ before c, front = before ++ [c] := ⟨_, _, (dropLast_append_getLast moved).symm⟩
    have node := linked.nodes c (by simp)
    rw [lastRef_concat] at searched
    simp only [some_bind, if_true, searched, node]
    cases within using List.reverseRecOn with
    | nil =>
      have outside := parts.prefix_below rest (by simpa using shape) passed c (by simp)
      rw [outside]
      rfl
    | append_singleton within d =>
      have same := at_end (by simp)
      rw [← append_assoc] at same
      obtain rfl : c = d := singleton_inj.mp (append_inj' same rfl).2
      rw [(parts.both c (by simp)).1, getLast?_concat]
      rfl

end

variable [LinearOrder E]

/-- The representation invariant: the links, spans, heights and counters of the chain of cells, which is in order and repeats no element. -/
structure Intact (zsl : Zskiplist S E) (cells : List (Cell S E)) : Prop where
  good : Good zsl cells
  spanned : Spanned zsl cells
  distinct : (cells.map fun c => c.node.ele).Nodup

theorem scores_sorted {cells : List (Cell S E)} (sorted : Sorted cells) : cells.Pairwise fun a b => a.node.score ≤ b.node.score := by
  exact sorted.imp fun less => less.elim le_of_lt fun same => same.1.le

end

section

variable {S E : Type} [LinearOrder S] [LinearOrder E] {zsl : Zskiplist S E} {cells : List (Cell S E)}
  (intact : Intact zsl cells) (range : Zrangespec S)

include intact

theorem zslFirstInRange_ok :
    zslFirstInRange zsl range = some ((cells.filter (scoreInside range fun c => c.node.score)).head?.map Cell.id) := by
  have ordered := ordered_scores range (scores_sorted intact.good.sorted)
  obtain ⟨below, within, above, rfl, parts⟩ := ordered.parts
  rw [scoreInside, parts.filter]
  exact firstInRange_parts intact.good.linked intact.spanned parts

theorem zslLastInRange_ok :
    zslLastInRange zsl range = some ((cells.filter (scoreInside range fun c => c.node.score)).getLast?.map Cell.id) := by
  have ordered := ordered_scores range (scores_sorted intact.good.sorted)
  have upper := ordered.upper
  obtain ⟨below, within, above, rfl, parts⟩ := ordered.parts
  rw [scoreInside, parts.filter]
  exact lastInRange_parts intact.good.linked intact.spanned parts upper

theorem zslGetRank_intact (front rest : List (Cell S E)) (c : Cell S E) (shape : cells = front ++ c :: rest) :
    zslGetRank zsl c.node.score c.node.ele = some (front.length + 1) := by
  subst shape
  exact zslGetRank_spanned intact.good intact.spanned intact.distinct

end

end RedisCore.SkipList
