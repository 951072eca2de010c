import RedisCore.SkipList.Model

set_option autoImplicit false

namespace RedisCore.SkipList

open List

variable {S E : Type}
variable {i : Nat}

structure Cell (S E : Type) where
  id : Nat
  node : ZskiplistNode S E

def lastRef (front : List (Cell S E)) : Ref := front.getLast?.map Cell.id

def nextRef (i : Nat) : List (Cell S E) → Option Nat
  | [] => none
  | c :: rest => if i < c.node.height then some c.id else nextRef i rest

def nextDist (i : Nat) : List (Cell S E) → Nat
  | [] => 0
  | c :: rest => if i < c.node.height then 1 else nextDist i rest + 1

-- The last cell of front, or the header when front is empty, has an entry for level i.
def Reaches (level : Nat) (front : List (Cell S E)) (i : Nat) : Prop :=
  i < (front.getLast?.map fun c => c.node.height).getD level

structure Linked (zsl : Zskiplist S E) (cells : List (Cell S E)) : Prop where
  nodes : ∀ c ∈ cells, zsl.node c.id = some c.node
  fresh : ∀ c ∈ cells, c.id < zsl.fresh
  distinct : (cells.map Cell.id).Nodup
  heights : ∀ c ∈ cells, 1 ≤ c.node.height ∧ c.node.height ≤ zsl.level
  level_pos : 1 ≤ zsl.level
  level_le : zsl.level ≤ zskiplistMaxlevel
  links : ∀ front after i, cells = front ++ after → Reaches zsl.level front i →
    zsl.forward (lastRef front, i) = nextRef i after ∧
      zsl.span (lastRef front, i) = BitVec.ofNat 32 (nextDist i after)
  above : ∀ i, zsl.level ≤ i → zsl.forward (none, i) = none
  backward : ∀ front c after, cells = front ++ c :: after → zsl.backward c.id = lastRef front
  tail : zsl.tail = lastRef cells
  length : zsl.length = cells.length

-- What level i of x holds when after follows it.
def Zskiplist.LinksTo (zsl : Zskiplist S E) (x : Ref) (i : Nat) (after : List (Cell S E)) : Prop :=
  zsl.forward (x, i) = nextRef i after ∧ zsl.span (x, i) = BitVec.ofNat 32 (nextDist i after)

@[simp] theorem lastRef_nil : lastRef ([] : List (Cell S E)) = none := rfl

@[simp] theorem lastRef_concat (front : List (Cell S E)) (c : Cell S E) :
    lastRef (front ++ [c]) = some c.id := by
  simp [lastRef]

theorem lastRef_eq_some {front : List (Cell S E)} {id : Nat} (last : lastRef front = some id) :
    ∃ before c, front = before ++ [c] ∧ c.id = id := by
  cases front using List.reverseRecOn with
  | nil => exact absurd last (by simp)
  | append_singleton before c => exact ⟨before, c, rfl, by simpa using last⟩

theorem lastRef_ne_some {front : List (Cell S E)} {id : Nat} (absent : ∀ c ∈ front, c.id ≠ id) :
    lastRef front ≠ some id := by
  intro same
  obtain ⟨before, c, rfl, equal⟩ := lastRef_eq_some same
  exact absent c (by simp) equal

theorem lastRef_append_cons (front rest : List (Cell S E)) (c : Cell S E) :
    lastRef (front ++ c :: rest) = lastRef (c :: rest) := by
  rw [lastRef, getLast?_append_cons]
  rfl

def Mirrors (back : Nat → Option Nat) : (before : Option Nat) → List (Cell S E) → Prop
  | _, [] => True
  | before, c :: rest => back c.id = before ∧ Mirrors back (some c.id) rest

theorem lastRef_cons_or (c : Cell S E) (rest : List (Cell S E)) (before : Option Nat) :
    (lastRef (c :: rest)).or before = (lastRef rest).or (some c.id) := by
  rw [lastRef, getLast?_cons, lastRef]
  cases rest.getLast? <;> rfl

theorem mirrors_append (back : Nat → Option Nat) (before : Option Nat) (front rest : List (Cell S E)) :
    Mirrors back before (front ++ rest) ↔
      Mirrors back before front ∧ Mirrors back ((lastRef front).or before) rest := by
  induction front generalizing before with
  | nil => simp [Mirrors]
  | cons c front ih => rw [cons_append, Mirrors, Mirrors, ih, lastRef_cons_or, and_assoc]

variable {cells : List (Cell S E)}

theorem mirrors_congr {back : Nat → Option Nat} (back' : Nat → Option Nat) (before : Option Nat)
    (same : ∀ c ∈ cells, back' c.id = back c.id) (mirrors : Mirrors back before cells) :
    Mirrors back' before cells := by
  induction cells generalizing before with
  | nil => trivial
  | cons c cells ih =>
    exact ⟨(same c mem_cons_self).trans mirrors.1,
      ih (some c.id) (fun d inside => same d (mem_cons_of_mem c inside)) mirrors.2⟩

theorem mirrors_iff (back : Nat → Option Nat) (before : Option Nat) (cells : List (Cell S E)) :
    Mirrors back before cells ↔
      ∀ front c after, cells = front ++ c :: after → back c.id = (lastRef front).or before := by
  constructor
  · rintro mirrors front c after rfl
    exact ((mirrors_append back before front (c :: after)).mp mirrors).2.1
  · intro all
    induction cells generalizing before with
    | nil => trivial
    | cons c cells ih =>
      refine ⟨all [] c cells rfl, ih (some c.id) fun front d after shape => ?_⟩
      rw [all (c :: front) d after (by rw [shape]; rfl), lastRef_cons_or]

theorem mirrors_none (back : Nat → Option Nat) (cells : List (Cell S E)) : Mirrors back none cells ↔
    ∀ front c after, cells = front ++ c :: after → back c.id = lastRef front := by
  simp [mirrors_iff]

theorem setBackward_eq (zsl : Zskiplist S E) (next target : Option Nat) : setBackward zsl next target =
      { zsl with
        backward := (setBackward zsl next target).backward
        tail := (setBackward zsl next target).tail } := by
  cases next <;> rfl

theorem setBackward_ok (zsl : Zskiplist S E) (old front after : List (Cell S E))
    (distinct : ((front ++ after).map Cell.id).Nodup) (mirrors_front : Mirrors zsl.backward none front)
    (mirrors_after : Mirrors zsl.backward (lastRef old) after) (tail : zsl.tail = lastRef (old ++ after)) :
    Mirrors (setBackward zsl (after.head?.map Cell.id) (lastRef front)).backward none (front ++ after) ∧
      (setBackward zsl (after.head?.map Cell.id) (lastRef front)).tail = lastRef (front ++ after) := by
  cases after with
  | nil => simpa [setBackward] using mirrors_front
  | cons d after =>
    simp only [map_append, map_cons, nodup_append, nodup_cons, mem_cons, mem_map] at distinct
    refine ⟨(mirrors_append _ _ front (d :: after)).mpr ⟨?_, by simp [setBackward], ?_⟩, ?_⟩
    · refine mirrors_congr _ none (fun c inside => Function.update_of_ne ?_ _ _) mirrors_front
      exact distinct.2.2 c.id ⟨c, inside, rfl⟩ d.id (Or.inl rfl)
    · refine mirrors_congr _ _ (fun c inside => Function.update_of_ne ?_ _ _) mirrors_after.2
      exact fun same => distinct.2.1.1 ⟨c, inside, same⟩
    · rw [lastRef_append_cons] at tail ⊢
      exact tail

theorem reaches_nil (level i : Nat) : Reaches level ([] : List (Cell S E)) i ↔ i < level := Iff.rfl

theorem reaches_concat (level i : Nat) (front : List (Cell S E)) (c : Cell S E) :
    Reaches level (front ++ [c]) i ↔ i < c.node.height := by
  simp [Reaches]

theorem split_unique {A B : Type} (f : A → B) {xs xs' ys ys' : List A} {a b : A}
    (same : xs ++ a :: ys = xs' ++ b :: ys') (distinct : ((xs ++ a :: ys).map f).Nodup) (equal : f a = f b) :
    xs = xs' := by
  have here : ((xs ++ a :: ys).map f)[xs.length]? = ((xs ++ a :: ys).map f)[xs'.length]? := by
    nth_rewrite 2 [same]
    simp [equal]
  exact append_inj_left same ((getElem?_inj (by simp) distinct).mp here)

theorem prefix_of_lastRef {p q rest rest' : List (Cell S E)} (same : p ++ rest = q ++ rest')
    (distinct : ((p ++ rest).map Cell.id).Nodup) (last : lastRef p = lastRef q) : p = q := by
  cases p using List.reverseRecOn with
  | nil =>
    cases q using List.reverseRecOn with
    | nil => rfl
    | append_singleton q d => exact absurd last (by simp)
  | append_singleton p c =>
    obtain ⟨q, d, rfl, equal⟩ := lastRef_eq_some (by rw [← last, lastRef_concat])
    simp only [append_assoc, singleton_append] at same distinct
    have front := split_unique Cell.id same distinct equal.symm
    rw [front] at same ⊢
    rw [(List.cons.inj (append_cancel_left same)).1]

theorem nextRef_short (i : Nat) (gap rest : List (Cell S E)) (short : ∀ c ∈ gap, c.node.height ≤ i) :
    nextRef i (gap ++ rest) = nextRef i rest := by
  induction gap with
  | nil => rfl
  | cons c gap ih =>
    have low := short c mem_cons_self
    rw [cons_append, nextRef, if_neg (by omega)]
    exact ih fun d member => short d (mem_cons_of_mem _ member)

theorem nextDist_short (i : Nat) (gap rest : List (Cell S E)) (short : ∀ c ∈ gap, c.node.height ≤ i) :
    nextDist i (gap ++ rest) = gap.length + nextDist i rest := by
  induction gap with
  | nil => simp
  | cons c gap ih =>
    have low := short c mem_cons_self
    rw [cons_append, nextDist, if_neg (by omega), ih fun d member => short d (mem_cons_of_mem _ member), length_cons]
    omega

theorem next_found {gap : List (Cell S E)} (rest : List (Cell S E)) {c : Cell S E} (short : ∀ d ∈ gap, d.node.height ≤ i)
    (tall : i < c.node.height) :
    nextRef i (gap ++ c :: rest) = some c.id ∧ nextDist i (gap ++ c :: rest) = gap.length + 1 := by
  rw [nextRef_short i gap _ short, nextDist_short i gap _ short, nextRef, nextDist, if_pos tall, if_pos tall]
  exact ⟨rfl, rfl⟩

theorem next_none (short : ∀ c ∈ cells, c.node.height ≤ i) :
    nextRef i cells = none ∧ nextDist i cells = cells.length := by
  rw [← append_nil cells, nextRef_short i cells [] short, nextDist_short i cells [] short]
  simp [nextRef, nextDist]

theorem split_first_tall (i : Nat) (cells : List (Cell S E)) : (∀ c ∈ cells, c.node.height ≤ i) ∨
      ∃ gap c rest, cells = gap ++ c :: rest ∧ (∀ d ∈ gap, d.node.height ≤ i) ∧ i < c.node.height := by
  induction cells with
  | nil => exact Or.inl (by simp)
  | cons c cells ih =>
    by_cases tall : i < c.node.height
    · exact Or.inr ⟨[], c, cells, rfl, by simp, tall⟩
    · rcases ih with short | ⟨gap, d, rest, shape, short, high⟩
      · exact Or.inl (by simpa [Nat.not_lt.mp tall] using short)
      · exact Or.inr ⟨c :: gap, d, rest, by rw [shape]; rfl, by simpa [Nat.not_lt.mp tall] using short, high⟩

theorem next_tall (i : Nat) (gap rest rest' : List (Cell S E)) (tall : ∃ c ∈ gap, i < c.node.height) :
    nextRef i (gap ++ rest) = nextRef i (gap ++ rest') ∧ nextDist i (gap ++ rest) = nextDist i (gap ++ rest') := by
  rcases split_first_tall i gap with short | ⟨low, c, others, rfl, short, high⟩
  · obtain ⟨c, member, high⟩ := tall
    exact absurd high (short c member).not_gt
  · simp only [append_assoc, cons_append, next_found _ short high, and_self]

def tallPart (i : Nat) (front : List (Cell S E)) : List (Cell S E) :=
  front.rdropWhile fun c => c.node.height ≤ i

theorem tallPart_eq {level : Nat} (p gap : List (Cell S E)) (short : ∀ c ∈ gap, c.node.height ≤ i)
    (reaches : Reaches level p i) : tallPart i (p ++ gap) = p := by
  induction gap using List.reverseRecOn with
  | nil =>
    rw [append_nil]
    cases p using List.reverseRecOn with
    | nil => rfl
    | append_singleton p c =>
      have tall := (reaches_concat level i p c).mp reaches
      exact rdropWhile_concat_neg _ _ _ (by simpa using tall)
  | append_singleton gap c ih =>
    rw [← append_assoc, tallPart, rdropWhile_concat_pos _ _ _ (by simpa using short c (by simp))]
    exact ih fun d member => short d (by simp [member])

theorem tallPart_split (i level : Nat) (front : List (Cell S E)) (within : i < level) :
    ∃ gap, front = tallPart i front ++ gap ∧ (∀ c ∈ gap, c.node.height ≤ i) ∧
      Reaches level (tallPart i front) i := by
  induction front using List.reverseRecOn with
  | nil => exact ⟨[], rfl, by simp, within⟩
  | append_singleton front c ih =>
    by_cases short : c.node.height ≤ i
    · obtain ⟨gap, shape, low, reaches⟩ := ih
      have same : tallPart i (front ++ [c]) = tallPart i front :=
        rdropWhile_concat_pos _ _ _ (by simpa using short)
      refine ⟨gap ++ [c], ?_, ?_, by rw [same]; exact reaches⟩
      · rw [same, ← append_assoc, ← shape]
      · intro d member
        rcases mem_append.mp member with old | new
        · exact low d old
        · rw [mem_singleton.mp new]
          exact short
    · have same : tallPart i (front ++ [c]) = front ++ [c] :=
        rdropWhile_concat_neg _ _ _ (by simpa using short)
      refine ⟨[], by rw [same, append_nil], by simp, ?_⟩
      rw [same, reaches_concat]
      omega

section

variable {zsl : Zskiplist S E} {cells : List (Cell S E)} (linked : Linked zsl cells)

include linked

theorem Linked.none_short
    {mid : List (Cell S E)} (inside : mid ⊆ cells) (short : ∀ c ∈ mid, c.node.height ≤ 0) : mid = [] := by
  rw [eq_nil_iff_forall_not_mem]
  intro c member
  have positive := (linked.heights c (inside member)).1
  have low := short c member
  omega

theorem Linked.within {front after : List (Cell S E)} (shape : cells = front ++ after)
    (reaches : Reaches zsl.level front i) : i < zsl.level := by
  cases front using List.reverseRecOn with
  | nil => exact reaches
  | append_singleton front c =>
    exact Nat.lt_of_lt_of_le ((reaches_concat _ _ _ _).mp reaches) (linked.heights c (by rw [shape]; simp)).2

theorem Linked.height_eq
    {front : List (Cell S E)} (after : List (Cell S E)) (shape : cells = front ++ after)
    (reaches : Reaches zsl.level front i) : i < zsl.height (lastRef front) := by
  cases front using List.reverseRecOn with
  | nil => exact Nat.lt_of_lt_of_le reaches linked.level_le
  | append_singleton front c =>
    have node := linked.nodes c (by rw [shape]; simp)
    rw [lastRef_concat, Zskiplist.height, node]
    exact (reaches_concat _ _ _ _).mp reaches

end

theorem Linked.update_height (zsl : Zskiplist S E) (front after : List (Cell S E)) (linked : Linked zsl (front ++ after))
    (i : Nat) (within : i < zsl.level) : i < zsl.height (lastRef (tallPart i front)) := by
  obtain ⟨gap, shape, _, reaches⟩ := tallPart_split i zsl.level front within
  exact linked.height_eq (gap ++ after) (by rw [← append_assoc, ← shape]) reaches

theorem nextRef_zero (after : List (Cell S E)) (heights : ∀ c ∈ after, 1 ≤ c.node.height) :
    nextRef 0 after = after.head?.map Cell.id := by
  cases after with
  | nil => rfl
  | cons c after =>
    have tall := heights c mem_cons_self
    rw [nextRef, if_pos (by omega)]
    rfl

theorem forward_lastRef (zsl : Zskiplist S E) (front after : List (Cell S E)) (linked : Linked zsl (front ++ after)) :
    zsl.forward (lastRef front, 0) = after.head?.map Cell.id := by
  have reaches : Reaches zsl.level front 0 := by
    cases front using List.reverseRecOn with
    | nil => exact linked.level_pos
    | append_singleton front c => exact (reaches_concat _ _ _ _).mpr (linked.heights c (by simp)).1
  rw [(linked.links front after 0 rfl reaches).1,
    nextRef_zero after fun c member => (linked.heights c (by simp [member])).1]

def Counts (total traversed position : Nat) : Prop :=
  traversed % 2 ^ 32 = position % 2 ^ 32 ∧ (total < 2 ^ 32 → traversed = position)

theorem counts_add {total traversed position : Nat} (dist : Nat) (counts : Counts total traversed position)
    (within : position + dist ≤ total) :
    Counts total (traversed + (BitVec.ofNat 32 dist).toNat) (position + dist) := by
  rw [BitVec.toNat_ofNat]
  refine ⟨by have := counts.1; omega, fun small => ?_⟩
  rw [counts.2 small, Nat.mod_eq_of_lt (by omega)]

def Blocks (ahead : Nat → ZskiplistNode S E → Bool) (i position : Nat) : List (Cell S E) → Prop
  | [] => True
  | c :: _ => i < c.node.height ∧ ahead (position + 1) c.node = false

def Arrived (ahead : Nat → ZskiplistNode S E → Bool) (front : List (Cell S E)) : Prop :=
  ∀ c ∈ front.getLast?, ahead front.length c.node = true

structure Stops (zsl : Zskiplist S E) (cells : List (Cell S E))
    (ahead : Nat → ZskiplistNode S E → Bool) (i : Nat) (pre gap bar : List (Cell S E))
    (traversed : Nat) : Prop where
  shape : cells = pre ++ (gap ++ bar)
  short : ∀ c ∈ gap, c.node.height ≤ i
  blocks : Blocks ahead i (pre.length + gap.length) bar
  counts : Counts cells.length traversed pre.length
  arrived : Arrived ahead pre

structure Found (zsl : Zskiplist S E) (cells : List (Cell S E))
    (ahead : Nat → ZskiplistNode S E → Bool) (path : Path) (levels traversed : Nat)
    (front after : List (Cell S E)) : Prop where
  shape : cells = front ++ after
  arrived : Arrived ahead front
  blocked : Blocks ahead 0 front.length after
  counts : Counts cells.length traversed front.length
  update : ∀ i < levels, path.update i = lastRef (tallPart i front)
  rank : ∀ i < levels, path.rank i = BitVec.ofNat 32 (tallPart i front).length

theorem Blocks.mono {ahead : Nat → ZskiplistNode S E → Bool} (i j position : Nat) {bar : List (Cell S E)}
    (le : j ≤ i) (blocks : Blocks ahead i position bar) : Blocks ahead j position bar := by
  cases bar with
  | nil => trivial
  | cons c bar => exact ⟨Nat.lt_of_le_of_lt le blocks.1, blocks.2⟩

theorem Reaches.mono {level i : Nat} (j : Nat) {front : List (Cell S E)} (le : j ≤ i)
    (reaches : Reaches level front i) : Reaches level front j := Nat.lt_of_le_of_lt le reaches

theorem ofNat_of_counts {total traversed position : Nat} (counts : Counts total traversed position) :
    BitVec.ofNat 32 traversed = BitVec.ofNat 32 position := by
  apply BitVec.eq_of_toNat_eq
  rw [BitVec.toNat_ofNat, BitVec.toNat_ofNat, counts.1]

section

variable {zsl : Zskiplist S E} {cells : List (Cell S E)} (linked : Linked zsl cells)
  (ahead : Nat → ZskiplistNode S E → Bool)
  (stable : ∀ reached position node, Counts cells.length reached position → ahead reached node = ahead position node)

include linked stable

theorem walk_ok (i fuel : Nat) (pre mid bar : List (Cell S E)) (traversed : Nat)
    (shape : cells = pre ++ (mid ++ bar)) (reaches : Reaches zsl.level pre i)
    (blocks : Blocks ahead i (pre.length + mid.length) bar)
    (counts : Counts cells.length traversed pre.length) (arrived : Arrived ahead pre)
    (enough : mid.length < fuel) :
    ∃ pre' gap bar' traversed', walk zsl ahead i fuel (lastRef pre) traversed = some (lastRef pre', traversed') ∧
      Stops zsl cells ahead i pre' gap bar' traversed' ∧ Reaches zsl.level pre' i ∧ pre <+: pre' ∧
      bar <:+ bar' := by
  induction fuel generalizing pre mid traversed with
  | zero => omega
  | succ fuel ih =>
    have height := linked.height_eq (mid ++ bar) shape reaches
    obtain ⟨forward, span⟩ := linked.links pre (mid ++ bar) i shape reaches
    have total := congrArg List.length shape
    simp only [length_append] at total
    rw [walk, if_pos height, forward, span]
    rcases split_first_tall i mid with short | ⟨gap, c, rest, rfl, short, tall⟩
    · refine ⟨pre, mid, bar, traversed, ?_, ⟨shape, short, blocks, counts, arrived⟩, reaches,
        prefix_refl pre, suffix_refl bar⟩
      cases bar with
      | nil =>
        rw [append_nil, (next_none short).1]
      | cons c bar =>
        have node := linked.nodes c (by rw [shape]; simp)
        obtain ⟨next, dist⟩ := next_found bar short blocks.1
        have reached := counts_add (mid.length + 1) counts (by simp at total; omega)
        have stopped := stable _ _ c.node reached
        rw [← Nat.add_assoc, blocks.2] at stopped
        rw [next, dist]
        simp only [node, some_bind, stopped]
        rfl
    · have regroup : gap ++ c :: rest ++ bar = gap ++ c :: (rest ++ bar) := by simp
      have node := linked.nodes c (by rw [shape]; simp)
      obtain ⟨next, dist⟩ := next_found (rest ++ bar) short tall
      have reached := counts_add (gap.length + 1) counts (by simp at total; omega)
      have decided := stable _ _ c.node reached
      rw [regroup, next, dist]
      simp only [node, some_bind, decided]
      cases moves : ahead (pre.length + (gap.length + 1)) c.node with
      | true =>
        have length : (pre ++ gap ++ [c]).length = pre.length + (gap.length + 1) := by simp
        obtain ⟨pre', gap', bar', traversed', ran, stops, reaches', extends_pre, extends_bar⟩ :=
          ih (pre ++ gap ++ [c]) rest (traversed + (BitVec.ofNat 32 (gap.length + 1)).toNat)
            (by rw [shape]; simp) ((reaches_concat _ _ _ _).mpr tall)
            (by
              rw [length]
              simpa [Nat.add_assoc, Nat.add_comm, Nat.add_left_comm] using blocks)
            (by rw [length]; exact reached)
            (by
              intro d last
              have same : d = c := by simpa using last.symm
              rw [length, same, moves])
            (by simp at enough; omega)
        refine ⟨pre', gap', bar', traversed', ?_, stops, reaches', ?_, extends_bar⟩
        · rw [lastRef_concat] at ran
          simpa using ran
        · exact List.IsPrefix.trans ⟨gap ++ [c], by simp⟩ extends_pre
      | false =>
        refine ⟨pre, gap, c :: (rest ++ bar), traversed, by simp, ⟨?_, short, ?_, counts, arrived⟩, reaches,
          prefix_refl pre, ?_⟩
        · rw [shape]
          simp
        · exact ⟨tall, by rw [Nat.add_assoc]; exact moves⟩
        · exact ⟨c :: rest, by simp⟩

theorem descend_ok {i : Nat} (pre mid bar : List (Cell S E)) (traversed : Nat) (path : Path)
    (stops : Stops zsl cells ahead i pre mid bar traversed)
    (reaches : ∀ j < i, Reaches zsl.level pre j) :
    ∃ path' front after traversed', descend zsl ahead i (lastRef pre) traversed path =
        some (path', lastRef front, traversed') ∧
      Found zsl cells ahead path' i traversed' front after ∧ pre <+: front ∧ bar <:+ after ∧
      ∀ j, i ≤ j → path'.update j = path.update j ∧ path'.rank j = path.rank j := by
  induction i generalizing pre mid bar traversed path with
  | zero =>
    obtain rfl := linked.none_short (by rw [stops.shape]; simp) stops.short
    refine ⟨path, pre, bar, traversed, rfl, ⟨by simpa using stops.shape, stops.arrived, ?_, stops.counts,
      by simp, by simp⟩, prefix_refl pre, suffix_refl bar, fun j _ => ⟨rfl, rfl⟩⟩
    simpa using stops.blocks
  | succ i ih =>
    have total := congrArg List.length stops.shape
    simp only [length_append] at total
    obtain ⟨pre', gap, bar', traversed', ran, stops', reaches', extends_pre, extends_bar⟩ :=
      walk_ok linked ahead stable i (zsl.length + 1) pre mid bar traversed stops.shape
        (reaches i (by omega)) (stops.blocks.mono (i + 1) i _ (by omega)) stops.counts
        stops.arrived (by rw [linked.length]; omega)
    obtain ⟨path', front, after, traversed'', rest, found, extends_front, extends_after, same⟩ :=
      ih pre' gap bar' traversed'
        { update := Function.update path.update i (lastRef pre')
          rank := Function.update path.rank i (BitVec.ofNat 32 traversed') } stops'
        (fun j lower => reaches'.mono _ (by omega))
    have part : tallPart i front = pre' := by
      obtain ⟨moved, rfl⟩ := extends_front
      obtain ⟨before, rfl⟩ := extends_after
      have shape := stops'.shape.symm.trans found.shape
      rw [append_assoc, ← append_assoc moved] at shape
      have inside : gap = moved ++ before :=
        append_cancel_right (append_cancel_left shape)
      exact tallPart_eq pre' moved
        (fun c member => stops'.short c (by rw [inside]; simp [member])) reaches'
    refine ⟨path', front, after, traversed'', ?_, ?_, extends_pre.trans extends_front,
      extends_bar.trans extends_after, ?_⟩
    · simp only [descend, ran, some_bind]
      exact rest
    · obtain ⟨update_i, rank_i⟩ := same i le_rfl
      refine { found with update := ?_, rank := ?_ }
      · intro j lower
        rcases Nat.lt_succ_iff_lt_or_eq.mp lower with smaller | equal
        · exact found.update j smaller
        · rw [equal, update_i, part]
          simp
      · intro j lower
        rcases Nat.lt_succ_iff_lt_or_eq.mp lower with smaller | equal
        · exact found.rank j smaller
        · rw [equal, rank_i, part, ← ofNat_of_counts stops'.counts]
          simp
    · intro j upper
      obtain ⟨update_j, rank_j⟩ := same j (by omega)
      rw [update_j, rank_j]
      simp [Function.update_of_ne (show j ≠ i by omega)]

theorem search_ok :
    ∃ path front after traversed, search zsl ahead = some (path, lastRef front, traversed) ∧
      Found zsl cells ahead path zsl.level traversed front after := by
  have stops : Stops zsl cells ahead zsl.level [] cells [] 0 :=
    { shape := by simp, short := fun c member => (linked.heights c member).2, blocks := trivial,
      counts := ⟨rfl, fun _ => rfl⟩, arrived := by intro c last; simp at last }
  obtain ⟨path, front, after, traversed, ran, found, _⟩ :=
    descend_ok linked ahead stable [] cells [] 0
      { update := fun _ => none, rank := fun _ => 0 } stops (fun j lower => lower)
  exact ⟨path, front, after, traversed, ran, found⟩

end

end RedisCore.SkipList
