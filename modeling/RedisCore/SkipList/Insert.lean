import RedisCore.SkipList.Search

set_option autoImplicit false

namespace RedisCore.SkipList

open List

variable {S E : Type}
variable {zsl : Zskiplist S E} {path : Path} {cells : List (Cell S E)} {i level : Nat}

def linkTo (zsl : Zskiplist S E) (x : Nat) (path : Path) (n : Nat) : Zskiplist S E :=
  { zsl with
    forward := fun p =>
      if p.2 < n ∧ p.1 = path.update p.2 then some x
      else if p.2 < n ∧ p.1 = some x then zsl.forward (path.update p.2, p.2)
      else zsl.forward p
    span := fun p =>
      if p.2 < n ∧ p.1 = path.update p.2 then path.rank 0 - path.rank p.2 + 1
      else if p.2 < n ∧ p.1 = some x then zsl.span (path.update p.2, p.2) - (path.rank 0 - path.rank p.2)
      else zsl.span p }

def bumpTo (zsl : Zskiplist S E) (path : Path) (low high : Nat) : Zskiplist S E :=
  { zsl with
    span := fun p => if low ≤ p.2 ∧ p.2 < high ∧ p.1 = path.update p.2 then zsl.span p + 1 else zsl.span p }

theorem forLevels_row (f : Nat → Zskiplist S E → Option (Zskiplist S E)) (row : Nat → Zskiplist S E) (count i : Nat)
    (step : ∀ j, i ≤ j → j < i + count → f j (row j) = some (row (j + 1))) :
    forLevels f count i (row i) = some (row (i + count)) := by
  induction count generalizing i with
  | zero => rfl
  | succ count ih =>
    rw [forLevels, step i le_rfl (by omega), some_bind, ih (i + 1) (fun j low high => step j (by omega) (by omega))]
    rw [show i + 1 + count = i + (count + 1) by omega]

theorem linkLevel_linkTo {x : Nat}
    (has_update : i < zsl.height (path.update i)) (has_node : i < zsl.height (some x)) :
    linkLevel x path i (linkTo zsl x path i) = some (linkTo zsl x path (i + 1)) := by
  have heights (y : Ref) : (linkTo zsl x path i).height y = zsl.height y := rfl
  rw [linkLevel]
  simp only [heights, has_update, has_node, and_self, if_true]
  refine congrArg some ?_
  simp only [linkTo, Zskiplist.mk.injEq, true_and, and_true]
  constructor
  all_goals
    funext p
    obtain ⟨y, j⟩ := p
    by_cases same : j = i
    · subst same
      by_cases at_update : y = path.update j
      · simp [at_update]
      · by_cases at_node : y = some x
        · simp [Function.update_apply, at_node]
        · simp [at_update, at_node]
    · have order : j < i + 1 ↔ j < i := by omega
      simp [same, order]

theorem forLevels_linkLevel (zsl : Zskiplist S E) (x : Nat) (path : Path) (count i : Nat)
    (has_update : ∀ j < i + count, j < zsl.height (path.update j))
    (has_node : ∀ j < i + count, j < zsl.height (some x)) :
    forLevels (linkLevel x path) count i (linkTo zsl x path i) = some (linkTo zsl x path (i + count)) :=
  forLevels_row _ (linkTo zsl x path) count i fun j _ high =>
    linkLevel_linkTo (has_update j high) (has_node j high)

theorem linkTo_zero (zsl : Zskiplist S E) (x : Nat) (path : Path) : linkTo zsl x path 0 = zsl := by
  simp [linkTo]

theorem bumpSpan_bumpTo {low : Nat} (le : low ≤ i)
    (has_update : i < zsl.height (path.update i)) :
    bumpSpan path i (bumpTo zsl path low i) = some (bumpTo zsl path low (i + 1)) := by
  have heights (y : Ref) : (bumpTo zsl path low i).height y = zsl.height y := rfl
  rw [bumpSpan]
  simp only [heights, has_update, if_true]
  refine congrArg some ?_
  simp only [bumpTo, Zskiplist.mk.injEq, true_and, and_true]
  funext p
  obtain ⟨y, j⟩ := p
  by_cases same : j = i
  · subst same
    by_cases at_update : y = path.update j
    · simp [at_update, le]
    · simp [at_update]
  · have order : j < i + 1 ↔ j < i := by omega
    simp [same, order]

theorem forLevels_bumpSpan (zsl : Zskiplist S E) (path : Path) (low count i : Nat) (le : low ≤ i)
    (has_update : ∀ j < i + count, j < zsl.height (path.update j)) :
    forLevels (bumpSpan path) count i (bumpTo zsl path low i) = some (bumpTo zsl path low (i + count)) :=
  forLevels_row _ (bumpTo zsl path low) count i fun j above high =>
    bumpSpan_bumpTo (le.trans above) (has_update j high)

theorem bumpTo_self (zsl : Zskiplist S E) (path : Path) (low : Nat) : bumpTo zsl path low low = zsl := by
  have never (j : Nat) (y : Ref) : ¬(low ≤ j ∧ j < low ∧ y = path.update j) := by omega
  simp [bumpTo, never]

structure Leads (path : Path) (levels : Nat) (front : List (Cell S E)) : Prop where
  update : ∀ i < levels, path.update i = lastRef (tallPart i front)
  rank : ∀ i < levels, path.rank i = BitVec.ofNat 32 (tallPart i front).length

theorem tallPart_of_short {i : Nat} {front : List (Cell S E)} (short : ∀ c ∈ front, c.node.height ≤ i) :
    tallPart i front = [] := by
  have step := tallPart_eq [] front short (Nat.lt_succ_self i)
  simpa using step

theorem raiseLevel_ok {front after : List (Cell S E)}
    (linked : Linked zsl cells) (shape : cells = front ++ after) (leads : Leads path zsl.level front)
    (most : level ≤ zskiplistMaxlevel) :
    Linked (raiseLevel zsl level path).1 cells ∧
      Leads (raiseLevel zsl level path).2 (max zsl.level level) front ∧
      (raiseLevel zsl level path).1.level = max zsl.level level := by
  unfold raiseLevel
  split
  next higher =>
    have short (i : Nat) (high : zsl.level ≤ i) : ∀ c ∈ cells, c.node.height ≤ i := fun c member =>
      le_trans (linked.heights c member).2 high
    refine ⟨?_, ?_, by dsimp only; omega⟩
    · exact
        { linked with
          heights := fun c member => ⟨(linked.heights c member).1,
            le_trans (linked.heights c member).2 (Nat.le_of_lt higher)⟩
          level_pos := by have := linked.level_pos; dsimp only; omega
          level_le := most
          above := fun i high => linked.above i (by dsimp only at high; omega)
          links := by
            intro p q i split_cells reaches
            dsimp only at reaches ⊢
            cases p using List.reverseRecOn with
            | nil =>
              have whole : cells = q := by simpa using split_cells
              rw [reaches_nil] at reaches
              by_cases old : i < zsl.level
              · have link := linked.links [] q i split_cells old
                simpa [Nat.not_le.mpr old] using link
              · obtain ⟨none_next, to_end⟩ := next_none (whole ▸ short i (by omega))
                rw [none_next, to_end, ← whole, ← linked.length]
                exact ⟨linked.above i (by omega), by simp [Nat.not_lt.mp old, reaches]⟩
            | append_singleton p c =>
              have link := linked.links (p ++ [c]) q i split_cells
                ((reaches_concat _ _ _ _).mpr ((reaches_concat _ _ _ _).mp reaches))
              simpa using link }
    · have empty (i : Nat) (high : zsl.level ≤ i) : tallPart i front = [] :=
        tallPart_of_short fun c member => short i high c (by rw [shape]; simp [member])
      constructor
      · intro i lower
        dsimp only
        split
        next new => rw [empty i new.1, lastRef_nil]
        next old => exact leads.update i (by omega)
      · intro i lower
        dsimp only
        split
        next new => rw [empty i new.1]; rfl
        next old => exact leads.rank i (by omega)
  next low =>
    have same : max zsl.level level = zsl.level := by omega
    rw [same]
    exact ⟨linked, leads, rfl⟩

theorem tallPart_zero (front : List (Cell S E)) (heights : ∀ c ∈ front, 1 ≤ c.node.height) :
    tallPart 0 front = front := by
  obtain ⟨gap, shape, short, _⟩ := tallPart_split 0 1 front (by omega)
  cases gap with
  | nil => simpa using shape.symm
  | cons c gap =>
    have tall := heights c (by rw [shape]; simp)
    have low := short c mem_cons_self
    omega

theorem ofNat_sub_ofNat (a b : Nat) : BitVec.ofNat 32 (a + b) - BitVec.ofNat 32 a = BitVec.ofNat 32 b := by
  rw [BitVec.ofNat_add]
  ring

theorem update_cases {front after p g : List (Cell S E)}
    (distinct : ((front ++ after).map Cell.id).Nodup) (update : path.update i = lastRef (tallPart i front))
    (shape : front = p ++ g) (reaches : Reaches level p i) :
    ((∀ c ∈ g, c.node.height ≤ i) ∧ lastRef p = path.update i ∧ tallPart i front = p) ∨
      ((∃ c ∈ g, i < c.node.height) ∧ lastRef p ≠ path.update i) := by
  by_cases short : ∀ c ∈ g, c.node.height ≤ i
  · have part : tallPart i front = p := by
      rw [shape]
      exact tallPart_eq p g short reaches
    exact Or.inl ⟨short, by rw [update, part], part⟩
  · push Not at short
    refine Or.inr ⟨short, ?_⟩
    intro same
    obtain ⟨gap, split_front, low, _⟩ := tallPart_split i (i + 1) front (by omega)
    have joined := shape.symm.trans split_front
    rw [map_append] at distinct
    rw [← prefix_of_lastRef joined (shape ▸ distinct.of_append_left) (by rw [same, update])] at joined
    obtain ⟨c, member, tall⟩ := short
    have := low c (append_cancel_left joined ▸ member)
    omega

theorem lastRef_ne_of_after {path : Path} {i : Nat} {front after : List (Cell S E)} (r : List (Cell S E)) {c : Cell S E}
    (distinct : ((front ++ after).map Cell.id).Nodup)
    (update : path.update i = lastRef (tallPart i front)) (member : c ∈ after) :
    lastRef (r ++ [c]) ≠ path.update i := by
  rw [lastRef_concat, update]
  refine (lastRef_ne_some fun d inside => ?_).symm
  have in_front : d ∈ front := by
    obtain ⟨gap, shape, _⟩ := tallPart_split i (i + 1) front (by omega)
    rw [shape]
    exact mem_append.mpr (Or.inl inside)
  rw [map_append, nodup_append] at distinct
  exact fun same => distinct.2.2 d.id (mem_map_of_mem in_front) c.id (mem_map_of_mem member) same

section

variable (zsl : Zskiplist S E) {front after : List (Cell S E)} (new : Cell S E) (path : Path)

def inserted : Zskiplist S E :=
  bumpTo (linkTo zsl new.id path new.node.height) path new.node.height zsl.level

variable (linked : Linked zsl (front ++ after)) (leads : Leads path zsl.level front)
  (unused : ∀ c ∈ front ++ after, c.id ≠ new.id)

include linked leads unused

variable {zsl new path}

theorem inserted_before (p g : List (Cell S E)) (shape : front = p ++ g)
    (reaches : Reaches zsl.level p i) : (inserted zsl new path).LinksTo (lastRef p) i (g ++ new :: after) := by
  have whole : front ++ after = p ++ (g ++ after) := by rw [shape, append_assoc]
  have within := linked.within whole reaches
  obtain ⟨forward, span⟩ := linked.links p (g ++ after) i whole reaches
  rw [Zskiplist.LinksTo]
  have not_new : lastRef p ≠ some new.id :=
    lastRef_ne_some fun c member => unused c (by rw [shape]; simp [member])
  rcases update_cases linked.distinct (leads.update i within) shape reaches with
    ⟨short, at_update, part⟩ | ⟨tall, elsewhere⟩
  · have ranks : path.rank 0 - path.rank i = BitVec.ofNat 32 g.length := by
      rw [leads.rank 0 (by omega), leads.rank i within, part,
        tallPart_zero front (fun c member => (linked.heights c (by simp [member])).1), shape,
        length_append, ofNat_sub_ofNat]
    rw [nextRef_short i g _ short, nextDist_short i g _ short, nextRef, nextDist]
    by_cases high : i < new.node.height
    · simp [inserted, bumpTo, linkTo, high, at_update, ranks, Nat.not_le.mpr high, BitVec.ofNat_add]
    · rw [nextRef_short i g _ short] at forward
      rw [nextDist_short i g _ short] at span
      simp only [inserted, bumpTo, linkTo, high, false_and, if_false, Nat.not_lt.mp high, within,
        at_update, true_and, if_true]
      rw [at_update] at forward span
      rw [forward, span]
      refine ⟨rfl, ?_⟩
      rw [← Nat.add_assoc, BitVec.ofNat_add _ 1]
      rfl
  · rw [(next_tall i g (new :: after) after tall).1, (next_tall i g (new :: after) after tall).2]
    simpa [inserted, bumpTo, linkTo, elsewhere, not_new] using ⟨forward, span⟩

theorem inserted_at (i : Nat) (high : i < new.node.height) (within : i < zsl.level) :
    (inserted zsl new path).LinksTo (some new.id) i after := by
  obtain ⟨gap, shape, short, reaches⟩ := tallPart_split i zsl.level front within
  obtain ⟨forward, span⟩ := linked.links (tallPart i front) (gap ++ after) i
    (by rw [← append_assoc, ← shape]) reaches
  have not_update : some new.id ≠ path.update i := by
    rw [leads.update i within]
    refine (lastRef_ne_some fun c member => unused c ?_).symm
    rw [shape]
    simp [member]
  have ranks : path.rank 0 - path.rank i = BitVec.ofNat 32 gap.length := by
    have total := congrArg List.length shape
    rw [length_append] at total
    rw [leads.rank 0 (by omega), leads.rank i within,
      tallPart_zero front (fun c member => (linked.heights c (by simp [member])).1), total, ofNat_sub_ofNat]
  rw [nextRef_short i gap _ short, ← leads.update i within] at forward
  rw [nextDist_short i gap _ short, ← leads.update i within] at span
  simp only [Zskiplist.LinksTo, inserted, bumpTo, linkTo, high, not_update, Nat.not_le.mpr high, true_and,
    and_false, if_false, if_true]
  rw [forward, span, ranks, ofNat_sub_ofNat]
  exact ⟨rfl, rfl⟩

theorem inserted_after (r q : List (Cell S E)) {c : Cell S E} (shape : after = r ++ c :: q)
    (high : i < c.node.height) : (inserted zsl new path).LinksTo (some c.id) i q := by
  have member : c ∈ after := by rw [shape]; simp
  have within : i < zsl.level := Nat.lt_of_lt_of_le high (linked.heights c (by simp [member])).2
  have link := linked.links (front ++ r ++ [c]) q i (by rw [shape]; simp)
    ((reaches_concat _ _ _ _).mpr high)
  have not_update := lastRef_ne_of_after (front ++ r) linked.distinct
    (leads.update i within) member
  have not_new : c.id ≠ new.id := unused c (by simp [member])
  rw [lastRef_concat] at link not_update
  simpa [Zskiplist.LinksTo, inserted, bumpTo, linkTo, not_update, not_new] using link

theorem inserted_links (p q : List (Cell S E)) (i : Nat) (shape : front ++ new :: after = p ++ q)
    (reaches : Reaches zsl.level p i) (fits : new.node.height ≤ zsl.level) :
    (inserted zsl new path).LinksTo (lastRef p) i q := by
  rcases append_eq_append_iff.mp shape with ⟨r, rfl, tail⟩ | ⟨g, front_eq, rfl⟩
  · cases r using List.reverseRecOn with
    | nil =>
      rw [append_nil] at reaches ⊢
      rw [← nil_append q, ← tail]
      exact inserted_before linked leads unused front [] (by simp) reaches
    | append_singleton r c =>
      rw [← append_assoc, lastRef_concat]
      rw [← append_assoc, reaches_concat] at reaches
      cases r with
      | nil =>
        obtain ⟨rfl, rfl⟩ := List.cons.inj tail
        exact inserted_at linked leads unused i reaches (by omega)
      | cons d r =>
        obtain ⟨rfl, tail⟩ := List.cons.inj tail
        exact inserted_after linked leads unused r q (by simpa using tail) reaches
  · exact inserted_before linked leads unused p g front_eq reaches

end

theorem createNode_linked (level : Nat) (score : S) (ele : E)
    (linked : Linked zsl cells) : Linked (zslCreateNode zsl level score ele) cells :=
  { linked with
    nodes := fun c member => by
      have old := linked.fresh c member
      dsimp only [zslCreateNode]
      rw [Function.update_of_ne (by omega)]
      exact linked.nodes c member
    fresh := fun c member => Nat.lt_succ_of_lt (linked.fresh c member) }

theorem forall_inserted {P : Cell S E → Prop} {front after : List (Cell S E)} (new : Cell S E) (at_new : P new)
    (others : ∀ c ∈ front ++ after, P c) : ∀ c ∈ front ++ new :: after, P c := by
  simp only [forall_mem_append, forall_mem_cons] at others ⊢
  exact ⟨others.1, at_new, others.2⟩

theorem insert_finish {front after : List (Cell S E)} {new : Cell S E}
    (linked : Linked zsl (front ++ after)) (leads : Leads path zsl.level front)
    (unused : ∀ c ∈ front ++ after, c.id ≠ new.id) (node : zsl.node new.id = some new.node)
    (fresh : new.id < zsl.fresh) (height : 1 ≤ new.node.height ∧ new.node.height ≤ zsl.level) :
    let linked_in := inserted zsl new path
    let mirrored := { linked_in with backward := Function.update linked_in.backward new.id (path.update 0) }
    let tailed := setBackward mirrored (mirrored.forward (some new.id, 0)) (some new.id)
    Linked { tailed with length := tailed.length + 1 } (front ++ new :: after) := by
  intro linked_in mirrored tailed
  have heights (c : Cell S E) (member : c ∈ front ++ after) := (linked.heights c member).1
  have next : mirrored.forward (some new.id, 0) = after.head?.map Cell.id := by
    rw [← nextRef_zero after fun c member => heights c (by simp [member])]
    exact (inserted_at linked leads unused 0 (by omega) (by omega)).1
  have update_zero : path.update 0 = lastRef front := by
    rw [leads.update 0 (by omega), tallPart_zero front fun c member => heights c (by simp [member])]
  have distinct : ((front ++ new :: after).map Cell.id).Nodup := by
    have moved : ((front ++ new :: after).map Cell.id).Perm (new.id :: (front ++ after).map Cell.id) := by simp
    rw [moved.nodup_iff, nodup_cons]
    refine ⟨fun inside => ?_, linked.distinct⟩
    obtain ⟨c, member, same⟩ := mem_map.mp inside
    exact unused c member same
  have split : front ++ new :: after = front ++ [new] ++ after := by simp
  obtain ⟨mirrors_front, mirrors_after⟩ := (mirrors_append _ _ front after).mp
    ((mirrors_none _ _).mpr linked.backward)
  have kept (cells : List (Cell S E)) (before : Option Nat) (old : ∀ c ∈ cells, c ∈ front ++ after)
      (mirrors : Mirrors zsl.backward before cells) : Mirrors mirrored.backward before cells :=
    mirrors_congr _ before (fun c member => Function.update_of_ne (unused c (old c member)) _ _) mirrors
  obtain ⟨mirrors, tail⟩ := setBackward_ok mirrored front (front ++ [new]) after (by rw [← split]; exact distinct)
    ((mirrors_append _ _ front [new]).mpr ⟨kept front none (by simp +contextual) mirrors_front, by
      simp [mirrored, update_zero], trivial⟩)
    (kept after _ (by simp +contextual) (by simpa using mirrors_after)) linked.tail
  rw [lastRef_concat, ← split, ← next] at mirrors tail
  have fields : tailed = { mirrored with backward := tailed.backward, tail := tailed.tail } := setBackward_eq _ _ _
  have links (p q : List (Cell S E)) (i : Nat) := inserted_links linked leads unused p q i
  rw [fields]
  exact
    { nodes := forall_inserted new node linked.nodes
      fresh := forall_inserted new fresh linked.fresh
      distinct := distinct
      heights := forall_inserted new height linked.heights
      level_pos := linked.level_pos
      level_le := linked.level_le
      links := fun p q i shape reaches => links p q i shape reaches height.2
      above := fun i high => by
        have high : zsl.level ≤ i := high
        simpa [mirrored, linked_in, inserted, bumpTo, linkTo, show ¬i < new.node.height by omega] using linked.above i high
      backward := (mirrors_none _ _).mp mirrors
      tail := tail
      length := by
        have length := linked.length
        simp only [length_append, length_cons] at length ⊢
        exact congrArg (· + 1) length }

section

variable [LinearOrder S] [LinearOrder E]

theorem zslInsert_ok (score : S) (ele : E)
    (linked : Linked zsl cells) (low : 1 ≤ level) (high : level ≤ zskiplistMaxlevel) :
    ∃ zsl' front after, zslInsert zsl score ele level = some zsl' ∧ cells = front ++ after ∧
      Arrived (fun _ => nodeBefore score ele) front ∧
      Blocks (fun _ => nodeBefore score ele) 0 front.length after ∧
      Linked zsl' (front ++ ⟨zsl.fresh, ⟨ele, score, level⟩⟩ :: after) ∧
      zsl'.level = max zsl.level level := by
  obtain ⟨path, front, after, traversed, searched, found⟩ :=
    search_ok linked (fun _ => nodeBefore score ele) (fun _ _ _ _ => rfl)
  obtain ⟨raised_linked, raised_leads, raised_level⟩ := raiseLevel_ok linked
    found.shape ⟨found.update, found.rank⟩ high
  have fresh : (raiseLevel zsl level path).1.fresh = zsl.fresh := by
    unfold raiseLevel
    split <;> rfl
  let new : Cell S E := ⟨zsl.fresh, ⟨ele, score, level⟩⟩
  let base := zslCreateNode (raiseLevel zsl level path).1 level score ele
  have base_linked : Linked base cells := createNode_linked level score ele raised_linked
  have base_level : base.level = max zsl.level level := raised_level
  rw [← base_level] at raised_leads
  rw [found.shape] at base_linked
  have node : base.node new.id = some new.node := by
    simp [base, zslCreateNode, fresh, new]
  have unused (c : Cell S E) (member : c ∈ front ++ after) : c.id ≠ new.id :=
    Nat.ne_of_lt (linked.fresh c (by rw [found.shape]; exact member))
  have has_update (j : Nat) (within : j < base.level) :
      j < base.height ((raiseLevel zsl level path).2.update j) := by
    rw [raised_leads.update j within]
    exact base_linked.update_height base front after j within
  have has_node (j : Nat) (within : j < level) : j < base.height (some new.id) := by
    rw [Zskiplist.height, node]
    exact within
  have links := forLevels_linkLevel base new.id (raiseLevel zsl level path).2 level 0
    (fun j lower => has_update j (by omega)) (fun j lower => has_node j (by omega))
  rw [linkTo_zero, Nat.zero_add] at links
  have bumps := forLevels_bumpSpan (linkTo base new.id (raiseLevel zsl level path).2 level)
    (raiseLevel zsl level path).2 level (base.level - level) level le_rfl
    (fun j lower => has_update j (by omega))
  rw [bumpTo_self, show level + (base.level - level) = base.level by omega] at bumps
  have final := insert_finish base_linked raised_leads unused
    node (by change zsl.fresh < (raiseLevel zsl level path).1.fresh + 1; omega)
    ⟨low, by change level ≤ base.level; omega⟩
  refine ⟨_, front, after, ?_, found.shape, found.arrived, found.blocked, final, ?_⟩
  · simp only [zslInsert, searched, some_bind, fresh]
    change ((forLevels (linkLevel new.id _) level 0 base).bind _) = _
    rw [links, Option.bind_some]
    change ((forLevels (bumpSpan _) (base.level - level) level _).bind _) = _
    rw [bumps]
    rfl
  · simp only [setBackward]
    split <;> exact base_level

end

end RedisCore.SkipList
