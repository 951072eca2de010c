import RedisCore.SkipList.Insert

set_option autoImplicit false

namespace RedisCore.SkipList

open List

variable {S E : Type}
variable {zsl : Zskiplist S E} {cells : List (Cell S E)} {i : Nat}

def unlinkTo (zsl : Zskiplist S E) (x : Nat) (path : Path) (n : Nat) : Zskiplist S E :=
  { zsl with
    span := fun p =>
      if p.2 < n ∧ p.1 = path.update p.2 then
        if zsl.forward p = some x then zsl.span p + (zsl.span (some x, p.2) - 1) else zsl.span p - 1
      else zsl.span p
    forward := fun p =>
      if (p.2 < n ∧ p.1 = path.update p.2) ∧ zsl.forward p = some x then zsl.forward (some x, p.2)
      else zsl.forward p }

theorem unlinkTo_zero (zsl : Zskiplist S E) (x : Nat) (path : Path) : unlinkTo zsl x path 0 = zsl := by
  simp [unlinkTo]

theorem unlinkLevel_unlinkTo {x : Nat} {path : Path}
    (has_update : i < zsl.height (path.update i))
    (has_node : zsl.forward (path.update i, i) = some x → i < zsl.height (some x)) :
    unlinkLevel x path i (unlinkTo zsl x path i) = some (unlinkTo zsl x path (i + 1)) := by
  have heights (y : Ref) : (unlinkTo zsl x path i).height y = zsl.height y := rfl
  have read_forward (y : Ref) : (unlinkTo zsl x path i).forward (y, i) = zsl.forward (y, i) := by
    simp [unlinkTo]
  have read_span (y : Ref) : (unlinkTo zsl x path i).span (y, i) = zsl.span (y, i) := by
    simp [unlinkTo]
  rw [unlinkLevel]
  simp only [heights, has_update, if_true, read_forward, read_span]
  -- Either way the pointers and the spans change only at update[i].
  by_cases points : zsl.forward (path.update i, i) = some x
  all_goals
    simp only [points, has_node, if_true, if_false]
    refine congrArg some ?_
    simp only [unlinkTo, Zskiplist.mk.injEq, true_and, and_true]
    constructor
    all_goals
      funext p
      obtain ⟨y, j⟩ := p
      by_cases same : j = i
      · subst same
        by_cases at_update : y = path.update j
        · simp [at_update, points]
        · simp [at_update]
      · have order : j < i + 1 ↔ j < i := by omega
        simp [same, order]

theorem forLevels_unlinkLevel (zsl : Zskiplist S E) (x : Nat) (path : Path) (count i : Nat)
    (has_update : ∀ j < i + count, j < zsl.height (path.update j))
    (has_node : ∀ j < i + count, zsl.forward (path.update j, j) = some x → j < zsl.height (some x)) :
    forLevels (unlinkLevel x path) count i (unlinkTo zsl x path i) =
      some (unlinkTo zsl x path (i + count)) :=
  forLevels_row _ (unlinkTo zsl x path) count i fun j _ high =>
    unlinkLevel_unlinkTo (has_update j high) (has_node j high)

theorem nextRef_mem {i : Nat} {cells : List (Cell S E)} {id : Nat} (next : nextRef i cells = some id) :
    ∃ c ∈ cells, c.id = id ∧ i < c.node.height := by
  induction cells with
  | nil => exact absurd next (by simp [nextRef])
  | cons c cells ih =>
    rw [nextRef] at next
    split at next
    next tall => exact ⟨c, mem_cons_self, by simpa using next, tall⟩
    next =>
      obtain ⟨d, member, same, tall⟩ := ih next
      exact ⟨d, mem_cons_of_mem _ member, same, tall⟩

section

variable {zsl : Zskiplist S E} {front after : List (Cell S E)} {old : Cell S E} {path : Path}
  (linked : Linked zsl (front ++ old :: after))
  (update : ∀ i < zsl.level, path.update i = lastRef (tallPart i front))

include linked in
theorem old_apart : (∀ c ∈ front, c.id ≠ old.id) ∧ ∀ c ∈ after, c.id ≠ old.id := by
  have distinct := linked.distinct
  simp only [map_append, map_cons, nodup_append, nodup_cons, mem_cons, mem_map] at distinct
  exact ⟨fun c member same => distinct.2.2 c.id ⟨c, member, rfl⟩ old.id (Or.inl rfl) same,
    fun c member same => distinct.2.1.1 ⟨c, member, same⟩⟩

include linked in
theorem old_link (tall : i < old.node.height) : zsl.LinksTo (some old.id) i after := by
  have link := linked.links (front ++ [old]) after i (by simp) ((reaches_concat _ _ _ _).mpr tall)
  rwa [lastRef_concat] at link

include linked update

theorem removed_before (p g : List (Cell S E)) (i : Nat) (shape : front = p ++ g) (reaches : Reaches zsl.level p i) :
    (unlinkTo zsl old.id path zsl.level).LinksTo (lastRef p) i (g ++ after) := by
  have whole : front ++ old :: after = p ++ (g ++ old :: after) := by rw [shape, append_assoc]
  have within := linked.within whole reaches
  obtain ⟨forward, span⟩ := linked.links p (g ++ old :: after) i whole reaches
  rw [Zskiplist.LinksTo]
  rcases update_cases linked.distinct (update i within) shape reaches with
    ⟨short, at_update, _⟩ | ⟨tall, elsewhere⟩
  · rw [nextRef_short i g _ short, nextRef] at forward
    rw [nextDist_short i g _ short, nextDist] at span
    rw [nextRef_short i g _ short, nextDist_short i g _ short]
    by_cases high : i < old.node.height
    · rw [if_pos high] at forward span
      obtain ⟨old_forward, old_span⟩ := old_link linked high
      rw [at_update] at forward span ⊢
      simp only [unlinkTo, within, true_and, forward, if_true, old_forward, old_span, span]
      rw [BitVec.ofNat_add, BitVec.ofNat_add]
      change _ + 1 + _ = _
      ring
    · rw [if_neg high] at forward span
      have apart : nextRef i after ≠ some old.id := by
        intro same
        obtain ⟨c, member, equal, _⟩ := nextRef_mem same
        exact (old_apart linked).2 c member equal
      rw [at_update] at forward span ⊢
      simp only [unlinkTo, within, true_and, forward, if_true, apart, if_false, and_false, span]
      rw [← Nat.add_assoc, BitVec.ofNat_add _ 1]
      change _ + 1 - 1 = _
      ring
  · rw [(next_tall i g after (old :: after) tall).1, (next_tall i g after (old :: after) tall).2]
    simpa [unlinkTo, elsewhere] using ⟨forward, span⟩

theorem removed_after (r q : List (Cell S E)) {c : Cell S E} (shape : after = r ++ c :: q)
    (high : i < c.node.height) : (unlinkTo zsl old.id path zsl.level).LinksTo (some c.id) i q := by
  have member : c ∈ old :: after := by rw [shape]; simp
  have within : i < zsl.level :=
    Nat.lt_of_lt_of_le high (linked.heights c (mem_append.mpr (Or.inr member))).2
  have link := linked.links (front ++ old :: r ++ [c]) q i (by rw [shape]; simp)
    ((reaches_concat _ _ _ _).mpr high)
  have not_update := lastRef_ne_of_after (front ++ old :: r) linked.distinct
    (update i within) member
  rw [lastRef_concat] at link not_update
  simpa [Zskiplist.LinksTo, unlinkTo, not_update] using link

theorem removed_links (p q : List (Cell S E)) (i : Nat) (shape : front ++ after = p ++ q)
    (reaches : Reaches zsl.level p i) : (unlinkTo zsl old.id path zsl.level).LinksTo (lastRef p) i q := by
  have before (p g : List (Cell S E)) := removed_before linked update p g i
  rcases append_eq_append_iff.mp shape with ⟨r, rfl, tail⟩ | ⟨g, front_eq, rfl⟩
  · cases r using List.reverseRecOn with
    | nil =>
      rw [append_nil] at reaches ⊢
      rw [nil_append] at tail
      subst tail
      exact before front [] (by simp) reaches
    | append_singleton r c =>
      rw [← append_assoc, lastRef_concat]
      rw [← append_assoc, reaches_concat] at reaches
      exact removed_after linked update r q (by simpa using tail) reaches
  · exact before p g front_eq reaches

end

theorem lowerLevel_spec (zsl : Zskiplist S E) {level : Nat} (positive : 1 ≤ level) :
    1 ≤ lowerLevel zsl level ∧ lowerLevel zsl level ≤ level ∧
      (∀ i, lowerLevel zsl level ≤ i → i < level → zsl.forward (none, i) = none) ∧
      (lowerLevel zsl level = 1 ∨ zsl.forward (none, lowerLevel zsl level - 1) ≠ none) := by
  fun_induction lowerLevel zsl level with
  | case1 => omega
  | case2 => exact ⟨le_rfl, le_rfl, fun i low high => by omega, Or.inl rfl⟩
  | case3 level empty ih =>
    obtain ⟨low, high, cleared, stop⟩ := ih (by omega)
    refine ⟨low, by omega, ?_, stop⟩
    intro i from_low below
    rcases Nat.lt_or_ge i (level + 1) with inside | last
    · exact cleared i from_low inside
    · rw [show i = level + 1 by omega, empty]
  | case4 level filled =>
    exact ⟨by omega, le_rfl, fun i low high => by omega, Or.inr filled⟩

-- level is the greatest height in use, or 1.
def Topped (zsl : Zskiplist S E) (cells : List (Cell S E)) : Prop :=
  zsl.level = 1 ∨ ∃ c ∈ cells, c.node.height = zsl.level

theorem Reaches.lower (level level' i : Nat) (front : List (Cell S E)) (le : level' ≤ level)
    (reaches : Reaches level' front i) : Reaches level front i := by
  cases front using List.reverseRecOn with
  | nil => exact Nat.lt_of_lt_of_le reaches le
  | append_singleton front c => exact (reaches_concat _ _ _ _).mpr ((reaches_concat _ _ _ _).mp reaches)

theorem lowerLevel_fits {zsl : Zskiplist S E} {level : Nat} {cells : List (Cell S E)} (positive : 1 ≤ level)
    (heights : ∀ c ∈ cells, c.node.height ≤ level)
    (header : ∀ i < level, zsl.forward (none, i) = nextRef i cells) :
    (∀ c ∈ cells, c.node.height ≤ lowerLevel zsl level) ∧
      (lowerLevel zsl level = 1 ∨ ∃ c ∈ cells, c.node.height = lowerLevel zsl level) := by
  obtain ⟨low, high, cleared, stop⟩ := lowerLevel_spec zsl positive
  have fits (c : Cell S E) (member : c ∈ cells) : c.node.height ≤ lowerLevel zsl level := by
    by_contra tall
    have inside : lowerLevel zsl level < level := Nat.lt_of_lt_of_le (by omega) (heights c member)
    have none_next := cleared _ le_rfl inside
    rw [header _ inside] at none_next
    rcases split_first_tall (lowerLevel zsl level) cells with short | ⟨gap, d, rest, shape, short, tall'⟩
    · exact tall (short c member)
    · rw [shape, (next_found rest short tall').1] at none_next
      exact absurd none_next (by simp)
  refine ⟨fits, stop.imp_right fun filled => ?_⟩
  rw [header _ (by omega)] at filled
  obtain ⟨id, next_id⟩ := Option.ne_none_iff_exists'.mp filled
  obtain ⟨c, member, _, tall⟩ := nextRef_mem next_id
  have most := fits c member
  exact ⟨c, member, by omega⟩

theorem zslDeleteNode_ok (zsl : Zskiplist S E) (front after : List (Cell S E)) (old : Cell S E) (path : Path)
    (linked : Linked zsl (front ++ old :: after))
    (update : ∀ i < zsl.level, path.update i = lastRef (tallPart i front)) :
    ∃ zsl', zslDeleteNode zsl old.id path = some zsl' ∧
      Linked (zslFreeNode zsl' old.id) (front ++ after) ∧ Topped zsl' (front ++ after) ∧
      zsl'.level ≤ zsl.level := by
  have has_update (j : Nat) (within : j < zsl.level) : j < zsl.height (path.update j) := by
    rw [update j within]
    exact linked.update_height zsl front _ j within
  have has_node (j : Nat) (within : j < zsl.level) (points : zsl.forward (path.update j, j) = some old.id) :
      j < zsl.height (some old.id) := by
    obtain ⟨gap, shape, short, reaches⟩ := tallPart_split j zsl.level front within
    have link := (linked.links (tallPart j front) (gap ++ old :: after) j
      (by rw [← append_assoc, ← shape]) reaches).1
    rw [← update j within, points, nextRef_short j gap _ short, nextRef] at link
    rw [Zskiplist.height, linked.nodes old (by simp)]
    change j < old.node.height
    by_contra low
    rw [if_neg low] at link
    obtain ⟨c, member, same, _⟩ := nextRef_mem link.symm
    exact (old_apart linked).2 c member same
  have unlinked := forLevels_unlinkLevel zsl old.id path zsl.level 0
    (fun j lower => has_update j (by omega)) (fun j lower => has_node j (by omega))
  rw [unlinkTo_zero, Nat.zero_add] at unlinked
  let out := unlinkTo zsl old.id path zsl.level
  have keep (c : Cell S E) (member : c ∈ front ++ after) : c ∈ front ++ old :: after := by
    simp only [mem_append, mem_cons] at member ⊢
    tauto
  have next : out.forward (some old.id, 0) = after.head?.map Cell.id := by
    have not_update : some old.id ≠ path.update 0 := by
      have apart := lastRef_ne_of_after front linked.distinct
        (update 0 linked.level_pos) mem_cons_self
      rwa [lastRef_concat] at apart
    have link := forward_lastRef zsl (front ++ [old]) after (by simpa using linked)
    simpa [out, unlinkTo, not_update] using link
  have back : out.backward old.id = lastRef front := linked.backward front old after rfl
  have distinct : ((front ++ after).map Cell.id).Nodup :=
    linked.distinct.sublist (((sublist_cons_self old after).append_left front).map _)
  obtain ⟨mirrors_front, _, mirrors_after⟩ := (mirrors_append _ _ front (old :: after)).mp
    ((mirrors_none _ _).mpr linked.backward)
  obtain ⟨mirrors, tail⟩ := setBackward_ok out (front ++ [old]) front after distinct mirrors_front
    (by rw [lastRef_concat]; exact mirrors_after) (by rw [append_assoc]; exact linked.tail)
  let tailed := setBackward out (after.head?.map Cell.id) (lastRef front)
  have fields : tailed = { out with backward := tailed.backward, tail := tailed.tail } := setBackward_eq _ _ _
  have forward_eq : tailed.forward = out.forward := by rw [fields]
  have links (p q : List (Cell S E)) (i : Nat) := removed_links linked update p q i
  obtain ⟨low, high, cleared, _⟩ := lowerLevel_spec tailed linked.level_pos
  obtain ⟨fits, topped⟩ := lowerLevel_fits linked.level_pos
    (fun c member => (linked.heights c (keep c member)).2)
    (fun i within => by rw [forward_eq]; exact (links [] (front ++ after) i rfl within).1)
  refine ⟨{ out with
    backward := tailed.backward, tail := tailed.tail, level := lowerLevel tailed zsl.level
    length := zsl.length - 1 }, ?_, ?_, topped, high⟩
  · simp only [zslDeleteNode, unlinked, some_bind]
    change some { setBackward out (out.forward (some old.id, 0)) (out.backward old.id) with
      level := lowerLevel (setBackward out (out.forward (some old.id, 0)) (out.backward old.id))
        (setBackward out (out.forward (some old.id, 0)) (out.backward old.id)).level
      length := (setBackward out (out.forward (some old.id, 0)) (out.backward old.id)).length - 1 } = _
    rw [next, back]
    change some { tailed with level := lowerLevel tailed tailed.level, length := tailed.length - 1 } = _
    rw [show tailed.level = zsl.level by rw [fields]; rfl, show tailed.length = zsl.length by rw [fields]; rfl]
    exact congrArg (fun s => some { s with level := lowerLevel tailed zsl.level, length := zsl.length - 1 }) fields
  · exact
      { nodes := fun c member => by
          have apart : c.id ≠ old.id := by
            rcases mem_append.mp member with first | later
            · exact (old_apart linked).1 c first
            · exact (old_apart linked).2 c later
          exact (Function.update_of_ne apart _ _).trans (linked.nodes c (keep c member))
        fresh := fun c member => linked.fresh c (keep c member)
        distinct := distinct
        heights := fun c member => ⟨(linked.heights c (keep c member)).1, fits c member⟩
        level_pos := low
        level_le := le_trans high linked.level_le
        links := fun p q i shape reaches => links p q i shape (reaches.lower zsl.level _ i p high)
        above := fun i above => by
          rcases Nat.lt_or_ge i zsl.level with inside | outside
          · exact (congrFun forward_eq _).symm.trans (cleared i above inside)
          · simpa [zslFreeNode, out, unlinkTo, Nat.not_lt.mpr outside] using linked.above i outside
        backward := (mirrors_none _ _).mp mirrors
        tail := tail
        length := by
          have length := linked.length
          simp only [length_append, length_cons] at length ⊢
          exact congrArg (· - 1) length }

def takeRange (inRange : Nat → ZskiplistNode S E → Bool) : (traversed : Nat) → List (Cell S E) → List (Cell S E)
  | _, [] => []
  | traversed, c :: cells =>
    if inRange traversed c.node then c :: takeRange inRange (traversed + 1) cells else []

theorem deleteWhile_ok {path : Path} (inRange : Nat → ZskiplistNode S E → Bool) (fuel traversed : Nat)
    (zsl : Zskiplist S E) {front after : List (Cell S E)} (linked : Linked zsl (front ++ after))
    (topped : Topped zsl (front ++ after))
    (update : ∀ i < zsl.level, path.update i = lastRef (tallPart i front)) (enough : after.length < fuel) :
    ∃ zsl', deleteWhile path inRange fuel (after.head?.map Cell.id) traversed zsl =
        some (zsl', (takeRange inRange traversed after).map fun c => c.node.ele) ∧
      Linked zsl' (front ++ after.drop (takeRange inRange traversed after).length) ∧
      Topped zsl' (front ++ after.drop (takeRange inRange traversed after).length) := by
  induction after generalizing zsl fuel traversed with
  | nil =>
    obtain ⟨fuel, rfl⟩ : ∃ rest, fuel = rest + 1 := ⟨fuel - 1, by simp at enough; omega⟩
    exact ⟨zsl, rfl, linked, topped⟩
  | cons c after ih =>
    obtain ⟨fuel, rfl⟩ : ∃ rest, fuel = rest + 1 := ⟨fuel - 1, by simp at enough; omega⟩
    have node := linked.nodes c (by simp)
    simp only [head?_cons, Option.map_some, deleteWhile, node, some_bind, takeRange]
    by_cases taken : inRange traversed c.node = true
    · obtain ⟨zsl', deleted, linked', topped', level_le⟩ :=
        zslDeleteNode_ok zsl front after c path linked update
      have next : zsl.forward (some c.id, 0) = after.head?.map Cell.id := by
        simpa using forward_lastRef zsl (front ++ [c]) after (by simpa using linked)
      obtain ⟨final, ran, linked_final, topped_final⟩ :=
        ih fuel (traversed + 1) (zslFreeNode zsl' c.id) linked' topped'
          (fun i lower => update i (Nat.lt_of_lt_of_le lower level_le)) (by simpa using enough)
      refine ⟨final, ?_, ?_, ?_⟩
      · simp only [taken, if_true, deleted, next, some_bind, ran]
        rfl
      · simpa [taken] using linked_final
      · simpa [taken] using topped_final
    · refine ⟨zsl, by simp [taken], ?_, ?_⟩
      · simpa [taken] using linked
      · simpa [taken] using topped

theorem deleteRange_ok
    (ahead inRange : Nat → ZskiplistNode S E → Bool) (linked : Linked zsl cells) (topped : Topped zsl cells)
    (stable : ∀ reached position node, Counts cells.length reached position →
      ahead reached node = ahead position node) :
    ∃ zsl' removed front after rest, deleteRange zsl ahead inRange = some (zsl', removed) ∧
      cells = front ++ after ∧ rest <:+ after ∧ Linked zsl' (front ++ rest) ∧ Topped zsl' (front ++ rest) := by
  obtain ⟨path, front, after, traversed, searched, found⟩ := search_ok linked ahead stable
  have shape := found.shape
  subst shape
  have next := forward_lastRef zsl front after linked
  obtain ⟨zsl', deleted, linked', topped'⟩ := deleteWhile_ok inRange (zsl.length + 1)
    (traversed + 1) zsl linked topped found.update (by rw [linked.length]; simp)
  have ran : deleteRange zsl ahead inRange =
      some (zsl', (takeRange inRange (traversed + 1) after).map fun c => c.node.ele) := by
    simp only [deleteRange, searched, some_bind, next, deleted]
  exact ⟨zsl', _, front, after, _, ran, rfl, drop_suffix _ after, linked', topped'⟩

section

variable [LinearOrder S] [LinearOrder E]

theorem zslUnlink_ok (score : S) (ele : E)
    (linked : Linked zsl cells) :
    ∃ front after, cells = front ++ after ∧
      ((∃ c rest zsl', after = c :: rest ∧ zslUnlink zsl score ele = some (zsl', some c.id) ∧
          Linked (zslFreeNode zsl' c.id) (front ++ rest) ∧ Topped zsl' (front ++ rest)) ∨
        zslUnlink zsl score ele = some (zsl, none)) := by
  obtain ⟨path, front, after, traversed, searched, found⟩ :=
    search_ok linked (fun _ => nodeBefore score ele) (fun _ _ _ _ => rfl)
  have shape := found.shape
  subst shape
  have next := forward_lastRef zsl front after linked
  refine ⟨front, after, rfl, ?_⟩
  simp only [zslUnlink, searched, some_bind, next]
  cases after with
  | nil => exact Or.inr rfl
  | cons c after =>
    have node := linked.nodes c (by simp)
    simp only [head?_cons, Option.map_some, unlinkIfFound, node, some_bind]
    by_cases same : score = c.node.score ∧ c.node.ele = ele
    · obtain ⟨zsl', deleted, linked', topped', _⟩ := zslDeleteNode_ok zsl front after c path linked found.update
      exact Or.inl ⟨c, after, zsl', rfl, by rw [if_pos same, deleted]; rfl, linked', topped'⟩
    · exact Or.inr (by rw [if_neg same]; rfl)

end

end RedisCore.SkipList
