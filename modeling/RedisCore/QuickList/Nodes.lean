import RedisCore.QuickList.Compress

set_option autoImplicit false

namespace RedisCore.QuickList

open DoublyLinked List

section

variable {ql : Quicklist} (node : QuicklistNode) {ids front back : List Nat} {old : Nat}

theorem Chain.fresh (chain : Chain ql ids) : ql.fresh ∉ ids := fun inside => lt_irrefl _ (chain.old _ inside)

theorem Chain.alloc (chain : Chain ql ids) : Chain (ql.alloc node) ids := by
  refine ⟨?_, chain.distinct, chain.head, chain.tail, fun n inside => Nat.lt_succ_of_lt (chain.old n inside)⟩
  refine linked_congr _ _ none (fun n inside => ?_) chain.linked
  have other : n ≠ ql.fresh := fun same => chain.fresh (same ▸ inside)
  simp [Quicklist.alloc, other]

theorem link_after (chain : Chain ql (front ++ old :: back)) :
    Chain (linkNode (ql.alloc node) (some old) ql.fresh true) (front ++ old :: ql.fresh :: back) := by
  have absent := chain.fresh
  have allocated := chain.alloc node
  have distinct := chain.distinct
  simp only [nodup_append, nodup_cons, mem_append, mem_cons, not_or] at distinct absent
  refine ⟨linked_splice allocated.linked chain.distinct (chain.fresh), ?_, ?_, ?_, ?_⟩
  · simp only [nodup_append, nodup_cons, mem_cons, not_or]
    refine ⟨distinct.1, ⟨⟨Ne.symm absent.2.1, distinct.2.1.1⟩, absent.2.2, distinct.2.1.2⟩, ?_⟩
    rintro a in_front b (rfl | rfl | in_back)
    · exact distinct.2.2 a in_front b (.inl rfl)
    · exact fun same => absent.1 (same ▸ in_front)
    · exact distinct.2.2 a in_front b (.inr in_back)
  · refine chain.head.trans ?_
    cases front <;> rfl
  · have tail : (ql.alloc node).tail = (front ++ old :: back).getLast? := chain.tail
    change (if (ql.alloc node).tail = some old then some ql.fresh else (ql.alloc node).tail) = _
    rw [tail]
    cases back using List.reverseRecOn with
    | nil => simp
    | append_singleton back last =>
      have other : last ≠ old := fun same => distinct.2.1.1 (by simp [same])
      rw [← cons_append, ← append_assoc, getLast?_concat, ← cons_append, ← cons_append,
        ← append_assoc, getLast?_concat, if_neg (by simpa using other)]
  · intro n inside
    simp only [mem_append, mem_cons] at inside
    change n < ql.fresh + 1
    rcases inside with in_front | rfl | rfl | in_back
    · exact Nat.lt_succ_of_lt (chain.old n (by simp [in_front]))
    · exact Nat.lt_succ_of_lt (chain.old n (by simp))
    · omega
    · exact Nat.lt_succ_of_lt (chain.old n (by simp [in_back]))

def Quicklist.mirror (ql : Quicklist) : Quicklist :=
  { ql with head := ql.tail, tail := ql.head, prev := ql.next, next := ql.prev }

theorem Chain.mirror (chain : Chain ql ids) : Chain ql.mirror ids.reverse :=
  ⟨linked_reverse none none chain.linked, nodup_reverse.mpr chain.distinct,
    by rw [head?_reverse]; exact chain.tail, by rw [getLast?_reverse]; exact chain.head,
    fun n inside => chain.old n (mem_reverse.mp inside)⟩

theorem link_before (chain : Chain ql (front ++ old :: back)) :
    Chain (linkNode (ql.alloc node) (some old) ql.fresh false) (front ++ ql.fresh :: old :: back) := by
  have mirrored := chain.mirror
  rw [reverse_append, reverse_cons, append_assoc, singleton_append] at mirrored
  have linked := (link_after node mirrored).mirror
  simp only [reverse_append, reverse_cons, reverse_reverse, append_assoc, singleton_append] at linked
  exact linked

theorem link_only (after : Bool) (empty : ql.len = 0) :
    Chain (onlyNode (linkNode (ql.alloc node) none ql.fresh after) ql.fresh) [ql.fresh] := by
  cases after <;>
    exact ⟨⟨by simp [onlyNode, linkNode, Quicklist.alloc, empty], by simp [onlyNode, linkNode, Quicklist.alloc, empty],
      trivial⟩, by simp, by simp [onlyNode, linkNode, Quicklist.alloc, empty],
      by simp [onlyNode, linkNode, Quicklist.alloc, empty], by simp [onlyNode, linkNode, Quicklist.alloc, empty]⟩

end

-- The position of a new node: behind the last of front or before the first of back.
def Beside (front back : List Nat) (old : Option Nat) (after : Bool) : Prop :=
  old = (if after then front.getLast? else back.head?) ∧ (old = none → front = [] ∧ back = [])

def placed (ql : Quicklist) (node : QuicklistNode) (old : Option Nat) (after : Bool) : Quicklist :=
  onlyNode (linkNode (ql.alloc node) old ql.fresh after) ql.fresh

section

variable {ql : Quicklist} (node : QuicklistNode) {front back : List Nat} (old : Option Nat) (after : Bool)

theorem placed_chain (chain : Chain ql (front ++ back)) (len : ql.len = (front ++ back).length)
    (beside : Beside front back old after) :
    Chain (placed ql node old after) (front ++ ql.fresh :: back) := by
  obtain ⟨position, only⟩ := beside
  cases old with
  | none =>
    obtain ⟨rfl, rfl⟩ := only rfl
    exact link_only node after len
  | some old =>
    have shape : placed ql node (some old) after = linkNode (ql.alloc node) (some old) ql.fresh after := by
      have filled : ql.len ≠ 0 := by
        rw [len]
        cases after with
        | true => exact fun empty => by simp_all
        | false => exact fun empty => by simp_all
      cases after <;> simp [placed, onlyNode, linkNode, Quicklist.alloc, filled]
    rw [shape]
    cases after with
    | true =>
      obtain ⟨front, rfl⟩ := getLast?_eq_some_iff.mp position.symm
      rw [append_assoc, singleton_append] at chain ⊢
      exact link_after node chain
    | false =>
      obtain ⟨back, rfl⟩ := head?_eq_some_iff.mp position.symm
      exact link_before node chain

variable (ql) in
theorem placed_fields : (placed ql node old after).node = Function.update ql.node ql.fresh (some node) ∧
      (placed ql node old after).count = ql.count ∧ (placed ql node old after).len = ql.len ∧
      (placed ql node old after).fill = ql.fill ∧ (placed ql node old after).compress = ql.compress ∧
      (placed ql node old after).exposed = ql.exposed := by
  unfold placed onlyNode
  cases old <;> cases after <;> split <;> simp [linkNode, Quicklist.alloc]

end

theorem unlink_chain {ql : Quicklist} {front back : List Nat} {n : Nat} (chain : Chain ql (front ++ n :: back)) :
    Chain (unlinkNode ql n) (front ++ back) := by
  obtain ⟨prev, next⟩ := Linked.at_cell chain.linked
  have distinct := chain.distinct
  simp only [nodup_append, nodup_cons, mem_cons] at distinct
  refine ⟨linked_unlink chain.linked chain.distinct, ?_, ?_, ?_, fun m inside => chain.old m ?_⟩
  · exact nodup_append.mpr ⟨distinct.1, distinct.2.1.2, fun a in_front b in_back =>
      distinct.2.2 a in_front b (.inr in_back)⟩
  · change (if ql.head = some n then ql.next n else ql.head) = _
    rw [chain.head, next]
    cases front with
    | nil => simp
    | cons first front =>
      have other : first ≠ n := distinct.2.2 first (by simp) n (.inl rfl)
      simp [other]
  · change (if ql.tail = some n then ql.prev n else ql.tail) = _
    rw [chain.tail, prev]
    cases back using List.reverseRecOn with
    | nil => simp
    | append_singleton back last =>
      have other : last ≠ n := fun same => distinct.2.1.1 (by simp [same])
      rw [← cons_append, ← append_assoc, getLast?_concat, ← append_assoc, getLast?_concat,
        if_neg (by simpa using other)]
  · simp only [mem_append, mem_cons] at inside ⊢
    tauto

variable {lzf : Lzf}
variable {ql : Quicklist} {n : Nat}

def Settled (node : QuicklistNode) : Prop := node.encoding = .raw ∧ node.recompress = false

def Quiet (ql : Quicklist) (n : Nat) : Prop := ∃ node, ql.node n = some node ∧ Settled node

def Carries (lzf : Lzf) (ql ql' : Quicklist) (n : Nat) : Prop :=
  ∀ node, ql.node n = some node → ∃ node', ql'.node n = some node' ∧ Recoded lzf node node'

theorem Recodes.carries {ql' : Quicklist} (n : Nat) (recodes : Recodes lzf ql ql') : Carries lzf ql ql' n :=
  recodes.nodes n

theorem quiet_of_raw {ql' : Quicklist} (quiet : Quiet ql n) (carries : Carries lzf ql ql' n)
    (raw : Raw ql' n) : Quiet ql' n := by
  obtain ⟨node, found, _, unflagged⟩ := quiet
  obtain ⟨node', found', recoded⟩ := carries node found
  obtain ⟨_, again, encoding⟩ := raw
  rw [found'] at again
  cases again
  refine ⟨node', found', encoding, ?_⟩
  by_contra flag
  rw [recoded.flag (by simpa using flag)] at unflagged
  cases unflagged

theorem quicklistCompress_ok {ids : List Nat} {n : Nat} (chain : Chain ql ids)
    (sound : ∀ m ∈ ids, Sound lzf ql m) (enough : ¬Idle ql → 2 * ql.compress ≤ ids.length + 1) (inside : n ∈ ids) :
    ∃ ql', quicklistCompress lzf ql n = .ok ql' ∧ Recodes lzf ql ql' ∧
      ∀ m, Quiet ql m → IsEnd ids m ∨ Idle ql → Quiet ql' m := by
  obtain ⟨node, zl, found, plain⟩ := sound n inside
  cases flag : node.recompress with
  | true =>
    refine ⟨ql.set n (quicklistCompressNode lzf node), ?_, recodes_set found (recoded_compress node),
      fun m quiet _ => ?_⟩
    · simp [quicklistCompress, get_ok found, flag]
    · obtain ⟨other, at_m, encoding, unflagged⟩ := quiet
      have apart : m ≠ n := by
        rintro rfl
        rw [found] at at_m
        cases at_m
        rw [flag] at unflagged
        cases unflagged
      exact ⟨other, by simpa [Quicklist.set, apart] using at_m, encoding, unflagged⟩
  | false =>
    obtain ⟨ql', ran, recodes, idle_same, busy⟩ := __quicklistCompress_ok (some n) chain sound enough
      (fun m same => Option.some.inj same ▸ inside)
    refine ⟨ql', ?_, recodes, fun m quiet place => ?_⟩
    · simp [quicklistCompress, get_ok found, flag, ran]
    · by_cases idle : Idle ql
      · rw [idle_same idle]
        exact quiet
      · have is_end := place.resolve_right idle
        exact quiet_of_raw quiet (recodes.carries m) ((busy idle).1 m is_end)

section

variable {ql : Quicklist} (node : QuicklistNode) {front back : List Nat} (old : Option Nat) (after : Bool)

theorem insertNode_ok (chain : Chain ql (front ++ back)) (len : ql.len = (front ++ back).length)
    (beside : Beside front back old after) (sound : ∀ m ∈ front ++ back, Sound lzf ql m)
    (new_sound : ∃ zl, Plain lzf node zl) :
    ∃ ql', __quicklistInsertNode lzf (ql.alloc node) old ql.fresh after = .ok ql' ∧
      Chain ql' (front ++ ql.fresh :: back) ∧ ql'.len = ql.len + 1 ∧ ql'.count = ql.count ∧ ql'.fill = ql.fill ∧
      ql'.compress = ql.compress ∧ ql'.exposed = ql.exposed ∧ (∀ n, Carries lzf (ql.alloc node) ql' n) ∧
      ∀ n, Quiet (ql.alloc node) n → IsEnd (front ++ ql.fresh :: back) n ∨ Idle ql → Quiet ql' n := by
  have linked := placed_chain node old after chain len beside
  obtain ⟨nodes, count, len', fill, depth, exposed⟩ := placed_fields ql node old after
  have same_nodes : (placed ql node old after).node = (ql.alloc node).node := nodes
  have idle_iff : Idle (placed ql node old after) ↔ Idle ql := by rw [Idle, Idle, depth, len']
  have placed_sound : ∀ m ∈ front ++ ql.fresh :: back, Sound lzf (placed ql node old after) m := by
    intro m inside
    unfold Sound
    rw [nodes]
    by_cases same : m = ql.fresh
    · obtain ⟨zl, plain⟩ := new_sound
      exact ⟨node, zl, by simp [same], plain⟩
    · obtain ⟨other, zl, found, plain⟩ := sound m (by simpa [same] using inside)
      exact ⟨other, zl, by simpa [same] using found, plain⟩
  have compressed : ∃ ql', compressOld lzf (placed ql node old after) old = .ok ql' ∧
      Recodes lzf (placed ql node old after) ql' ∧ ∀ m, Quiet (placed ql node old after) m →
        IsEnd (front ++ ql.fresh :: back) m ∨ Idle (placed ql node old after) → Quiet ql' m := by
    cases old with
    | none => exact ⟨_, rfl, Recodes.refl, fun m quiet _ => quiet⟩
    | some old =>
      refine quicklistCompress_ok linked placed_sound (fun busy => ?_) ?_
      · simp only [Idle, not_or, depth, len'] at busy
        simp only [depth, length_append, length_cons] at len ⊢
        omega
      · have position := beside.1
        cases after with
        | true => exact mem_append_left _ (mem_of_getLast? position.symm)
        | false => simp [mem_of_head? position.symm]
  obtain ⟨ql', ran, recodes, quiet⟩ := compressed
  obtain ⟨len₁, count₁, fill₁, depth₁, exposed₁⟩ := recodes.fields
  refine ⟨{ ql' with len := ql'.len + 1 }, ?_, { linked.recode recodes with }, by rw [← len', ← len₁],
    count₁.trans count, fill₁.trans fill, depth₁.trans depth, exposed₁.trans exposed, fun n => ?_,
    fun n was_quiet place => ?_⟩
  · change (compressOld lzf (placed ql node old after) old >>= _) = _
    rw [ran]
    rfl
  · intro other found
    exact recodes.nodes n other (same_nodes ▸ found)
  · refine quiet n ?_ (place.imp_right idle_iff.mpr)
    unfold Quiet
    rw [same_nodes]
    exact was_quiet

end

theorem walkIds_linked {prev next : Nat → Option Nat} (before : Option Nat) {ids : List Nat}
    (linked : Linked prev next before ids none) : walkIds next ids.length ids.head? = ids := by
  induction ids generalizing before with
  | nil => rfl
  | cons n ids ih =>
    obtain ⟨_, at_next, rest⟩ := linked
    rw [length_cons, head?_cons, walkIds, at_next, Option.or_none, ih (some n) rest]

theorem Chain.chainIds {ids : List Nat} (chain : Chain ql ids) (len : ql.len = ids.length) : chainIds ql = ids := by
  rw [QuickList.chainIds, len, chain.head]
  exact walkIds_linked none chain.linked

theorem hides_iff {ids : List Nat} : hides ql ids = true ↔
    (∀ m, IsEnd ids m → flagged ql m = false) ∧ (ids.length < 2 * ql.compress → ∀ m ∈ ids, flagged ql m = false) := by
  simp only [hides, all_append, Bool.and_eq_true, all_eq_true, Option.mem_toList, Bool.not_eq_true', IsEnd, or_imp,
    forall_and]
  refine and_congr_right fun _ => ?_
  split
  next few => exact ⟨fun all _ => all, fun all => all few⟩
  next many => simp [many]

theorem hides_mono {ql' : Quicklist} {ids : List Nat} (depth : ql'.compress = ql.compress)
    (unset : ∀ m ∈ ids, flagged ql m = false → flagged ql' m = false) (hidden : hides ql ids = true) : hides ql' ids = true := by
  obtain ⟨outer, few⟩ := hides_iff.mp hidden
  exact hides_iff.mpr ⟨fun m is_end => unset m is_end.mem (outer m is_end),
    fun short m inside => unset m inside (few (depth ▸ short) m inside)⟩

theorem Carries.flagged {ql' : Quicklist} (carries : Carries lzf ql ql' n) (sound : Sound lzf ql n) (unset : flagged ql n = false) :
    flagged ql' n = false := by
  obtain ⟨node, _, found, _⟩ := sound
  obtain ⟨node', found', recoded⟩ := carries node found
  simp only [QuickList.flagged, found, found', Option.any_some] at unset ⊢
  exact Bool.eq_false_iff.mpr fun flag => by simp [recoded.flag flag] at unset

-- The nodes that quicklistPush, quicklistPopCustom and quicklistRotate take for ziplists.
structure Ends (ql : Quicklist) (ids : List Nat) : Prop where
  outer : ∀ n, IsEnd ids n → Quiet ql n
  short : ql.compress = 0 ∨ ids.length < 2 * ql.compress → ∀ n ∈ ids, Quiet ql n

theorem quiet_of_unflagged (raw : Raw ql n) (unflagged : flagged ql n = false) :
    Quiet ql n := by
  obtain ⟨node, found, encoding⟩ := raw
  exact ⟨node, found, encoding, by simpa [flagged, found] using unflagged⟩

theorem delNode_ok {front back : List Nat} (node : QuicklistNode)
    (chain : Chain ql (front ++ n :: back)) (len : ql.len = (front ++ n :: back).length)
    (sound : ∀ m ∈ front ++ back, Sound lzf ql m) (found : ql.node n = some node) :
    ∃ ql', __quicklistDelNode lzf ql n = .ok ql' ∧ Chain ql' (front ++ back) ∧ ql'.len + 1 = ql.len ∧
      ql'.count = sub64 ql.count node.count ∧ ql'.fill = ql.fill ∧ ql'.compress = ql.compress ∧
      (ql'.exposed = false → ql.exposed = false) ∧ (∀ m ∈ front ++ back, Carries lzf ql ql' m) ∧
      (ql'.exposed = false → (Idle ql → ∀ m ∈ front ++ back, Quiet ql m) → Ends ql' (front ++ back)) ∧
      (ql.exposed = false → hides ql (front ++ back) = true → ql'.exposed = false) := by
  have absent : n ∉ front ++ back := by
    have distinct := chain.distinct
    simp only [nodup_append, nodup_cons] at distinct
    simp only [mem_append, not_or]
    exact ⟨fun inside => distinct.2.2 n inside n (by simp) rfl, distinct.2.1.1⟩
  simp only [length_append, length_cons] at len
  obtain ⟨ql₁, ran, recodes, idle_same, busy⟩ := __quicklistCompress_ok none
    (unlink_chain chain) sound (fun busy => by
      simp only [Idle, unlinkNode, not_or] at busy
      simp only [unlinkNode, length_append]
      omega) (by simp)
  -- The unlinked node is not among those the walk reaches, but it is still allocated.
  obtain ⟨node₁, found₁, recoded₁⟩ := recodes.nodes n node found
  obtain ⟨len₁, count₁, fill₁, depth₁, exposed₁⟩ := recodes.fields
  generalize freed_eq : freeNode ql₁ n node₁.count = freed
  have chain₂ : Chain freed (front ++ back) := by
    rw [← freed_eq]
    exact { (unlink_chain chain).recode recodes with }
  have kept : ∀ m ∈ front ++ back, freed.node m = ql₁.node m := by
    intro m inside
    have other : m ≠ n := fun same => absent (same ▸ inside)
    rw [← freed_eq]
    simp [freeNode, other]
  have carries : ∀ m ∈ front ++ back, Carries lzf ql freed m := by
    intro m inside other at_m
    rw [kept m inside]
    exact recodes.nodes m other at_m
  have len₂ : freed.len + 1 = ql.len := by
    rw [← freed_eq]
    change ql₁.len - 1 + 1 = ql.len
    rw [len₁]
    change ql.len - 1 + 1 = ql.len
    omega
  have count₂ : freed.count = sub64 ql.count node.count := by
    rw [← freed_eq, ← recoded₁.count]
    exact congrArg (sub64 · node₁.count) count₁
  have fill₂ : freed.fill = ql.fill := freed_eq ▸ fill₁
  have depth₂ : freed.compress = ql.compress := freed_eq ▸ depth₁
  have exposed₂ : freed.exposed = ql.exposed := freed_eq ▸ exposed₁
  have same_len : freed.len = (front ++ back).length := by
    rw [length_append]
    omega
  have freed_ids := chain₂.chainIds same_len
  refine ⟨{ freed with exposed := freed.exposed || !hides freed (chainIds freed) }, ?_, { chain₂ with }, len₂, count₂, fill₂, depth₂,
    ?_, carries, ?_, ?_⟩
  · rw [__quicklistDelNode, ran]
    simp only [ok_bind, get_ok found₁, freed_eq]
    rfl
  · intro unexposed
    rw [← exposed₂]
    exact (Bool.or_eq_false_iff.mp unexposed).1
  · intro unexposed idle_quiet
    have hidden := (Bool.or_eq_false_iff.mp unexposed).2
    rw [freed_ids, Bool.not_eq_false'] at hidden
    obtain ⟨outer, few⟩ := hides_iff.mp hidden
    have quiet_all : Idle ql → ∀ m ∈ front ++ back, Quiet freed m := by
      intro idle m inside
      obtain ⟨other, at_m, settled⟩ := idle_quiet idle m inside
      have same : ql₁ = unlinkNode ql n := idle_same idle
      exact ⟨other, by rw [kept m inside, same]; exact at_m, settled⟩
    have raw_freed : ∀ m ∈ front ++ back, Raw ql₁ m → Raw freed m := by
      intro m inside raw
      unfold Raw
      rw [kept m inside]
      exact raw
    have quiet (m : Nat) (is_end : IsEnd (front ++ back) m) : Quiet freed m := by
      by_cases idle : Idle ql
      · exact quiet_all idle m is_end.mem
      · exact quiet_of_unflagged (raw_freed m is_end.mem ((busy idle).1 m is_end)) (outer m is_end)
    refine ⟨quiet, fun short m inside => ?_⟩
    change Quiet freed m
    by_cases idle : Idle ql
    · exact quiet_all idle m inside
    · have edge : (front ++ back).length + 1 = 2 * ql.compress ∧ (front ++ back).length < 2 * freed.compress := by
        simp only [Idle, not_or] at idle
        have few : (front ++ back).length < 2 * freed.compress := short.resolve_left (by rw [depth₂]; exact idle.1)
        rw [length_append] at few ⊢
        omega
      exact quiet_of_unflagged (raw_freed m inside ((busy idle).2 edge.1 m inside)) (few edge.2 m inside)
  · intro unexposed hidden
    have still : hides freed (front ++ back) = true :=
      hides_mono depth₂ (fun m inside => (carries m inside).flagged (sound m inside)) hidden
    rw [freed_ids, still, exposed₂, unexposed]
    rfl

end RedisCore.QuickList
