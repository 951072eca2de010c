import RedisCore.QuickList.Nodes

set_option autoImplicit false

namespace RedisCore.QuickList

open Ziplist List

abbrev Cell := Nat × List Bytes

def ids (cells : List Cell) : List Nat := cells.map Prod.fst

def contents (cells : List Cell) : List Bytes := cells.flatMap Prod.snd

@[simp] theorem ids_nil : ids [] = [] := rfl

@[simp] theorem ids_cons (cell : Cell) (cells : List Cell) : ids (cell :: cells) = cell.1 :: ids cells := rfl

@[simp] theorem ids_append (front back : List Cell) : ids (front ++ back) = ids front ++ ids back := map_append

@[simp] theorem length_ids (cells : List Cell) : (ids cells).length = cells.length := length_map _

@[simp] theorem contents_nil : contents [] = [] := rfl

@[simp] theorem contents_cons (cell : Cell) (cells : List Cell) : contents (cell :: cells) = cell.2 ++ contents cells :=
  flatMap_cons

@[simp] theorem contents_append (front back : List Cell) :
    contents (front ++ back) = contents front ++ contents back := flatMap_append

variable {lzf : Lzf}

structure NodeHolds (lzf : Lzf) (node : QuicklistNode) (values : List Bytes) : Prop where
  zl : ∃ zl, Plain lzf node zl ∧ Holds zl values
  count : node.count = values.length
  present : values ≠ []
  few : values.length < 65536

structure Good (lzf : Lzf) (ql : Quicklist) (cells : List Cell) : Prop where
  chain : Chain ql (ids cells)
  len : ql.len = cells.length
  nodes : ∀ cell ∈ cells, ∃ node, ql.node cell.1 = some node ∧ NodeHolds lzf node cell.2
  fill : ql.fill < 32768
  depth : ql.compress < 65536
  ends : ql.exposed = false → Ends ql (ids cells)

def Models (lzf : Lzf) (ql : Quicklist) (values : List Bytes) : Prop :=
  ∃ cells, Good lzf ql cells ∧ contents cells = values ∧ ql.count = values.length

structure Steady (ql ql' : Quicklist) : Prop where
  count : ql'.count = ql.count
  fill : ql'.fill = ql.fill
  compress : ql'.compress = ql.compress
  exposed : ql'.exposed = ql.exposed

theorem Steady.trans {ql ql₁ ql₂ : Quicklist} (first : Steady ql ql₁) (second : Steady ql₁ ql₂) : Steady ql ql₂ :=
  ⟨second.count.trans first.count, second.fill.trans first.fill, second.compress.trans first.compress,
    second.exposed.trans first.exposed⟩

theorem Recodes.steady {ql ql' : Quicklist} (recodes : Recodes lzf ql ql') : Steady ql ql' := by
  obtain ⟨_, count, fill, depth, exposed⟩ := recodes.fields
  exact ⟨count, fill, depth, exposed⟩

theorem NodeHolds.recode {node node' : QuicklistNode} {values : List Bytes} (holds : NodeHolds lzf node values)
    (recoded : Recoded lzf node node') : NodeHolds lzf node' values := by
  obtain ⟨zl, plain, stored⟩ := holds.zl
  exact ⟨⟨zl, recoded.plain zl plain, stored⟩, recoded.count.trans holds.count, holds.present, holds.few⟩

section

variable {ql ql' : Quicklist} {cells front back : List Cell} {n : Nat} {values : List Bytes}

theorem Good.sound (good : Good lzf ql cells) : ∀ m ∈ ids cells, Sound lzf ql m := by
  intro m inside
  obtain ⟨cell, in_cells, rfl⟩ := mem_map.mp inside
  obtain ⟨node, found, holds⟩ := good.nodes cell in_cells
  obtain ⟨zl, plain, _⟩ := holds.zl
  exact ⟨node, zl, found, plain⟩

theorem Good.recount (count : Nat) (good : Good lzf ql cells) : Good lzf { ql with count := count } cells :=
  { good with
    chain := { good.chain with }
    ends := fun unexposed => { good.ends unexposed with } }

theorem Good.idle (good : Good lzf ql cells) : Idle ql ↔ ql.compress = 0 ∨ (ids cells).length < 2 * ql.compress := by
  rw [Idle, good.len, length_ids]

theorem Good.recode (good : Good lzf ql cells) (recodes : Recodes lzf ql ql')
    (quiet : ql.exposed = false → ∀ m, Quiet ql m → IsEnd (ids cells) m ∨ Idle ql → Quiet ql' m) :
    Good lzf ql' cells := by
  obtain ⟨len, _, fill, depth, exposed⟩ := recodes.fields
  refine ⟨good.chain.recode recodes, len.trans good.len, fun cell inside => ?_, fill ▸ good.fill,
    depth ▸ good.depth, fun unexposed => ?_⟩
  · obtain ⟨node, found, holds⟩ := good.nodes cell inside
    obtain ⟨node', found', recoded⟩ := recodes.nodes cell.1 node found
    exact ⟨node', found', holds.recode recoded⟩
  · rw [exposed] at unexposed
    have ends := good.ends unexposed
    refine ⟨fun m is_end => quiet unexposed m (ends.outer m is_end) (.inl is_end), fun short m inside => ?_⟩
    rw [depth] at short
    exact quiet unexposed m (ends.short short m inside) (.inr ((good.idle).mpr short))

theorem Good.quicklistCompress (n : Nat) (good : Good lzf ql cells) (inside : n ∈ ids cells) :
    ∃ ql', quicklistCompress lzf ql n = .ok ql' ∧ Good lzf ql' cells ∧ Recodes lzf ql ql' := by
  obtain ⟨ql', ran, recodes, quiet⟩ := quicklistCompress_ok good.chain (good.sound)
    (fun busy => by
      simp only [Idle, not_or, good.len] at busy
      rw [length_ids]
      omega) inside
  exact ⟨ql', ran, good.recode recodes fun _ => quiet, recodes⟩

theorem Good.apart {cell : Cell} (good : Good lzf ql (front ++ (n, values) :: back)) (inside : cell ∈ front ++ back) :
    cell.1 ≠ n := by
  have distinct := good.chain.distinct
  simp only [ids_append, ids_cons, nodup_append, nodup_cons] at distinct
  rintro rfl
  rcases mem_append.mp inside with in_front | in_back
  · exact distinct.2.2 cell.1 (mem_map_of_mem in_front) cell.1 (by simp) rfl
  · exact distinct.2.1.1 (mem_map_of_mem in_back)

theorem mem_middle {cell : Cell} : cell ∈ front ++ (n, values) :: back ↔ cell = (n, values) ∨ cell ∈ front ++ back := by
  simp only [mem_append, mem_cons]
  tauto

theorem Good.found (good : Good lzf ql (front ++ (n, values) :: back)) :
    ∃ node, ql.node n = some node ∧ NodeHolds lzf node values :=
  good.nodes (n, values) ((mem_middle).mpr (.inl rfl))

theorem Good.set {node : QuicklistNode} (node' : QuicklistNode) (values' : List Bytes)
    (good : Good lzf ql (front ++ (n, values) :: back)) (found : ql.node n = some node)
    (holds : NodeHolds lzf node' values') (calm : Settled node → Settled node') :
    Good lzf (ql.set n node') (front ++ (n, values') :: back) := by
  have same_ids : ids (front ++ (n, values') :: back) = ids (front ++ (n, values) :: back) := by simp
  have quiet : ∀ m, Quiet ql m → Quiet (ql.set n node') m := by
    rintro m ⟨other, at_m, settled⟩
    by_cases same : m = n
    · subst same
      rw [found] at at_m
      cases at_m
      exact ⟨node', by simp [Quicklist.set], calm settled⟩
    · exact ⟨other, by simpa [Quicklist.set, same] using at_m, settled⟩
  refine ⟨?_, by simpa [Quicklist.set] using good.len, fun cell inside => ?_, good.fill, good.depth, fun unexposed => ?_⟩
  · rw [same_ids]
    exact { good.chain with }
  · rcases (mem_middle).mp inside with rfl | other
    · exact ⟨node', by simp [Quicklist.set], holds⟩
    · obtain ⟨node, at_cell, holds⟩ := good.nodes cell ((mem_middle).mpr (.inr other))
      have distinct := good.apart other
      exact ⟨node, by simpa [Quicklist.set, distinct] using at_cell, holds⟩
  · rw [same_ids]
    have ends := good.ends unexposed
    exact ⟨fun m is_end => quiet m (ends.outer m is_end), fun short m inside => quiet m (ends.short short m inside)⟩

theorem Good.insertNode {node : QuicklistNode} (old : Option Nat) (after : Bool) (good : Good lzf ql (front ++ back))
    (holds : NodeHolds lzf node values) (settled : Settled node) (beside : Beside (ids front) (ids back) old after) :
    ∃ ql', __quicklistInsertNode lzf (ql.alloc node) old ql.fresh after = .ok ql' ∧
      Good lzf ql' (front ++ (ql.fresh, values) :: back) ∧ Steady ql ql' ∧ (∀ m ∈ ids (front ++ back), Carries lzf ql ql' m) ∧
      flagged ql' ql.fresh = false := by
  have chain := good.chain
  rw [ids_append] at chain
  obtain ⟨zl, plain, _⟩ := holds.zl
  obtain ⟨ql', ran, chain', len', count', fill', depth', exposed', carries, quiet⟩ :=
    insertNode_ok node old after chain (by rw [good.len, ← ids_append, length_ids]) beside
      (by rw [← ids_append]; exact good.sound) ⟨zl, plain⟩
  have fresh := chain.fresh
  have new_quiet : Quiet (ql.alloc node) ql.fresh := ⟨node, by simp [Quicklist.alloc], settled⟩
  have old_quiet : ∀ m ∈ ids front ++ ids back, Quiet ql m → Quiet (ql.alloc node) m := by
    rintro m inside ⟨other, at_m, calm⟩
    have apart : m ≠ ql.fresh := fun same => fresh (same ▸ inside)
    exact ⟨other, by simpa [Quicklist.alloc, apart] using at_m, calm⟩
  have old_carries : ∀ m ∈ ids (front ++ back), Carries lzf ql ql' m := by
    intro m inside before at_m
    rw [ids_append] at inside
    have apart : m ≠ ql.fresh := fun same => fresh (same ▸ inside)
    exact carries m before (by simpa [Quicklist.alloc, apart] using at_m)
  refine ⟨ql', ran, ⟨by simpa using chain', ?_, ?_, fill' ▸ good.fill, depth' ▸ good.depth, fun unexposed => ?_⟩,
    ⟨count', fill', depth', exposed'⟩, old_carries, ?_⟩
  · rw [len', good.len]
    simp only [length_append, length_cons]
    omega
  · intro cell inside
    rcases (mem_middle).mp inside with rfl | other
    · obtain ⟨node', found', recoded⟩ := carries ql.fresh node (by simp [Quicklist.alloc])
      exact ⟨node', found', holds.recode recoded⟩
    · obtain ⟨before, at_cell, stored⟩ := good.nodes cell other
      obtain ⟨node', found', recoded⟩ := old_carries cell.1 (mem_map_of_mem other) before at_cell
      exact ⟨node', found', stored.recode recoded⟩
  · have ends := good.ends (exposed' ▸ unexposed)
    rw [ids_append, ids_cons]
    rw [ids_append] at ends
    refine ⟨fun m is_end => quiet m ?_ (.inl is_end), fun short m inside => ?_⟩
    · by_cases new : m = ql.fresh
      · exact new ▸ new_quiet
      · have was_end : IsEnd (ids front ++ ids back) m := by
          rcases is_end with head | last
          · refine .inl ?_
            cases first : ids front with
            | nil => simp [first, Ne.symm new] at head
            | cons a rest => simpa [first] using head
          · refine .inr ?_
            cases last_back : (ids back).getLast? with
            | none => simp [getLast?_append, getLast?_cons, last_back, Ne.symm new] at last
            | some b => simpa [getLast?_append, getLast?_cons, last_back] using last
        exact old_quiet m was_end.mem (ends.outer m was_end)
    · have was_short : ql.compress = 0 ∨ (ids front ++ ids back).length < 2 * ql.compress := by
        rw [depth'] at short
        refine short.imp_right fun few => ?_
        simp only [length_append, length_cons] at few ⊢
        omega
      have idle : Idle ql := (good.idle).mpr (by rw [ids_append]; exact was_short)
      refine quiet m ?_ (.inr idle)
      by_cases new : m = ql.fresh
      · exact new ▸ new_quiet
      · have was_inside : m ∈ ids front ++ ids back := by simpa [new] using inside
        exact old_quiet m was_inside (ends.short was_short m was_inside)
  · obtain ⟨node', found', recoded⟩ := carries ql.fresh node (by simp [Quicklist.alloc])
    rw [flagged, found', Option.any_some]
    exact Bool.eq_false_iff.mpr fun flag => Bool.eq_false_iff.mp settled.2 (recoded.flag flag)

-- What a step means for the flags of the nodes that it leaves.
structure Tames (ql ql' : Quicklist) (cells : List Cell) : Prop where
  depth : ql'.compress = ql.compress
  hidden : ql.exposed = false → QuickList.hides ql (ids cells) = true → ql'.exposed = false
  unset : ∀ m ∈ ids cells, flagged ql m = false → flagged ql' m = false

theorem Tames.trans {ql₁ ql₂ : Quicklist} (first : Tames ql ql₁ cells) (second : Tames ql₁ ql₂ cells) : Tames ql ql₂ cells :=
  ⟨second.depth.trans first.depth,
    fun unexposed hidden => second.hidden (first.hidden unexposed hidden) (hides_mono first.depth first.unset hidden),
    fun m inside unset => second.unset m inside (first.unset m inside unset)⟩

theorem Good.tames (good : Good lzf ql cells) (steady : Steady ql ql') (carries : ∀ m ∈ ids cells, Carries lzf ql ql' m) :
    Tames ql ql' cells :=
  ⟨steady.compress, fun unexposed _ => steady.exposed.trans unexposed,
    fun m inside => (carries m inside).flagged (good.sound m inside)⟩

theorem tames_set {node node' : QuicklistNode} (cells : List Cell) (found : ql.node n = some node)
    (flag : node'.recompress = node.recompress) : Tames ql (ql.set n node') cells := by
  refine ⟨rfl, fun unexposed _ => unexposed, fun m _ unset => ?_⟩
  by_cases same : m = n
  · simpa [flagged, Quicklist.set, same, flag, found] using unset
  · simpa [flagged, Quicklist.set, same] using unset

-- No removal has left a flag in a wrong place. No node has one, or the ends have none, the nodes at work are inner ones and
-- the list can lose some.
structure Clear (spare : Nat) (inner : Prop) (ql : Quicklist) (cells : List Cell) : Prop where
  hidden : ql.exposed = false
  flags : (∀ m ∈ ids cells, flagged ql m = false) ∨
    inner ∧ 2 * ql.compress + spare ≤ cells.length ∧ ∀ m, IsEnd (ids cells) m → flagged ql m = false

section

variable {spare spare' : Nat} {inner inner' : Prop}

theorem Clear.hides (clear : Clear spare inner ql cells) : hides ql (ids cells) = true := by
  rcases clear.flags with unset | ⟨_, long, unset⟩
  · exact hides_iff.mpr ⟨fun m is_end => unset m is_end.mem, fun _ => unset⟩
  · refine hides_iff.mpr ⟨unset, fun short => absurd short ?_⟩
    rw [length_ids]
    omega

theorem Clear.tamed (clear : Clear spare inner ql cells) (tames : Tames ql ql' cells) : Clear spare inner ql' cells :=
  ⟨tames.hidden clear.hidden clear.hides, clear.flags.imp (fun unset m inside => tames.unset m inside (unset m inside))
    fun ⟨place, long, unset⟩ => ⟨place, tames.depth ▸ long, fun m is_end => tames.unset m is_end.mem (unset m is_end)⟩⟩

theorem Clear.lose (clear : Clear (spare + 1) inner ql cells) (place : inner → inner') : Clear spare inner' ql cells :=
  ⟨clear.hidden, clear.flags.imp_right fun ⟨inside, long, unset⟩ => ⟨place inside, by omega, unset⟩⟩

theorem isEnd_outer {front mid back : List Nat} {m : Nat} (some_front : front ≠ []) (some_back : back ≠ []) :
    IsEnd (front ++ mid ++ back) m ↔ front.head? = some m ∨ back.getLast? = some m := by
  rw [IsEnd, append_assoc, head?_append_of_ne_nil _ some_front, ← append_assoc, getLast?_append_of_ne_nil _ some_back]

-- Inner nodes give way to others.
theorem Clear.swap {mid mid' : List Cell} (clear : Clear spare inner ql (front ++ mid ++ back))
    (unset : ∀ m ∈ ids mid', m ∈ ids mid ∨ flagged ql m = false)
    (place : inner → front ≠ [] ∧ back ≠ [] ∧ inner') (fewer : spare' + mid.length ≤ spare + mid'.length) :
    Clear spare' inner' ql (front ++ mid' ++ back) := by
  refine ⟨clear.hidden, clear.flags.imp (fun all m inside => ?_) fun ⟨inside, long, ends⟩ => ?_⟩
  · simp only [ids_append, mem_append] at all inside
    rcases inside with (in_front | in_mid) | in_back
    · exact all m (.inl (.inl in_front))
    · exact (unset m in_mid).elim (fun was => all m (.inl (.inr was))) id
    · exact all m (.inr in_back)
  · obtain ⟨some_front, some_back, place'⟩ := place inside
    have outer : ids front ≠ [] ∧ ids back ≠ [] := by simpa [ids] using ⟨some_front, some_back⟩
    refine ⟨place', ?_, fun m is_end => ends m ?_⟩
    · simp only [length_append] at long ⊢
      omega
    · rw [ids_append, ids_append, isEnd_outer outer.1 outer.2] at is_end ⊢
      exact is_end

theorem Clear.insert (clear : Clear spare inner ql (front ++ back)) (good : Good lzf ql (front ++ back)) (steady : Steady ql ql')
    (carries : ∀ m ∈ ids (front ++ back), Carries lzf ql ql' m) (unset : flagged ql' n = false)
    (place : inner → front ≠ [] ∧ back ≠ [] ∧ inner') : Clear (spare + 1) inner' ql' (front ++ (n, values) :: back) := by
  have tamed := clear.tamed (good.tames steady carries)
  rw [← append_nil front] at tamed
  rw [append_cons]
  exact tamed.swap (fun m inside => .inr (by rwa [mem_singleton.mp inside])) place (by simp)

end

theorem Good.delNode (body : QuicklistNode) (count : Nat) (good : Good lzf ql (front ++ (n, values) :: back)) :
    ∃ ql', __quicklistDelNode lzf { ql.set n body with count := count } n = .ok ql' ∧ Good lzf ql' (front ++ back) ∧
      ql'.count = sub64 count body.count ∧ Tames ql ql' (front ++ back) := by
  generalize start_eq : ({ ql.set n body with count := count } : Quicklist) = start
  have chain := good.chain
  rw [ids_append, ids_cons] at chain
  have others : ∀ m ∈ ids front ++ ids back, start.node m = ql.node m := by
    intro m inside
    rw [← ids_append] at inside
    obtain ⟨cell, in_cells, rfl⟩ := mem_map.mp inside
    have apart := good.apart in_cells
    rw [← start_eq]
    simp [Quicklist.set, apart]
  have sound : ∀ m ∈ ids front ++ ids back, Sound lzf start m := by
    intro m inside
    obtain ⟨node, zl, found, plain⟩ := good.sound m (by
      simp only [ids_append, ids_cons, mem_append, mem_cons] at inside ⊢
      tauto)
    exact ⟨node, zl, by rw [others m inside]; exact found, plain⟩
  have start_chain : Chain start (ids front ++ n :: ids back) := by
    rw [← start_eq]
    exact { chain with }
  have start_len : start.len = ql.len := start_eq ▸ rfl
  have start_depth : start.compress = ql.compress := start_eq ▸ rfl
  have len_eq : ql.len = (ids front ++ n :: ids back).length := by
    rw [good.len]
    simp only [length_append, length_cons, length_ids]
  obtain ⟨ql', ran, chain', len', count', fill', depth', exposed', carries, ends', hidden'⟩ :=
    delNode_ok body start_chain (start_len.trans len_eq) sound (by rw [← start_eq]; simp [Quicklist.set])
  have flags (m : Nat) (inside : m ∈ ids front ++ ids back) : flagged start m = flagged ql m := by
    rw [flagged, flagged, others m inside]
  refine ⟨ql', ran, ⟨by rwa [ids_append], ?_, fun cell inside => ?_, ?_, ?_, fun unexposed => ?_⟩, ?_,
    depth'.trans start_depth, ?_, ?_⟩
  · rw [start_len, good.len] at len'
    simp only [length_append, length_cons] at len' ⊢
    omega
  · obtain ⟨node, found, holds⟩ := good.nodes cell ((mem_middle).mpr (.inr inside))
    have in_ids : cell.1 ∈ ids front ++ ids back := by
      rw [← ids_append]
      exact mem_map_of_mem inside
    obtain ⟨node', found', recoded⟩ := carries cell.1 in_ids node (by rw [others cell.1 in_ids]; exact found)
    exact ⟨node', found', holds.recode recoded⟩
  · rw [fill', ← start_eq]
    exact good.fill
  · rw [depth', start_depth]
    exact good.depth
  · rw [ids_append]
    have was_unexposed : ql.exposed = false := by
      have unexposed := exposed' unexposed
      rwa [← start_eq] at unexposed
    refine ends' unexposed fun idle m inside => ?_
    have was_short : ql.compress = 0 ∨ (ids (front ++ (n, values) :: back)).length < 2 * ql.compress := by
      rw [Idle, start_depth, start_len, len_eq] at idle
      rwa [ids_append, ids_cons]
    obtain ⟨node, found, settled⟩ := (good.ends was_unexposed).short was_short m (by
      simp only [ids_append, ids_cons, mem_append, mem_cons] at inside ⊢
      tauto)
    exact ⟨node, by rw [others m inside]; exact found, settled⟩
  · rw [count', ← start_eq]
  · intro unexposed hidden
    rw [ids_append] at hidden
    exact hidden' (by rw [← start_eq]; exact unexposed)
      (hides_mono start_depth (fun m inside unset => by rwa [flags m inside]) hidden)
  · intro m inside unset
    rw [ids_append] at inside
    exact (carries m inside).flagged (sound m inside) (by rwa [flags m inside])

end

end RedisCore.QuickList
