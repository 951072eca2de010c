import RedisCore.Cluster.LinkedRun

set_option autoImplicit false

namespace RedisCore.Cluster

open Lib

variable {s' : ClusterState}
variable {s : ClusterState}

-- The slot table and the bitmaps of the nodes say the same, and only masters serve slots.
structure Owners (s : ClusterState) : Prop where
  bit : ∀ a ∈ s.nodes, ∀ slot, slot ∈ (s.node a).slots ↔ s.slots.lookup slot = some a
  count : ∀ a ∈ s.nodes, (s.node a).numslots = (s.node a).slots.size
  served : ∀ a ∈ s.nodes, ∀ slot ∈ (s.node a).slots, (s.node a).isMaster = true

-- A slave knows its master, which is past its handshake.
structure Selfhood (s : ClusterState) : Prop where
  slaveof : (s.node s.myself).isSlave = true → (s.node s.myself).slaveof ≠ none
  master : ∀ m, (s.node s.myself).slaveof = some m → (s.node m).inHandshake = false

structure Coherent (s : ClusterState) : Prop where
  links : Links s
  owners : Owners s
  self : Selfhood s

structure SameOwners (s s' : ClusterState) : Prop where
  nodes : s'.nodes = s.nodes
  table : s'.slots = s.slots
  slots : ∀ a, (s'.node a).slots = (s.node a).slots
  numslots : ∀ a, (s'.node a).numslots = (s.node a).numslots
  isMaster : ∀ a ∈ s.nodes, (s.node a).isMaster = true → (s'.node a).isMaster = true ∨ (s.node a).slots.size = 0

theorem Owners.of_same (owners : Owners s) (same : SameOwners s s') : Owners s' where
  bit := by simpa only [same.nodes, same.table, same.slots] using owners.bit
  count := by simpa only [same.nodes, same.slots, same.numslots] using owners.count
  served := by
    intro a inside slot bit
    rw [same.nodes] at inside
    rw [same.slots] at bit
    rcases same.isMaster a inside (owners.served a inside slot bit) with master | empty
    · exact master
    · exact absurd bit ((SortedSet.size_eq_zero _).mp empty slot)

theorem SameOwners.of_view (same : s'.view = s.view) : SameOwners s s' where
  nodes := congrArg View.nodes same
  table := congrArg View.slots same
  slots := fun a => congrArg (fun v : View => (v.node a).slots) same
  numslots := fun a => congrArg (fun v : View => (v.node a).numslots) same
  isMaster := fun a _ master => .inl ((congrArg (fun v : View => (v.node a).isMaster) same).trans master)

theorem Owners.of_view (owners : Owners s) (same : s'.view = s.view) : Owners s' :=
  owners.of_same (.of_view same)

structure SameSelf (s s' : ClusterState) : Prop where
  myself : s'.myself = s.myself
  isSlave : (s'.node s.myself).isSlave = (s.node s.myself).isSlave
  slaveof : (s'.node s.myself).slaveof = (s.node s.myself).slaveof
  settled : ∀ m ∈ s.nodes, (s.node m).inHandshake = false → (s'.node m).inHandshake = false

section

variable {s s' : ClusterState}

theorem Selfhood.of_same (links : Links s) (self : Selfhood s) (same : SameSelf s s') : Selfhood s' where
  slaveof := by
    rw [same.myself, same.isSlave, same.slaveof]
    exact self.slaveof
  master := by
    intro m master
    rw [same.myself, same.slaveof] at master
    exact same.settled m (links.masters s.myself links.self m master) (self.master m master)

theorem SameSelf.of_links (same : SameLinks s s') : SameSelf s s' :=
  ⟨same.myself, same.isSlave _, same.slaveof _, fun m _ settled => (same.inHandshake m).trans settled⟩

theorem SameSelf.of_extends (links : Links s) (extended : Extends s s') : SameSelf s s' where
  myself := extended.myself
  isSlave := congrArg NodeView.isSlave (extended.old s.myself links.self)
  slaveof := congrArg NodeView.slaveof (extended.old s.myself links.self)
  settled := fun m inside settled => (extended.inHandshake m inside).trans settled

theorem Coherent.of_view (coherent : Coherent s) (same : s'.view = s.view) : Coherent s' :=
  ⟨coherent.links.of_view same, coherent.owners.of_view same, coherent.self.of_same coherent.links (.of_links (.of_view same))⟩

end

theorem start_coherent (name : Name) : Coherent (ClusterState.start name) := by
  refine ⟨start_links name, ?_, ?_⟩
  · refine ⟨?_, ?_, ?_⟩
    all_goals simp [ClusterState.start, createClusterNode]
  · refine ⟨?_, ?_⟩
    all_goals simp [ClusterState.start, createClusterNode]

section

variable {s : ClusterState}

theorem Owners.extend (links : Links s) (owners : Owners s) (links' : Links s') (extended : Extends s s') :
    Owners s' := by
  obtain ⟨added, nodes, fresh⟩ := extended.nodes
  have apart : ∀ a ∈ added, a ∉ s.nodes := by
    have distinct := links'.nodup
    rw [nodes] at distinct
    intro a inside old
    exact List.disjoint_of_nodup_append distinct old inside
  have member : ∀ a ∈ s'.nodes, a ∈ s.nodes ∨ a ∈ added := by
    intro a inside
    rw [nodes] at inside
    exact List.mem_append.mp inside
  have slots : ∀ a ∈ s.nodes, (s'.node a).slots = (s.node a).slots := fun a old => congrArg NodeView.slots (extended.old a old)
  have empty : ∀ a ∈ added, (s'.node a).slots = SortedSet.empty := fun a new => congrArg NodeView.slots (fresh a new)
  refine ⟨?_, ?_, ?_⟩
  · intro a inside slot
    rw [extended.slots]
    rcases member a inside with old | new
    · rw [slots a old]
      exact owners.bit a old slot
    · rw [empty a new]
      have unowned : s.slots.lookup slot ≠ some a := fun owner => apart a new (links.owners slot a owner)
      simp [unowned]
  · intro a inside
    rcases member a inside with old | new
    · have numslots : (s'.node a).numslots = (s.node a).numslots := congrArg NodeView.numslots (extended.old a old)
      rw [slots a old, numslots]
      exact owners.count a old
    · have numslots : (s'.node a).numslots = 0 := congrArg NodeView.numslots (fresh a new)
      rw [empty a new, numslots]
      rfl
  · intro a inside slot bit
    rcases member a inside with old | new
    · have master : (s'.node a).isMaster = (s.node a).isMaster := congrArg NodeView.isMaster (extended.old a old)
      rw [slots a old] at bit
      rw [master]
      exact owners.served a old slot bit
    · rw [empty a new] at bit
      exact absurd bit (SortedSet.notMem_empty slot)

theorem Coherent.extend (coherent : Coherent s) (links' : Links s') (extended : Extends s s') :
    Coherent s' :=
  ⟨links', coherent.owners.extend coherent.links links' extended,
    coherent.self.of_same coherent.links (.of_extends coherent.links extended)⟩

structure SlotsOnly (s s' : ClusterState) : Prop where
  links : SameLinks s s'
  currentEpoch : s'.currentEpoch = s.currentEpoch
  importing : s'.importingSlotsFrom = s.importingSlotsFrom
  name : ∀ a, (s'.node a).name = (s.node a).name
  configEpoch : ∀ a, (s'.node a).configEpoch = (s.node a).configEpoch

theorem SlotsOnly.refl (s : ClusterState) : SlotsOnly s s := ⟨.refl s, rfl, rfl, fun _ => rfl, fun _ => rfl⟩

theorem SlotsOnly.trans {s s'' : ClusterState} (first : SlotsOnly s s') (second : SlotsOnly s' s'') : SlotsOnly s s'' where
  links := first.links.trans second.links
  currentEpoch := second.currentEpoch.trans first.currentEpoch
  importing := second.importing.trans first.importing
  name := fun a => (second.name a).trans (first.name a)
  configEpoch := fun a => (second.configEpoch a).trans (first.configEpoch a)

theorem modify_field {α : Type} (field : ClusterNode → α) (a : Addr) (f : ClusterNode → ClusterNode)
    (same : field (f (s.node a)) = field (s.node a)) (b : Addr) : field ((s.modify a f).node b) = field (s.node b) := by
  by_cases here : b = a <;> simp [here, same]

theorem delSlot_only {slot : Slot} (deleted : clusterDelSlot s slot = .ok s') : SlotsOnly s s' := by
  have same := delSlot_same deleted
  obtain ⟨-, rfl⟩ | ⟨n, -, -, rfl⟩ := delSlot_cases deleted
  · exact .refl _
  · refine ⟨same, rfl, rfl, modify_field ClusterNode.name n _ ?_, modify_field ClusterNode.configEpoch n _ ?_⟩ <;> split <;> rfl

theorem addSlot_only (n : Addr) (slot : Slot) : SlotsOnly s (clusterAddSlot s n slot) := by
  have same := addSlot_same s n slot
  obtain ⟨-, unchanged⟩ | ⟨-, added⟩ := addSlot_cases s n slot
  · rw [unchanged]
    exact .refl s
  · have name : ∀ a, ((clusterNodeSetSlotBit s n slot).node a).name = (s.node a).name :=
      modify_field ClusterNode.name n _ (by split <;> rfl)
    have configEpoch : ∀ a, ((clusterNodeSetSlotBit s n slot).node a).configEpoch = (s.node a).configEpoch :=
      modify_field ClusterNode.configEpoch n _ (by split <;> rfl)
    rw [added] at same ⊢
    exact ⟨same, rfl, rfl, name, configEpoch⟩

-- The assertion of clusterDelSlot holds because the owner of a slot has its bit set.
theorem delSlot_total (links : Links s) (owners : Owners s) (slot : Slot) : ∃ s', clusterDelSlot s slot = .ok s' := by
  unfold clusterDelSlot
  split
  · exact ⟨s, rfl⟩
  · next n owner =>
    rw [if_pos ((owners.bit n (links.owners slot n owner) slot).mpr owner)]
    exact ⟨_, rfl⟩

theorem delSlot_owners (links : Links s) (owners : Owners s) {slot : Slot}
    (deleted : clusterDelSlot s slot = .ok s') : Owners s' := by
  obtain ⟨-, rfl⟩ | ⟨n, owner, bit, rfl⟩ := delSlot_cases deleted
  · exact owners
  · have table := delSlot_slots deleted
    have node : ∀ b, (clusterNodeClearSlotBit s n slot).node b =
        if b = n then { s.node n with slots := (s.node n).slots.erase slot, numslots := (s.node n).numslots - 1 }
        else s.node b := by
      intro b
      by_cases here : b = n <;> simp [clusterNodeClearSlotBit, here, bit]
    refine ⟨?_, ?_, ?_⟩
    · intro a inside j
      change j ∈ ((clusterNodeClearSlotBit s n slot).node a).slots ↔ _
      rw [table j, node a]
      have before := owners.bit a inside j
      by_cases here : a = n <;> by_cases same : j = slot
      · subst here same
        simp
      · subst here
        simp [same, before]
      · subst same
        have other : j ∉ (s.node a).slots := by
          rw [before, owner]
          simpa using Ne.symm here
        simp [here, other]
      · simp [here, same, before]
    · intro a inside
      change ((clusterNodeClearSlotBit s n slot).node a).numslots = ((clusterNodeClearSlotBit s n slot).node a).slots.size
      rw [node a]
      have before := owners.count a inside
      split_ifs with here
      · subst here
        have smaller := SortedSet.size_erase bit
        change (s.node a).numslots - 1 = ((s.node a).slots.erase slot).size
        omega
      · exact before
    · intro a inside j set
      change j ∈ ((clusterNodeClearSlotBit s n slot).node a).slots at set
      change ((clusterNodeClearSlotBit s n slot).node a).isMaster = true
      rw [node a] at set ⊢
      split_ifs at set ⊢ with here
      · subst here
        exact owners.served a inside j ((SortedSet.mem_erase _ _ _).mp set).2
      · exact owners.served a inside j set

theorem addSlot_owners (owners : Owners s) {n : Addr} (known : n ∈ s.nodes)
    (master : (s.node n).isMaster = true) (slot : Slot) : Owners (clusterAddSlot s n slot) := by
  obtain ⟨-, unchanged⟩ | ⟨free, added⟩ := addSlot_cases s n slot
  · rw [unchanged]
    exact owners
  · have table := addSlot_slots s n free
    have absent : slot ∉ (s.node n).slots := by
      rw [owners.bit n known, free]
      simp
    have node : ∀ b, ((clusterAddSlot s n slot).node b) =
        if b = n then { s.node n with slots := (s.node n).slots.insert slot, numslots := (s.node n).numslots + 1 }
        else s.node b := by
      intro b
      rw [added]
      by_cases here : b = n <;> simp [clusterNodeSetSlotBit, here, absent]
    have nodes : (clusterAddSlot s n slot).nodes = s.nodes := (addSlot_same s n slot).nodes
    refine ⟨?_, ?_, ?_⟩
    · intro a inside j
      rw [nodes] at inside
      rw [table j, node a]
      have before := owners.bit a inside j
      by_cases here : a = n <;> by_cases same : j = slot
      · subst here same
        simp
      · subst here
        simp [same, before]
      · subst same
        have other : j ∉ (s.node a).slots := by
          rw [before, free]
          simp
        simp [here, other, Ne.symm here]
      · simp [here, same, before]
    · intro a inside
      rw [nodes] at inside
      rw [node a]
      have before := owners.count a inside
      split_ifs with here
      · subst here
        have larger := SortedSet.size_insert absent
        change (s.node a).numslots + 1 = ((s.node a).slots.insert slot).size
        omega
      · exact before
    · intro a inside j set
      rw [nodes] at inside
      rw [node a] at set ⊢
      split_ifs at set ⊢ with here
      · exact master
      · exact owners.served a inside j set

theorem delSlots_total (links : Links s) (owners : Owners s) (slots : List Slot) :
    Returns (clusterDelSlots s slots) Owners := by
  unfold clusterDelSlots
  induction slots generalizing s with
  | nil => exact ⟨s, rfl, owners⟩
  | cons slot rest ih =>
    obtain ⟨middle, deleted⟩ := delSlot_total links owners slot
    rw [List.foldlM_cons, deleted]
    exact ih (delSlot_links links deleted) (delSlot_owners links owners deleted)

theorem delSlots_only {slots : List Slot} (deleted : clusterDelSlots s slots = .ok s') : SlotsOnly s s' :=
  foldlM_preserves (SlotsOnly s) s (fun _ _ _ _ before step => before.trans (delSlot_only step)) (.refl s) deleted

theorem delNodeSlots_empty (owners : Owners s) {n : Addr} (inside : n ∈ s.nodes) (owners' : Owners s')
    (deleted : clusterDelNodeSlots s n = .ok s') : (s'.node n).slots.size = 0 := by
  have nodes : s'.nodes = s.nodes := (delSlots_same deleted).nodes
  rw [SortedSet.size_eq_zero]
  intro slot bit
  rw [owners'.bit n (by rwa [nodes]), delSlots_slots deleted] at bit
  split_ifs at bit with listed
  exact listed ((SortedSet.mem_items _ _).mpr ((owners.bit n inside slot).mpr bit))

end

end RedisCore.Cluster
