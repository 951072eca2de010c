import RedisCore.Cluster.Commands
import RedisCore.Lib.Outcome

set_option autoImplicit false

namespace RedisCore.Cluster

open Lib List

variable {s s' : ClusterState} {n a : Addr}

-- Every node pointer is the address of a node of the table, m lists a as a slave when a has m as its
-- master, and a node has one role once its handshake is over.
structure Links (s : ClusterState) : Prop where
  self : s.myself ∈ s.nodes
  nodup : s.nodes.Nodup
  allocated : ∀ a ∈ s.nodes, a < s.next
  owners : ∀ slot a, s.slots.lookup slot = some a → a ∈ s.nodes
  slaves : ∀ m ∈ s.nodes, ∀ a, a ∈ (s.node m).slaves ↔ a ∈ s.nodes ∧ (s.node a).slaveof = some m
  masters : ∀ a ∈ s.nodes, ∀ m, (s.node a).slaveof = some m → m ∈ s.nodes
  slavesNodup : ∀ m ∈ s.nodes, (s.node m).slaves.Nodup
  linked : ∀ a ∈ s.nodes, ∀ m, (s.node a).slaveof = some m → (s.node a).isSlave = true
  exclusive : ∀ a ∈ s.nodes, (s.node a).isSlave = true → (s.node a).isMaster = false
  settled : ∀ a ∈ s.nodes, (s.node a).inHandshake = false → (s.node a).isMaster = true ∨ (s.node a).isSlave = true
  fresh : ∀ a ∈ s.nodes, (s.node a).inHandshake = true → (s.node a).isMaster = false ∧ (s.node a).isSlave = false
  joined : (s.node s.myself).inHandshake = false

structure SameLinks (s s' : ClusterState) : Prop where
  myself : s'.myself = s.myself
  nodes : s'.nodes = s.nodes
  next : s'.next = s.next
  slaves : ∀ a, (s'.node a).slaves = (s.node a).slaves
  slaveof : ∀ a, (s'.node a).slaveof = (s.node a).slaveof
  isMaster : ∀ a, (s'.node a).isMaster = (s.node a).isMaster
  isSlave : ∀ a, (s'.node a).isSlave = (s.node a).isSlave
  inHandshake : ∀ a, (s'.node a).inHandshake = (s.node a).inHandshake

theorem SameLinks.refl (s : ClusterState) : SameLinks s s :=
  ⟨rfl, rfl, rfl, fun _ => rfl, fun _ => rfl, fun _ => rfl, fun _ => rfl, fun _ => rfl⟩

theorem SameLinks.trans {s'' : ClusterState} (first : SameLinks s s') (second : SameLinks s' s'') : SameLinks s s'' where
  myself := second.myself.trans first.myself
  nodes := second.nodes.trans first.nodes
  next := second.next.trans first.next
  slaves := fun a => (second.slaves a).trans (first.slaves a)
  slaveof := fun a => (second.slaveof a).trans (first.slaveof a)
  isMaster := fun a => (second.isMaster a).trans (first.isMaster a)
  isSlave := fun a => (second.isSlave a).trans (first.isSlave a)
  inHandshake := fun a => (second.inHandshake a).trans (first.inHandshake a)

theorem SameLinks.of_view (same : s'.view = s.view) : SameLinks s s' where
  myself := congrArg View.myself same
  nodes := congrArg View.nodes same
  next := congrArg View.next same
  slaves := fun a => congrArg (fun v : View => (v.node a).slaves) same
  slaveof := fun a => congrArg (fun v : View => (v.node a).slaveof) same
  isMaster := fun a => congrArg (fun v : View => (v.node a).isMaster) same
  isSlave := fun a => congrArg (fun v : View => (v.node a).isSlave) same
  inHandshake := fun a => congrArg (fun v : View => (v.node a).inHandshake) same

theorem SameLinks.of_modify (s : ClusterState) (a : Addr) (f : ClusterNode → ClusterNode)
    (slaves : (f (s.node a)).slaves = (s.node a).slaves) (slaveof : (f (s.node a)).slaveof = (s.node a).slaveof)
    (isMaster : (f (s.node a)).isMaster = (s.node a).isMaster) (isSlave : (f (s.node a)).isSlave = (s.node a).isSlave)
    (inHandshake : (f (s.node a)).inHandshake = (s.node a).inHandshake) : SameLinks s (s.modify a f) := by
  refine ⟨rfl, rfl, rfl, ?_, ?_, ?_, ?_, ?_⟩
  all_goals
    intro b
    by_cases here : b = a <;> simp [here, slaves, slaveof, isMaster, isSlave, inHandshake]

theorem Links.of_same (links : Links s) (same : SameLinks s s')
    (owners : ∀ slot a, s'.slots.lookup slot = some a → a ∈ s.nodes) : Links s' where
  self := by simpa only [same.myself, same.nodes] using links.self
  nodup := by simpa only [same.nodes] using links.nodup
  allocated := by simpa only [same.nodes, same.next] using links.allocated
  owners := by simpa only [same.nodes] using owners
  slaves := by simpa only [same.nodes, same.slaves, same.slaveof] using links.slaves
  masters := by simpa only [same.nodes, same.slaveof] using links.masters
  slavesNodup := by simpa only [same.nodes, same.slaves] using links.slavesNodup
  linked := by simpa only [same.nodes, same.slaveof, same.isSlave] using links.linked
  exclusive := by simpa only [same.nodes, same.isMaster, same.isSlave] using links.exclusive
  settled := by simpa only [same.nodes, same.isMaster, same.isSlave, same.inHandshake] using links.settled
  fresh := by simpa only [same.nodes, same.isMaster, same.isSlave, same.inHandshake] using links.fresh
  joined := by simpa only [same.myself, same.inHandshake] using links.joined

theorem Links.of_view (links : Links s) (same : s'.view = s.view) : Links s' := by
  have slots : s'.slots = s.slots := congrArg View.slots same
  exact links.of_same (.of_view same) (by simpa only [slots] using links.owners)

structure Relinked (s s' : ClusterState) (a : Addr) (new : Option Addr) : Prop where
  myself : s'.myself = s.myself
  nodes : s'.nodes = s.nodes
  next : s'.next = s.next
  slots : s'.slots = s.slots
  slaveof : ∀ b, (s'.node b).slaveof = if b = a then new else (s.node b).slaveof
  slaves : ∀ m ∈ s.nodes, ∀ b, b ∈ (s'.node m).slaves ↔ if b = a then new = some m else b ∈ (s.node m).slaves
  slavesNodup : ∀ m ∈ s.nodes, (s'.node m).slaves.Nodup
  isMaster : ∀ b, b ≠ a → (s'.node b).isMaster = (s.node b).isMaster
  isSlave : ∀ b, b ≠ a → (s'.node b).isSlave = (s.node b).isSlave
  inHandshake : ∀ b, (s'.node b).inHandshake = (s.node b).inHandshake

theorem Links.relink {new : Option Addr} (links : Links s) (inside : a ∈ s.nodes)
    (relinked : Relinked s s' a new) (known : ∀ m, new = some m → m ∈ s.nodes)
    (role : (s'.node a).isMaster = !(s'.node a).isSlave) (linked : ∀ m, new = some m → (s'.node a).isSlave = true)
    (known_role : (s.node a).inHandshake = false) : Links s' where
  self := by simpa only [relinked.myself, relinked.nodes] using links.self
  nodup := by simpa only [relinked.nodes] using links.nodup
  allocated := by simpa only [relinked.nodes, relinked.next] using links.allocated
  owners := by simpa only [relinked.nodes, relinked.slots] using links.owners
  slaves := by
    intro m master b
    rw [relinked.nodes] at master ⊢
    rw [relinked.slaves m master b, relinked.slaveof b]
    by_cases here : b = a
    · simp [here, inside]
    · simpa [here] using links.slaves m master b
  masters := by
    intro b member m
    rw [relinked.nodes] at member ⊢
    rw [relinked.slaveof b]
    by_cases here : b = a
    · simpa [here] using known m
    · simpa [here] using links.masters b member m
  slavesNodup := by simpa only [relinked.nodes] using relinked.slavesNodup
  linked := by
    intro b member m
    rw [relinked.nodes] at member
    rw [relinked.slaveof b]
    by_cases here : b = a
    · subst here
      simpa using linked m
    · simpa [here, relinked.isSlave b here] using links.linked b member m
  exclusive := by
    intro b member
    rw [relinked.nodes] at member
    by_cases here : b = a
    · subst here
      rw [role]
      intro slave
      simp [slave]
    · simpa [relinked.isSlave b here, relinked.isMaster b here] using links.exclusive b member
  settled := by
    intro b member
    rw [relinked.nodes] at member
    by_cases here : b = a
    · subst here
      intro _
      rw [role]
      cases (s'.node b).isSlave <;> simp
    · simpa [relinked.isSlave b here, relinked.isMaster b here, relinked.inHandshake b] using links.settled b member
  fresh := by
    intro b member
    rw [relinked.nodes] at member
    by_cases here : b = a
    · subst here
      simp [relinked.inHandshake, known_role]
    · simpa [relinked.isSlave b here, relinked.isMaster b here, relinked.inHandshake b] using links.fresh b member
  joined := by rw [relinked.myself, relinked.inHandshake, links.joined]

section

variable (s)

theorem detach_node (a b : Addr) : (detachFromMaster s a).node b =
    if (s.node a).slaveof = some b then { s.node b with slaves := (s.node b).slaves.erase a } else s.node b := by
  unfold detachFromMaster
  cases master : (s.node a).slaveof with
  | none => simp
  | some m =>
    by_cases here : b = m
    · simp [clusterNodeRemoveSlave, here]
    · simp [clusterNodeRemoveSlave, here, Ne.symm here]

theorem detach_same (a : Addr) : (detachFromMaster s a).myself = s.myself ∧ (detachFromMaster s a).nodes = s.nodes ∧
    (detachFromMaster s a).next = s.next ∧ (detachFromMaster s a).slots = s.slots := by
  unfold detachFromMaster
  split <;> exact ⟨rfl, rfl, rfl, rfl⟩

@[simp] theorem detach_fields (a b : Addr) : ((detachFromMaster s a).node b).slaveof = (s.node b).slaveof ∧
    ((detachFromMaster s a).node b).isMaster = (s.node b).isMaster ∧
    ((detachFromMaster s a).node b).isSlave = (s.node b).isSlave ∧
    ((detachFromMaster s a).node b).inHandshake = (s.node b).inHandshake ∧
    ((detachFromMaster s a).node b).slots = (s.node b).slots ∧
    ((detachFromMaster s a).node b).numslots = (s.node b).numslots ∧
    ((detachFromMaster s a).node b).name = (s.node b).name ∧
    ((detachFromMaster s a).node b).configEpoch = (s.node b).configEpoch := by
  rw [detach_node]
  split <;> exact ⟨rfl, rfl, rfl, rfl, rfl, rfl, rfl, rfl⟩

theorem addSlave_node (m a b : Addr) : (clusterNodeAddSlave s m a).node b =
    if b = m ∧ a ∉ (s.node m).slaves then { s.node m with slaves := (s.node m).slaves ++ [a] } else s.node b := by
  unfold clusterNodeAddSlave
  by_cases present : a ∈ (s.node m).slaves
  · simp [present]
  · by_cases here : b = m <;> simp [present, here]

theorem addSlave_same (m a : Addr) : (clusterNodeAddSlave s m a).myself = s.myself ∧
    (clusterNodeAddSlave s m a).nodes = s.nodes ∧ (clusterNodeAddSlave s m a).next = s.next ∧
    (clusterNodeAddSlave s m a).slots = s.slots := by
  unfold clusterNodeAddSlave
  split <;> exact ⟨rfl, rfl, rfl, rfl⟩

@[simp] theorem addSlave_fields (m a b : Addr) : ((clusterNodeAddSlave s m a).node b).slaveof = (s.node b).slaveof ∧
    ((clusterNodeAddSlave s m a).node b).isMaster = (s.node b).isMaster ∧
    ((clusterNodeAddSlave s m a).node b).isSlave = (s.node b).isSlave ∧
    ((clusterNodeAddSlave s m a).node b).inHandshake = (s.node b).inHandshake ∧
    ((clusterNodeAddSlave s m a).node b).slots = (s.node b).slots ∧
    ((clusterNodeAddSlave s m a).node b).numslots = (s.node b).numslots ∧
    ((clusterNodeAddSlave s m a).node b).name = (s.node b).name ∧
    ((clusterNodeAddSlave s m a).node b).configEpoch = (s.node b).configEpoch := by
  rw [addSlave_node]
  split_ifs with here
  · rw [here.1]
    exact ⟨rfl, rfl, rfl, rfl, rfl, rfl, rfl, rfl⟩
  · exact ⟨rfl, rfl, rfl, rfl, rfl, rfl, rfl, rfl⟩

@[simp] theorem setSlaveof_slaves (a b : Addr) (master : Option Addr) :
    ((setSlaveof s a master).node b).slaves = (s.node b).slaves := by
  by_cases here : b = a <;> simp [setSlaveof, here]

theorem mem_addSlave (m a m' b : Addr) :
    b ∈ ((clusterNodeAddSlave s m a).node m').slaves ↔ b ∈ (s.node m').slaves ∨ (m' = m ∧ b = a) := by
  rw [addSlave_node]
  split_ifs with here
  · obtain ⟨rfl, absent⟩ := here
    simp
  · constructor
    · exact Or.inl
    · rintro (already | ⟨rfl, rfl⟩)
      · exact already
      · simpa using here

theorem addSlave_nodup (m a m' : Addr) (nodup : (s.node m').slaves.Nodup) :
    ((clusterNodeAddSlave s m a).node m').slaves.Nodup := by
  rw [addSlave_node]
  split_ifs with here
  · obtain ⟨rfl, absent⟩ := here
    exact nodup_append.mpr ⟨nodup, nodup_singleton a, by simpa using fun x inside => ne_of_mem_of_not_mem inside absent⟩
  · exact nodup

theorem detach_nodup (a m : Addr) (nodup : (s.node m).slaves.Nodup) :
    ((detachFromMaster s a).node m).slaves.Nodup := by
  rw [detach_node]
  split
  · exact nodup.erase a
  · exact nodup

section

variable {s} (links : Links s)

include links

theorem mem_detach {m : Addr} (b : Addr) (inside : a ∈ s.nodes) (known : m ∈ s.nodes) :
    b ∈ ((detachFromMaster s a).node m).slaves ↔ b ≠ a ∧ b ∈ (s.node m).slaves := by
  rw [detach_node]
  split_ifs with here
  · exact (links.slavesNodup m known).mem_erase_iff
  · constructor
    · intro member
      refine ⟨?_, member⟩
      rintro rfl
      exact here ((links.slaves m known b).mp member).2
    · exact And.right

theorem setNodeAsMaster_relinked (inside : a ∈ s.nodes)
    (slave : (s.node a).isMaster = false) : Relinked s (clusterSetNodeAsMaster s a) a none := by
  obtain ⟨myself, nodes, next, slots⟩ := detach_same s a
  unfold clusterSetNodeAsMaster
  rw [if_neg (by simp [slave])]
  refine ⟨myself, nodes, next, slots, ?_, ?_, ?_, ?_, ?_, ?_⟩
  · intro b
    by_cases here : b = a <;> simp [here]
  · intro m known b
    have detached := mem_detach links b inside known
    by_cases here : m = a <;> by_cases same : b = a <;> simp_all
  · intro m known
    have detached := detach_nodup s a m (links.slavesNodup m known)
    by_cases here : m = a <;> simp_all
  · intro b other
    simp [other]
  · intro b other
    simp [other]
  · intro b
    by_cases here : b = a <;> simp [here]

theorem setNodeAsMaster_links (inside : a ∈ s.nodes)
    (known_role : (s.node a).inHandshake = false) : Links (clusterSetNodeAsMaster s a) := by
  by_cases master : (s.node a).isMaster = true
  · unfold clusterSetNodeAsMaster
    rwa [if_pos master]
  · refine links.relink inside (setNodeAsMaster_relinked links inside (by simpa using master)) nofun ?_ nofun known_role
    simp [clusterSetNodeAsMaster, master]

theorem replaceMaster_relinked {m : Addr} (inside : a ∈ s.nodes)
    (other : (s.node a).slaveof ≠ some m) : Relinked s (replaceMaster s a m) a (some m) := by
  obtain ⟨myself, nodes, next, slots⟩ := addSlave_same (detachFromMaster s a) m a
  obtain ⟨myself', nodes', next', slots'⟩ := detach_same s a
  unfold replaceMaster setSlaveof
  rw [if_neg other]
  refine ⟨myself.trans myself', nodes.trans nodes', next.trans next', slots.trans slots', ?_, ?_, ?_, ?_, ?_, ?_⟩
  · intro b
    by_cases here : b = a <;> simp [here]
  · intro m' known b
    have detached := mem_detach links b inside known
    have added := mem_addSlave (detachFromMaster s a) m a m' b
    by_cases here : m' = a <;> by_cases same : b = a <;> simp_all [eq_comm]
  · intro m' known
    have detached := addSlave_nodup _ m a m' (detach_nodup s a m' (links.slavesNodup m' known))
    by_cases here : m' = a <;> simp_all
  · intro b away
    simp [away]
  · intro b away
    simp [away]
  · intro b
    by_cases here : b = a <;> simp [here]

theorem replaceMaster_links {m : Addr} (inside : a ∈ s.nodes) (known : m ∈ s.nodes)
    (slave : (s.node a).isSlave = true) (known_role : (s.node a).inHandshake = false) : Links (replaceMaster s a m) := by
  by_cases same : (s.node a).slaveof = some m
  · unfold replaceMaster
    rwa [if_pos same]
  · have flags : ((replaceMaster s a m).node a).isSlave = true ∧ ((replaceMaster s a m).node a).isMaster = false := by
      simp [replaceMaster, same, setSlaveof, slave, links.exclusive a inside slave]
    refine links.relink inside (replaceMaster_relinked links inside same) ?_ ?_ (fun _ _ => flags.1) known_role
    · rintro m' ⟨⟩
      exact known
    · simp [flags]

end

def followMaster (n : Addr) : ClusterState :=
  resetManualFailover (clusterNodeAddSlave (setSlaveof (leaveMaster s) s.myself (some n)) n s.myself)

theorem setMaster_ok (n : Addr) (s' : ClusterState) : clusterSetMaster s n = .ok s' ↔
    n ≠ s.myself ∧ (s.node s.myself).numslots = 0 ∧ s' = followMaster s n := by
  unfold clusterSetMaster
  split_ifs with self busy
  · simp [self]
  · simp [busy]
  · simp only [ne_eq, not_not] at busy
    simp [self, busy, eq_comm, followMaster]

theorem leaveMaster_node (b : Addr) : (leaveMaster s).node b =
    if (s.node s.myself).isMaster then
      if b = s.myself then { s.node s.myself with isMaster := false, isSlave := true } else s.node b
    else (detachFromMaster s s.myself).node b := by
  unfold leaveMaster
  split_ifs with master here
  all_goals simp_all [clusterCloseAllSlots]

theorem leaveMaster_same : (leaveMaster s).myself = s.myself ∧ (leaveMaster s).nodes = s.nodes ∧
    (leaveMaster s).next = s.next ∧ (leaveMaster s).slots = s.slots := by
  unfold leaveMaster
  split
  · exact ⟨rfl, rfl, rfl, rfl⟩
  · exact detach_same s s.myself

@[simp] theorem leaveMaster_fields (b : Addr) : ((leaveMaster s).node b).slaveof = (s.node b).slaveof ∧
    ((leaveMaster s).node b).inHandshake = (s.node b).inHandshake ∧ ((leaveMaster s).node b).slots = (s.node b).slots ∧
    ((leaveMaster s).node b).numslots = (s.node b).numslots ∧ ((leaveMaster s).node b).name = (s.node b).name ∧
    ((leaveMaster s).node b).configEpoch = (s.node b).configEpoch := by
  rw [leaveMaster_node]
  split_ifs with master here
  · rw [here]
    exact ⟨rfl, rfl, rfl, rfl, rfl, rfl⟩
  · exact ⟨rfl, rfl, rfl, rfl, rfl, rfl⟩
  · simp

theorem followMaster_fields (n b : Addr) :
    ((followMaster s n).node b).slaveof = (if b = s.myself then some n else (s.node b).slaveof) ∧
    ((followMaster s n).node b).inHandshake = (s.node b).inHandshake ∧ ((followMaster s n).node b).slots = (s.node b).slots ∧
    ((followMaster s n).node b).numslots = (s.node b).numslots ∧ ((followMaster s n).node b).name = (s.node b).name ∧
    ((followMaster s n).node b).configEpoch = (s.node b).configEpoch := by
  by_cases here : b = s.myself <;> simp [followMaster, resetManualFailover, setSlaveof, here]

theorem followMaster_same (n : Addr) : (followMaster s n).myself = s.myself ∧ (followMaster s n).nodes = s.nodes ∧
    (followMaster s n).next = s.next ∧ (followMaster s n).slots = s.slots := by
  obtain ⟨myself, nodes, next, slots⟩ := addSlave_same (setSlaveof (leaveMaster s) s.myself (some n)) n s.myself
  obtain ⟨myself', nodes', next', slots'⟩ := leaveMaster_same s
  exact ⟨myself.trans myself', nodes.trans nodes', next.trans next', slots.trans slots'⟩

theorem mem_leaveMaster {s : ClusterState} (links : Links s) (m b : Addr) (known : m ∈ s.nodes) :
    b ∈ ((leaveMaster s).node m).slaves ↔ b ≠ s.myself ∧ b ∈ (s.node m).slaves := by
  unfold leaveMaster
  split_ifs with master
  · have unlisted : b ∈ (s.node m).slaves → b ≠ s.myself := by
      rintro member rfl
      have slave := links.linked s.myself links.self m ((links.slaves m known s.myself).mp member).2
      simp [links.exclusive s.myself links.self slave] at master
    have same : ((clusterCloseAllSlots (s.modify s.myself fun me => { me with isMaster := false, isSlave := true })).node m).slaves =
        (s.node m).slaves := by
      by_cases here : m = s.myself <;> simp [clusterCloseAllSlots, here]
    rw [same]
    exact ⟨fun member => ⟨unlisted member, member⟩, And.right⟩
  · exact mem_detach links b links.self known

theorem setMaster_links {s : ClusterState} (links : Links s) (known : n ∈ s.nodes)
    (set : clusterSetMaster s n = .ok s') : Links s' ∧ Relinked s s' s.myself (some n) := by
  obtain ⟨-, -, rfl⟩ := (setMaster_ok s n s').mp set
  obtain ⟨myself, nodes, next, slots⟩ := followMaster_same s n
  have flags : ∀ b, ((followMaster s n).node b).isMaster = (if b = s.myself then false else (s.node b).isMaster) ∧
      ((followMaster s n).node b).isSlave = (if b = s.myself then true else (s.node b).isSlave) := by
    intro b
    have role := links.settled s.myself links.self links.joined
    by_cases master : (s.node s.myself).isMaster = true <;> by_cases here : b = s.myself <;>
      simp_all [followMaster, resetManualFailover, setSlaveof, leaveMaster_node]
  have relinked : Relinked s (followMaster s n) s.myself (some n) := by
    refine ⟨myself, nodes, next, slots, fun b => (followMaster_fields s n b).1, ?_, ?_, ?_, ?_, fun b => (followMaster_fields s n b).2.1⟩
    · intro m master b
      have left := mem_leaveMaster links m b master
      have added := mem_addSlave (setSlaveof (leaveMaster s) s.myself (some n)) n s.myself m b
      change b ∈ ((clusterNodeAddSlave (setSlaveof (leaveMaster s) s.myself (some n)) n s.myself).node m).slaves ↔ _
      rw [added, setSlaveof_slaves, left]
      by_cases same : b = s.myself <;> simp [same, eq_comm]
    · intro m master
      refine addSlave_nodup _ n s.myself m ?_
      rw [setSlaveof_slaves, leaveMaster_node]
      split_ifs with role here
      · exact links.slavesNodup s.myself links.self
      · exact links.slavesNodup m master
      · exact detach_nodup s s.myself m (links.slavesNodup m master)
    · intro b other
      rw [(flags b).1, if_neg other]
    · intro b other
      rw [(flags b).2, if_neg other]
  refine ⟨links.relink links.self relinked ?_ ?_ ?_ links.joined, relinked⟩
  · rintro m ⟨⟩
    exact known
  · simp [flags]
  · simp [flags]

theorem orphanSlaves_node (l : List Addr) (b : Addr) : (orphanSlaves s l).node b =
    if b ∈ l then { s.node b with slaveof := none } else s.node b := by
  unfold orphanSlaves
  induction l generalizing s with
  | nil => simp
  | cons a rest ih =>
    rw [foldl_cons, ih]
    by_cases here : b = a <;> by_cases later : b ∈ rest <;> simp [setSlaveof, here, later]

theorem orphanSlaves_same (l : List Addr) : (orphanSlaves s l).myself = s.myself ∧ (orphanSlaves s l).nodes = s.nodes ∧
    (orphanSlaves s l).next = s.next ∧ (orphanSlaves s l).slots = s.slots := by
  unfold orphanSlaves
  induction l generalizing s with
  | nil => exact ⟨rfl, rfl, rfl, rfl⟩
  | cons a rest ih => exact ih (setSlaveof s a none)

@[simp] theorem orphanSlaves_fields (l : List Addr) (b : Addr) :
    ((orphanSlaves s l).node b).slaves = (s.node b).slaves ∧ ((orphanSlaves s l).node b).isMaster = (s.node b).isMaster ∧
    ((orphanSlaves s l).node b).isSlave = (s.node b).isSlave ∧
    ((orphanSlaves s l).node b).inHandshake = (s.node b).inHandshake ∧
    ((orphanSlaves s l).node b).slots = (s.node b).slots ∧ ((orphanSlaves s l).node b).numslots = (s.node b).numslots := by
  rw [orphanSlaves_node]
  split <;> exact ⟨rfl, rfl, rfl, rfl, rfl, rfl⟩

theorem setSlotBit_same (n : Addr) (slot : Slot) : SameLinks s (clusterNodeSetSlotBit s n slot) := by
  refine SameLinks.of_modify s n _ ?_ ?_ ?_ ?_ ?_ <;> split <;> rfl

theorem clearSlotBit_same (n : Addr) (slot : Slot) : SameLinks s (clusterNodeClearSlotBit s n slot) := by
  refine SameLinks.of_modify s n _ ?_ ?_ ?_ ?_ ?_ <;> split <;> rfl

theorem addSlot_cases (n : Addr) (slot : Slot) : ((s.slots.lookup slot).isSome ∧ clusterAddSlot s n slot = s) ∨
    (s.slots.lookup slot = none ∧
      clusterAddSlot s n slot = { clusterNodeSetSlotBit s n slot with slots := s.slots.insert slot n }) := by
  unfold clusterAddSlot
  split
  · next owner => exact .inl ⟨by simp [owner], rfl⟩
  · next unowned => exact .inr ⟨unowned, rfl⟩

theorem addSlot_same (n : Addr) (slot : Slot) : SameLinks s (clusterAddSlot s n slot) := by
  obtain ⟨-, unchanged⟩ | ⟨-, added⟩ := addSlot_cases s n slot
  · rw [unchanged]
    exact .refl s
  · rw [added]
    have set := setSlotBit_same s n slot
    exact { set with }

theorem addSlot_slots (n : Addr) {slot : Slot} (free : s.slots.lookup slot = none) (j : Slot) :
    (clusterAddSlot s n slot).slots.lookup j = if j = slot then some n else s.slots.lookup j := by
  obtain ⟨owned, -⟩ | ⟨-, added⟩ := addSlot_cases s n slot
  · simp [free] at owned
  · rw [added]
    split_ifs with here
    · rw [here]
      exact AList.lookup_insert s.slots
    · exact AList.lookup_insert_ne here

-- The slots that the deleted node was migrating to or imported from are closed, and its reports forgotten.
def closeSlotsOf (n : Addr) : ClusterState :=
  { s with
    importingSlotsFrom := dropSlots s.importingSlotsFrom n
    migratingSlotsTo := dropSlots s.migratingSlotsTo n }

def forgetReports (env : Env) (n : Addr) : ClusterState :=
  (s.nodes.filter (· ≠ n)).foldl (fun s other => clusterNodeDelFailureReport s env other n) s

theorem delNode_ok (env : Env) (n : Addr) (s' : ClusterState) : clusterDelNode s env n = .ok s' ↔
    ∃ emptied, clusterDelSlots (closeSlotsOf s n) (ownedSlots s n) = .ok emptied ∧
      s' = freeClusterNode (forgetReports emptied env n) n := by
  unfold clusterDelNode closeSlotsOf forgetReports
  rw [bind_ok]
  simp only [pure, Except.pure, Except.ok.injEq, eq_comm]

theorem forgetReports_view (env : Env) (n : Addr) : (forgetReports s env n).view = s.view :=
  view_foldl s _ (fun s other => delFailureReport_view env s other n) _

theorem mem_ownedSlots (n : Addr) (slot : Slot) : slot ∈ ownedSlots s n ↔ s.slots.lookup slot = some n := by
  unfold ownedSlots
  simp only [mem_filter, decide_eq_true_eq, and_iff_right_iff_imp]
  intro owner
  rw [← AList.mem_keys, ← AList.lookup_isSome, owner]
  rfl

end

structure Freed (s s' : ClusterState) (n : Addr) : Prop where
  myself : s'.myself = s.myself
  nodes : s'.nodes = s.nodes.erase n
  next : s'.next = s.next
  slots : s'.slots = s.slots
  slaveof : ∀ b, (s'.node b).slaveof = if b ∈ (s.node n).slaves then none else (s.node b).slaveof
  slaves : ∀ m ∈ s.nodes, m ≠ n → ∀ b, b ∈ (s'.node m).slaves ↔ b ≠ n ∧ b ∈ (s.node m).slaves
  slavesNodup : ∀ m ∈ s.nodes, (s'.node m).slaves.Nodup
  isMaster : ∀ b, (s'.node b).isMaster = (s.node b).isMaster
  isSlave : ∀ b, (s'.node b).isSlave = (s.node b).isSlave
  inHandshake : ∀ b, (s'.node b).inHandshake = (s.node b).inHandshake

theorem Links.free (links : Links s) (freed : Freed s s' n) (inside : n ∈ s.nodes)
    (other : n ≠ s.myself) (unowned : ∀ slot, s.slots.lookup slot ≠ some n) : Links s' := by
  have member : ∀ b, b ∈ s'.nodes ↔ b ≠ n ∧ b ∈ s.nodes := fun b => by
    rw [freed.nodes]
    exact links.nodup.mem_erase_iff
  refine ⟨?_, ?_, ?_, ?_, ?_, ?_, ?_, ?_, ?_, ?_, ?_, ?_⟩
  · rw [freed.myself, member]
    exact ⟨other.symm, links.self⟩
  · rw [freed.nodes]
    exact links.nodup.erase n
  · intro a live
    rw [freed.next]
    exact links.allocated a ((member a).mp live).2
  · intro slot a owner
    rw [freed.slots] at owner
    refine (member a).mpr ⟨?_, links.owners slot a owner⟩
    rintro rfl
    exact unowned slot owner
  · intro m live a
    obtain ⟨away, known⟩ := (member m).mp live
    rw [freed.slaves m known away, links.slaves m known, member, freed.slaveof]
    by_cases orphan : a ∈ (s.node n).slaves
    · have master := ((links.slaves n inside a).mp orphan).2
      simp [orphan, master, away.symm]
    · simp [orphan, and_assoc]
  · intro a live m slaveof
    obtain ⟨away, known⟩ := (member a).mp live
    rw [freed.slaveof] at slaveof
    split_ifs at slaveof with orphan
    refine (member m).mpr ⟨?_, links.masters a known m slaveof⟩
    rintro rfl
    exact orphan ((links.slaves m inside a).mpr ⟨known, slaveof⟩)
  · intro m live
    exact freed.slavesNodup m ((member m).mp live).2
  · intro a live m slaveof
    rw [freed.slaveof] at slaveof
    split_ifs at slaveof with orphan
    rw [freed.isSlave]
    exact links.linked a ((member a).mp live).2 m slaveof
  · intro a live
    rw [freed.isSlave, freed.isMaster]
    exact links.exclusive a ((member a).mp live).2
  · intro a live
    rw [freed.isSlave, freed.isMaster, freed.inHandshake]
    exact links.settled a ((member a).mp live).2
  · intro a live
    rw [freed.isSlave, freed.isMaster, freed.inHandshake]
    exact links.fresh a ((member a).mp live).2
  · rw [freed.myself, freed.inHandshake, links.joined]

-- A slave that is freed is listed only by its master.
theorem freeNode_freed (links : Links s) (n : Addr) (inside : n ∈ s.nodes) :
    Freed s (freeClusterNode s n) n := by
  obtain ⟨myself, nodes, next, slots⟩ := orphanSlaves_same s (s.node n).slaves
  have slaveof : ∀ b, ((orphanSlaves s (s.node n).slaves).node b).slaveof =
      if b ∈ (s.node n).slaves then none else (s.node b).slaveof := by
    intro b
    rw [orphanSlaves_node]
    split <;> rfl
  unfold freeClusterNode
  dsimp only
  split_ifs with slave
  · obtain ⟨myself', nodes', next', slots'⟩ := detach_same (orphanSlaves s (s.node n).slaves) n
    refine ⟨myself'.trans myself, congrArg (List.erase · n) (nodes'.trans nodes), next'.trans next, slots'.trans slots,
      fun b => (detach_fields _ n b).1.trans (slaveof b), ?_, ?_, fun b => by simp, fun b => by simp, fun b => by simp⟩
    · intro m known away b
      change b ∈ ((detachFromMaster (orphanSlaves s (s.node n).slaves) n).node m).slaves ↔ _
      rw [detach_node, slaveof]
      split_ifs with own master master
      · simp at master
      · rw [(orphanSlaves_fields s _ m).1]
        refine ⟨fun listed => ⟨?_, listed⟩, And.right⟩
        rintro rfl
        have itself := ((links.slaves b inside b).mp own).2
        have listedBy := ((links.slaves m known b).mp listed).2
        rw [itself] at listedBy
        exact away (Option.some.inj listedBy).symm
      · simpa using (links.slavesNodup m known).mem_erase_iff
      · rw [(orphanSlaves_fields s _ m).1]
        refine ⟨fun listed => ⟨?_, listed⟩, And.right⟩
        rintro rfl
        exact master ((links.slaves m known b).mp listed).2
    · intro m known
      exact detach_nodup _ n m (by simpa using links.slavesNodup m known)
  · refine ⟨myself, congrArg (List.erase · n) nodes, next, slots, slaveof, ?_, ?_, fun b => by simp, fun b => by simp, fun b => by simp⟩
    · intro m known away b
      simp only [orphanSlaves_fields]
      refine ⟨fun listed => ⟨?_, listed⟩, And.right⟩
      rintro rfl
      have master := ((links.slaves m known b).mp listed).2
      simp [links.linked b inside m master] at slave
    · intro m known
      simpa using links.slavesNodup m known

theorem delSlot_cases {slot : Slot} (deleted : clusterDelSlot s slot = .ok s') :
    (s.slots.lookup slot = none ∧ s' = s) ∨
    ∃ n, s.slots.lookup slot = some n ∧ slot ∈ (s.node n).slots ∧
      s' = { clusterNodeClearSlotBit s n slot with slots := s.slots.erase slot } := by
  unfold clusterDelSlot at deleted
  split at deleted
  · next unowned => exact .inl ⟨unowned, (Except.ok.inj deleted).symm⟩
  · next n owner =>
    split_ifs at deleted with bit
    exact .inr ⟨n, owner, bit, (Except.ok.inj deleted).symm⟩

theorem delSlot_same {slot : Slot} (deleted : clusterDelSlot s slot = .ok s') : SameLinks s s' := by
  obtain ⟨-, rfl⟩ | ⟨n, -, -, rfl⟩ := delSlot_cases deleted
  · exact .refl _
  · have cleared := clearSlotBit_same s n slot
    exact { cleared with }

theorem delSlot_slots {slot : Slot} (deleted : clusterDelSlot s slot = .ok s') (j : Slot) :
    s'.slots.lookup j = if j = slot then none else s.slots.lookup j := by
  obtain ⟨unowned, rfl⟩ | ⟨n, -, -, rfl⟩ := delSlot_cases deleted
  · split_ifs with here
    · rw [here, unowned]
    · rfl
  · split_ifs with here
    · rw [here]
      exact AList.lookup_erase slot s.slots
    · exact AList.lookup_erase_ne here

theorem delSlot_links (links : Links s) {slot : Slot}
    (deleted : clusterDelSlot s slot = .ok s') : Links s' := by
  refine links.of_same (delSlot_same deleted) ?_
  intro j a owner
  rw [delSlot_slots deleted] at owner
  split_ifs at owner
  exact links.owners j a owner

theorem addSlot_links (links : Links s) (known : n ∈ s.nodes) (slot : Slot) :
    Links (clusterAddSlot s n slot) := by
  refine links.of_same (addSlot_same s n slot) ?_
  intro j a owner
  obtain ⟨-, unchanged⟩ | ⟨free, -⟩ := addSlot_cases s n slot
  · rw [unchanged] at owner
    exact links.owners j a owner
  · rw [addSlot_slots s n free] at owner
    split_ifs at owner with here
    · exact Option.some.inj owner ▸ known
    · exact links.owners j a owner

theorem delSlots_same {slots : List Slot} (deleted : clusterDelSlots s slots = .ok s') : SameLinks s s' :=
  foldlM_preserves (SameLinks s) s (fun _ _ _ _ before step => before.trans (delSlot_same step)) (.refl s) deleted

theorem delSlots_links (links : Links s) {slots : List Slot} {s' : ClusterState}
    (deleted : clusterDelSlots s slots = .ok s') : Links s' :=
  foldlM_preserves Links s (fun _ _ _ _ before step => delSlot_links before step) links deleted

theorem delSlots_slots {slots : List Slot} (deleted : clusterDelSlots s slots = .ok s') (j : Slot) :
    s'.slots.lookup j = if j ∈ slots then none else s.slots.lookup j := by
  unfold clusterDelSlots at deleted
  induction slots generalizing s with
  | nil =>
    cases deleted
    simp
  | cons slot rest ih =>
    rw [foldlM_cons, bind_ok] at deleted
    obtain ⟨middle, first, others⟩ := deleted
    rw [ih others, delSlot_slots first]
    by_cases here : j = slot <;> by_cases later : j ∈ rest <;> simp [here, later]

theorem emptied_links {emptied : ClusterState} (links : Links s) (env : Env)
    (removed : clusterDelSlots (closeSlotsOf s n) (ownedSlots s n) = .ok emptied) :
    SameLinks s (forgetReports emptied env n) ∧ Links (forgetReports emptied env n) ∧
      ∀ j, (forgetReports emptied env n).slots.lookup j ≠ some n := by
  have view := forgetReports_view emptied env n
  have closed : Links (closeSlotsOf s n) := { links with }
  have same := (delSlots_same removed).trans (.of_view view)
  refine ⟨{ same with }, (delSlots_links closed removed).of_view view, ?_⟩
  intro j owner
  have slots : (forgetReports emptied env n).slots = emptied.slots := congrArg View.slots view
  rw [slots, delSlots_slots removed] at owner
  split_ifs at owner with own
  exact own ((mem_ownedSlots s n j).mpr owner)

structure Extends (s s' : ClusterState) : Prop where
  myself : s'.myself = s.myself
  currentEpoch : s'.currentEpoch = s.currentEpoch
  slots : s'.slots = s.slots
  importing : s'.importingSlotsFrom = s.importingSlotsFrom
  nodes : ∃ added, s'.nodes = s.nodes ++ added ∧ ∀ a ∈ added, (s'.node a).view = (createClusterNode (s'.node a).name false true).view
  old : ∀ a ∈ s.nodes, (s'.node a).view = (s.node a).view

theorem Extends.of_view (same : s'.view = s.view) : Extends s s' where
  myself := congrArg View.myself same
  currentEpoch := congrArg View.currentEpoch same
  slots := congrArg View.slots same
  importing := congrArg View.importing same
  nodes := ⟨[], (congrArg View.nodes same).trans (append_nil _).symm, nofun⟩
  old := fun a _ => congrArg (fun v : View => v.node a) same

theorem Extends.trans {s'' : ClusterState} (first : Extends s s') (second : Extends s' s'') : Extends s s'' where
  myself := second.myself.trans first.myself
  currentEpoch := second.currentEpoch.trans first.currentEpoch
  slots := second.slots.trans first.slots
  importing := second.importing.trans first.importing
  nodes := by
    obtain ⟨added, nodes, fresh⟩ := first.nodes
    obtain ⟨added', nodes', fresh'⟩ := second.nodes
    refine ⟨added ++ added', by rw [nodes', nodes, append_assoc], ?_⟩
    intro a inside
    rcases mem_append.mp inside with before | after
    · have kept := second.old a (by simp [nodes, before])
      have name : (s''.node a).name = (s'.node a).name := congrArg NodeView.name kept
      rw [name, kept]
      exact fresh a before
    · exact fresh' a after
  old := by
    intro a inside
    obtain ⟨added, nodes, -⟩ := first.nodes
    exact (second.old a (by simp [nodes, inside])).trans (first.old a inside)

section

variable (links : Links s)

include links

theorem startHandshake_extends (name : Name) : Extends s (startHandshake s name) := by
  unfold startHandshake clusterAddNode
  split_ifs
  · exact .of_view rfl
  · have apart : ∀ a ∈ s.nodes, a ≠ s.next := fun a inside => (links.allocated a inside).ne
    refine ⟨rfl, rfl, rfl, rfl, ⟨[s.next], rfl, ?_⟩, ?_⟩
    · intro a inside
      rw [mem_singleton.mp inside]
      simp [createClusterNode]
    · intro a inside
      simp [Function.update_of_ne (apart a inside)]

theorem startHandshake_links (name : Name) : Links (startHandshake s name) := by
  unfold startHandshake clusterAddNode
  split_ifs
  · exact links
  · have apart : ∀ a ∈ s.nodes, a ≠ s.next := fun a inside => (links.allocated a inside).ne
    have member : ∀ a, a ∈ s.nodes ++ [s.next] ↔ a ∈ s.nodes ∨ a = s.next := by simp
    have unlinked : ∀ a ∈ s.nodes, (s.node a).slaveof ≠ some s.next :=
      fun a inside slaveof => apart _ (links.masters a inside _ slaveof) rfl
    refine ⟨?_, ?_, ?_, ?_, ?_, ?_, ?_, ?_, ?_, ?_, ?_, ?_⟩
    · exact (member _).mpr (.inl links.self)
    · exact nodup_append.mpr ⟨links.nodup, nodup_singleton _, by simpa using apart⟩
    · intro a inside
      rcases (member a).mp inside with old | rfl
      · exact (links.allocated a old).trans (Nat.lt_succ_self _)
      · exact Nat.lt_succ_self _
    · intro slot a owner
      exact (member a).mpr (.inl (links.owners slot a owner))
    · intro m inside a
      rcases (member m).mp inside with old | rfl
      · by_cases new : a = s.next
        · subst new
          have unlisted : s.next ∉ (s.node m).slaves :=
            fun listed => apart _ ((links.slaves m old s.next).mp listed).1 rfl
          simp [apart m old, unlisted, createClusterNode]
        · simp [apart m old, new, links.slaves m old a]
      · by_cases new : a = s.next
        · simp [new, createClusterNode]
        · simp only [Function.update_self, createClusterNode, not_mem_nil, false_iff, not_and, member]
          rintro (known | new')
          · simpa [new] using unlinked a known
          · exact absurd new' new
    · intro a inside m
      rcases (member a).mp inside with old | rfl
      · simp only [Function.update_of_ne (apart a old)]
        exact fun slaveof => (member m).mpr (.inl (links.masters a old m slaveof))
      · simp [createClusterNode]
    · intro m inside
      rcases (member m).mp inside with old | rfl
      · simpa [apart m old] using links.slavesNodup m old
      · simp [createClusterNode]
    · intro a inside
      rcases (member a).mp inside with old | rfl
      · simpa [apart a old] using links.linked a old
      · simp [createClusterNode]
    · intro a inside
      rcases (member a).mp inside with old | rfl
      · simpa [apart a old] using links.exclusive a old
      · simp [createClusterNode]
    · intro a inside
      rcases (member a).mp inside with old | rfl
      · simpa [apart a old] using links.settled a old
      · simp [createClusterNode]
    · intro a inside
      rcases (member a).mp inside with old | rfl
      · simpa [apart a old] using links.fresh a old
      · simp [createClusterNode]
    · simpa [apart _ links.self] using links.joined

omit links in
theorem handleFailureReport_view (env : Env) (sender : Option Addr) (g : GossipEntry) (n : Addr) :
    (handleFailureReport env s sender g n).view = s.view := by
  unfold handleFailureReport
  split
  · split_ifs
    · exact (markNodeAsFailing_view env _ n).trans (addFailureReport_view env s n _)
    · exact delFailureReport_view env s n _
    · rfl
  · rfl

omit links in
theorem updatePongTime_view (env : Env) (g : GossipEntry) (n : Addr) : (updatePongTime env s g n).view = s.view := by
  unfold updatePongTime
  split
  · rfl
  · exact cleanup_view env s n

theorem processGossipEntry_extends (env : Env) (sender : Option Addr) (g : GossipEntry) :
    Links (processGossipEntry env sender s g) ∧ Extends s (processGossipEntry env sender s g) := by
  unfold processGossipEntry
  split
  · next n _ =>
    have view := (updatePongTime_view env g n).trans (handleFailureReport_view (s := s) env sender g n)
    exact ⟨links.of_view view, .of_view view⟩
  · split
    · exact ⟨startHandshake_links links _, startHandshake_extends links _⟩
    · exact ⟨links, .of_view rfl⟩

theorem gossipEntries_extends (env : Env) (sender : Option Addr)
    (gossip : List GossipEntry) : Links (gossip.foldl (processGossipEntry env sender) s) ∧
      Extends s (gossip.foldl (processGossipEntry env sender) s) := by
  induction gossip generalizing s with
  | nil => exact ⟨links, .of_view rfl⟩
  | cons g rest ih =>
    obtain ⟨first_links, first⟩ := processGossipEntry_extends links env sender g
    obtain ⟨rest_links, others⟩ := ih first_links
    exact ⟨rest_links, first.trans others⟩

theorem gossip_extends (env : Env) (link : Option Addr) (name : Name)
    (gossip : List GossipEntry) : Links (clusterProcessGossipSection env s link name gossip) ∧
      Extends s (clusterProcessGossipSection env s link name gossip) :=
  gossipEntries_extends links env _ gossip

end

end RedisCore.Cluster
