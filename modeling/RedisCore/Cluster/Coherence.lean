import RedisCore.Cluster.Owners

set_option autoImplicit false

namespace RedisCore.Cluster

open Lib

variable {s' : ClusterState} {n : Addr}

section

variable {s : ClusterState}

theorem setNodeAsMaster_owners (a : Addr) : SameOwners s (clusterSetNodeAsMaster s a) := by
  obtain ⟨-, nodes, -, table⟩ := detach_same s a
  unfold clusterSetNodeAsMaster
  split_ifs with master
  · exact .of_view rfl
  · refine ⟨nodes, table, ?_, ?_, ?_⟩
    · intro b
      by_cases here : b = a <;> simp [here]
    · intro b
      by_cases here : b = a <;> simp [here]
    · intro b _ before
      by_cases here : b = a <;> simp [here, before]

theorem replaceMaster_owners (a m : Addr) : SameOwners s (replaceMaster s a m) := by
  obtain ⟨-, nodes, -, table⟩ := addSlave_same (detachFromMaster s a) m a
  obtain ⟨-, nodes', -, table'⟩ := detach_same s a
  unfold replaceMaster setSlaveof
  split_ifs
  · exact .of_view rfl
  · refine ⟨nodes.trans nodes', table.trans table', ?_, ?_, ?_⟩
    · intro b
      by_cases here : b = a <;> simp [here]
    · intro b
      by_cases here : b = a <;> simp [here]
    · intro b _ before
      by_cases here : b = a
      · subst here
        simp [before]
      · simp [here, before]

theorem setMaster_owners (owners : Owners s) (self : s.myself ∈ s.nodes)
    (set : clusterSetMaster s n = .ok s') : Owners s' := by
  obtain ⟨-, idle, rfl⟩ := (setMaster_ok s n s').mp set
  obtain ⟨-, nodes, -, table⟩ := followMaster_same s n
  refine owners.of_same ⟨nodes, table, fun b => (followMaster_fields s n b).2.2.1, fun b => (followMaster_fields s n b).2.2.2.1, ?_⟩
  intro b _ before
  by_cases here : b = s.myself
  · right
    rw [here, ← owners.count s.myself self, idle]
  · left
    simp only [followMaster, resetManualFailover, setSlaveof, leaveMaster_node, here, addSlave_fields, modify_node, if_false]
    split_ifs <;> simp [before]

theorem setMaster_total (coherent : Coherent s) {n : Addr} (known : n ∈ s.nodes) (other : n ≠ s.myself)
    (settled : (s.node n).inHandshake = false) (idle : (s.node s.myself).numslots = 0) :
    Returns (clusterSetMaster s n) fun s' => Coherent s' ∧ Relinked s s' s.myself (some n) := by
  have set := (setMaster_ok s n _).mpr ⟨other, idle, rfl⟩
  obtain ⟨links, relinked⟩ := setMaster_links coherent.links known set
  refine ⟨_, set, ⟨links, setMaster_owners coherent.owners coherent.links.self set, ?_, ?_⟩, relinked⟩
  · intro _
    rw [relinked.myself, relinked.slaveof, if_pos rfl]
    simp
  · intro m master
    rw [relinked.myself, relinked.slaveof, if_pos rfl] at master
    rw [relinked.inHandshake, ← Option.some.inj master, settled]

theorem freeNode_owned (n b : Addr) : ((freeClusterNode s n).node b).slots = (s.node b).slots ∧
    ((freeClusterNode s n).node b).numslots = (s.node b).numslots := by
  unfold freeClusterNode
  dsimp only
  split_ifs <;> simp

theorem freeNode_owners (owners : Owners s) (freed : Freed s (freeClusterNode s n) n) : Owners (freeClusterNode s n) := by
  have member : ∀ b, b ∈ (freeClusterNode s n).nodes → b ∈ s.nodes := fun b live => by
    rw [freed.nodes] at live
    exact List.mem_of_mem_erase live
  refine ⟨?_, ?_, ?_⟩
  · intro a live slot
    rw [(freeNode_owned n a).1, freed.slots]
    exact owners.bit a (member a live) slot
  · intro a live
    rw [(freeNode_owned n a).1, (freeNode_owned n a).2]
    exact owners.count a (member a live)
  · intro a live slot bit
    rw [(freeNode_owned n a).1] at bit
    rw [freed.isMaster]
    exact owners.served a (member a live) slot bit

theorem delNode_total (coherent : Coherent s) (env : Env) (inside : n ∈ s.nodes) (other : n ≠ s.myself)
    (notMaster : (s.node s.myself).slaveof ≠ some n) :
    Returns (clusterDelNode s env n) fun s' => Coherent s' ∧ SameSelf s s' ∧ s'.nodes = s.nodes.erase n := by
  have links := coherent.links
  have closed : Links (closeSlotsOf s n) := { links with }
  have closed_owners : Owners (closeSlotsOf s n) := ⟨coherent.owners.1, coherent.owners.2, coherent.owners.3⟩
  obtain ⟨emptied, removed, owners⟩ := delSlots_total closed closed_owners (ownedSlots s n)
  obtain ⟨same, middle, unowned⟩ := emptied_links links env removed
  have inside' : n ∈ (forgetReports emptied env n).nodes := by rwa [same.nodes]
  have freed := freeNode_freed middle n inside'
  have self : SameSelf s (freeClusterNode (forgetReports emptied env n) n) := by
    refine ⟨freed.myself.trans same.myself, by rw [freed.isSlave, same.isSlave], ?_, ?_⟩
    · have unlisted : s.myself ∉ (s.node n).slaves := by
        rw [links.slaves n inside]
        exact fun listed => notMaster listed.2
      rw [freed.slaveof, same.slaveof, same.slaves, if_neg unlisted]
    · intro m _ settled
      rw [freed.inHandshake, same.inHandshake, settled]
  refine ⟨_, (delNode_ok s env n _).mpr ⟨emptied, removed, rfl⟩, ⟨?_, ?_, coherent.self.of_same links self⟩, self, ?_⟩
  · exact middle.free freed inside' (by rwa [same.myself]) unowned
  · exact freeNode_owners (owners.of_view (forgetReports_view emptied env n)) freed
  · rw [freed.nodes, same.nodes]

theorem outdated_congr (sender : Addr) (epoch : Nat) {slot : Slot} (same : SlotsOnly s s')
    (owner : s'.slots.lookup slot = s.slots.lookup slot) : outdated s' sender epoch slot = outdated s sender epoch slot := by
  unfold outdated
  simp only [owner, same.importing, same.configEpoch]

theorem rebindSlot_total (links : Links s) (owners : Owners s) {sender : Addr} (known : sender ∈ s.nodes)
    (isMaster : (s.node sender).isMaster = true) (epoch : Nat) (master : Option Addr) (newmaster : Bool) (dirty : List Slot)
    (slot : Slot) : ∃ r', rebindSlot sender epoch master ⟨s, newmaster, dirty⟩ slot = .ok r' ∧ Links r'.s ∧ Owners r'.s ∧
      SlotsOnly s r'.s ∧ ∀ j, r'.s.slots.lookup j =
        if j = slot ∧ outdated s sender epoch slot = true then some sender else s.slots.lookup j := by
  unfold rebindSlot
  split_ifs with old
  · obtain ⟨middle, deleted⟩ := delSlot_total links owners slot
    have only := delSlot_only deleted
    have table := delSlot_slots deleted
    have middle_owners := delSlot_owners links owners deleted
    have middle_links := delSlot_links links deleted
    have known' : sender ∈ middle.nodes := by rwa [only.links.nodes]
    refine ⟨_, bind_ok.mpr ⟨middle, deleted, rfl⟩, addSlot_links middle_links known' slot,
      addSlot_owners middle_owners known' (by rwa [only.links.isMaster]) slot, only.trans (addSlot_only sender slot), ?_⟩
    intro j
    rw [addSlot_slots middle sender (by simp [table]), table j]
    by_cases here : j = slot
    · simp [here, show outdated s sender epoch slot = true from old]
    · simp [here]
  · refine ⟨_, rfl, links, owners, .refl s, ?_⟩
    intro j
    rw [if_neg (fun both => old both.2)]

theorem rebindSlots_total (links : Links s) (owners : Owners s) {sender : Addr} (known : sender ∈ s.nodes)
    (isMaster : (s.node sender).isMaster = true) (epoch : Nat) (master : Option Addr) (slots : Bitmap) :
    ∃ r, slots.items.foldlM (rebindSlot sender epoch master) ⟨s, false, []⟩ = .ok r ∧ Links r.s ∧ Owners r.s ∧
      SlotsOnly s r.s ∧ ∀ j, r.s.slots.lookup j =
        if j ∈ slots ∧ outdated s sender epoch j = true then some sender else s.slots.lookup j := by
  -- After some rounds the slots visited are as they will be, and the others as they were.
  obtain ⟨r, loop, links', owners', only, table⟩ := foldlM_total
    (fun done r => Links r.s ∧ Owners r.s ∧ SlotsOnly s r.s ∧ ∀ j, r.s.slots.lookup j =
      if j ∈ done ∧ outdated s sender epoch j = true then some sender else s.slots.lookup j)
    (rebindSlot sender epoch master) slots.nodup
    (by
      rintro done ⟨b, newmaster, dirty⟩ slot - fresh ⟨b_links, b_owners, only, table⟩
      have unvisited : b.slots.lookup slot = s.slots.lookup slot := by
        rw [table slot, if_neg (fun both => fresh both.1)]
      obtain ⟨r', rebound, links', owners', only', table'⟩ := rebindSlot_total b_links b_owners
        (by rwa [only.links.nodes]) (by rwa [only.links.isMaster]) epoch master newmaster dirty slot
      refine ⟨r', rebound, links', owners', only.trans only', ?_⟩
      intro j
      rw [table' j, table j, outdated_congr sender epoch only unvisited]
      by_cases here : j = slot
      · simp [here, fresh]
      · simp [here])
    [] (by simp) ⟨s, false, []⟩ ⟨links, owners, .refl s, by simp⟩
  refine ⟨r, loop, links', owners', only, ?_⟩
  intro j
  have members : (j ∈ slots.items.reverse ++ []) ↔ j ∈ slots := by simp [SortedSet.mem_items]
  rw [table j]
  simp only [members]

theorem curmaster_known (coherent : Coherent s) : ∃ master, curmaster s = some master := by
  unfold curmaster
  split_ifs with role
  · exact ⟨s.myself, rfl⟩
  · have settled := coherent.links.settled s.myself coherent.links.self coherent.links.joined
    have slave : (s.node s.myself).isSlave = true := by simpa [role] using settled
    exact Option.ne_none_iff_exists'.mp (coherent.self.slaveof slave)

-- A slave serves nothing, so the assertions of clusterSetMaster hold when its master has lost all slots.
theorem slave_idle (coherent : Coherent s) (slave : (s.node s.myself).isMaster = false) : (s.node s.myself).numslots = 0 := by
  rw [coherent.owners.count s.myself coherent.links.self, SortedSet.size_eq_zero]
  intro slot bit
  have master := coherent.owners.served s.myself coherent.links.self slot bit
  simp [slave] at master

structure Reconfigured (s s' : ClusterState) (bound : Slot → Option Addr) : Prop where
  table : ∀ j, s'.slots.lookup j = bound j
  myself : s'.myself = s.myself
  nodes : s'.nodes = s.nodes
  name : ∀ a, (s'.node a).name = (s.node a).name
  configEpoch : ∀ a, (s'.node a).configEpoch = (s.node a).configEpoch
  inHandshake : ∀ a, (s'.node a).inHandshake = (s.node a).inHandshake
  isMaster : ∀ a, a ≠ s.myself → (s'.node a).isMaster = (s.node a).isMaster
  importing : ∀ j, s'.importingSlotsFrom.lookup j = s.importingSlotsFrom.lookup j ∨ s'.importingSlotsFrom.lookup j = none

theorem Reconfigured.of_only (only : SlotsOnly s s') : Reconfigured s s' fun j => s'.slots.lookup j :=
  ⟨fun _ => rfl, only.links.myself, only.links.nodes, only.name, only.configEpoch, only.links.inHandshake,
    fun a _ => only.links.isMaster a, fun j => .inl (by rw [only.importing])⟩

theorem setMaster_kept (set : clusterSetMaster s n = .ok s') :
    (∀ a, (s'.node a).name = (s.node a).name ∧ (s'.node a).configEpoch = (s.node a).configEpoch) ∧
    ∀ j, s'.importingSlotsFrom.lookup j = s.importingSlotsFrom.lookup j ∨ s'.importingSlotsFrom.lookup j = none := by
  obtain ⟨-, -, rfl⟩ := (setMaster_ok s n s').mp set
  refine ⟨fun a => (followMaster_fields s n a).2.2.2.2, fun j => ?_⟩
  have added : (followMaster s n).importingSlotsFrom = (leaveMaster s).importingSlotsFrom := by
    unfold followMaster clusterNodeAddSlave
    split <;> rfl
  rw [added]
  unfold leaveMaster detachFromMaster
  split_ifs
  · exact .inr rfl
  · split <;> exact .inl rfl

-- The slots that change hands, and to whom.
def rebound (s : ClusterState) (sender : Addr) (epoch : Nat) (slots : Bitmap) (j : Slot) : Option Addr :=
  if sender ≠ s.myself ∧ j ∈ slots ∧ outdated s sender epoch j = true then some sender else s.slots.lookup j

theorem updateSlotsConfigWith_total (coherent : Coherent s) {sender : Addr} (known : sender ∈ s.nodes)
    (isMaster : (s.node sender).isMaster = true) (settled : (s.node sender).inHandshake = false) (epoch : Nat)
    (slots : Bitmap) : Returns (clusterUpdateSlotsConfigWith s sender epoch slots) fun s' =>
      Coherent s' ∧ Reconfigured s s' (rebound s sender epoch slots) := by
  unfold clusterUpdateSlotsConfigWith
  split_ifs with self
  · refine ⟨s, rfl, coherent, ?_⟩
    have unchanged := Reconfigured.of_only (.refl s)
    refine { unchanged with table := ?_ }
    intro j
    rw [rebound, if_neg (fun both => both.1 self)]
  · obtain ⟨master, current⟩ := curmaster_known coherent
    obtain ⟨r, loop, links, owners, only, table⟩ := rebindSlots_total coherent.links coherent.owners known isMaster
      epoch (curmaster s) slots
    have kept : Coherent r.s := ⟨links, owners, coherent.self.of_same coherent.links (.of_links only.links)⟩
    have changed : Reconfigured s r.s (rebound s sender epoch slots) := by
      refine { Reconfigured.of_only only with table := ?_ }
      intro j
      rw [table j, rebound]
      simp [self]
    have finished : Returns (Except.ok (r.dirtySlots.foldl delKeysInSlot r.s) : Except Fault ClusterState) fun s' =>
        Coherent s' ∧ Reconfigured s s' (rebound s sender epoch slots) := by
      have view := delKeys_view r.s r.dirtySlots
      have same : SameLinks r.s (r.dirtySlots.foldl delKeysInSlot r.s) := .of_view view
      refine ⟨_, rfl, kept.of_view view, ?_, same.myself.trans changed.myself, same.nodes.trans changed.nodes, ?_, ?_, ?_, ?_, ?_⟩
      · intro j
        have slotTable : (r.dirtySlots.foldl delKeysInSlot r.s).slots = r.s.slots := congrArg View.slots view
        rw [slotTable, changed.table j]
      · exact fun a => (congrArg (fun v : View => (v.node a).name) view).trans (changed.name a)
      · exact fun a => (congrArg (fun v : View => (v.node a).configEpoch) view).trans (changed.configEpoch a)
      · exact fun a => (same.inHandshake a).trans (changed.inHandshake a)
      · exact fun a other => (same.isMaster a).trans (changed.isMaster a other)
      · intro j
        have importing : (r.dirtySlots.foldl delKeysInSlot r.s).importingSlotsFrom = r.s.importingSlotsFrom :=
          congrArg View.importing view
        rw [importing]
        exact changed.importing j
    simp only [current] at loop ⊢
    by_cases new : r.newmaster = true
    · by_cases lost : (r.s.node master).numslots = 0
      · have idle : (r.s.node r.s.myself).numslots = 0 := by
          by_cases role : (s.node s.myself).isMaster = true
          · have own : master = s.myself := by
              simp only [curmaster, role, if_true, Option.some.injEq] at current
              exact current.symm
            rwa [changed.myself, ← own]
          · exact slave_idle kept (by rw [changed.myself, only.links.isMaster]; simpa using role)
        obtain ⟨s', set, after, relinked⟩ := setMaster_total kept (by rwa [only.links.nodes])
          (by rwa [changed.myself]) (by rw [only.links.inHandshake, settled]) idle
        obtain ⟨fields, importing⟩ := setMaster_kept set
        refine ⟨s', ?_, after, ?_, relinked.myself.trans changed.myself, relinked.nodes.trans changed.nodes, ?_, ?_, ?_, ?_, ?_⟩
        · rw [bind_ok]
          exact ⟨r, loop, by simp only [new, lost, if_true, set]⟩
        · intro j
          rw [relinked.slots, changed.table j]
        · exact fun a => (fields a).1.trans (changed.name a)
        · exact fun a => (fields a).2.trans (changed.configEpoch a)
        · exact fun a => (relinked.inHandshake a).trans (changed.inHandshake a)
        · intro a other
          exact (relinked.isMaster a (by rwa [changed.myself])).trans (changed.isMaster a other)
        · intro j
          rcases importing j with same | none
          · rw [same]
            exact changed.importing j
          · exact .inr none
      · obtain ⟨s', finish, rest⟩ := finished
        refine ⟨s', ?_, rest⟩
        rw [bind_ok]
        exact ⟨r, loop, by simp only [new, if_true, lost, if_false]; exact finish⟩
    · obtain ⟨s', finish, rest⟩ := finished
      refine ⟨s', ?_, rest⟩
      rw [bind_ok]
      exact ⟨r, loop, by rw [if_neg new]; exact finish⟩

end

end RedisCore.Cluster
