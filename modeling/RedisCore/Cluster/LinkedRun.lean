import RedisCore.Cluster.Links

set_option autoImplicit false

namespace RedisCore.Cluster

open Lib

variable {result : ClusterState × Reply} {s' : ClusterState} {sender : Addr} {env : Env}

section

variable {s : ClusterState}

theorem setConfigEpoch_same (a : Addr) (epoch : Nat) : SameLinks s (setConfigEpoch s a epoch) :=
  SameLinks.of_modify s a _ rfl rfl rfl rfl rfl

theorem raiseCurrentEpoch_same (epoch : Nat) : SameLinks s (raiseCurrentEpoch s epoch) :=
  ⟨rfl, rfl, rfl, fun _ => rfl, fun _ => rfl, fun _ => rfl, fun _ => rfl, fun _ => rfl⟩

theorem answerPing_extends (links : Links s) (env : Env) (sender link : Option Addr) (hdr : Header) (type : PingType)
    (gossip : List GossipEntry) :
    Links (answerPing env s sender link hdr type gossip) ∧ Extends s (answerPing env s sender link hdr type gossip) := by
  unfold answerPing
  split
  · exact ⟨links, .of_view rfl⟩
  · exact ⟨links.of_view (sendPing_view env s _), .of_view (sendPing_view env s _)⟩
  · split_ifs
    · have started := startHandshake_links links env.randomName
      obtain ⟨after, extended⟩ := gossip_extends started env link hdr.sender gossip
      refine ⟨after.of_view (sendPing_view env _ _), ?_⟩
      exact ((startHandshake_extends links _).trans extended).trans (.of_view (sendPing_view env _ _))
    · exact ⟨links.of_view (sendPing_view env s _), .of_view (sendPing_view env s _)⟩

theorem Extends.inHandshake {s : ClusterState} (extended : Extends s s') (a : Addr) (inside : a ∈ s.nodes) :
    (s'.node a).inHandshake = (s.node a).inHandshake := congrArg NodeView.inHandshake (extended.old a inside)

theorem Extends.mem {s : ClusterState} (extended : Extends s s') {a : Addr} (inside : a ∈ s.nodes) : a ∈ s'.nodes := by
  obtain ⟨added, nodes, -⟩ := extended.nodes
  simp [nodes, inside]

theorem completeHandshake_node (n b : Addr) (hdr : Header) : (completeHandshake s n hdr).node b =
    if b = n then
      { s.node n with
        name := hdr.sender
        inHandshake := false
        isMaster := (s.node n).isMaster || hdr.isMaster
        isSlave := (s.node n).isSlave || hdr.isSlave }
    else s.node b := by
  by_cases here : b = n <;> simp [completeHandshake, clusterRenameNode, here]

theorem completeHandshake_fields (n b : Addr) (hdr : Header) :
    ((completeHandshake s n hdr).node b).slaves = (s.node b).slaves ∧
    ((completeHandshake s n hdr).node b).slaveof = (s.node b).slaveof ∧
    ((completeHandshake s n hdr).node b).slots = (s.node b).slots ∧
    ((completeHandshake s n hdr).node b).numslots = (s.node b).numslots := by
  rw [completeHandshake_node]
  split_ifs with here
  · rw [here]
    exact ⟨rfl, rfl, rfl, rfl⟩
  · exact ⟨rfl, rfl, rfl, rfl⟩

theorem completeHandshake_links (links : Links s) {n : Addr} (inside : n ∈ s.nodes) {hdr : Header}
    (handshake : (s.node n).inHandshake = true) (role : hdr.isMaster = !hdr.isSlave) : Links (completeHandshake s n hdr) := by
  obtain ⟨notMaster, notSlave⟩ := links.fresh n inside handshake
  have noMaster : ∀ m, (s.node n).slaveof ≠ some m := by
    intro m slaveof
    simp [links.linked n inside m slaveof] at notSlave
  have node := completeHandshake_node (s := s) n
  have slaves := fun b => (completeHandshake_fields (s := s) n b hdr).1
  have slaveof := fun b => (completeHandshake_fields (s := s) n b hdr).2.1
  have nodes : (completeHandshake s n hdr).nodes = s.nodes := rfl
  refine ⟨links.self, links.nodup, links.allocated, links.owners, ?_, ?_, ?_, ?_, ?_, ?_, ?_, ?_⟩
  · simpa only [slaves, slaveof, nodes] using links.slaves
  · simpa only [slaveof, nodes] using links.masters
  · simpa only [slaves, nodes] using links.slavesNodup
  · intro a live m master
    rw [slaveof] at master
    have other : a ≠ n := by
      rintro rfl
      exact noMaster m master
    rw [node, if_neg other]
    exact links.linked a live m master
  · intro a live
    rw [node]
    split_ifs with here
    · simp only [notMaster, notSlave, Bool.false_or]
      rw [role]
      intro slave
      simp [slave]
    · exact links.exclusive a live
  · intro a live
    rw [node]
    split_ifs with here
    · simp only [notMaster, notSlave, Bool.false_or, role]
      cases hdr.isSlave <;> simp
    · exact links.settled a live
  · intro a live
    rw [node]
    split_ifs with here
    · simp
    · exact links.fresh a live
  · change ((completeHandshake s n hdr).node s.myself).inHandshake = false
    rw [node]
    split_ifs
    · rfl
    · exact links.joined

theorem turnIntoSlave_cases (turned : turnIntoSlave s sender = .ok s') :
    ((s.node sender).isMaster = false ∧ s' = s) ∨
    ∃ middle, (s.node sender).isMaster = true ∧ clusterDelNodeSlots s sender = .ok middle ∧
      s' = middle.modify sender fun n => { n with isMaster := false, isSlave := true } := by
  unfold turnIntoSlave at turned
  split_ifs at turned with master
  · obtain ⟨middle, deleted, finish⟩ := bind_ok.mp turned
    exact .inr ⟨middle, master, deleted, (Except.ok.inj finish).symm⟩
  · exact .inl ⟨by simpa using master, (Except.ok.inj turned).symm⟩

-- A master that becomes a slave has no master yet.
theorem demote_links (links : Links s) {a : Addr} (inside : a ∈ s.nodes) (master : (s.node a).isMaster = true)
    (known_role : (s.node a).inHandshake = false) :
    Links (s.modify a fun n => { n with isMaster := false, isSlave := true }) := by
  have noMaster : (s.node a).slaveof = none := by
    cases slaveof : (s.node a).slaveof with
    | none => rfl
    | some m =>
      have slave := links.linked a inside m slaveof
      simp [links.exclusive a inside slave] at master
  have relinked : Relinked s (s.modify a fun n => { n with isMaster := false, isSlave := true }) a none := by
    refine ⟨rfl, rfl, rfl, rfl, ?_, ?_, ?_, ?_, ?_, ?_⟩
    · intro b
      by_cases here : b = a <;> simp [here, noMaster]
    · intro m known b
      have listed : ((s.modify a fun n => { n with isMaster := false, isSlave := true }).node m).slaves =
          (s.node m).slaves := by
        by_cases here : m = a <;> simp [here]
      rw [listed]
      split_ifs with here
      · rw [links.slaves m known b, here, noMaster]
        simp
      · rfl
    · intro m known
      by_cases here : m = a
      · simpa [here] using links.slavesNodup a inside
      · simpa [here] using links.slavesNodup m known
    · intro b other
      simp [other]
    · intro b other
      simp [other]
    · intro b
      by_cases here : b = a <;> simp [here]
  exact links.relink inside relinked nofun (by simp) nofun known_role

theorem turnIntoSlave_links (links : Links s) (inside : sender ∈ s.nodes)
    (known_role : (s.node sender).inHandshake = false) (turned : turnIntoSlave s sender = .ok s') :
    Links s' ∧ s'.nodes = s.nodes ∧ (s'.node sender).isSlave = true ∧ (s'.node sender).inHandshake = false := by
  obtain ⟨notMaster, rfl⟩ | ⟨middle, master, deleted, rfl⟩ := turnIntoSlave_cases turned
  · have role := links.settled sender inside known_role
    simp only [notMaster, Bool.false_eq_true, false_or] at role
    exact ⟨links, rfl, role, known_role⟩
  · have same := delSlots_same deleted
    have known_role' : (middle.node sender).inHandshake = false := by rw [same.inHandshake, known_role]
    refine ⟨demote_links (delSlots_links links deleted) ?_ ?_ known_role', same.nodes, ?_, ?_⟩
    · rwa [same.nodes]
    · rwa [same.isMaster]
    · simp
    · simpa using known_role'

theorem setNodeAsMaster_same (a : Addr) : (clusterSetNodeAsMaster s a).nodes = s.nodes ∧
    (clusterSetNodeAsMaster s a).myself = s.myself := by
  unfold clusterSetNodeAsMaster
  split
  · exact ⟨rfl, rfl⟩
  · exact ⟨(detach_same s a).2.1, (detach_same s a).1⟩

theorem replaceMaster_nodes (a m : Addr) : (replaceMaster s a m).nodes = s.nodes := by
  unfold replaceMaster
  split
  · rfl
  · exact (addSlave_same _ m a).2.1.trans (detach_same s a).2.1

theorem sendUpdateIfStale_view (env : Env) (s : ClusterState) (sender : Addr) (epoch : Nat) (hdr : Header) :
    (sendUpdateIfStale env s sender epoch hdr).view = s.view := by
  unfold sendUpdateIfStale
  split
  · exact sendUpdate_view env s _
  · rfl

theorem processKnownPing_ok (env : Env) (sender : Addr) (epoch : Nat) (link : Option Addr) (hdr : Header)
    (gossip : List GossipEntry) (s' : ClusterState) :
    processKnownPing env s sender epoch link hdr gossip = .ok s' ↔
    ∃ roled slotted, updateRole s sender hdr = .ok roled ∧ updateSlots env roled sender epoch hdr = .ok slotted ∧
      s' = clusterProcessGossipSection env (checkCollision slotted sender epoch) link hdr.sender gossip := by
  unfold processKnownPing
  simp only [bind_ok, pure_ok, Except.ok.injEq, exists_and_left, @eq_comm _ s']

theorem linkOpen_some {n : Addr} (isOpen : linkOpen s (some n) = true) : n ∈ s.nodes ∧ n ≠ s.myself := by
  simpa [linkOpen] using isOpen

-- The node that sent the packet is not still in a handshake under the name it gives, and a packet
-- that ends a handshake says whether its sender is a master or a slave.
def settledSender (s : ClusterState) (packet : Packet) : Bool :=
  match clusterLookupNode s packet.hdr.sender with
  | some a => !(s.node a).inHandshake
  | none => true

def oneRole (s : ClusterState) (link : Option Addr) (packet : Packet) : Bool :=
  match link with
  | some n => !(s.node n).inHandshake || packet.hdr.isMaster == !packet.hdr.isSlave
  | none => true

theorem processHeader_same (sender : Option Addr) (hdr : Header) : SameLinks s (processHeader s sender hdr) := by
  unfold processHeader
  split
  · next a =>
    split
    · exact .refl s
    · have raised : SameLinks s (raiseConfigEpoch (raiseCurrentEpoch s hdr.currentEpoch) a hdr.configEpoch) := by
        unfold raiseConfigEpoch
        split
        · exact (raiseCurrentEpoch_same _).trans (setConfigEpoch_same a hdr.configEpoch)
        · exact raiseCurrentEpoch_same _
      exact raised.trans (.of_view (recordOffset_view _ _ _))
  · exact .refl s

def beforeReset (s : ClusterState) : ClusterState :=
  resetManualFailover (clusterCloseAllSlots
    (if (s.node s.myself).isSlave then emptyDb (clusterSetNodeAsMaster s s.myself) else s))

theorem reset_ok (env : Env) (hard : Bool) (s' : ClusterState) : clusterReset env s hard = .ok s' ↔
    ∃ emptied alone, clusterDelSlots (beforeReset s) (beforeReset s).slots.keys = .ok emptied ∧
      clusterForgetAll env emptied = .ok alone ∧ s' = if hard then hardReset env alone else alone := by
  unfold clusterReset
  simp only [bind_ok, pure_ok, Except.ok.injEq, exists_and_left, @eq_comm _ s']
  rfl

end

section

variable {s : ClusterState}

theorem accepted {x : Except Fault ClusterState} (f : ClusterState → ClusterState)
    (ok : (do let s ← x; accept (f s)) = .ok result) : ∃ s', x = .ok s' ∧ result.1 = f s' := by
  obtain ⟨s', computed, finish⟩ := bind_ok.mp ok
  exact ⟨s', computed, (congrArg Prod.fst (Except.ok.inj finish)).symm⟩

theorem manualFailover_view (env : Env) (s : ClusterState) :
    (if ((manualFailoverCheckTimeout env s).node (manualFailoverCheckTimeout env s).myself).isSlave then
      clusterHandleManualFailover env (manualFailoverCheckTimeout env s) else manualFailoverCheckTimeout env s).view =
    s.view := by
  split
  · rw [handleManualFailover_view, manualFailoverCheckTimeout_view]
  · exact manualFailoverCheckTimeout_view env s

end

theorem start_links (name : Name) : Links (ClusterState.start name) := by
  refine ⟨by simp [ClusterState.start], by simp [ClusterState.start], ?_, ?_, ?_, ?_, ?_, ?_, ?_, ?_, ?_, ?_⟩
  all_goals simp [ClusterState.start, createClusterNode]

end RedisCore.Cluster
