import RedisCore.Cluster.Coherence

set_option autoImplicit false

namespace RedisCore.Cluster

open Lib List

variable {s' : ClusterState} {sender : Addr}

section

variable {s : ClusterState}

theorem setNodeAsMaster_master (a : Addr) : ((clusterSetNodeAsMaster s a).node a).isMaster = true := by
  unfold clusterSetNodeAsMaster
  split
  · next master => exact master
  · simp

theorem setNodeAsMaster_inHandshake (a b : Addr) :
    ((clusterSetNodeAsMaster s a).node b).inHandshake = (s.node b).inHandshake := by
  unfold clusterSetNodeAsMaster
  split
  · rfl
  · by_cases here : b = a <;> simp [here]

theorem Relinked.same_self {a : Addr} {new : Option Addr} (relinked : Relinked s s' a new)
    (other : a ≠ s.myself) : SameSelf s s' where
  myself := relinked.myself
  isSlave := relinked.isSlave s.myself (Ne.symm other)
  slaveof := by rw [relinked.slaveof, if_neg (Ne.symm other)]
  settled := fun m _ settled => (relinked.inHandshake m).trans settled

section

variable (coherent : Coherent s)

include coherent

theorem setNodeAsMaster_coherent {a : Addr} (inside : a ∈ s.nodes)
    (settled : (s.node a).inHandshake = false) : Coherent (clusterSetNodeAsMaster s a) := by
  refine ⟨setNodeAsMaster_links coherent.links inside settled, coherent.owners.of_same (setNodeAsMaster_owners a), ?_⟩
  by_cases master : (s.node a).isMaster = true
  · unfold clusterSetNodeAsMaster
    rw [if_pos master]
    exact coherent.self
  · have relinked := setNodeAsMaster_relinked coherent.links inside (by simpa using master)
    by_cases here : a = s.myself
    · have flags : ((clusterSetNodeAsMaster s a).node a).isSlave = false := by
        simp [clusterSetNodeAsMaster, master]
      refine ⟨?_, ?_⟩
      · rw [relinked.myself, ← here, flags]
        simp
      · intro m slaveof
        rw [relinked.myself, relinked.slaveof, if_pos here.symm] at slaveof
        cases slaveof
    · exact coherent.self.of_same coherent.links (relinked.same_self here)

theorem delNodeSlots_total {n : Addr} (inside : n ∈ s.nodes) :
    Returns (clusterDelNodeSlots s n) fun s' => Coherent s' ∧ SlotsOnly s s' ∧ (s'.node n).slots.size = 0 := by
  obtain ⟨s', deleted, owners⟩ := delSlots_total coherent.links coherent.owners (s.node n).slots.items
  have only := delSlots_only deleted
  exact ⟨s', deleted, ⟨delSlots_links coherent.links deleted, owners,
    coherent.self.of_same coherent.links (.of_links only.links)⟩, only,
    delNodeSlots_empty coherent.owners inside owners deleted⟩

theorem turnIntoSlave_total (inside : sender ∈ s.nodes) (other : sender ≠ s.myself)
    (settled : (s.node sender).inHandshake = false) :
    ∃ s', turnIntoSlave s sender = .ok s' ∧ Coherent s' ∧ s'.nodes = s.nodes ∧ s'.myself = s.myself := by
  unfold turnIntoSlave
  split_ifs with master
  · obtain ⟨middle, deleted, kept, only, empty⟩ := delNodeSlots_total coherent inside
    have turned : turnIntoSlave s sender =
        .ok (middle.modify sender fun n => { n with isMaster := false, isSlave := true }) := by
      unfold turnIntoSlave
      rw [if_pos master, deleted]
      rfl
    have links := (turnIntoSlave_links coherent.links inside settled turned).1
    refine ⟨_, bind_ok.mpr ⟨middle, deleted, rfl⟩, ⟨links, ?_, ?_⟩, only.links.nodes, only.links.myself⟩
    · refine kept.owners.of_same ⟨rfl, rfl, modify_field ClusterNode.slots sender _ rfl,
        modify_field ClusterNode.numslots sender _ rfl, ?_⟩
      intro a _ before
      by_cases here : a = sender
      · subst here
        exact .inr empty
      · rw [modify_other _ _ here]
        exact .inl before
    · refine kept.self.of_same kept.links ⟨rfl, ?_, ?_, ?_⟩
      · rw [modify_other _ _ (by rw [only.links.myself]; exact Ne.symm other)]
      · rw [modify_other _ _ (by rw [only.links.myself]; exact Ne.symm other)]
      · intro m _ before
        rw [modify_field ClusterNode.inHandshake sender _ rfl m, before]
  · exact ⟨s, rfl, coherent, rfl, rfl⟩

theorem replaceMaster_coherent {a m : Addr} (inside : a ∈ s.nodes) (known : m ∈ s.nodes)
    (other : a ≠ s.myself) (slave : (s.node a).isSlave = true) (settled : (s.node a).inHandshake = false) :
    Coherent (replaceMaster s a m) := by
  refine ⟨replaceMaster_links coherent.links inside known slave settled,
    coherent.owners.of_same (replaceMaster_owners a m), ?_⟩
  by_cases same : (s.node a).slaveof = some m
  · unfold replaceMaster
    rw [if_pos same]
    exact coherent.self
  · exact coherent.self.of_same coherent.links ((replaceMaster_relinked coherent.links inside same).same_self other)

theorem updateRole_total (inside : sender ∈ s.nodes) (other : sender ≠ s.myself)
    (settled : (s.node sender).inHandshake = false) (hdr : Header) :
    ∃ s', updateRole s sender hdr = .ok s' ∧ Coherent s' ∧ s'.nodes = s.nodes ∧ s'.myself = s.myself ∧
      (s'.node sender).inHandshake = false := by
  unfold updateRole
  split
  · exact ⟨_, rfl, setNodeAsMaster_coherent coherent inside settled, (setNodeAsMaster_same sender).1,
      (setNodeAsMaster_same sender).2, (setNodeAsMaster_inHandshake sender sender).trans settled⟩
  · next name _ =>
    obtain ⟨middle, turned, kept, nodes, myself⟩ := turnIntoSlave_total coherent inside other settled
    obtain ⟨-, -, slave, settled'⟩ := turnIntoSlave_links coherent.links inside settled turned
    have inside' : sender ∈ middle.nodes := by rwa [nodes]
    cases found : clusterLookupNode s name with
    | none => exact ⟨middle, bind_ok.mpr ⟨middle, turned, rfl⟩, kept, nodes, myself, settled'⟩
    | some master =>
      have known : master ∈ middle.nodes := by
        rw [nodes]
        exact (lookup_mem s found).1
      refine ⟨replaceMaster middle sender master, bind_ok.mpr ⟨middle, turned, rfl⟩, ?_,
        (replaceMaster_nodes sender master).trans nodes, ?_, ?_⟩
      · exact replaceMaster_coherent kept inside' known (by rwa [myself]) slave settled'
      · unfold replaceMaster
        split
        · exact myself
        · exact ((addSlave_same _ _ _).1.trans (detach_same _ _).1).trans myself
      · unfold replaceMaster setSlaveof
        split
        · exact settled'
        · simp [settled']

theorem updateSlots_total (env : Env) (inside : sender ∈ s.nodes)
    (settled : (s.node sender).inHandshake = false) (epoch : Nat) (hdr : Header) :
    Returns (updateSlots env s sender epoch hdr) Coherent := by
  unfold updateSlots
  split_ifs with dirty master
  · exact (updateSlotsConfigWith_total coherent inside master settled epoch hdr.myslots).bind
      fun middle after => ⟨_, rfl, after.1.of_view (sendUpdateIfStale_view env middle sender epoch hdr)⟩
  · exact ⟨_, bind_ok.mpr ⟨s, rfl, rfl⟩, coherent.of_view (sendUpdateIfStale_view env s sender epoch hdr)⟩
  · exact ⟨s, rfl, coherent⟩

end

-- The epochs are no part of what is kept.
theorem Coherent.of_links (coherent : Coherent s) (same : SameLinks s s') (table : s'.slots = s.slots)
    (slots : ∀ a, (s'.node a).slots = (s.node a).slots) (numslots : ∀ a, (s'.node a).numslots = (s.node a).numslots) :
    Coherent s' :=
  ⟨coherent.links.of_same same (by simpa only [table] using coherent.links.owners),
    coherent.owners.of_same ⟨same.nodes, table, slots, numslots, fun a _ master => .inl ((same.isMaster a).trans master)⟩,
    coherent.self.of_same coherent.links (.of_links same)⟩

section

variable (coherent : Coherent s)

include coherent

theorem setConfigEpoch_coherent (a : Addr) (epoch : Nat) : Coherent (setConfigEpoch s a epoch) :=
  coherent.of_links (setConfigEpoch_same a epoch) rfl (modify_field ClusterNode.slots a _ rfl)
    (modify_field ClusterNode.numslots a _ rfl)

theorem rename_coherent (a : Addr) (name : Name) : Coherent (clusterRenameNode s a name) :=
  coherent.of_links (SameLinks.of_modify s a _ rfl rfl rfl rfl rfl) rfl (modify_field ClusterNode.slots a _ rfl)
    (modify_field ClusterNode.numslots a _ rfl)

theorem generateEpoch_coherent : Coherent (generateEpoch s) :=
  coherent.of_links { SameLinks.refl s with } rfl (fun _ => rfl) (fun _ => rfl)

theorem takeNewEpoch_coherent : Coherent (takeNewEpoch s) :=
  setConfigEpoch_coherent (generateEpoch_coherent coherent) _ _

theorem bump_coherent : Coherent (clusterBumpConfigEpochWithoutConsensus s) := by
  unfold clusterBumpConfigEpochWithoutConsensus
  split
  · exact takeNewEpoch_coherent coherent
  · exact coherent

theorem collision_coherent (sender : Addr) (epoch : Nat) : Coherent (checkCollision s sender epoch) := by
  unfold checkCollision clusterHandleConfigEpochCollision
  split_ifs
  all_goals first | exact coherent | exact takeNewEpoch_coherent coherent

theorem raiseCurrentEpoch_coherent (epoch : Nat) : Coherent (raiseCurrentEpoch s epoch) :=
  coherent.of_links (raiseCurrentEpoch_same epoch) rfl (fun _ => rfl) (fun _ => rfl)

theorem raiseConfigEpoch_coherent (a : Addr) (epoch : Nat) : Coherent (raiseConfigEpoch s a epoch) := by
  unfold raiseConfigEpoch
  split
  · exact setConfigEpoch_coherent coherent a epoch
  · exact coherent

theorem processHeader_coherent (sender : Option Addr) (hdr : Header) :
    Coherent (processHeader s sender hdr) := by
  unfold processHeader
  split
  · split
    · exact coherent
    · exact (raiseConfigEpoch_coherent (raiseCurrentEpoch_coherent coherent _) _ _).of_view (recordOffset_view _ _ _)
  · exact coherent

theorem processKnownPing_total (env : Env) (sender : Addr) (inside : sender ∈ s.nodes)
    (other : sender ≠ s.myself) (settled : (s.node sender).inHandshake = false) (epoch : Nat) (link : Option Addr)
    (hdr : Header) (gossip : List GossipEntry) :
    Returns (processKnownPing env s sender epoch link hdr gossip) Coherent := by
  obtain ⟨roled, role, roled_kept, nodes, myself, settled'⟩ := updateRole_total coherent inside other settled hdr
  obtain ⟨slotted, slots, slotted_kept⟩ := updateSlots_total roled_kept env (by rwa [nodes]) settled' epoch hdr
  have checked := collision_coherent slotted_kept sender epoch
  obtain ⟨links, extended⟩ := gossip_extends checked.links env link hdr.sender gossip
  exact ⟨_, (processKnownPing_ok env sender epoch link hdr gossip _).mpr ⟨roled, slotted, role, slots, rfl⟩,
    checked.extend links extended⟩

theorem processPingBody_total (env : Env) {sender : Option Addr}
    (known : ∀ a, sender = some a → a ∈ s.nodes ∧ a ≠ s.myself ∧ (s.node a).inHandshake = false) (epoch : Nat)
    (link : Option Addr) (hdr : Header) (type : PingType) (gossip : List GossipEntry) :
    Returns (processPingBody env s sender epoch link hdr type gossip) Coherent := by
  have view := recordPong_view env s link type
  have same : SameLinks s (recordPong env s link type) := .of_view view
  have kept := coherent.of_view view
  unfold processPingBody
  split
  · next a =>
    obtain ⟨inside, other, settled⟩ := known a rfl
    exact processKnownPing_total kept env a (by rwa [same.nodes]) (by rwa [same.myself]) (by rw [same.inHandshake, settled])
      epoch link hdr gossip
  · exact ⟨_, rfl, kept⟩

theorem completeHandshake_coherent {n : Addr} (inside : n ∈ s.nodes) (other : n ≠ s.myself)
    {hdr : Header} (handshake : (s.node n).inHandshake = true) (role : hdr.isMaster = !hdr.isSlave) :
    Coherent (completeHandshake s n hdr) := by
  have node := completeHandshake_node (s := s) n
  refine ⟨completeHandshake_links coherent.links inside handshake role, ?_, ?_⟩
  · refine coherent.owners.of_same ⟨rfl, rfl, fun b => (completeHandshake_fields n b hdr).2.2.1,
      fun b => (completeHandshake_fields n b hdr).2.2.2, ?_⟩
    · intro b _ master
      rw [node]
      split_ifs with here
      · subst here
        simp [master]
      · exact .inl master
  · refine coherent.self.of_same coherent.links ⟨rfl, ?_, ?_, ?_⟩
    · rw [node, if_neg (Ne.symm other)]
    · rw [node, if_neg (Ne.symm other)]
    · intro m _ settled
      rw [node]
      split_ifs
      · rfl
      · exact settled

theorem processPing_total (env : Env) (sender : Option Addr)
    (known : ∀ a, sender = some a → a ∈ s.nodes ∧ a ≠ s.myself ∧ (s.node a).inHandshake = false) (epoch : Nat)
    (link : Option Addr) (isOpen : linkOpen s link = true) (hdr : Header)
    (role : ∀ n, link = some n → (s.node n).inHandshake = true → hdr.isMaster = !hdr.isSlave) (type : PingType)
    (gossip : List GossipEntry) : Returns (processPing env s sender epoch link hdr type gossip) Coherent := by
  obtain ⟨answered, extended⟩ := answerPing_extends coherent.links env sender link hdr type gossip
  unfold processPing
  dsimp only
  generalize answerPing env s sender link hdr type gossip = t at answered extended ⊢
  have kept := coherent.extend answered extended
  have known' : ∀ a, sender = some a → a ∈ t.nodes ∧ a ≠ t.myself ∧ (t.node a).inHandshake = false := by
    intro a found
    obtain ⟨inside, other, settled⟩ := known a found
    exact ⟨extended.mem inside, by rwa [extended.myself], (extended.inHandshake a inside).trans settled⟩
  split
  · exact processPingBody_total kept env known' epoch none hdr type gossip
  · next n =>
    obtain ⟨inside, other⟩ := linkOpen_some isOpen
    have here := extended.mem inside
    have other' : n ≠ t.myself := by rwa [extended.myself]
    split_ifs with handshake recognised mismatch
    · have notMaster : (t.node t.myself).slaveof ≠ some n := by
        intro master
        have settled := kept.self.master n master
        simp [handshake] at settled
      exact (delNode_total kept env here other' notMaster).imp fun _ after => after.1
    · have unknown : sender = none := by simpa using recognised
      have roles := role n rfl (by rwa [extended.inHandshake n inside] at handshake)
      refine processPingBody_total (completeHandshake_coherent kept here other' handshake roles) env ?_ epoch
        (some n) hdr type gossip
      rw [unknown]
      nofun
    · exact ⟨_, rfl, kept⟩
    · exact processPingBody_total kept env known' epoch (some n) hdr type gossip

theorem processUpdate_total (nodename : Name) (epoch : Nat) (slots : Bitmap)
    (settled : ∀ n, clusterLookupNode s nodename = some n → (s.node n).inHandshake = false) :
    Returns (processUpdate s nodename epoch slots) Coherent := by
  unfold processUpdate
  split
  · exact ⟨s, rfl, coherent⟩
  · next n found =>
    have inside := (lookup_mem s found).1
    have settled := settled n found
    have role := coherent.links.settled n inside settled
    split_ifs with stale slave
    · exact ⟨s, rfl, coherent⟩
    · refine (updateSlotsConfigWith_total (setConfigEpoch_coherent (setNodeAsMaster_coherent coherent inside settled) n epoch) ?_ ?_ ?_ epoch slots).imp fun _ after => after.1
      · change n ∈ (clusterSetNodeAsMaster s n).nodes
        rwa [(setNodeAsMaster_same n).1]
      · rw [(setConfigEpoch_same n epoch).isMaster, setNodeAsMaster_master]
      · rw [(setConfigEpoch_same n epoch).inHandshake, setNodeAsMaster_inHandshake, settled]
    · refine (updateSlotsConfigWith_total (setConfigEpoch_coherent coherent n epoch) inside ?_ ?_ epoch slots).imp
        fun _ after => after.1
      · rw [(setConfigEpoch_same n epoch).isMaster]
        simpa [slave] using role
      · rw [(setConfigEpoch_same n epoch).inHandshake, settled]

end

end

-- The sender of a packet is another node than its receiver, and the node an UPDATE is about is past its
-- handshake.
def fromOther (s : ClusterState) (packet : Packet) : Bool :=
  clusterLookupNode s packet.hdr.sender ≠ some s.myself

def aboutSettled (s : ClusterState) (packet : Packet) : Bool :=
  match packet.body with
  | .update nodename _ _ =>
    match clusterLookupNode s nodename with
    | some n => !(s.node n).inHandshake
    | none => true
  | _ => true

section

variable {s : ClusterState}

theorem processHeader_name (sender : Option Addr) (hdr : Header) (a : Addr) :
    ((processHeader s sender hdr).node a).name = (s.node a).name := by
  unfold processHeader
  split
  · next b =>
    split
    · rfl
    · have view := recordOffset_view (raiseConfigEpoch (raiseCurrentEpoch s hdr.currentEpoch) b hdr.configEpoch) b hdr
      refine (congrArg (fun v : View => (v.node a).name) view).trans ?_
      change ((raiseConfigEpoch (raiseCurrentEpoch s hdr.currentEpoch) b hdr.configEpoch).node a).name = _
      unfold raiseConfigEpoch
      split
      · exact modify_field (s := raiseCurrentEpoch s hdr.currentEpoch) ClusterNode.name b _ rfl a
      · rfl
  · rfl

theorem processHeader_lookup (sender : Option Addr) (hdr : Header) (name : Name) :
    clusterLookupNode (processHeader s sender hdr) name = clusterLookupNode s name := by
  unfold clusterLookupNode
  simp only [processHeader_name, (processHeader_same sender hdr).nodes]

theorem processPacket_total (coherent : Coherent s) (env : Env) {link : Option Addr} (isOpen : linkOpen s link = true)
    {packet : Packet} (settled : settledSender s packet = true) (role : oneRole s link packet = true)
    (other : fromOther s packet = true) (about : aboutSettled s packet = true) :
    Returns (clusterProcessPacket env s link packet) Coherent := by
  have kept := processHeader_coherent coherent (clusterLookupNode s packet.hdr.sender) packet.hdr
  have same := processHeader_same (s := s) (clusterLookupNode s packet.hdr.sender) packet.hdr
  unfold clusterProcessPacket
  dsimp only
  split
  · refine processPing_total kept env _ ?_ _ link ?_ _ ?_ _ _
    · intro a found
      refine ⟨?_, ?_, ?_⟩
      · rw [same.nodes]
        exact (lookup_mem s found).1
      · rw [same.myself]
        rintro rfl
        simp [fromOther, found] at other
      · rw [same.inHandshake]
        simpa [settledSender, found] using settled
    · cases link with
      | none => rfl
      | some n => simpa [linkOpen, same.nodes, same.myself] using isOpen
    · rintro n rfl handshake
      rw [same.inHandshake] at handshake
      simpa [oneRole, handshake] using role
  · exact ⟨_, rfl, kept.of_view (processFail_view env _ _)⟩
  · exact ⟨_, rfl, kept.of_view (sendFailoverAuthIfNeeded_view env _ _ _)⟩
  · exact ⟨_, rfl, kept.of_view (processAuthAck_view _ _ _)⟩
  · exact ⟨_, rfl, kept.of_view (processMFStart_view env _ _)⟩
  · next name epoch slots a body found =>
    refine processUpdate_total kept name epoch slots ?_
    intro n named
    rw [processHeader_lookup] at named
    rw [same.inHandshake]
    simpa [aboutSettled, body, named] using about
  · exact ⟨_, rfl, kept⟩

theorem slotError_none {del : Bool} (seen slots : List Slot) (fine : slotError s del seen slots = none) :
    ∀ slot ∈ slots, (s.slots.lookup slot).isSome = del := by
  induction slots generalizing seen with
  | nil => simp
  | cons slot rest ih =>
    simp only [slotError] at fine
    split_ifs at fine with unassigned busy again
    intro j inside
    rcases mem_cons.mp inside with rfl | later
    · cases del with
      | true => simpa [Option.isSome_iff_ne_none] using unassigned
      | false => simpa using busy
    · exact ih (slot :: seen) fine j later

theorem mem_orderedSlots (slots : List Slot) (slot : Slot) : slot ∈ orderedSlots slots ↔ slot ∈ slots := by
  unfold orderedSlots
  induction slots with
  | nil => simp
  | cons head rest ih => simp [ih]

section

variable (coherent : Coherent s)

include coherent

theorem delSlot_coherent {slot : Slot} (deleted : clusterDelSlot s slot = .ok s') :
    Coherent s' :=
  ⟨delSlot_links coherent.links deleted, delSlot_owners coherent.links coherent.owners deleted,
    coherent.self.of_same coherent.links (.of_links (delSlot_same deleted))⟩

theorem addSlot_coherent {n : Addr} (known : n ∈ s.nodes) (master : (s.node n).isMaster = true)
    (slot : Slot) : Coherent (clusterAddSlot s n slot) :=
  ⟨addSlot_links coherent.links known slot, addSlot_owners coherent.owners known master slot,
    coherent.self.of_same coherent.links (.of_links (addSlot_same s n slot))⟩

theorem closed_coherent (importing migrating : SlotTable) :
    Coherent { s with importingSlotsFrom := importing, migratingSlotsTo := migrating } :=
  coherent.of_links { SameLinks.refl s with } rfl (fun _ => rfl) (fun _ => rfl)

theorem assignSlot_total {del : Bool} {slot : Slot} (assignable : (s.slots.lookup slot).isSome = del)
    (master : del = false → (s.node s.myself).isMaster = true) :
    ∃ s', assignSlot del s slot = .ok s' ∧ Coherent s' ∧ SameLinks s s' ∧
      ∀ j, j ≠ slot → s'.slots.lookup j = s.slots.lookup j := by
  let closed : ClusterState := { s with importingSlotsFrom := s.importingSlotsFrom.erase slot }
  have kept : Coherent closed := closed_coherent coherent _ _
  have same : SameLinks s closed := { SameLinks.refl s with }
  unfold assignSlot
  cases del with
  | true =>
    obtain ⟨s', deleted⟩ := delSlot_total kept.links kept.owners slot
    refine ⟨s', ?_, delSlot_coherent kept deleted, same.trans (delSlot_same deleted), ?_⟩
    · simpa [assignable] using deleted
    · intro j other
      rw [delSlot_slots deleted, if_neg other]
  | false =>
    have free : closed.slots.lookup slot = none := by simpa using assignable
    refine ⟨clusterAddSlot closed closed.myself slot, ?_, ?_, same.trans (addSlot_same closed _ slot), ?_⟩
    · simp [assignable, closed]
    · exact addSlot_coherent kept kept.links.self (master rfl) slot
    · intro j other
      rw [addSlot_slots closed _ free, if_neg other]

theorem assignSlots_total {del : Bool} {slots : List Slot} (fine : slotError s del [] slots = none)
    (master : del = false → (s.node s.myself).isMaster = true) :
    Returns ((orderedSlots slots).items.foldlM (assignSlot del) s) Coherent := by
  obtain ⟨s', loop, kept, -⟩ := foldlM_total
    (fun done b => Coherent b ∧ SameLinks s b ∧ ∀ j, j ∉ done → b.slots.lookup j = s.slots.lookup j)
    (assignSlot del) (orderedSlots slots).nodup
    (by
      rintro done b slot inside unvisited ⟨kept, same, table⟩
      have assignable' : (b.slots.lookup slot).isSome = del := by
        rw [table slot unvisited]
        exact slotError_none [] slots fine slot ((mem_orderedSlots slots slot).mp inside)
      have master' : del = false → (b.node b.myself).isMaster = true := by
        rw [same.myself, same.isMaster]
        exact master
      obtain ⟨b', assigned, kept', same', table'⟩ := assignSlot_total kept assignable' master'
      refine ⟨b', assigned, kept', same.trans same', ?_⟩
      intro j outside
      rw [mem_cons, not_or] at outside
      rw [table' j outside.1, table j outside.2])
    [] (by simp) s ⟨coherent, .refl s, fun _ _ => rfl⟩
  exact ⟨s', loop, kept⟩

theorem stopMigrating_coherent (slot : Slot) : Coherent (stopMigrating s slot) := by
  unfold stopMigrating
  split
  · exact closed_coherent coherent _ _
  · exact coherent

theorem finishImport_coherent (n : Addr) (slot : Slot) : Coherent (finishImport s n slot) := by
  unfold finishImport
  split
  · exact closed_coherent (bump_coherent coherent) _ _
  · exact coherent

end

theorem bump_same : SameLinks s (clusterBumpConfigEpochWithoutConsensus s) := by
  unfold clusterBumpConfigEpochWithoutConsensus
  split
  · have generated : SameLinks s (generateEpoch s) := { SameLinks.refl s with }
    exact generated.trans (setConfigEpoch_same _ _)
  · exact .refl s

theorem finishImport_same (n : Addr) (slot : Slot) : SameLinks s (finishImport (stopMigrating s slot) n slot) := by
  have stopped : SameLinks s (stopMigrating s slot) := by
    unfold stopMigrating
    split <;> exact { SameLinks.refl s with }
  unfold finishImport
  split
  · have bumped := stopped.trans bump_same
    exact { bumped with }
  · exact stopped

section

variable (coherent : Coherent s)

include coherent

theorem setslotNode_total (slot : Slot) (name : Name)
    (master : ∀ n, clusterLookupNode s name = some n → (s.node n).isMaster = true) :
    Returns (setslotNode s slot name) (Coherent ·.1) := by
  unfold setslotNode
  split
  · exact ⟨_, rfl, coherent⟩
  · next n found =>
    split_ifs
    · exact ⟨_, rfl, coherent⟩
    · have kept := finishImport_coherent (stopMigrating_coherent coherent slot) n slot
      obtain ⟨middle, deleted⟩ := delSlot_total kept.links kept.owners slot
      have same := (finishImport_same n slot).trans (delSlot_same deleted)
      refine ⟨_, bind_ok.mpr ⟨middle, deleted, rfl⟩, ?_⟩
      refine addSlot_coherent (delSlot_coherent kept deleted) ?_ ?_ slot
      · rw [same.nodes]
        exact (lookup_mem s found).1
      · rw [same.isMaster]
        exact master n found

theorem setslot_total (slot : Slot) {action : SetSlotAction}
    (master : ∀ name n, action = .node name → clusterLookupNode s name = some n → (s.node n).isMaster = true) :
    Returns (setslot s slot action) (Coherent ·.1) := by
  unfold setslot
  split_ifs
  · exact ⟨_, rfl, coherent⟩
  · cases action with
    | migrating name =>
      simp only [setslotMigrating]
      split_ifs
      · exact ⟨_, rfl, coherent⟩
      · split
        · exact ⟨_, rfl, coherent⟩
        · exact ⟨_, rfl, closed_coherent coherent _ _⟩
    | importing name =>
      simp only [setslotImporting]
      split_ifs
      · exact ⟨_, rfl, coherent⟩
      · split
        · exact ⟨_, rfl, coherent⟩
        · exact ⟨_, rfl, closed_coherent coherent _ _⟩
    | stable => exact ⟨_, rfl, closed_coherent coherent _ _⟩
    | node name => exact setslotNode_total coherent slot name (fun n => master name n rfl)

theorem takeSlot_total (master : (s.node s.myself).isMaster = true) (slot : Slot) :
    ∃ s', takeSlot s slot = .ok s' ∧ Coherent s' ∧ SameLinks s s' := by
  obtain ⟨middle, deleted⟩ := delSlot_total coherent.links coherent.owners slot
  have kept := delSlot_coherent coherent deleted
  have same := delSlot_same deleted
  refine ⟨_, bind_ok.mpr ⟨middle, deleted, rfl⟩, ?_, same.trans (addSlot_same middle _ slot)⟩
  exact addSlot_coherent kept kept.links.self (by rw [same.myself, same.isMaster, master]) slot

theorem replaceYourMaster_total (env : Env) :
    Returns (clusterFailoverReplaceYourMaster env s) Coherent := by
  unfold clusterFailoverReplaceYourMaster
  split
  · exact ⟨s, rfl, coherent⟩
  · next oldmaster _ =>
    split_ifs with role
    · exact ⟨s, rfl, coherent⟩
    · have kept := setNodeAsMaster_coherent coherent coherent.links.self coherent.links.joined
      have master : ((clusterSetNodeAsMaster s s.myself).node (clusterSetNodeAsMaster s s.myself).myself).isMaster = true := by
        rw [(setNodeAsMaster_same s.myself).2, setNodeAsMaster_master]
      obtain ⟨middle, loop, taken, -⟩ := foldlM_total
        (fun _ b => Coherent b ∧ (b.node b.myself).isMaster = true) takeSlot (SortedSet.nodup _)
        (by
          rintro done b slot - - ⟨b_kept, b_master⟩
          obtain ⟨b', taken, kept', same⟩ := takeSlot_total b_kept b_master slot
          exact ⟨b', taken, kept', by rw [same.myself, same.isMaster, b_master]⟩)
        [] (by simp) _ ⟨kept, master⟩
      exact ⟨_, bind_ok.mpr ⟨middle, loop, rfl⟩, taken.of_view rfl⟩

theorem failover_total (env : Env) (option : FailoverOption) :
    Returns (failover env s option) (Coherent ·.1) := by
  have manual : Coherent { resetManualFailover s with mfEnd := env.now + 5000 } := coherent.of_view rfl
  unfold failover
  split_ifs
  · exact ⟨_, rfl, coherent⟩
  · split
    · exact ⟨_, rfl, coherent⟩
    · split_ifs
      · exact ⟨_, rfl, coherent⟩
      · dsimp only
        split
        · exact (replaceYourMaster_total (bump_coherent manual) env).bind fun s' kept => ⟨_, rfl, kept⟩
        · exact ⟨_, rfl, manual.of_view rfl⟩
        · exact ⟨_, rfl, manual.of_view (sendMFStart_view env _)⟩

end

-- While the nodes are forgotten this node has no master that could be among them.
theorem forgetNodes_total (env : Env) (l : List Addr) (distinct : l.Nodup) :
    ∀ s : ClusterState, Coherent s → (s.node s.myself).slaveof = none → (∀ n ∈ l, n ∈ s.nodes ∧ n ≠ s.myself) →
      Returns (l.foldlM (fun s n => clusterDelNode s env n) s) Coherent := by
  induction l with
  | nil => exact fun s coherent _ _ => ⟨s, rfl, coherent⟩
  | cons n rest ih =>
    intro s coherent free live
    obtain ⟨absent, distinct'⟩ := nodup_cons.mp distinct
    obtain ⟨inside, other⟩ := live n mem_cons_self
    rw [foldlM_cons]
    refine (delNode_total coherent env inside other (by simp [free])).bind ?_
    rintro middle ⟨kept, self, nodes⟩
    refine ih distinct' middle kept (by rw [self.myself, self.slaveof, free]) ?_
    intro b later
    obtain ⟨inside', other'⟩ := live b (mem_cons_of_mem _ later)
    rw [nodes, self.myself]
    exact ⟨coherent.links.nodup.mem_erase_iff.mpr ⟨fun same => absent (same ▸ later), inside'⟩, other'⟩

theorem hardReset_coherent (coherent : Coherent s) (env : Env) : Coherent (hardReset env s) := by
  have zeroed : Coherent { s with currentEpoch := 0, lastVoteEpoch := 0 } :=
    coherent.of_links { SameLinks.refl s with } rfl (fun _ => rfl) (fun _ => rfl)
  exact rename_coherent (setConfigEpoch_coherent zeroed s.myself 0) s.myself env.randomName

theorem beforeReset_coherent (coherent : Coherent s) :
    Coherent (beforeReset s) ∧ ((beforeReset s).node (beforeReset s).myself).slaveof = none := by
  have closed : ∀ s : ClusterState, Coherent s → Coherent (resetManualFailover (clusterCloseAllSlots s)) :=
    fun s kept => (closed_coherent kept ∅ ∅).of_view rfl
  unfold beforeReset
  split_ifs with slave
  · have promoted := setNodeAsMaster_coherent coherent coherent.links.self coherent.links.joined
    refine ⟨closed _ (promoted.of_view rfl), ?_⟩
    have notMaster : (s.node s.myself).isMaster = false := coherent.links.exclusive s.myself coherent.links.self slave
    change ((clusterSetNodeAsMaster s s.myself).node (clusterSetNodeAsMaster s s.myself).myself).slaveof = none
    rw [(setNodeAsMaster_same s.myself).2]
    simp [clusterSetNodeAsMaster, notMaster]
  · refine ⟨closed _ coherent, ?_⟩
    change (s.node s.myself).slaveof = none
    cases slaveof : (s.node s.myself).slaveof with
    | none => rfl
    | some m => exact absurd (coherent.links.linked s.myself coherent.links.self m slaveof) slave

theorem reset_total (coherent : Coherent s) (env : Env) (hard : Bool) :
    Returns (clusterReset env s hard) Coherent := by
  obtain ⟨before, free⟩ := beforeReset_coherent coherent
  obtain ⟨emptied, deleted, owners⟩ := delSlots_total before.links before.owners (beforeReset s).slots.keys
  have same := delSlots_same deleted
  have kept : Coherent emptied :=
    ⟨delSlots_links before.links deleted, owners, before.self.of_same before.links (.of_links same)⟩
  obtain ⟨alone, forgotten, after⟩ := forgetNodes_total env (emptied.nodes.filter (· ≠ emptied.myself))
    (kept.links.nodup.filter _) emptied kept (by rw [same.myself, same.slaveof, free])
    (fun n inside => by simpa using mem_filter.mp inside)
  refine ⟨_, (reset_ok env hard _).mpr ⟨emptied, alone, deleted, forgotten, rfl⟩, ?_⟩
  split
  · exact hardReset_coherent after env
  · exact after

end

-- The roles that a command relies on: ADDSLOTS is given to a master, SETSLOT NODE names a master, and
-- REPLICATE a node whose handshake is over.
def orderlyCommand (s : ClusterState) : Command → Bool
  | .addslots _ => (s.node s.myself).isMaster
  | .setslot _ (.node name) =>
    match clusterLookupNode s name with
    | some n => (s.node n).isMaster
    | none => true
  | .replicate name =>
    match clusterLookupNode s name with
    | some n => !(s.node n).inHandshake
    | none => true
  | _ => true

def orderly (s : ClusterState) : Event → Bool
  | .packet link packet => !linkOpen s link ||
      (settledSender s packet && oneRole s link packet && fromOther s packet && aboutSettled s packet)
  | .command command => orderlyCommand s command
  | _ => true

section

variable {s : ClusterState}

section

variable (coherent : Coherent s) (env : Env)

include coherent

theorem command_total {c : Command} (allowed : orderlyCommand s c = true) :
    Returns (clusterCommand env s c) (Coherent ·.1) := by
  have links := coherent.links
  cases c with
  | meet =>
    exact ⟨_, rfl, coherent.extend (startHandshake_links links _) (startHandshake_extends links _)⟩
  | flushslots =>
    simp only [clusterCommand, flushslots]
    split_ifs
    · exact ⟨_, rfl, coherent⟩
    · exact (delNodeSlots_total coherent links.self).bind fun s' after => ⟨_, rfl, after.1⟩
  | addslots slots =>
    simp only [clusterCommand, addOrDelSlots]
    split
    · exact ⟨_, rfl, coherent⟩
    · next fine =>
      exact (assignSlots_total coherent fine (fun _ => allowed)).bind fun s' kept => ⟨_, rfl, kept⟩
  | delslots slots =>
    simp only [clusterCommand, addOrDelSlots]
    split
    · exact ⟨_, rfl, coherent⟩
    · next fine =>
      exact (assignSlots_total coherent fine (by simp)).bind fun s' kept => ⟨_, rfl, kept⟩
  | setslot slot action =>
    refine setslot_total coherent slot ?_
    rintro name n rfl found
    simpa [orderlyCommand, found] using allowed
  | bumpepoch => exact ⟨_, rfl, bump_coherent coherent⟩
  | forget name =>
    simp only [clusterCommand, forget]
    split
    · exact ⟨_, rfl, coherent⟩
    · next n found =>
      split_ifs with self master
      · exact ⟨_, rfl, coherent⟩
      · exact ⟨_, rfl, coherent⟩
      · refine (delNode_total coherent env (lookup_mem s found).1 self ?_).bind fun s' after => ⟨_, rfl, after.1⟩
        exact fun slaveof => master ⟨links.linked s.myself links.self n slaveof, slaveof⟩
  | replicate name =>
    simp only [clusterCommand, replicate]
    split
    · exact ⟨_, rfl, coherent⟩
    · next n found =>
      split_ifs with self slave busy
      · exact ⟨_, rfl, coherent⟩
      · exact ⟨_, rfl, coherent⟩
      · exact ⟨_, rfl, coherent⟩
      · have idle : (s.node s.myself).numslots = 0 := by
          by_cases master : (s.node s.myself).isMaster = true
          · by_contra serving
            exact busy ⟨master, .inl serving⟩
          · exact slave_idle coherent (by simpa using master)
        have settled : (s.node n).inHandshake = false := by simpa [orderlyCommand, found] using allowed
        exact (setMaster_total coherent (lookup_mem s found).1 self settled idle).bind fun s' after => ⟨_, rfl, after.1⟩
  | failover option => exact failover_total coherent env option
  | setConfigEpoch epoch =>
    simp only [clusterCommand, assignConfigEpoch]
    split_ifs
    · exact ⟨_, rfl, coherent⟩
    · exact ⟨_, rfl, coherent⟩
    · exact ⟨_, rfl, raiseCurrentEpoch_coherent (setConfigEpoch_coherent coherent _ _) _⟩
  | reset hard =>
    simp only [clusterCommand, reset]
    split_ifs
    · exact ⟨_, rfl, coherent⟩
    · exact (reset_total coherent env hard).bind fun s' kept => ⟨_, rfl, kept⟩

theorem slaveFailover_total :
    Returns (clusterHandleSlaveFailover env s) Coherent := by
  have ranked := coherent.of_view (updateRank_view env s)
  unfold clusterHandleSlaveFailover
  dsimp only
  split_ifs
  · exact ⟨_, rfl, coherent⟩
  · exact ⟨_, rfl, coherent⟩
  · exact ⟨_, rfl, coherent.of_view rfl⟩
  · exact ⟨_, rfl, ranked⟩
  · exact ⟨_, rfl, ranked⟩
  · exact ⟨_, rfl, (generateEpoch_coherent ranked).of_view rfl⟩
  · exact replaceYourMaster_total (raiseConfigEpoch_coherent ranked _ _) env
  · exact ⟨_, rfl, ranked⟩

theorem step_total {event : Event} (allowed : orderly s event = true) :
    Returns (step env s event) Coherent := by
  cases event with
  | packet link packet =>
    simp only [step]
    split_ifs with isOpen
    · simp only [orderly, isOpen, Bool.not_true, Bool.false_or, Bool.and_eq_true] at allowed
      obtain ⟨⟨⟨settled, role⟩, other⟩, about⟩ := allowed
      exact processPacket_total coherent env isOpen settled role other about
    · exact ⟨s, rfl, coherent⟩
  | command c =>
    exact (command_total coherent env allowed).bind fun result kept => ⟨_, rfl, kept⟩
  | handshakeTimeout n =>
    simp only [step]
    split_ifs with expired
    · have other : n ≠ s.myself := by
        rintro rfl
        simp [coherent.links.joined] at expired
      have notMaster : (s.node s.myself).slaveof ≠ some n := by
        intro master
        simp [coherent.self.master n master] at expired
      exact (delNode_total coherent env expired.1 other notMaster).imp fun _ after => after.1
    · exact ⟨s, rfl, coherent⟩
  | pingTimeout n =>
    simp only [step]
    split_ifs
    · exact ⟨_, rfl, coherent.of_view (view_modify s rfl)⟩
    · exact ⟨s, rfl, coherent⟩
  | manualFailover => exact ⟨_, rfl, coherent.of_view (manualFailover_view env s)⟩
  | slaveFailover =>
    simp only [step]
    split_ifs
    · exact slaveFailover_total coherent env
    · exact ⟨s, rfl, coherent⟩
  | updateState => exact ⟨_, rfl, coherent.of_view rfl⟩
  | sendPing type => exact ⟨_, rfl, coherent.of_view rfl⟩
  | keyspace keys => exact ⟨_, rfl, coherent.of_view rfl⟩

end

end

def allOrderly : ClusterState → List (Env × Event) → Bool
  | _, [] => true
  | s, event :: events => orderly s event.2 &&
    match step event.1 s event.2 with
    | .ok s' => allOrderly s' events
    | .error _ => true

theorem run_coherent (s : ClusterState) (coherent : Coherent s) (events : List (Env × Event))
    (allowed : allOrderly s events = true) : Returns (run s events) Coherent := by
  unfold run
  induction events generalizing s with
  | nil => exact ⟨s, rfl, coherent⟩
  | cons event rest ih =>
    simp only [allOrderly, Bool.and_eq_true] at allowed
    obtain ⟨middle, stepped, kept⟩ := step_total coherent event.1 allowed.1
    rw [stepped] at allowed
    rw [foldlM_cons, stepped]
    exact ih middle kept allowed.2

theorem slot_table_and_roles_coherent (name : Name) (events : List (Env × Event))
    (allowed : allOrderly (ClusterState.start name) events = true) :
    ∃ s, run (ClusterState.start name) events = .ok s ∧
      (∀ a ∈ s.nodes, ∀ slot, s.slots.lookup slot = some a ↔ slot ∈ (s.node a).slots) ∧
      (∀ slot a, s.slots.lookup slot = some a → a ∈ s.nodes) ∧
      (∀ a ∈ s.nodes, (s.node a).numslots = (s.node a).slots.size) ∧
      (∀ m ∈ s.nodes, ∀ a, a ∈ (s.node m).slaves ↔ a ∈ s.nodes ∧ (s.node a).slaveof = some m) ∧
      (∀ a ∈ s.nodes, (s.node a).isSlave = true → ∀ slot, slot ∉ (s.node a).slots) ∧
      ((s.node s.myself).isSlave = true → (s.node s.myself).slaveof ≠ none) := by
  obtain ⟨s, ran, links, owners, self⟩ := run_coherent _ (start_coherent name) events allowed
  refine ⟨s, ran, fun a inside slot => (owners.bit a inside slot).symm, links.owners, owners.count, links.slaves, ?_, self.slaveof⟩
  intro a inside slave slot bit
  have master := owners.served a inside slot bit
  simp [links.exclusive a inside slave] at master

def masterHeader (name : Name) (epoch : Nat) (slots : List Slot) : Header :=
  ⟨name, true, false, none, epoch, epoch, orderedSlots slots, 0, false, false⟩

def meetMaster : List (Env × Event) :=
  [(clock 0 50, .command .meet),
   (clock 10 0, .packet (some 1) ⟨masterHeader 7 1 [3], .ping .pong []⟩)]

def becomeSlave : List (Env × Event) :=
  [(clock 20 0, .packet (some 1) ⟨masterHeader 7 1 [3], .ping .pong []⟩),
   (clock 30 0, .command (.replicate 7))]

theorem new_slave_coherent : allOrderly (ClusterState.start 1) (meetMaster ++ becomeSlave) = true ∧
    ∃ s, run (ClusterState.start 1) (meetMaster ++ becomeSlave) = .ok s ∧
      ((s.node s.myself).isSlave = true → (s.node s.myself).slaveof ≠ none) := by
  have allowed : allOrderly (ClusterState.start 1) (meetMaster ++ becomeSlave) = true := by decide +kernel
  obtain ⟨s, ran, facts⟩ := slot_table_and_roles_coherent 1 (meetMaster ++ becomeSlave) allowed
  exact ⟨allowed, s, ran, facts.2.2.2.2.2⟩

-- REPLICATE takes a node in handshake for a master, which the handshake timeout then removes.
def loseMaster : List (Env × Event) :=
  [(clock 20 51, .command .meet),
   (clock 30 0, .command (.replicate 51)),
   (clock 20000 0, .handshakeTimeout 2)]

theorem slave_of_handshake_crashes : ((run (ClusterState.start 1) (meetMaster ++ loseMaster)).toOption.map fun s =>
      ((s.node s.myself).isSlave, (s.node s.myself).slaveof)) = some (true, none) ∧
    fault (run (ClusterState.start 1) (meetMaster ++ loseMaster ++
      [(clock 20010 0, .packet (some 1) ⟨masterHeader 7 1 [3], .ping .pong []⟩)])) = some .nullDereference ∧
    ((run (ClusterState.start 1) (meetMaster ++ becomeSlave ++ [(clock 40 0, .command (.addslots [4]))])).toOption.map fun s =>
      ((s.node s.myself).isSlave, (s.node s.myself).numslots)) = some (true, 1) := by
  decide +kernel

end RedisCore.Cluster
