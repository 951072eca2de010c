import RedisCore.Cluster.CoherentRun

set_option autoImplicit false

namespace RedisCore.Cluster

open Lib List

variable {a sender : Addr}

structure Kept (s s' : ClusterState) : Prop where
  myself : s'.myself = s.myself
  nodes : ∃ added, s'.nodes = s.nodes ++ added
  name : ∀ a ∈ s.nodes, (s'.node a).name = (s.node a).name
  inHandshake : ∀ a ∈ s.nodes, (s'.node a).inHandshake = (s.node a).inHandshake
  configEpoch : ∀ a ∈ s.nodes, a ≠ s.myself → (s'.node a).configEpoch = (s.node a).configEpoch
  importing : ∀ j, s.importingSlotsFrom.lookup j = none → s'.importingSlotsFrom.lookup j = none

section

variable {s s' s'' : ClusterState}

theorem Kept.mem (kept : Kept s s') (inside : a ∈ s.nodes) : a ∈ s'.nodes := by
  obtain ⟨added, nodes⟩ := kept.nodes
  simp [nodes, inside]

theorem Kept.trans (first : Kept s s') (second : Kept s' s'') : Kept s s'' where
  myself := second.myself.trans first.myself
  nodes := by
    obtain ⟨added, nodes⟩ := first.nodes
    obtain ⟨added', nodes'⟩ := second.nodes
    exact ⟨added ++ added', by rw [nodes', nodes, append_assoc]⟩
  name := fun a inside => (second.name a (first.mem inside)).trans (first.name a inside)
  inHandshake := fun a inside => (second.inHandshake a (first.mem inside)).trans (first.inHandshake a inside)
  configEpoch := fun a inside other =>
    (second.configEpoch a (first.mem inside) (by rwa [first.myself])).trans (first.configEpoch a inside other)
  importing := fun j none => second.importing j (first.importing j none)

theorem Kept.of_extends (extended : Extends s s') : Kept s s' where
  myself := extended.myself
  nodes := by
    obtain ⟨added, nodes, -⟩ := extended.nodes
    exact ⟨added, nodes⟩
  name := fun a inside => congrArg NodeView.name (extended.old a inside)
  inHandshake := extended.inHandshake
  configEpoch := fun a inside _ => congrArg NodeView.configEpoch (extended.old a inside)
  importing := fun j none => by rw [extended.importing, none]

theorem Kept.of_view (same : s'.view = s.view) : Kept s s' := .of_extends (.of_view same)

theorem Kept.of_reconfigured {bound : Slot → Option Addr} (changed : Reconfigured s s' bound) : Kept s s' where
  myself := changed.myself
  nodes := ⟨[], by rw [changed.nodes, append_nil]⟩
  name := fun a _ => changed.name a
  inHandshake := fun a _ => changed.inHandshake a
  configEpoch := fun a _ _ => changed.configEpoch a
  importing := fun j none => (changed.importing j).elim (fun same => same.trans none) id

theorem Kept.lookup (kept : Kept s s') (name : Name) (a : Addr) (found : clusterLookupNode s name = some a) :
    clusterLookupNode s' name = some a := by
  obtain ⟨added, nodes⟩ := kept.nodes
  have names : s.nodes.find? (fun a => (s'.node a).name = name) = some a := by
    rw [← found]
    unfold clusterLookupNode
    refine find?_congr ?_
    intro b inside
    rw [kept.name b inside]
  unfold clusterLookupNode
  rw [nodes, find?_append, names]
  rfl

theorem setNodeAsMaster_fields (a b : Addr) : ((clusterSetNodeAsMaster s a).node b).name = (s.node b).name ∧
    ((clusterSetNodeAsMaster s a).node b).configEpoch = (s.node b).configEpoch := by
  unfold clusterSetNodeAsMaster
  split
  · exact ⟨rfl, rfl⟩
  · by_cases here : b = a <;> simp [here]

theorem setNodeAsMaster_importing (a : Addr) :
    (clusterSetNodeAsMaster s a).importingSlotsFrom = s.importingSlotsFrom := by
  unfold clusterSetNodeAsMaster detachFromMaster
  split
  · rfl
  · split <;> rfl

theorem setNodeAsMaster_kept (a : Addr) : Kept s (clusterSetNodeAsMaster s a) where
  myself := (setNodeAsMaster_same a).2
  nodes := ⟨[], by rw [(setNodeAsMaster_same a).1, append_nil]⟩
  name := fun b _ => (setNodeAsMaster_fields a b).1
  inHandshake := fun b _ => setNodeAsMaster_inHandshake a b
  configEpoch := fun b _ _ => (setNodeAsMaster_fields a b).2
  importing := fun j none => by rw [setNodeAsMaster_importing, none]

theorem collision_kept (sender : Addr) (epoch : Nat) : Kept s (checkCollision s sender epoch) := by
  have renewed : Kept s (takeNewEpoch s) := by
    refine ⟨rfl, ⟨[], (append_nil _).symm⟩, ?_, ?_, ?_, fun _ none => none⟩
    all_goals
      intro b _
      unfold takeNewEpoch setConfigEpoch
    · exact modify_field (s := generateEpoch s) ClusterNode.name _ _ rfl b
    · exact modify_field (s := generateEpoch s) ClusterNode.inHandshake _ _ rfl b
    · intro other
      exact congrArg ClusterNode.configEpoch (modify_other (generateEpoch s) _ other)
  unfold checkCollision clusterHandleConfigEpochCollision
  split_ifs
  all_goals first | exact renewed | exact .of_view rfl

theorem collision_table (sender : Addr) (epoch : Nat) : (checkCollision s sender epoch).slots = s.slots := by
  unfold checkCollision clusterHandleConfigEpochCollision takeNewEpoch
  split_ifs <;> rfl

theorem updateSlots_rebound (coherent : Coherent s) (env : Env) (inside : sender ∈ s.nodes)
    (master : (s.node sender).isMaster = true) (settled : (s.node sender).inHandshake = false) (epoch : Nat) (hdr : Header) :
    Returns (updateSlots env s sender epoch hdr) fun s' => Coherent s' ∧ Kept s s' ∧
      ∀ j, s'.slots.lookup j = rebound s sender epoch hdr.myslots j := by
  unfold updateSlots
  split_ifs with dirty
  · obtain ⟨middle, updated, kept, changed⟩ := updateSlotsConfigWith_total coherent inside master settled epoch
      hdr.myslots
    have view := sendUpdateIfStale_view env middle sender epoch hdr
    have table : (sendUpdateIfStale env middle sender epoch hdr).slots = middle.slots := congrArg View.slots view
    refine ⟨_, bind_ok.mpr ⟨middle, updated, rfl⟩, kept.of_view view, (Kept.of_reconfigured changed).trans (.of_view view), ?_⟩
    intro j
    rw [table, changed.table]
  · refine ⟨s, rfl, coherent, .of_view rfl, ?_⟩
    have same : (s.node sender).slots = hdr.myslots := by
      simpa [dirtySlots, senderMaster, master] using dirty
    intro j
    unfold rebound
    split_ifs with claimed
    · have owner : s.slots.lookup j = some sender := by
        rw [← coherent.owners.bit sender inside, same]
        exact claimed.2.1
      simp [outdated, owner] at claimed
    · rfl

theorem rebound_congr (sender : Addr) (epoch : Nat) (slots : Bitmap) (myself : s'.myself = s.myself) (table : s'.slots = s.slots)
    (importing : s'.importingSlotsFrom = s.importingSlotsFrom)
    (configEpoch : ∀ b, (s'.node b).configEpoch = (s.node b).configEpoch) (j : Slot) :
    rebound s' sender epoch slots j = rebound s sender epoch slots j := by
  have same : outdated s' sender epoch j = outdated s sender epoch j := by
    simp only [outdated, table, importing, configEpoch]
  simp only [rebound, myself, table, same]

theorem setNodeAsMaster_rebound (sender : Addr) (epoch : Nat) (slots : Bitmap) (j : Slot) :
    rebound (clusterSetNodeAsMaster s sender) sender epoch slots j = rebound s sender epoch slots j :=
  rebound_congr sender epoch slots (setNodeAsMaster_same sender).2 (setNodeAsMaster_owners sender).table
    (setNodeAsMaster_importing sender) (fun b => (setNodeAsMaster_fields sender b).2) j

theorem processKnownPing_rebound (coherent : Coherent s) (env : Env) {sender : Addr} (inside : sender ∈ s.nodes)
    (settled : (s.node sender).inHandshake = false) (epoch : Nat) (link : Option Addr) {hdr : Header}
    (master : hdr.slaveof = none) (gossip : List GossipEntry) :
    Returns (processKnownPing env s sender epoch link hdr gossip) fun s' => Coherent s' ∧ Kept s s' ∧
      ∀ j, s'.slots.lookup j = rebound s sender epoch hdr.myslots j := by
  have roled : updateRole s sender hdr = .ok (clusterSetNodeAsMaster s sender) := by
    simp only [updateRole, master]
  have promoted := setNodeAsMaster_kept (s := s) sender
  have role := setNodeAsMaster_coherent coherent inside settled
  obtain ⟨slotted, slots, slotted_coherent, slotted_kept, table⟩ := updateSlots_rebound role env
    (promoted.mem inside) (setNodeAsMaster_master sender) ((promoted.inHandshake sender inside).trans settled) epoch hdr
  have checked := collision_coherent slotted_coherent sender epoch
  obtain ⟨links, extended⟩ := gossip_extends checked.links env link hdr.sender gossip
  refine ⟨_, (processKnownPing_ok env sender epoch link hdr gossip _).mpr ⟨_, slotted, roled, slots, rfl⟩,
    checked.extend links extended, ?_, ?_⟩
  · exact ((promoted.trans slotted_kept).trans (collision_kept sender epoch)).trans (.of_extends extended)
  · intro j
    rw [extended.slots, collision_table, table j, setNodeAsMaster_rebound]

theorem processHeader_node (a b : Addr) (hdr : Header) (settled : (s.node a).inHandshake = false) :
    ((processHeader s (some a) hdr).node b).view =
      if b = a then { (s.node b).view with configEpoch := max (s.node b).configEpoch hdr.configEpoch } else (s.node b).view := by
  have view := recordOffset_view (raiseConfigEpoch (raiseCurrentEpoch s hdr.currentEpoch) a hdr.configEpoch) a hdr
  have recorded : ((processHeader s (some a) hdr).node b).view =
      ((raiseConfigEpoch (raiseCurrentEpoch s hdr.currentEpoch) a hdr.configEpoch).node b).view := by
    simp only [processHeader, settled, Bool.false_eq_true, if_false]
    exact congrArg (fun v : View => v.node b) view
  rw [recorded]
  unfold raiseConfigEpoch
  change ((if (s.node a).configEpoch < hdr.configEpoch then _ else raiseCurrentEpoch s hdr.currentEpoch).node b).view = _
  split_ifs with newer here here
  · subst here
    simp [setConfigEpoch, raiseCurrentEpoch, ClusterState.modify, ClusterNode.view, max_eq_right newer.le]
  · simp [setConfigEpoch, raiseCurrentEpoch, ClusterState.modify, here]
  · subst here
    have largest : max (s.node b).configEpoch hdr.configEpoch = (s.node b).configEpoch := max_eq_left (not_lt.mp newer)
    rw [largest]
    rfl
  · rfl

theorem processHeader_tables (sender : Option Addr) (hdr : Header) : (processHeader s sender hdr).slots = s.slots ∧
    (processHeader s sender hdr).importingSlotsFrom = s.importingSlotsFrom := by
  unfold processHeader
  split
  · next a =>
    split
    · exact ⟨rfl, rfl⟩
    · have view := recordOffset_view (raiseConfigEpoch (raiseCurrentEpoch s hdr.currentEpoch) a hdr.configEpoch) a hdr
      have raised : (raiseConfigEpoch (raiseCurrentEpoch s hdr.currentEpoch) a hdr.configEpoch).slots = s.slots ∧
          (raiseConfigEpoch (raiseCurrentEpoch s hdr.currentEpoch) a hdr.configEpoch).importingSlotsFrom =
            s.importingSlotsFrom := by
        unfold raiseConfigEpoch
        split <;> exact ⟨rfl, rfl⟩
      exact ⟨(congrArg View.slots view).trans raised.1, (congrArg View.importing view).trans raised.2⟩
  · exact ⟨rfl, rfl⟩

end

structure Claims where
  masters : Finset Addr
  epoch : Addr → Nat
  slots : Addr → Bitmap
  distinct : ∀ a ∈ masters, ∀ b ∈ masters, epoch a = epoch b → a = b

structure Knows (s : ClusterState) (name : Addr → Name) (claims : Claims) : Prop where
  lookup : ∀ a ∈ claims.masters, clusterLookupNode s (name a) = some a
  other : ∀ a ∈ claims.masters, a ≠ s.myself
  settled : ∀ a ∈ claims.masters, (s.node a).inHandshake = false
  epoch : ∀ a ∈ claims.masters, (s.node a).configEpoch ≤ claims.epoch a

structure Arrival where
  env : Env
  link : Option Addr
  packet : Packet

def Arrival.event (arrival : Arrival) : Env × Event := (arrival.env, .packet arrival.link arrival.packet)

-- A PING or PONG of the master a, over a link that a opened or over the node's own link to a.
structure SentBy (name : Addr → Name) (claims : Claims) (a : Addr) (arrival : Arrival) : Prop where
  sender : arrival.packet.hdr.sender = name a
  master : arrival.packet.hdr.slaveof = none
  epoch : arrival.packet.hdr.configEpoch = claims.epoch a
  slots : arrival.packet.hdr.myslots = claims.slots a
  body : ∃ type gossip, arrival.packet.body = .ping type gossip
  link : arrival.link = none ∨ arrival.link = some a

-- Of the masters heard from, a claims the slot with the greatest epoch.
def Wins (claims : Claims) (seen : Finset Addr) (j : Slot) (a : Addr) : Prop :=
  a ∈ seen ∧ j ∈ claims.slots a ∧ ∀ b ∈ seen, j ∈ claims.slots b → claims.epoch b ≤ claims.epoch a

structure Converging (name : Addr → Name) (claims : Claims) (seen : Finset Addr) (s : ClusterState) : Prop where
  coherent : Coherent s
  knows : Knows s name claims
  importing : ∀ j, s.importingSlotsFrom.lookup j = none
  known : seen ⊆ claims.masters
  heard : ∀ a ∈ seen, (s.node a).configEpoch = claims.epoch a
  table : ∀ j a, s.slots.lookup j = some a ↔ Wins claims seen j a

theorem wins_insert {claims : Claims} {seen : Finset Addr} (known : seen ⊆ claims.masters)
    (master : a ∈ claims.masters) {j : Slot} {owner : Option Addr} (before : ∀ b, owner = some b ↔ Wins claims seen j b) (b : Addr) :
    (if j ∈ claims.slots a ∧ owner ≠ some a ∧ (∀ o, owner = some o → claims.epoch o < claims.epoch a) then some a else owner) =
      some b ↔ Wins claims (insert a seen) j b := by
  have before_b := before b
  unfold Wins at before before_b ⊢
  constructor
  · intro bound
    split_ifs at bound with taken
    · obtain rfl := Option.some.inj bound
      refine ⟨Finset.mem_insert_self a seen, taken.1, ?_⟩
      intro c inside claimed
      rcases Finset.mem_insert.mp inside with rfl | old
      · exact le_rfl
      · -- The owner claims the slot with at least the epoch of c.
        by_contra higher
        have unowned : owner ≠ none := by
          intro none
          obtain ⟨winner, winner_seen, best⟩ := (seen.filter fun x => j ∈ claims.slots x).exists_max_image claims.epoch
            ⟨c, Finset.mem_filter.mpr ⟨old, claimed⟩⟩
          obtain ⟨in_seen, claims_j⟩ := Finset.mem_filter.mp winner_seen
          have wins := (before winner).mpr ⟨in_seen, claims_j, fun x xs xc => best x (Finset.mem_filter.mpr ⟨xs, xc⟩)⟩
          simp [none] at wins
        obtain ⟨o, owned⟩ := Option.ne_none_iff_exists'.mp unowned
        have bounded := ((before o).mp owned).2.2 c old claimed
        have lower := taken.2.2 o owned
        omega
    · obtain ⟨seen_b, claimed_b, best⟩ := before_b.mp bound
      refine ⟨Finset.mem_insert_of_mem seen_b, claimed_b, ?_⟩
      intro c inside claimed
      rcases Finset.mem_insert.mp inside with rfl | old
      · by_cases same : owner = some c
        · rw [same] at bound
          exact (Option.some.inj bound ▸ le_rfl)
        · by_contra higher
          refine taken ⟨claimed, same, ?_⟩
          intro o owned
          rw [owned] at bound
          obtain rfl := Option.some.inj bound
          omega
      · exact best c old claimed
  · rintro ⟨inside, claimed, best⟩
    rcases Finset.mem_insert.mp inside with rfl | old
    · split_ifs with taken
      · rfl
      · by_contra other
        refine taken ⟨claimed, other, ?_⟩
        intro o owned
        obtain ⟨seen_o, claimed_o, -⟩ := (before o).mp owned
        have bounded := best o (Finset.mem_insert_of_mem seen_o) claimed_o
        rcases Nat.lt_or_eq_of_le bounded with lower | equal
        · exact lower
        · have same := claims.distinct o (known seen_o) b master equal
          rw [owned, same] at other
          exact absurd rfl other
    · have owned := before_b.mpr ⟨old, claimed, fun c seen_c => best c (Finset.mem_insert_of_mem seen_c)⟩
      split_ifs with taken
      · have bounded := best a (Finset.mem_insert_self a seen) taken.1
        have lower := taken.2.2 b owned
        omega
      · exact owned

section

variable {s : ClusterState} {name : Addr → Name} {claims : Claims} {seen : Finset Addr}

theorem Converging.start (coherent : Coherent s) (knows : Knows s name claims) (unbound : ∀ j, s.slots.lookup j = none)
    (importing : ∀ j, s.importingSlotsFrom.lookup j = none) : Converging name claims ∅ s where
  coherent := coherent
  knows := knows
  importing := importing
  known := Finset.empty_subset _
  heard := by simp
  table := by simp [unbound, Wins]

theorem Knows.mem (knows : Knows s name claims) (master : a ∈ claims.masters) :
    a ∈ s.nodes ∧ (s.node a).name = name a :=
  lookup_mem s (knows.lookup a master)

theorem processPing_known (env : Env) (settled : (s.node sender).inHandshake = false) (epoch : Nat) {link : Option Addr}
    {hdr : Header} (named : (s.node sender).name = hdr.sender) (own : link = none ∨ link = some sender)
    (type : PingType) (gossip : List GossipEntry) : ∃ recorded : ClusterState, recorded.view = s.view ∧
      processPing env s (some sender) epoch link hdr type gossip = processKnownPing env recorded sender epoch link hdr gossip := by
  let answered := answerPing env s (some sender) link hdr type gossip
  have view : answered.view = s.view := by
    cases type with
    | pong => rfl
    | ping => exact sendPing_view env s _
    | meet => exact sendPing_view env s _
  refine ⟨recordPong env answered link type, (recordPong_view env answered link type).trans view, ?_⟩
  rcases own with rfl | rfl
  · rfl
  · have name : (answered.node sender).name = hdr.sender :=
      (congrArg (fun v : View => (v.node sender).name) view).trans named
    have settled' : (answered.node sender).inHandshake = false := (SameLinks.of_view view).inHandshake sender |>.trans settled
    change (if (answered.node sender).inHandshake = true then _ else
      if (answered.node sender).name ≠ hdr.sender then _ else _) = _
    rw [if_neg (by simp [settled']), if_neg (by simp [name])]
    rfl

theorem processPing_rebound (coherent : Coherent s) (env : Env) (inside : sender ∈ s.nodes)
    (settled : (s.node sender).inHandshake = false) (epoch : Nat) {link : Option Addr} {hdr : Header}
    (named : (s.node sender).name = hdr.sender) (own : link = none ∨ link = some sender) (master : hdr.slaveof = none)
    (type : PingType) (gossip : List GossipEntry) :
    ∃ s', processPing env s (some sender) epoch link hdr type gossip = .ok s' ∧ Coherent s' ∧ Kept s s' ∧
      ∀ j, s'.slots.lookup j = rebound s sender epoch hdr.myslots j := by
  obtain ⟨recorded, view, body⟩ := processPing_known env settled epoch named own type gossip
  have same : SameLinks s recorded := .of_view view
  obtain ⟨s', processed, kept, changes, table⟩ := processKnownPing_rebound (coherent.of_view view) env
    (by rwa [same.nodes]) (by rw [same.inHandshake, settled]) epoch link master gossip
  refine ⟨s', by rw [body, processed], kept, (Kept.of_view view).trans changes, ?_⟩
  intro j
  rw [table j]
  exact rebound_congr sender epoch hdr.myslots same.myself (congrArg View.slots view) (congrArg View.importing view)
    (fun b => congrArg (fun v : View => (v.node b).configEpoch) view) j

theorem header_configEpoch (converging : Converging name claims seen s) (master : a ∈ claims.masters)
    {hdr : Header} (epoch : hdr.configEpoch = claims.epoch a) (b : Addr) :
    ((processHeader s (some a) hdr).node b).configEpoch = if b = a then claims.epoch a else (s.node b).configEpoch := by
  have node := congrArg NodeView.configEpoch (processHeader_node a b hdr (converging.knows.settled a master))
  refine node.trans ?_
  split_ifs with here
  · subst here
    rw [epoch]
    exact max_eq_right (converging.knows.epoch b master)
  · rfl

theorem header_rebound (converging : Converging name claims seen s) (master : a ∈ claims.masters)
    {hdr : Header} (epoch : hdr.configEpoch = claims.epoch a) (slots : hdr.myslots = claims.slots a) (j : Slot) :
    rebound (processHeader s (some a) hdr) a hdr.configEpoch hdr.myslots j =
      if j ∈ claims.slots a ∧ s.slots.lookup j ≠ some a ∧ (∀ o, s.slots.lookup j = some o → claims.epoch o < claims.epoch a)
      then some a else s.slots.lookup j := by
  obtain ⟨table, importing⟩ := processHeader_tables (s := s) (some a) hdr
  have myself : a ≠ (processHeader s (some a) hdr).myself := by
    rw [(processHeader_same (some a) hdr).myself]
    exact converging.knows.other a master
  unfold rebound outdated
  simp only [table, importing, converging.importing j, slots, epoch, header_configEpoch converging master epoch]
  cases owner : s.slots.lookup j with
  | none => simp [myself]
  | some o =>
    have heard := converging.heard o ((converging.table j o).mp owner).1
    by_cases here : o = a
    · simp [here]
    · simp [here, heard, myself]

theorem Converging.step (converging : Converging name claims seen s) (master : a ∈ claims.masters)
    {arrival : Arrival} (sent : SentBy name claims a arrival) :
    ∃ s', Cluster.step arrival.env s (.packet arrival.link arrival.packet) = .ok s' ∧
      Converging name claims (insert a seen) s' ∧
      ∀ j b c, s.slots.lookup j = some b → s'.slots.lookup j = some c → b ≠ c → claims.epoch b < claims.epoch c := by
  obtain ⟨env, link, ⟨hdr, body⟩⟩ := arrival
  obtain ⟨type, gossip, rfl⟩ := sent.body
  have sender : hdr.sender = name a := sent.sender
  have epoch : hdr.configEpoch = claims.epoch a := sent.epoch
  have slots : hdr.myslots = claims.slots a := sent.slots
  have own : link = none ∨ link = some a := sent.link
  obtain ⟨inside, named⟩ := converging.knows.mem master
  have other := converging.knows.other a master
  have settled := converging.knows.settled a master
  have found : clusterLookupNode s hdr.sender = some a := by rw [sender, converging.knows.lookup a master]
  have same := processHeader_same (s := s) (some a) hdr
  obtain ⟨s', processed, kept, changes, table⟩ := processPing_rebound (processHeader_coherent converging.coherent (some a) hdr)
    env (by rwa [same.nodes]) (by rw [same.inHandshake, settled]) hdr.configEpoch
    (by rw [processHeader_name, named, sender]) own sent.master type gossip
  have table' : ∀ j, s'.slots.lookup j = _ := fun j =>
    (table j).trans (header_rebound converging master epoch slots j)
  have isOpen : linkOpen s link = true := by
    rcases own with rfl | rfl
    · rfl
    · simp [linkOpen, inside, other]
  have lookup : ∀ b ∈ claims.masters, clusterLookupNode s' (name b) = some b := by
    intro b inside
    refine changes.lookup (name b) b ?_
    rw [processHeader_lookup, converging.knows.lookup b inside]
  have kept_epoch : ∀ b ∈ claims.masters, (s'.node b).configEpoch = if b = a then claims.epoch a else (s.node b).configEpoch := by
    intro b inside
    rw [changes.configEpoch b, header_configEpoch converging master epoch]
    · rw [same.nodes]
      exact (converging.knows.mem inside).1
    · rw [same.myself]
      exact converging.knows.other b inside
  refine ⟨s', ?_, ⟨kept, ⟨lookup, ?_, ?_, ?_⟩, ?_, ?_, ?_, ?_⟩, ?_⟩
  · have trust : trusted s (some a) = true := by simp [trusted, settled]
    simp only [Cluster.step, isOpen, if_true, clusterProcessPacket, found, trust]
    exact processed
  · intro b inside
    rw [changes.myself, same.myself]
    exact converging.knows.other b inside
  · intro b inside
    rw [changes.inHandshake b (by rw [same.nodes]; exact (converging.knows.mem inside).1), same.inHandshake]
    exact converging.knows.settled b inside
  · intro b inside
    rw [kept_epoch b inside]
    split_ifs with here
    · rw [here]
    · exact converging.knows.epoch b inside
  · intro j
    refine changes.importing j ?_
    rw [(processHeader_tables (some a) hdr).2, converging.importing]
  · exact Finset.insert_subset master converging.known
  · intro b inside
    rcases Finset.mem_insert.mp inside with rfl | old
    · rw [kept_epoch b master, if_pos rfl]
    · rw [kept_epoch b (converging.known old)]
      split_ifs with here
      · rw [here]
      · exact converging.heard b old
  · intro j b
    rw [table' j]
    exact wins_insert converging.known master (converging.table j) b
  · intro j b c before after changed
    rw [table' j] at after
    split_ifs at after with taken
    · obtain rfl := Option.some.inj after
      exact taken.2.2 b before
    · rw [before] at after
      exact absurd (Option.some.inj after) changed

theorem SentBy.unique (knows : Knows s name claims) {b : Addr} (master : a ∈ claims.masters) (master' : b ∈ claims.masters)
    {arrival : Arrival} (sent : SentBy name claims a arrival) (sent' : SentBy name claims b arrival) : a = b := by
  have found := knows.lookup a master
  rw [← sent.sender, sent'.sender, knows.lookup b master'] at found
  exact (Option.some.inj found).symm

theorem Converging.run (converging : Converging name claims seen s) (arrivals : List Arrival)
    (senders : ∀ arrival ∈ arrivals, ∃ a ∈ claims.masters, SentBy name claims a arrival) :
    ∃ s' seen', Cluster.run s (arrivals.map Arrival.event) = .ok s' ∧ Converging name claims seen' s' ∧ seen ⊆ seen' ∧
      ∀ a ∈ claims.masters, (∃ arrival ∈ arrivals, SentBy name claims a arrival) → a ∈ seen' := by
  induction arrivals generalizing s seen with
  | nil => exact ⟨s, seen, rfl, converging, subset_rfl, by simp⟩
  | cons arrival rest ih =>
    obtain ⟨a, master, sent⟩ := senders arrival (by simp)
    obtain ⟨next, stepped, converging', -⟩ := converging.step master sent
    obtain ⟨s', seen', ran, final, more, heard⟩ := ih converging' fun later inside => senders later (by simp [inside])
    have here := more (Finset.mem_insert_self a seen)
    refine ⟨s', seen', ?_, final, (Finset.subset_insert a seen).trans more, ?_⟩
    · exact bind_ok.mpr ⟨next, stepped, ran⟩
    · rintro b master' ⟨other, inside, sent'⟩
      rcases mem_cons.mp inside with rfl | later
      · rwa [SentBy.unique converging.knows master' master sent' sent]
      · exact heard b master' ⟨other, later, sent'⟩

theorem slot_configuration_converges (s : ClusterState) (name : Addr → Name) (claims : Claims) (arrivals : List Arrival)
    (coherent : Coherent s) (knows : Knows s name claims) (unbound : ∀ j, s.slots.lookup j = none)
    (importing : ∀ j, s.importingSlotsFrom.lookup j = none)
    (senders : ∀ arrival ∈ arrivals, ∃ a ∈ claims.masters, SentBy name claims a arrival)
    (complete : ∀ a ∈ claims.masters, ∃ arrival ∈ arrivals, SentBy name claims a arrival) :
    (∃ s', run s (arrivals.map Arrival.event) = .ok s' ∧
      ∀ j a, s'.slots.lookup j = some a ↔ a ∈ claims.masters ∧ j ∈ claims.slots a ∧
        ∀ b ∈ claims.masters, j ∈ claims.slots b → claims.epoch b ≤ claims.epoch a) ∧
    ∀ front arrival rest, arrivals = front ++ arrival :: rest →
      ∃ before after, run s (front.map Arrival.event) = .ok before ∧
        step arrival.env before (.packet arrival.link arrival.packet) = .ok after ∧
        ∀ j b c, before.slots.lookup j = some b → after.slots.lookup j = some c → b ≠ c →
          claims.epoch b < claims.epoch c := by
  have start := Converging.start coherent knows unbound importing
  constructor
  · obtain ⟨s', seen, ran, final, -, heard⟩ := start.run arrivals senders
    have all : seen = claims.masters :=
      Finset.Subset.antisymm final.known fun a master => heard a master (complete a master)
    refine ⟨s', ran, ?_⟩
    rw [← all]
    exact final.table
  · rintro front arrival rest rfl
    obtain ⟨before, seen, ran, converging, -⟩ := start.run front fun earlier inside => senders earlier (by simp [inside])
    obtain ⟨a, master, sent⟩ := senders arrival (by simp)
    obtain ⟨after, stepped, -, rebinds⟩ := converging.step master sent
    exact ⟨before, after, ran, stepped, rebinds⟩

end

def meetBoth : List (Env × Event) :=
  [(clock 0 50, .command .meet),
   (clock 10 0, .packet (some 1) ⟨masterHeader 7 1 [3, 4], .ping .pong []⟩),
   (clock 20 51, .command .meet),
   (clock 30 0, .packet (some 2) ⟨masterHeader 8 2 [4, 5], .ping .pong []⟩)]

def knowsBoth : ClusterState := (run (ClusterState.start 1) meetBoth).toOption.getD (ClusterState.start 1)

def bothClaims : Claims where
  masters := {1, 2}
  epoch := fun a => a
  slots := fun a => if a = 1 then orderedSlots [3, 4] else orderedSlots [4, 5]
  distinct := fun _ _ _ _ same => same

def bothArrive : List Arrival :=
  [⟨clock 40 0, none, ⟨masterHeader 8 2 [4, 5], .ping .ping []⟩⟩,
   ⟨clock 50 0, some 1, ⟨masterHeader 7 1 [3, 4], .ping .pong []⟩⟩]

theorem both_masters_converge :
    Coherent knowsBoth ∧ ∃ s, run knowsBoth (bothArrive.map Arrival.event) = .ok s ∧
      s.slots.lookup 3 = some 1 ∧ s.slots.lookup 4 = some 2 ∧ s.slots.lookup 5 = some 2 ∧ s.slots.lookup 6 = none := by
  obtain ⟨s, ran, kept⟩ := run_coherent _ (start_coherent 1) meetBoth (by decide +kernel)
  have here : knowsBoth = s := by simp [knowsBoth, ran, Except.toOption]
  have coherent : Coherent knowsBoth := here ▸ kept
  have knows : Knows knowsBoth (fun a => a + 6) bothClaims :=
    ⟨by decide +kernel, by decide +kernel, by decide +kernel, by decide +kernel⟩
  have unbound : knowsBoth.slots = ∅ := AList.ext (by decide +kernel)
  have importing : knowsBoth.importingSlotsFrom = ∅ := AList.ext (by decide +kernel)
  have second : SentBy (fun a => a + 6) bothClaims 2 ⟨clock 40 0, none, ⟨masterHeader 8 2 [4, 5], .ping .ping []⟩⟩ :=
    ⟨rfl, rfl, rfl, rfl, ⟨_, _, rfl⟩, .inl rfl⟩
  have first : SentBy (fun a => a + 6) bothClaims 1 ⟨clock 50 0, some 1, ⟨masterHeader 7 1 [3, 4], .ping .pong []⟩⟩ :=
    ⟨rfl, rfl, rfl, rfl, ⟨_, _, rfl⟩, .inr rfl⟩
  obtain ⟨⟨s', ran', table⟩, -⟩ := slot_configuration_converges knowsBoth (fun a => a + 6) bothClaims bothArrive coherent knows
    (by simp [unbound]) (by simp [importing])
    (by
      intro arrival inside
      rcases mem_pair.mp inside with rfl | rfl
      · exact ⟨2, by decide, second⟩
      · exact ⟨1, by decide, first⟩)
    (by
      intro a master
      rcases Finset.mem_insert.mp master with rfl | last
      · exact ⟨_, mem_cons_of_mem _ (mem_singleton_self _), first⟩
      · obtain rfl := Finset.mem_singleton.mp last
        exact ⟨_, mem_cons_self, second⟩)
  refine ⟨coherent, s', ran', (table 3 1).mpr (by decide), (table 4 2).mpr (by decide), (table 5 2).mpr (by decide), ?_⟩
  rw [Option.eq_none_iff_forall_ne_some]
  intro a bound
  have claimed := (table 6 a).mp bound
  have unclaimed : ∀ a ∈ bothClaims.masters, (6 : Slot) ∉ bothClaims.slots a := by decide
  exact unclaimed a claimed.1 claimed.2.1

-- A replica whose master was removed has no master to compare the owners with.
theorem lost_master_never_converges : ((run (ClusterState.start 1) (meetMaster ++ loseMaster)).toOption.map fun s =>
      (s.slots.entries, s.importingSlotsFrom.entries, clusterLookupNode s 7, (s.node 1).inHandshake)) =
        some ([], [], some 1, false) ∧
    fault (run (ClusterState.start 1) (meetMaster ++ loseMaster ++
      [(clock 20010 0, .packet none ⟨masterHeader 7 1 [3], .ping .ping []⟩)])) = some .nullDereference := by
  decide +kernel

end RedisCore.Cluster
