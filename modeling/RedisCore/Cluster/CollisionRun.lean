import RedisCore.Cluster.Convergence
import RedisCore.Cluster.SingleWinner
import RedisCore.Lib.Cascade

set_option autoImplicit false

namespace RedisCore.Collision

open Election Lib List Function

variable {Id : Type} [LinearOrder Id]

-- The epochs a master keeps: server.cluster->currentEpoch, its own configEpoch, and those it knows of the others.
structure MasterEpochs (Id : Type) where
  currentEpoch : Nat
  configEpoch : Nat
  known : Id → Nat

structure EpochPacket (Id : Type) where
  sender : Id
  currentEpoch : Nat
  configEpoch : Nat
  deriving DecidableEq

section

variable (me : Id) (n : MasterEpochs Id) (p : EpochPacket Id)

def heard : MasterEpochs Id :=
  { n with
    currentEpoch := max n.currentEpoch p.currentEpoch
    known := Function.update n.known p.sender (max (n.known p.sender) p.configEpoch) }

-- The test of clusterProcessPacket and those of clusterHandleConfigEpochCollision, between masters.
def collides : Bool := p.configEpoch = n.configEpoch && n.known p.sender = n.configEpoch && me < p.sender

def takeNewEpoch : MasterEpochs Id :=
  { n with currentEpoch := epochSucc n.currentEpoch, configEpoch := epochSucc n.currentEpoch }

def clusterHandleConfigEpochCollision : MasterEpochs Id := if collides me n p then takeNewEpoch n else n

def receive : MasterEpochs Id := clusterHandleConfigEpochCollision me (heard n p) p

end

section

open RedisCore.Cluster

variable (s : ClusterState) (address : Id → Addr)

def epochsOf : MasterEpochs Id :=
  ⟨s.currentEpoch, (s.node s.myself).configEpoch, fun j => (s.node (address j)).configEpoch⟩

variable {s address} (distinct : Injective address) {me : Id} (mine : s.myself = address me)

section

variable {p : EpochPacket Id} (other : p.sender ≠ me) (masters : ∀ i, (s.node (address i)).isMaster = true)
  (named : ∀ i j, (s.node (address i)).name < (s.node (address j)).name ↔ i < j)

include distinct mine other masters named in
theorem checkCollision_epochs :
    (checkCollision s (address p.sender) p.configEpoch).currentEpoch =
        (clusterHandleConfigEpochCollision me (epochsOf s address) p).currentEpoch ∧
      ∀ i, ((checkCollision s (address p.sender) p.configEpoch).node (address i)).configEpoch =
        if i = me then (clusterHandleConfigEpochCollision me (epochsOf s address) p).configEpoch
        else (clusterHandleConfigEpochCollision me (epochsOf s address) p).known i := by
  have apart : address p.sender ≠ address me := distinct.ne other
  have order := named me p.sender
  have here := masters me
  have there := masters p.sender
  clear named masters
  unfold checkCollision Collision.clusterHandleConfigEpochCollision
  simp only [Cluster.clusterHandleConfigEpochCollision, Cluster.takeNewEpoch, setConfigEpoch, generateEpoch,
    ClusterState.modify, collides, epochsOf, takeNewEpoch, mine]
  refine ⟨?_, fun i => ?_⟩
  · split_ifs <;> grind
  · have toMe : address i = address me ↔ i = me := distinct.eq_iff
    split_ifs <;> grind

end

variable {j : Id} (other : j ≠ me) {hdr : Cluster.Header} (settled : (s.node (address j)).inHandshake = false)

include distinct mine other settled in
theorem epochsOf_heard {t : ClusterState} (view : t.view = (processHeader s (some (address j)) hdr).view) :
    epochsOf t address = heard (epochsOf s address) ⟨j, hdr.currentEpoch, hdr.configEpoch⟩ := by
  have raised : t.view = (raiseConfigEpoch (raiseCurrentEpoch s hdr.currentEpoch) (address j) hdr.configEpoch).view := by
    simpa only [processHeader, settled, Bool.false_eq_true, if_false, recordOffset_view] using view
  have current : t.currentEpoch = max s.currentEpoch hdr.currentEpoch := by
    refine (congrArg View.currentEpoch raised).trans ?_
    unfold raiseConfigEpoch
    split <;> rfl
  have config : ∀ a, (t.node a).configEpoch =
      if a = address j then max (s.node a).configEpoch hdr.configEpoch else (s.node a).configEpoch := by
    intro a
    refine (congrArg (fun v : View => (v.node a).configEpoch) view).trans ?_
    refine (congrArg NodeView.configEpoch (processHeader_node (address j) a hdr settled)).trans ?_
    split <;> rfl
  have myself : t.myself = address me :=
    (congrArg View.myself view).trans ((processHeader_same (some (address j)) hdr).myself.trans mine)
  have known : (fun i => (t.node (address i)).configEpoch) =
      update (fun i => (s.node (address i)).configEpoch) j (max (s.node (address j)).configEpoch hdr.configEpoch) := by
    funext i
    rw [config, update_apply]
    by_cases sender : i = j
    · subst sender
      rw [if_pos rfl, if_pos rfl]
    · rw [if_neg (distinct.ne sender), if_neg sender]
  have unchanged : (t.node (address me)).configEpoch = (s.node (address me)).configEpoch := by
    rw [config, if_neg (distinct.ne other.symm)]
  simp only [epochsOf, heard, current, myself, mine, unchanged, known]

include distinct mine other settled in
/-- Between masters that agree on the slots, a packet does to the epochs of the whole node what `receive` does. -/
theorem clusterProcessPacket_receive (coherent : Coherent s) (masters : ∀ i, (s.node (address i)).isMaster = true)
    (named : ∀ i j, (s.node (address i)).name < (s.node (address j)).name ↔ i < j) (inside : ∀ i, address i ∈ s.nodes)
    (env : Env) {link : Option Addr} (own : link = none ∨ link = some (address j))
    (found : clusterLookupNode s hdr.sender = some (address j)) (master : hdr.slaveof = none)
    (slots : (s.node (address j)).slots = hdr.myslots) (type : PingType) (gossip : List GossipEntry) :
    ∃ s', Cluster.clusterProcessPacket env s link ⟨hdr, .ping type gossip⟩ = .ok s' ∧
      s'.currentEpoch = (receive me (epochsOf s address) ⟨j, hdr.currentEpoch, hdr.configEpoch⟩).currentEpoch ∧
      ∀ i, (s'.node (address i)).configEpoch =
        if i = me then (receive me (epochsOf s address) ⟨j, hdr.currentEpoch, hdr.configEpoch⟩).configEpoch
        else (receive me (epochsOf s address) ⟨j, hdr.currentEpoch, hdr.configEpoch⟩).known i := by
  have header := processHeader_same (s := s) (some (address j)) hdr
  have name := processHeader_name (s := s) (some (address j)) hdr
  obtain ⟨recorded, view, body⟩ := processPing_known env ((header.inHandshake _).trans settled) hdr.configEpoch
    ((name _).trans (lookup_mem s found).2) own type gossip
  have same := header.trans (.of_view view)
  have masters' : ∀ i, (recorded.node (address i)).isMaster = true := fun i => (same.isMaster _).trans (masters i)
  have names : ∀ a, (recorded.node a).name = (s.node a).name :=
    fun a => (congrArg (fun v : View => (v.node a).name) view).trans (name a)
  have bitmap : (recorded.node (address j)).slots = hdr.myslots := by
    have node := processHeader_node (address j) (address j) hdr settled
    rw [if_pos rfl] at node
    exact (congrArg (fun v : View => (v.node (address j)).slots) view).trans ((congrArg NodeView.slots node).trans slots)
  have role : updateRole recorded (address j) hdr = .ok recorded := by
    simp [updateRole, master, clusterSetNodeAsMaster, masters']
  have clean : updateSlots env recorded (address j) hdr.configEpoch hdr = .ok recorded := by
    simp [updateSlots, dirtySlots, senderMaster, masters', bitmap, pure, Except.pure]
  have checked := collision_coherent ((processHeader_coherent coherent (some (address j)) hdr).of_view view)
    (address j) hdr.configEpoch
  obtain ⟨-, extended⟩ := gossip_extends checked.links env link hdr.sender gossip
  have stays := collision_kept (s := recorded) (address j) hdr.configEpoch
  obtain ⟨current, config⟩ := checkCollision_epochs (p := ⟨j, hdr.currentEpoch, hdr.configEpoch⟩) distinct
    (same.myself.trans mine) other masters' (by simpa only [names] using named)
  rw [epochsOf_heard distinct mine other settled view] at current config
  refine ⟨_, ?_, extended.currentEpoch.trans current, fun i => ?_⟩
  · rw [Cluster.clusterProcessPacket, found]
    simp only [trusted, settled, Bool.not_false, if_true, body]
    exact (processKnownPing_ok env _ _ _ _ _ _).mpr ⟨_, _, role, clean, rfl⟩
  · exact (congrArg NodeView.configEpoch (extended.old _ (stays.mem (same.nodes ▸ inside i)))).trans (config i)

end

structure Change (Id : Type) where
  node : Id
  packet : EpochPacket Id
  epoch : Nat

-- Packets stay in the network, so that they can be received late, in any order and again.
structure Masters (Id : Type) where
  node : Id → MasterEpochs Id
  packets : List (EpochPacket Id)
  received : List (Id × EpochPacket Id)
  changes : List (Change Id)

inductive Event (Id : Type) where
  | send (sender : Id)
  | deliver (receiver : Id) (packet : EpochPacket Id)

def packetOf (m : Masters Id) (i : Id) : EpochPacket Id := ⟨i, (m.node i).currentEpoch, (m.node i).configEpoch⟩

def deliver (m : Masters Id) (i : Id) (p : EpochPacket Id) : Masters Id :=
  { m with
    node := update m.node i (receive i (m.node i) p)
    received := m.received ++ [(i, p)]
    changes := if collides i (heard (m.node i) p) p then m.changes ++ [⟨i, p, (receive i (m.node i) p).configEpoch⟩] else m.changes }

def step (m : Masters Id) : Event Id → Masters Id
  | .send i => { m with packets := m.packets ++ [packetOf m i] }
  | .deliver i p => if p ∈ m.packets ∧ p.sender ≠ i then deliver m i p else m

def run (m : Masters Id) (events : List (Event Id)) : Masters Id := events.foldl step m

-- A master that is about to take a new epoch for this packet has not reached the last one.
def roomy (m : Masters Id) : Event Id → Bool
  | .send _ => true
  | .deliver i p =>
    !decide (p ∈ m.packets ∧ p.sender ≠ i ∧ collides i (heard (m.node i) p) p) ||
      max (m.node i).currentEpoch p.currentEpoch + 1 < 2 ^ 64

def changesOf (m : Masters Id) (i : Id) : List (Change Id) := m.changes.filter (·.node = i)

-- The epochs of j that packets can carry: those in flight at the start, and those j had since.
def carried (start m : Masters Id) (j : Id) : List Nat :=
  (start.packets.filter (·.sender = j)).map (·.configEpoch) ++ (start.node j).configEpoch :: (changesOf m j).map (·.epoch)

structure Ordered (m : Masters Id) : Prop where
  own : ∀ i, (m.node i).configEpoch ≤ (m.node i).currentEpoch
  known : ∀ i j, i ≠ j → (m.node i).known j ≤ (m.node j).configEpoch
  sent : ∀ p ∈ m.packets, p.configEpoch ≤ p.currentEpoch ∧ p.configEpoch ≤ (m.node p.sender).configEpoch

structure Settled (m : Masters Id) : Prop where
  seen : ∀ r ∈ m.received, r.2 ∈ m.packets ∧ r.2.configEpoch ≤ (m.node r.1).currentEpoch
  resolved : ∀ r ∈ m.received, r.1 < r.2.sender →
    (m.node r.1).configEpoch ≠ r.2.configEpoch ∨ r.2.configEpoch < (m.node r.2.sender).configEpoch

structure Accounted (start m : Masters Id) : Prop where
  upward : ∀ c ∈ m.changes, c.node < c.packet.sender ∧ c.packet.configEpoch < (m.node c.node).configEpoch
  distinct : ∀ i, ((changesOf m i).map (·.packet.configEpoch)).Nodup
  caused : ∀ c ∈ m.changes, c.packet.configEpoch ∈ carried start m c.packet.sender
  sent : ∀ p ∈ m.packets, p.configEpoch ∈ carried start m p.sender
  held : ∀ i, (m.node i).configEpoch ∈ carried start m i

section

variable [Fintype Id] {start m : Masters Id}

omit [Fintype Id] in
theorem length_carried (start m : Masters Id) (j : Id) :
    (carried start m j).length ≤ start.packets.length + 1 + (changesOf m j).length := by
  have some := length_filter_le (fun p : EpochPacket Id => decide (p.sender = j)) start.packets
  simp only [carried, length_append, length_map, length_cons]
  omega

-- Each change of k is made for an epoch of a greater master that no other change of k was made for.
theorem changesOf_le (accounted : Accounted start m) (k : Id) :
    (changesOf m k).length ≤ ∑ j ∈ Finset.univ.filter (k < ·), (start.packets.length + 1 + (changesOf m j).length) := by
  let cause : Change Id → (_ : Id) × Nat := fun c => ⟨c.packet.sender, c.packet.configEpoch⟩
  have distinct : ((changesOf m k).map cause).Nodup := by
    refine List.Nodup.of_map Sigma.snd ?_
    rw [map_map]
    exact accounted.distinct k
  have inside : ((changesOf m k).map cause).toFinset ⊆
      (Finset.univ.filter (k < ·)).sigma fun j => (carried start m j).toFinset := by
    intro x member
    obtain ⟨c, change, rfl⟩ := mem_map.mp (mem_toFinset.mp member)
    obtain ⟨change, mine⟩ := mem_filter.mp change
    rw [Finset.mem_sigma, Finset.mem_filter, mem_toFinset]
    exact ⟨⟨Finset.mem_univ _, of_decide_eq_true mine ▸ (accounted.upward c change).1⟩, accounted.caused c change⟩
  calc (changesOf m k).length = ((changesOf m k).map cause).toFinset.card := by
        rw [toFinset_card_of_nodup distinct, length_map]
    _ ≤ ∑ j ∈ Finset.univ.filter (k < ·), (carried start m j).toFinset.card := by
        rw [← Finset.card_sigma]
        exact Finset.card_le_card inside
    _ ≤ _ := Finset.sum_le_sum fun j _ => (toFinset_card_le _).trans (length_carried start m j)

theorem sum_changesOf (m : Masters Id) : ∑ i, (changesOf m i).length = m.changes.length := by
  unfold changesOf
  induction m.changes with
  | nil => simp
  | cons c rest ih =>
    have one : ∀ i, ((c :: rest).filter fun c => decide (c.node = i)).length =
        (if c.node = i then 1 else 0) + (rest.filter fun c => decide (c.node = i)).length := by
      intro i
      by_cases here : c.node = i <;> simp [here, Nat.add_comm]
    simp only [one, Finset.sum_add_distrib, ih, Finset.sum_ite_eq, Finset.mem_univ, if_true, length_cons]
    omega

theorem changes_lt (accounted : Accounted start m) :
    m.changes.length < (start.packets.length + 1) * 2 ^ Fintype.card Id := by
  rw [← sum_changesOf]
  exact Cascade.total_lt _ (Nat.succ_pos _) (changesOf_le accounted)

end

section

variable {start m : Masters Id} {i : Id} {p : EpochPacket Id}

theorem collides_iff (n : MasterEpochs Id) : collides i (heard n p) p = true ↔
    p.configEpoch = n.configEpoch ∧ n.known p.sender ≤ n.configEpoch ∧ i < p.sender := by
  simp only [collides, Bool.and_eq_true, decide_eq_true_eq]
  simp only [heard, update_self]
  constructor
  · rintro ⟨⟨same, known⟩, lower⟩
    exact ⟨same, known ▸ le_max_left _ _, lower⟩
  · rintro ⟨same, known, lower⟩
    exact ⟨⟨same, same ▸ max_eq_right (same ▸ known)⟩, lower⟩

structure Delivered (m m' : Masters Id) (i : Id) (p : EpochPacket Id) : Prop where
  packets : m'.packets = m.packets
  received : m'.received = m.received ++ [(i, p)]
  known : ∀ a j, (m'.node a).known j ≤ max ((m.node a).known j) (if a = i ∧ j = p.sender then p.configEpoch else 0)
  others : ∀ a, a ≠ i → (m'.node a).configEpoch = (m.node a).configEpoch ∧ (m'.node a).currentEpoch = (m.node a).currentEpoch

theorem deliver_delivered (m : Masters Id) (i : Id) (p : EpochPacket Id) : Delivered m (deliver m i p) i p where
  packets := rfl
  received := rfl
  known := by
    intro a j
    by_cases here : a = i
    · subst here
      have known : ((deliver m a p).node a).known = (heard (m.node a) p).known := by
        simp only [deliver, update_self, receive, clusterHandleConfigEpochCollision]
        split_ifs <;> rfl
      rw [known]
      by_cases sender : j = p.sender
      · simp [heard, sender]
      · simp [heard, sender]
    · simp [deliver, here]
  others := by
    intro a other
    simp [deliver, other]

theorem deliver_quiet (quiet : collides i (heard (m.node i) p) p = false) :
    ((deliver m i p).node i).configEpoch = (m.node i).configEpoch ∧
      ((deliver m i p).node i).currentEpoch = max (m.node i).currentEpoch p.currentEpoch ∧ (deliver m i p).changes = m.changes := by
  have same : receive i (m.node i) p = heard (m.node i) p := by simp [receive, clusterHandleConfigEpochCollision, quiet]
  simp only [deliver, update_self, same, quiet, Bool.false_eq_true, if_false, and_true]
  exact ⟨rfl, rfl⟩

theorem deliver_config (quiet : collides i (heard (m.node i) p) p = false) (a : Id) :
    ((deliver m i p).node a).configEpoch = (m.node a).configEpoch := by
  by_cases here : a = i
  · exact here ▸ (deliver_quiet quiet).1
  · exact ((deliver_delivered m i p).others a here).1

theorem deliver_collision (collision : collides i (heard (m.node i) p) p = true)
    (room : collides i (heard (m.node i) p) p = true → max (m.node i).currentEpoch p.currentEpoch + 1 < 2 ^ 64) :
    ((deliver m i p).node i).configEpoch = max (m.node i).currentEpoch p.currentEpoch + 1 ∧
      ((deliver m i p).node i).currentEpoch = max (m.node i).currentEpoch p.currentEpoch + 1 ∧
      (deliver m i p).changes = m.changes ++ [⟨i, p, max (m.node i).currentEpoch p.currentEpoch + 1⟩] := by
  have new : receive i (m.node i) p = takeNewEpoch (heard (m.node i) p) := by
    simp [receive, clusterHandleConfigEpochCollision, collision]
  have next : epochSucc (heard (m.node i) p).currentEpoch = max (m.node i).currentEpoch p.currentEpoch + 1 :=
    epochSucc_of_lt (room collision)
  simp only [deliver, update_self, new, collision, if_true, takeNewEpoch, next, true_and]

theorem deliver_grows (ordered : Ordered m) (room : collides i (heard (m.node i) p) p = true → max (m.node i).currentEpoch p.currentEpoch + 1 < 2 ^ 64) (a : Id) :
    (m.node a).configEpoch ≤ ((deliver m i p).node a).configEpoch ∧
      (m.node a).currentEpoch ≤ ((deliver m i p).node a).currentEpoch := by
  by_cases here : a = i
  · subst here
    have own := ordered.own a
    cases collision : collides a (heard (m.node a) p) p with
    | false =>
      obtain ⟨config, current, -⟩ := deliver_quiet collision
      omega
    | true =>
      obtain ⟨config, current, -⟩ := deliver_collision collision room
      omega
  · obtain ⟨config, current⟩ := (deliver_delivered m i p).others a here
    exact ⟨config.ge, current.ge⟩

section

variable (ordered : Ordered m) (inside : p ∈ m.packets) (other : p.sender ≠ i)
  (room : collides i (heard (m.node i) p) p = true → max (m.node i).currentEpoch p.currentEpoch + 1 < 2 ^ 64)

include ordered inside other room in
theorem deliver_ordered : Ordered (deliver m i p) where
  own := by
    intro a
    by_cases here : a = i
    · subst here
      have own := ordered.own a
      cases collision : collides a (heard (m.node a) p) p with
      | false =>
        obtain ⟨config, current, -⟩ := deliver_quiet collision
        omega
      | true =>
        obtain ⟨config, current, -⟩ := deliver_collision collision room
        omega
    · obtain ⟨config, current⟩ := (deliver_delivered m i p).others a here
      rw [config, current]
      exact ordered.own a
  known := by
    intro a j apart
    have known := (deliver_delivered m i p).known a j
    have before := ordered.known a j apart
    have grown := (deliver_grows ordered room j).1
    split_ifs at known with sender
    · have sent := (ordered.sent p inside).2
      rw [← sender.2] at sent
      omega
    · omega
  sent := by
    intro q sent
    exact ⟨(ordered.sent q sent).1, (ordered.sent q sent).2.trans (deliver_grows ordered room _).1⟩

include ordered inside other room in
theorem deliver_settled (settled : Settled m) : Settled (deliver m i p) where
  seen := by
    intro r member
    obtain old | new := mem_append.mp member
    · exact ⟨(settled.seen r old).1, (settled.seen r old).2.trans (deliver_grows ordered room _).2⟩
    · obtain rfl := mem_singleton.mp new
      have sent := (ordered.sent p inside).1
      refine ⟨inside, sent.trans ?_⟩
      cases collision : collides i (heard (m.node i) p) p with
      | false => exact (deliver_quiet collision).2.1 ▸ le_max_right _ _
      | true => exact (deliver_collision collision room).2.1 ▸ (le_max_right _ _).trans (Nat.le_succ _)
  resolved := by
    intro r member lower
    have others := (deliver_delivered m i p).others
    obtain old | new := mem_append.mp member
    · obtain ⟨sent, current⟩ := settled.seen r old
      have before := settled.resolved r old lower
      have sender := (ordered.sent _ sent).2
      have own := ordered.own i
      cases collision : collides i (heard (m.node i) p) p with
      | false =>
        rwa [deliver_config collision, deliver_config collision]
      | true =>
        have config := (deliver_collision collision room).1
        by_cases here : r.1 = i
        · rw [here] at current ⊢
          exact .inl (by omega)
        · by_cases there : r.2.sender = i
          · rw [there] at sender ⊢
            exact .inr (by omega)
          · rwa [(others _ here).1, (others _ there).1]
    · obtain rfl := mem_singleton.mp new
      have sent := ordered.sent p inside
      cases collision : collides i (heard (m.node i) p) p with
      | false =>
        have config := (deliver_quiet collision).1
        have quiet := mt (collides_iff (m.node i)).mpr (collision ▸ Bool.false_ne_true)
        have known := ordered.known i p.sender other.symm
        by_cases same : p.configEpoch = (m.node i).configEpoch
        · have ahead : ¬(m.node i).known p.sender ≤ (m.node i).configEpoch := fun le => quiet ⟨same, le, lower⟩
          have sender := (others _ other).1
          exact .inr (by simp only; omega)
        · exact .inl (by simp only; omega)
      | true =>
        have config := (deliver_collision collision room).1
        exact .inl (by simp only; omega)

theorem mem_carried_append {m' : Masters Id} {more : List (Change Id)} (changes : m'.changes = m.changes ++ more) (j : Id)
    (epoch : Nat) (member : epoch ∈ carried start m j) : epoch ∈ carried start m' j := by
  simp only [carried, changesOf, changes, filter_append, map_append, mem_append, mem_cons] at member ⊢
  tauto

include ordered inside room in
theorem deliver_accounted (accounted : Accounted start m) : Accounted start (deliver m i p) := by
  cases collision : collides i (heard (m.node i) p) p with
  | false =>
    have config := deliver_config collision
    have changes := (deliver_quiet collision).2.2
    have same : ∀ j, carried start (deliver m i p) j = carried start m j := fun j => by simp only [carried, changesOf, changes]
    refine ⟨?_, ?_, ?_, ?_, ?_⟩
    · simp only [changes, config]
      exact accounted.upward
    · simp only [changesOf, changes]
      exact accounted.distinct
    · simp only [changes, same]
      exact accounted.caused
    · simp only [same]
      exact accounted.sent
    · simp only [config, same]
      exact accounted.held
  | true =>
    obtain ⟨config, -, changes⟩ := deliver_collision collision room
    obtain ⟨mine, -, lower⟩ := (collides_iff (m.node i)).mp collision
    have own := ordered.own i
    have kept : ∀ j epoch, epoch ∈ carried start m j → epoch ∈ carried start (deliver m i p) j :=
      mem_carried_append changes
    refine ⟨?_, ?_, ?_, fun q sent => kept _ _ (accounted.sent q sent), ?_⟩
    · intro c change
      rw [changes] at change
      obtain old | new := mem_append.mp change
      · have before := accounted.upward c old
        exact ⟨before.1, before.2.trans_le (deliver_grows ordered room _).1⟩
      · obtain rfl := mem_singleton.mp new
        exact ⟨lower, by simp only; omega⟩
    · intro a
      simp only [changesOf, changes, filter_append, map_append]
      refine List.Nodup.append (accounted.distinct a) (((nodup_singleton _).filter _).map_on ?_) ?_
      · simp
      · intro epoch before after
        obtain ⟨c, old, rfl⟩ := mem_map.mp before
        obtain ⟨d, new, same⟩ := mem_map.mp after
        obtain ⟨old, here⟩ := mem_filter.mp old
        obtain ⟨new, there⟩ := mem_filter.mp new
        obtain rfl := mem_singleton.mp new
        have past := (accounted.upward c old).2
        rw [of_decide_eq_true here, ← of_decide_eq_true there] at past
        simp only at same past
        omega
    · intro c change
      rw [changes] at change
      obtain old | new := mem_append.mp change
      · exact kept _ _ (accounted.caused c old)
      · obtain rfl := mem_singleton.mp new
        exact kept _ _ (accounted.sent p inside)
    · intro a
      by_cases here : a = i
      · subst here
        rw [config]
        simp [carried, changesOf, changes]
      · rw [((deliver_delivered m i p).others a here).1]
        exact kept _ _ (accounted.held a)

end

end

structure Invariant (start m : Masters Id) : Prop where
  ordered : Ordered m
  settled : Settled m
  accounted : Accounted start m

section

variable {start m : Masters Id}

theorem send_invariant (invariant : Invariant start m) (i : Id) : Invariant start (step m (.send i)) := by
  obtain ⟨ordered, settled, accounted⟩ := invariant
  refine ⟨⟨ordered.own, ordered.known, ?_⟩, ⟨?_, settled.resolved⟩,
    ⟨accounted.upward, accounted.distinct, accounted.caused, ?_, accounted.held⟩⟩
  · intro p member
    obtain old | new := mem_append.mp member
    · exact ordered.sent p old
    · obtain rfl := mem_singleton.mp new
      exact ⟨ordered.own i, le_refl _⟩
  · intro r member
    obtain ⟨sent, current⟩ := settled.seen r member
    exact ⟨mem_append_left _ sent, current⟩
  · intro p member
    obtain old | new := mem_append.mp member
    · exact accounted.sent p old
    · obtain rfl := mem_singleton.mp new
      exact accounted.held i

theorem step_invariant (invariant : Invariant start m) (event : Event Id) (room : roomy m event = true) :
    Invariant start (step m event) := by
  cases event with
  | send i => exact send_invariant invariant i
  | deliver i p =>
    simp only [step]
    split_ifs with possible
    · obtain ⟨inside, other⟩ := possible
      have next : collides i (heard (m.node i) p) p = true → max (m.node i).currentEpoch p.currentEpoch + 1 < 2 ^ 64 := by
        intro collision
        simpa [roomy, inside, other, collision] using room
      exact ⟨deliver_ordered invariant.ordered inside other next, deliver_settled invariant.ordered inside other next invariant.settled,
        deliver_accounted invariant.ordered inside next invariant.accounted⟩
    · exact invariant

theorem run_invariant (events : List (Event Id)) (room : allSteps step roomy m events = true) (invariant : Invariant start m) :
    Invariant start (run m events) :=
  foldl_guarded (P := Invariant start) (fun _ event invariant room => step_invariant invariant event room) events m invariant room

end

theorem start_invariant {start : Masters Id} (ordered : Ordered start) (received : start.received = [])
    (changes : start.changes = []) : Invariant start start := by
  refine ⟨ordered, ⟨?_, ?_⟩, ⟨?_, ?_, ?_, ?_, ?_⟩⟩
  · simp [received]
  · simp [received]
  · simp [changes]
  · simp [changesOf, changes]
  · simp [changes]
  · intro p member
    exact mem_append_left _ (mem_map_of_mem (mem_filter.mpr ⟨member, decide_eq_true rfl⟩))
  · intro i
    exact mem_append_right _ mem_cons_self

theorem step_greatest (m : Masters Id) (event : Event Id) {i : Id} (greatest : ∀ j, j ≤ i) :
    ((step m event).node i).configEpoch = (m.node i).configEpoch := by
  cases event with
  | send _ => rfl
  | deliver j p =>
    simp only [step]
    split_ifs
    · by_cases here : i = j
      · subst here
        have quiet : collides i (heard (m.node i) p) p = false :=
          Bool.eq_false_iff.mpr fun collision => absurd ((collides_iff _).mp collision).2.2 (not_lt.mpr (greatest _))
        exact deliver_config quiet i
      · exact ((deliver_delivered m j p).others i here).1
    · rfl

theorem run_greatest (m : Masters Id) (events : List (Event Id)) (i : Id) (greatest : ∀ j, j ≤ i) :
    ((run m events).node i).configEpoch = (m.node i).configEpoch := by
  induction events generalizing m with
  | nil => rfl
  | cons event rest ih => exact (ih (step m event)).trans (step_greatest m event greatest)

def Informed (m : Masters Id) : Prop :=
  ∀ i j, i ≠ j → ∃ r ∈ m.received, r.1 = i ∧ r.2.sender = j ∧ r.2.configEpoch = (m.node j).configEpoch

theorem informed_distinct {m : Masters Id} (settled : Settled m) (informed : Informed m) {i j : Id} (lower : i < j) :
    (m.node i).configEpoch ≠ (m.node j).configEpoch := by
  obtain ⟨r, member, rfl, rfl, final⟩ := informed i j lower.ne
  obtain apart | later := settled.resolved r member lower
  · exact final ▸ apart
  · exact absurd later (final ▸ lt_irrefl _)

/-- While no collision takes an epoch past 64 bits, collisions are resolved in a number of changes that no order of packets
exceeds. -/
theorem collisions_resolve [Fintype Id] (start : Masters Id) (ordered : Ordered start) (received : start.received = [])
    (changes : start.changes = []) (events : List (Event Id)) (room : allSteps step roomy start events = true) :
    (run start events).changes.length < (start.packets.length + 1) * 2 ^ Fintype.card Id ∧
      (∀ i, (∀ j, j ≤ i) → ((run start events).node i).configEpoch = (start.node i).configEpoch) ∧
      (Informed (run start events) →
        ∀ i j, i ≠ j → ((run start events).node i).configEpoch ≠ ((run start events).node j).configEpoch) := by
  have invariant := run_invariant events room (start_invariant ordered received changes)
  refine ⟨changes_lt invariant.accounted, run_greatest start events, ?_⟩
  intro informed i j apart
  obtain lower | greater := lt_or_gt_of_ne apart
  · exact informed_distinct invariant.settled informed lower
  · exact (informed_distinct invariant.settled informed greater).symm

def threeMasters (epoch : Nat) : Masters (Fin 3) := ⟨fun _ => ⟨epoch, epoch, fun _ => epoch⟩, [], [], []⟩

-- The two lower masters move on when they hear of the greatest one, at the same time.
def bothMove (epoch next : Nat) : List (Event (Fin 3)) :=
  [.send 2, .deliver 0 ⟨2, epoch, epoch⟩, .deliver 1 ⟨2, epoch, epoch⟩, .send 0, .send 1,
    .deliver 0 ⟨1, next, next⟩, .deliver 1 ⟨0, next, next⟩, .deliver 2 ⟨0, next, next⟩, .deliver 2 ⟨1, next, next⟩]

def movesApart : List (Event (Fin 3)) := bothMove 0 1 ++ [.send 0, .deliver 1 ⟨0, 2, 2⟩, .deliver 2 ⟨0, 2, 2⟩]

theorem collisions_resolve_three : allSteps step roomy (threeMasters 0) movesApart = true ∧ Informed (run (threeMasters 0) movesApart) ∧
    ∀ i j, i ≠ j → ((run (threeMasters 0) movesApart).node i).configEpoch ≠ ((run (threeMasters 0) movesApart).node j).configEpoch := by
  have informed : Informed (run (threeMasters 0) movesApart) := by
    unfold Informed
    decide +kernel
  have room : allSteps step roomy (threeMasters 0) movesApart = true := by decide +kernel
  have settles := collisions_resolve (threeMasters 0)
    ⟨fun _ => le_refl _, fun _ _ _ => le_refl _, fun p member => absurd member not_mem_nil⟩ rfl rfl movesApart room
  exact ⟨room, informed, settles.2.2 informed⟩

/-- At the last epoch both move to 0, and each still holds the other's old epoch for its latest. -/
theorem collision_unnoticed : Ordered (threeMasters (2 ^ 64 - 1)) ∧
    Informed (run (threeMasters (2 ^ 64 - 1)) (bothMove (2 ^ 64 - 1) 0)) ∧
    ((run (threeMasters (2 ^ 64 - 1)) (bothMove (2 ^ 64 - 1) 0)).node 0).configEpoch =
      ((run (threeMasters (2 ^ 64 - 1)) (bothMove (2 ^ 64 - 1) 0)).node 1).configEpoch := by
  refine ⟨⟨fun _ => le_refl _, fun _ _ _ => le_refl _, fun p member => absurd member not_mem_nil⟩, ?_, ?_⟩
  · unfold Informed
    decide +kernel
  · decide +kernel

end RedisCore.Collision
