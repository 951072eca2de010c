import RedisCore.Cluster.Packets

set_option autoImplicit false

namespace RedisCore.Cluster

open Lib

inductive Reply where
  | ok
  | status (text : String)
  | error (text : String)

inductive SetSlotAction where
  | migrating (node : Name)
  | importing (node : Name)
  | stable
  | node (node : Name)

inductive FailoverOption where
  | none
  | force
  | takeover
  deriving DecidableEq

inductive Command where
  | meet
  | flushslots
  | addslots (slots : List Slot)
  | delslots (slots : List Slot)
  | setslot (slot : Slot) (action : SetSlotAction)
  | bumpepoch
  | forget (node : Name)
  | replicate (node : Name)
  | failover (option : FailoverOption)
  | setConfigEpoch (epoch : Nat)
  | reset (hard : Bool)

abbrev Result := Except Fault (ClusterState × Reply)

section

variable (env : Env) (s : ClusterState)

def reject (text : String) : Result := .ok (s, .error text)

def accept : Result := .ok (s, .ok)

-- The first slot that ADDSLOTS or DELSLOTS complains about, with the complaint.
def slotError (del : Bool) : List Slot → List Slot → Option String
  | _, [] => none
  | seen, slot :: rest =>
    let number := toString slot.val
    if del && (s.slots.lookup slot).isNone then some ("Slot " ++ number ++ " is already unassigned")
    else if !del && (s.slots.lookup slot).isSome then some ("Slot " ++ number ++ " is already busy")
    else if slot ∈ seen then some ("Slot " ++ number ++ " specified multiple times")
    else slotError del (slot :: seen) rest

def assignSlot (del : Bool) (s : ClusterState) (slot : Slot) : Except Fault ClusterState :=
  let s := { s with importingSlotsFrom := s.importingSlotsFrom.erase slot }
  if del then
    if (s.slots.lookup slot).isSome then clusterDelSlot s slot else .error .assertion
  else if (s.slots.lookup slot).isSome then .error .assertion
  else .ok (clusterAddSlot s s.myself slot)

def orderedSlots (slots : List Slot) : Bitmap := slots.foldr SortedSet.insert SortedSet.empty

def addOrDelSlots (del : Bool) (slots : List Slot) : Result :=
  match slotError s del [] slots with
  | some text => reject s text
  | none => do
    let s ← (orderedSlots slots).items.foldlM (assignSlot del) s
    accept s

def setslotMigrating (slot : Slot) (name : Name) : Result :=
  if s.slots.lookup slot ≠ some s.myself then reject s ("I'm not the owner of hash slot " ++ toString slot.val)
  else
    match clusterLookupNode s name with
    | none => reject s ("I don't know about node " ++ toString name)
    | some n => accept { s with migratingSlotsTo := s.migratingSlotsTo.insert slot n }

def setslotImporting (slot : Slot) (name : Name) : Result :=
  if s.slots.lookup slot = some s.myself then reject s ("I'm already the owner of hash slot " ++ toString slot.val)
  else
    match clusterLookupNode s name with
    | none => reject s ("I don't know about node " ++ toString name)
    | some n => accept { s with importingSlotsFrom := s.importingSlotsFrom.insert slot n }

def setslotStable (slot : Slot) : Result :=
  accept { s with
    importingSlotsFrom := s.importingSlotsFrom.erase slot
    migratingSlotsTo := s.migratingSlotsTo.erase slot }

def stopMigrating (slot : Slot) : ClusterState :=
  if countKeysInSlot s slot = 0 then { s with migratingSlotsTo := s.migratingSlotsTo.erase slot } else s

def finishImport (n : Addr) (slot : Slot) : ClusterState :=
  if n = s.myself ∧ (s.importingSlotsFrom.lookup slot).isSome then
    let s := clusterBumpConfigEpochWithoutConsensus s
    { s with importingSlotsFrom := s.importingSlotsFrom.erase slot }
  else s

def setslotNode (slot : Slot) (name : Name) : Result :=
  match clusterLookupNode s name with
  | none => reject s ("Unknown node " ++ toString name)
  | some n =>
    if s.slots.lookup slot = some s.myself ∧ n ≠ s.myself ∧ countKeysInSlot s slot ≠ 0 then
      reject s ("Can't assign hashslot " ++ toString slot.val ++
        " to a different node while I still hold keys for this hash slot.")
    else do
      let s ← clusterDelSlot (finishImport (stopMigrating s slot) n slot) slot
      accept (clusterAddSlot s n slot)

def setslot (slot : Slot) (action : SetSlotAction) : Result :=
  if (s.node s.myself).isSlave then reject s "Please use SETSLOT only with masters."
  else
    match action with
    | .migrating name => setslotMigrating s slot name
    | .importing name => setslotImporting s slot name
    | .stable => setslotStable s slot
    | .node name => setslotNode s slot name

def flushslots : Result :=
  if s.keys ≠ [] then reject s "DB must be empty to perform CLUSTER FLUSHSLOTS."
  else do
    let s ← clusterDelNodeSlots s s.myself
    accept s

def bumpepoch : Result :=
  let bumped := clusterBumpConfigEpochWithoutConsensus s
  .ok (bumped, .status ((if (s.node s.myself).configEpoch = 0 ∨ (s.node s.myself).configEpoch ≠ clusterGetMaxEpoch s then
    "BUMPED " else "STILL ") ++ toString (bumped.node bumped.myself).configEpoch))

def forget (name : Name) : Result :=
  match clusterLookupNode s name with
  | none => reject s ("Unknown node " ++ toString name)
  | some n =>
    if n = s.myself then reject s "I tried hard but I can't forget myself..."
    else if (s.node s.myself).isSlave ∧ (s.node s.myself).slaveof = some n then reject s "Can't forget my master!"
    else do
      let s ← clusterDelNode s env n
      accept s

def replicate (name : Name) : Result :=
  match clusterLookupNode s name with
  | none => reject s ("Unknown node " ++ toString name)
  | some n =>
    if n = s.myself then reject s "Can't replicate myself"
    else if (s.node n).isSlave then reject s "I can only replicate a master, not a slave."
    else if (s.node s.myself).isMaster ∧ ((s.node s.myself).numslots ≠ 0 ∨ s.keys ≠ []) then
      reject s "To set a master the node must be empty and without assigned slots."
    else do
      let s ← clusterSetMaster s n
      accept s

def takeSlot (s : ClusterState) (slot : Slot) : Except Fault ClusterState := do
  let s ← clusterDelSlot s slot
  return clusterAddSlot s s.myself slot

def clusterFailoverReplaceYourMaster : Except Fault ClusterState :=
  match (s.node s.myself).slaveof with
  | none => .ok s
  | some oldmaster =>
    if (s.node s.myself).isMaster then .ok s
    else do
      let s := clusterSetNodeAsMaster s s.myself
      let s ← (s.node oldmaster).slots.items.foldlM takeSlot s
      return resetManualFailover (clusterSendPing env s .pong)

def failover (option : FailoverOption) : Result :=
  if (s.node s.myself).isMaster then reject s "You should send CLUSTER FAILOVER to a slave"
  else
    match (s.node s.myself).slaveof with
    | none => reject s "I'm a slave but my master is unknown to me"
    | some master =>
      if option = .none ∧ ((s.node master).fail ∨ env.linkUp = false) then
        reject s "Master is down or failed, please use CLUSTER FAILOVER FORCE"
      else
        let s := { resetManualFailover s with mfEnd := env.now + 5000 }
        match option with
        | .takeover => do
          let s ← clusterFailoverReplaceYourMaster env (clusterBumpConfigEpochWithoutConsensus s)
          accept s
        | .force => accept { s with mfCanStart := true }
        | .none => accept (clusterSendMFStart env s)

def assignConfigEpoch (epoch : Nat) : Result :=
  if 1 < s.nodes.length then
    reject s "The user can assign a config epoch only when the node does not know any other node."
  else if (s.node s.myself).configEpoch ≠ 0 then reject s "Node config epoch is already non-zero"
  else accept (raiseCurrentEpoch (setConfigEpoch s s.myself epoch) epoch)

def emptyDb : ClusterState := { s with keys := [] }

def clusterForgetAll : Except Fault ClusterState :=
  (s.nodes.filter (· ≠ s.myself)).foldlM (fun s n => clusterDelNode s env n) s

def hardReset : ClusterState :=
  let s := { s with currentEpoch := 0, lastVoteEpoch := 0 }
  clusterRenameNode (setConfigEpoch s s.myself 0) s.myself env.randomName

def clusterReset (hard : Bool) : Except Fault ClusterState := do
  let s := if (s.node s.myself).isSlave then emptyDb (clusterSetNodeAsMaster s s.myself) else s
  let s := resetManualFailover (clusterCloseAllSlots s)
  let s ← clusterDelSlots s s.slots.keys
  let s ← clusterForgetAll env s
  return if hard then hardReset env s else s

def reset (hard : Bool) : Result :=
  if (s.node s.myself).isMaster ∧ s.keys ≠ [] then
    reject s "CLUSTER RESET can't be called with master nodes containing keys"
  else do
    let s ← clusterReset env s hard
    accept s

def clusterCommand : Command → Result
  | .meet => accept (startHandshake s env.randomName)
  | .flushslots => flushslots s
  | .addslots slots => addOrDelSlots s false slots
  | .delslots slots => addOrDelSlots s true slots
  | .setslot slot action => setslot s slot action
  | .bumpepoch => bumpepoch s
  | .forget name => forget env s name
  | .replicate name => replicate s name
  | .failover option => failover env s option
  | .setConfigEpoch epoch => assignConfigEpoch s epoch
  | .reset hard => reset env s hard

end

section

variable (env : Env) (s : ClusterState)

def manualFailover : Bool := s.mfEnd ≠ 0 && s.mfCanStart

def authTimeout : Int := if env.nodeTimeout * 2 < 2000 then 2000 else env.nodeTimeout * 2

def noReasonToFailover : Bool :=
  (s.node s.myself).isMaster ||
    match (s.node s.myself).slaveof with
    | none => true
    | some master =>
      (!(s.node master).fail && !manualFailover s) || (env.slaveNoFailover && !manualFailover s) ||
        (s.node master).numslots = 0

def dataTooOld : Bool :=
  let dataAge := if env.nodeTimeout < env.dataAge then env.dataAge - env.nodeTimeout else env.dataAge
  decide (env.slaveValidityFactor ≠ 0 ∧
    env.replPingSlavePeriod * 1000 + env.nodeTimeout * env.slaveValidityFactor < dataAge) && !manualFailover s

def scheduleElection : ClusterState :=
  clusterSendPing env
    { s with
      failoverAuthTime := if s.mfEnd ≠ 0 then env.now else env.now + 500 + env.randomDelay + env.rank * 1000
      failoverAuthCount := 0
      failoverAuthSent := false
      failoverAuthRank := if s.mfEnd ≠ 0 then 0 else env.rank } .pong

def updateRank : ClusterState :=
  if s.failoverAuthSent = false ∧ s.mfEnd = 0 ∧ s.failoverAuthRank < env.rank then
    { s with
      failoverAuthTime := s.failoverAuthTime + (env.rank - s.failoverAuthRank : Nat) * 1000
      failoverAuthRank := env.rank }
  else s

def startElection : ClusterState :=
  let s := generateEpoch s
  let s := clusterRequestFailoverAuth env { s with failoverAuthEpoch := s.currentEpoch }
  { s with failoverAuthSent := true }

def winElection : Except Fault ClusterState :=
  clusterFailoverReplaceYourMaster env (raiseConfigEpoch s s.myself s.failoverAuthEpoch)

-- The age of the attempt is taken before the delay for a changed rank is added.
def clusterHandleSlaveFailover : Except Fault ClusterState :=
  let authAge := env.now - s.failoverAuthTime
  if noReasonToFailover env s then .ok s
  else if dataTooOld env s then .ok s
  else if authTimeout env * 2 < authAge then .ok (scheduleElection env s)
  else
    let s := updateRank env s
    if env.now < s.failoverAuthTime then .ok s
    else if authTimeout env < authAge then .ok s
    else if s.failoverAuthSent = false then .ok (startElection env s)
    else if neededQuorum s ≤ s.failoverAuthCount then winElection env s
    else .ok s

def manualFailoverCheckTimeout : ClusterState :=
  if s.mfEnd ≠ 0 ∧ s.mfEnd < env.now then resetManualFailover s else s

def clusterHandleManualFailover : ClusterState :=
  if s.mfEnd ≠ 0 ∧ s.mfMasterOffset ≠ 0 ∧ s.mfMasterOffset = env.replOffset then { s with mfCanStart := true } else s

def clusterUpdateState : ClusterState :=
  { s with size := (servingMasters s).length }

end

-- packet: a packet arrives over a link. handshakeTimeout, pingTimeout, manualFailover, slaveFailover,
-- updateState, sendPing: the parts of clusterCron and clusterBeforeSleep. keyspace: clients changed the
-- keys of the node.
inductive Event where
  | packet (link : Option Addr) (packet : Packet)
  | command (command : Command)
  | handshakeTimeout (n : Addr)
  | pingTimeout (n : Addr)
  | manualFailover
  | slaveFailover
  | updateState
  | sendPing (type : PingType)
  | keyspace (keys : List Slot)

-- A link is closed together with its node, and there is none to the node itself.
def linkOpen (s : ClusterState) (link : Option Addr) : Bool :=
  match link with
  | none => true
  | some n => decide (n ∈ s.nodes ∧ n ≠ s.myself)

def step (env : Env) (s : ClusterState) : Event → Except Fault ClusterState
  | .packet link packet => if linkOpen s link then clusterProcessPacket env s link packet else .ok s
  | .command command => do
    let result ← clusterCommand env s command
    return result.1
  | .handshakeTimeout n => if n ∈ s.nodes ∧ (s.node n).inHandshake then clusterDelNode s env n else .ok s
  | .pingTimeout n =>
    if n ∈ s.nodes ∧ n ≠ s.myself ∧ (s.node n).fail = false ∧ (s.node n).inHandshake = false then
      .ok (s.modify n fun node => { node with pfail := true })
    else .ok s
  | .manualFailover =>
    let s := manualFailoverCheckTimeout env s
    .ok (if (s.node s.myself).isSlave then clusterHandleManualFailover env s else s)
  | .slaveFailover => if (s.node s.myself).isSlave then clusterHandleSlaveFailover env s else .ok s
  | .updateState => .ok (clusterUpdateState s)
  | .sendPing type => .ok (clusterSendPing env s type)
  | .keyspace keys => .ok { s with keys := keys }

def ClusterState.start (name : Name) : ClusterState where
  myself := 0
  currentEpoch := 0
  lastVoteEpoch := 0
  size := 1
  nodes := [0]
  node := fun _ => createClusterNode name true false
  next := 1
  slots := ∅
  importingSlotsFrom := ∅
  migratingSlotsTo := ∅
  keys := []
  failoverAuthTime := 0
  failoverAuthCount := 0
  failoverAuthSent := false
  failoverAuthRank := 0
  failoverAuthEpoch := 0
  mfEnd := 0
  mfCanStart := false
  mfMasterOffset := 0
  sent := []
  generated := []
  marked := []

def run (s : ClusterState) (events : List (Env × Event)) : Except Fault ClusterState :=
  events.foldlM (fun s event => step event.1 s event.2) s

def fault {α : Type} : Except Fault α → Option Fault
  | .ok _ => none
  | .error f => some f

def clock (now : Int) (randomName : Name) : Env where
  now := now
  nodeTimeout := 15000
  slaveValidityFactor := 10
  replPingSlavePeriod := 10
  slaveNoFailover := false
  dataAge := 0
  rank := 0
  randomDelay := 0
  replOffset := 0
  linkUp := true
  pingSent := fun _ => false
  randomName := randomName
  handshake := fun _ => none
  gossip := []

structure NodeView where
  name : Name
  isMaster : Bool
  isSlave : Bool
  inHandshake : Bool
  configEpoch : Nat
  slots : Bitmap
  numslots : Nat
  slaves : List Addr
  slaveof : Option Addr

structure View where
  myself : Addr
  currentEpoch : Nat
  nodes : List Addr
  next : Addr
  node : Addr → NodeView
  slots : SlotTable
  importing : SlotTable

def ClusterNode.view (n : ClusterNode) : NodeView :=
  ⟨n.name, n.isMaster, n.isSlave, n.inHandshake, n.configEpoch, n.slots, n.numslots, n.slaves, n.slaveof⟩

def ClusterState.view (s : ClusterState) : View :=
  ⟨s.myself, s.currentEpoch, s.nodes, s.next, fun a => (s.node a).view, s.slots, s.importingSlotsFrom⟩

section

variable (env : Env) (s : ClusterState)

@[simp] theorem modify_node (a b : Addr) (f : ClusterNode → ClusterNode) :
    (s.modify a f).node b = if b = a then f (s.node a) else s.node b := by
  simp [ClusterState.modify, Function.update_apply]

theorem modify_self (a : Addr) (f : ClusterNode → ClusterNode) : (s.modify a f).node a = f (s.node a) := by
  simp

theorem modify_other {a b : Addr} (f : ClusterNode → ClusterNode) (other : b ≠ a) :
    (s.modify a f).node b = s.node b := by
  simp [other]

theorem view_modify {a : Addr} {f : ClusterNode → ClusterNode} (same : (f (s.node a)).view = (s.node a).view) :
    (s.modify a f).view = s.view := by
  have nodes : (fun b => ((s.modify a f).node b).view) = fun b => (s.node b).view := by
    funext b
    by_cases here : b = a <;> simp [here, same]
  unfold ClusterState.view
  rw [nodes]
  rfl

theorem view_foldl {α : Type} (f : ClusterState → α → ClusterState) (same : ∀ s a, (f s a).view = s.view) (l : List α) :
    (l.foldl f s).view = s.view := by
  induction l generalizing s with
  | nil => rfl
  | cons a rest ih => exact (ih (f s a)).trans (same s a)

theorem lookup_mem {name : Name} {a : Addr} (found : clusterLookupNode s name = some a) :
    a ∈ s.nodes ∧ (s.node a).name = name := by
  have named := List.find?_some found
  exact ⟨List.mem_of_find?_eq_some found, by simpa using named⟩

theorem cleanup_view (n : Addr) : (clusterNodeCleanupFailureReports s env n).view = s.view :=
  view_modify s rfl

theorem addFailureReport_view (failing sender : Addr) : (clusterNodeAddFailureReport s env failing sender).view = s.view := by
  refine view_modify s ?_
  split <;> rfl

theorem delFailureReport_view (n sender : Addr) : (clusterNodeDelFailureReport s env n sender).view = s.view := by
  unfold clusterNodeDelFailureReport
  split
  · rw [cleanup_view]
    exact view_modify s rfl
  · rfl

theorem sendPing_view (type : PingType) : (clusterSendPing env s type).view = s.view := rfl

theorem sendUpdate_view (n : Addr) : (clusterSendUpdate env s n).view = s.view := by
  unfold clusterSendUpdate
  split <;> rfl

theorem sendFailoverAuth_view : (clusterSendFailoverAuth env s).view = s.view := by
  unfold clusterSendFailoverAuth
  split <;> rfl

theorem sendMFStart_view : (clusterSendMFStart env s).view = s.view := by
  unfold clusterSendMFStart
  split <;> rfl

theorem setFailed_view (n : Addr) : (setFailed env s n).view = s.view := view_modify s rfl

theorem announceFailure_view (n : Addr) : (announceFailure env s n).view = s.view := by
  unfold announceFailure
  split <;> rfl

theorem confirmFailure_view (n : Addr) : (confirmFailure env s n).view = s.view := by
  unfold confirmFailure
  split
  · rfl
  · rw [announceFailure_view, setFailed_view]
    rfl

theorem markNodeAsFailing_view (n : Addr) : (markNodeAsFailingIfNeeded env s n).view = s.view := by
  unfold markNodeAsFailingIfNeeded
  split
  · rfl
  · rw [confirmFailure_view, cleanup_view]

theorem clearNodeFailure_view (n : Addr) : (clearNodeFailureIfNeeded env s n).view = s.view := by
  unfold clearNodeFailureIfNeeded
  dsimp only
  split
  · exact view_modify s rfl
  · rfl

theorem recordOffset_view (sender : Addr) (hdr : Header) : (recordOffset s sender hdr).view = s.view := by
  have written : (s.modify sender fun n => { n with replOffset := hdr.offset }).view = s.view := view_modify s rfl
  unfold recordOffset
  dsimp only
  split
  · exact written
  · exact written

theorem recordPong_view (link : Option Addr) (type : PingType) : (recordPong env s link type).view = s.view := by
  unfold recordPong
  split
  · split_ifs
    · exact view_modify s rfl
    · exact clearNodeFailure_view env s _
    · rfl
  · rfl

theorem processFail_view (about : Name) : (processFail env s about).view = s.view := by
  unfold processFail
  split
  · split
    · rfl
    · exact setFailed_view env s _
  · rfl

theorem grantVote_view (master : Addr) : (grantVote env s master).view = s.view := by
  unfold grantVote
  rw [sendFailoverAuth_view]
  exact view_modify { s with lastVoteEpoch := s.currentEpoch } rfl

theorem sendFailoverAuthIfNeeded_view (node : Addr) (request : Header) :
    (clusterSendFailoverAuthIfNeeded env s node request).view = s.view := by
  unfold clusterSendFailoverAuthIfNeeded
  repeat' split
  all_goals first | rfl | exact grantVote_view env s _

theorem processAuthAck_view (sender : Addr) (epoch : Nat) : (processAuthAck s sender epoch).view = s.view := by
  unfold processAuthAck
  split <;> rfl

theorem processMFStart_view (sender : Addr) : (processMFStart env s sender).view = s.view := by
  unfold processMFStart
  split <;> rfl

theorem delKeys_view (slots : List Slot) : (slots.foldl delKeysInSlot s).view = s.view :=
  view_foldl s delKeysInSlot (fun _ _ => rfl) slots

theorem updateRank_view : (updateRank env s).view = s.view := by
  unfold updateRank
  split <;> rfl

theorem manualFailoverCheckTimeout_view : (manualFailoverCheckTimeout env s).view = s.view := by
  unfold manualFailoverCheckTimeout
  split <;> rfl

theorem handleManualFailover_view : (clusterHandleManualFailover env s).view = s.view := by
  unfold clusterHandleManualFailover
  split <;> rfl

end

end RedisCore.Cluster
