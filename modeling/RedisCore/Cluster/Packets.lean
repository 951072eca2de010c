import RedisCore.Lib.SortedSet
import RedisCore.Cluster.Election

set_option autoImplicit false

namespace RedisCore.Cluster

open Lib

abbrev Slot := Fin 16384

scoped instance slots_nonzero : NeZero 16384 := ⟨by decide⟩
abbrev Bitmap := SortedSet Slot
abbrev Addr := Nat

-- 40 hexadecimal digits, compared as memcmp compares them.
abbrev Name := Nat

-- An array of node pointers with one element for each slot: the elements that are not NULL.
abbrev SlotTable := AList fun _ : Slot => Addr

inductive Fault where
  | assertion
  | nullDereference
  deriving DecidableEq

structure FailReport where
  node : Addr
  time : Int
  deriving DecidableEq

-- A call of markNodeAsFailingIfNeeded that set FAIL: the node, the clock and the validity time of reports, the values that
-- were compared, and the masters that served slots.
structure Marking where
  node : Addr
  time : Int
  maxAge : Int
  size : Nat
  reports : List FailReport
  myself : Addr
  countsMyself : Bool
  masters : List Addr
  deriving DecidableEq

structure ClusterNode where
  name : Name
  isMaster : Bool
  isSlave : Bool
  inHandshake : Bool
  pfail : Bool
  fail : Bool
  configEpoch : Nat
  slots : Bitmap
  numslots : Nat
  slaves : List Addr
  slaveof : Option Addr
  failTime : Int
  failReports : List FailReport
  votedTime : Int
  replOffset : Int

structure GossipEntry where
  nodename : Name
  failing : Bool
  noaddr : Bool

structure Header where
  sender : Name
  isMaster : Bool
  isSlave : Bool
  slaveof : Option Name
  currentEpoch : Nat
  configEpoch : Nat
  myslots : Bitmap
  offset : Int
  paused : Bool
  forceAck : Bool

inductive PingType where
  | ping
  | pong
  | meet
  deriving DecidableEq

inductive Body where
  | ping (type : PingType) (gossip : List GossipEntry)
  | fail (about : Name)
  | authRequest
  | authAck
  | mfstart
  | update (nodename : Name) (configEpoch : Nat) (slots : Bitmap)

structure Packet where
  hdr : Header
  body : Body

-- What a node does not decide itself: the clock, the configuration, random names, the gossip it chooses
-- to send, which links are up, to which nodes a ping is pending, whether an address in a gossip entry starts a handshake
-- (and the temporary name the new node then gets), and the replication offset and rank of a slave.
structure Env where
  now : Int
  nodeTimeout : Int
  slaveValidityFactor : Int
  replPingSlavePeriod : Int
  slaveNoFailover : Bool
  dataAge : Int
  rank : Nat
  randomDelay : Nat
  replOffset : Int
  linkUp : Bool
  pingSent : Addr → Bool
  randomName : Name
  handshake : Name → Option Name
  gossip : List GossipEntry

-- nodes lists the nodes of the table, node their contents, and next the next address to be allocated.
-- keys holds the slot of each key of database 0. The last three fields only record: what was sent, the
-- epochs the node has generated with the configEpochs it knew at that time, and the nodes it has marked.
structure ClusterState where
  myself : Addr
  currentEpoch : Nat
  lastVoteEpoch : Nat
  size : Nat
  nodes : List Addr
  node : Addr → ClusterNode
  next : Addr
  slots : SlotTable
  importingSlotsFrom : SlotTable
  migratingSlotsTo : SlotTable
  keys : List Slot
  failoverAuthTime : Int
  failoverAuthCount : Nat
  failoverAuthSent : Bool
  failoverAuthRank : Nat
  failoverAuthEpoch : Nat
  mfEnd : Int
  mfCanStart : Bool
  mfMasterOffset : Int
  sent : List Packet
  generated : List (Nat × List Nat)
  marked : List Marking

section

variable (s : ClusterState)

def ClusterState.modify (a : Addr) (f : ClusterNode → ClusterNode) : ClusterState :=
  { s with node := Function.update s.node a (f (s.node a)) }

def countKeysInSlot (slot : Slot) : Nat := s.keys.count slot

def delKeysInSlot (slot : Slot) : ClusterState := { s with keys := s.keys.filter (· ≠ slot) }

def createClusterNode (name : Name) (isMaster inHandshake : Bool) : ClusterNode :=
  { name
    isMaster
    isSlave := false
    inHandshake
    pfail := false
    fail := false
    configEpoch := 0
    slots := SortedSet.empty
    numslots := 0
    slaves := []
    slaveof := none
    failTime := 0
    failReports := []
    votedTime := 0
    replOffset := 0 }

def clusterLookupNode (name : Name) : Option Addr := s.nodes.find? fun a => (s.node a).name = name

-- A node whose name is taken is not added.
def clusterAddNode (n : ClusterNode) : ClusterState :=
  if (clusterLookupNode s n.name).isSome then s
  else { s with nodes := s.nodes ++ [s.next], node := Function.update s.node s.next n, next := s.next + 1 }

def startHandshake (name : Name) : ClusterState := clusterAddNode s (createClusterNode name false true)

def clusterNodeRemoveSlave (master slave : Addr) : ClusterState :=
  s.modify master fun m => { m with slaves := m.slaves.erase slave }

def clusterNodeAddSlave (master slave : Addr) : ClusterState :=
  if slave ∈ (s.node master).slaves then s
  else s.modify master fun m => { m with slaves := m.slaves ++ [slave] }

def setSlaveof (slave : Addr) (master : Option Addr) : ClusterState :=
  s.modify slave fun n => { n with slaveof := master }

def detachFromMaster (slave : Addr) : ClusterState :=
  match (s.node slave).slaveof with
  | some master => clusterNodeRemoveSlave s master slave
  | none => s

def clusterNodeSetSlotBit (n : Addr) (slot : Slot) : ClusterState :=
  s.modify n fun node =>
    if slot ∈ node.slots then node
    else { node with slots := node.slots.insert slot, numslots := node.numslots + 1 }

def clusterNodeClearSlotBit (n : Addr) (slot : Slot) : ClusterState :=
  s.modify n fun node =>
    if slot ∈ node.slots then { node with slots := node.slots.erase slot, numslots := node.numslots - 1 }
    else node

def clusterAddSlot (n : Addr) (slot : Slot) : ClusterState :=
  match s.slots.lookup slot with
  | some _ => s
  | none => { clusterNodeSetSlotBit s n slot with slots := s.slots.insert slot n }

def clusterDelSlot (slot : Slot) : Except Fault ClusterState :=
  match s.slots.lookup slot with
  | none => .ok s
  | some n =>
    if slot ∈ (s.node n).slots then .ok { clusterNodeClearSlotBit s n slot with slots := s.slots.erase slot }
    else .error .assertion

def clusterDelSlots (slots : List Slot) : Except Fault ClusterState := slots.foldlM clusterDelSlot s

def clusterDelNodeSlots (n : Addr) : Except Fault ClusterState := clusterDelSlots s (s.node n).slots.items

def clusterCloseAllSlots : ClusterState := { s with migratingSlotsTo := ∅, importingSlotsFrom := ∅ }

def resetManualFailover : ClusterState := { s with mfEnd := 0, mfCanStart := false, mfMasterOffset := 0 }

def failReportMaxAge (env : Env) : Int := env.nodeTimeout * 2

def clusterNodeCleanupFailureReports (env : Env) (n : Addr) : ClusterState :=
  s.modify n fun node => { node with failReports := node.failReports.filter fun r => env.now - r.time ≤ failReportMaxAge env }

def servingMasters : List Addr := s.nodes.filter fun a => (s.node a).isMaster && (s.node a).numslots ≠ 0

def clusterNodeAddFailureReport (env : Env) (failing sender : Addr) : ClusterState :=
  s.modify failing fun node =>
    if node.failReports.any (·.node = sender) then
      { node with failReports := node.failReports.map fun r => if r.node = sender then { r with time := env.now } else r }
    else { node with failReports := node.failReports ++ [⟨sender, env.now⟩] }

def clusterNodeDelFailureReport (env : Env) (n sender : Addr) : ClusterState :=
  if (s.node n).failReports.any (·.node = sender) then
    clusterNodeCleanupFailureReports
      (s.modify n fun node => { node with failReports := node.failReports.eraseP (·.node = sender) }) env n
  else s

def dropSlots (table : SlotTable) (n : Addr) : SlotTable :=
  (table.keys.filter fun slot => table.lookup slot = some n).foldl (fun t slot => t.erase slot) table

def orphanSlaves (slaves : List Addr) : ClusterState := slaves.foldl (fun s slave => setSlaveof s slave none) s

def freeClusterNode (n : Addr) : ClusterState :=
  let s := orphanSlaves s (s.node n).slaves
  let s := if (s.node n).isSlave then detachFromMaster s n else s
  { s with nodes := s.nodes.erase n }

def ownedSlots (n : Addr) : List Slot := s.slots.keys.filter fun slot => s.slots.lookup slot = some n

def clusterDelNode (env : Env) (n : Addr) : Except Fault ClusterState := do
  let s ← clusterDelSlots
    { s with
      importingSlotsFrom := dropSlots s.importingSlotsFrom n
      migratingSlotsTo := dropSlots s.migratingSlotsTo n } (ownedSlots s n)
  let s := (s.nodes.filter (· ≠ n)).foldl (fun s other => clusterNodeDelFailureReport s env other n) s
  return freeClusterNode s n

def clusterRenameNode (n : Addr) (name : Name) : ClusterState := s.modify n fun node => { node with name := name }

def clusterSetNodeAsMaster (n : Addr) : ClusterState :=
  if (s.node n).isMaster then s
  else (detachFromMaster s n).modify n fun node => { node with isSlave := false, isMaster := true, slaveof := none }

def configEpochs : List Nat := s.nodes.map fun a => (s.node a).configEpoch

def clusterGetMaxEpoch : Nat := max ((configEpochs s).foldl max 0) s.currentEpoch

-- server.cluster->currentEpoch++, with a record of the epoch.
def generateEpoch : ClusterState :=
  { s with
    currentEpoch := Election.epochSucc s.currentEpoch
    generated := s.generated ++ [(Election.epochSucc s.currentEpoch, configEpochs s)] }

def setConfigEpoch (n : Addr) (epoch : Nat) : ClusterState :=
  s.modify n fun node => { node with configEpoch := epoch }

def takeNewEpoch : ClusterState :=
  let s := generateEpoch s
  setConfigEpoch s s.myself s.currentEpoch

def clusterBumpConfigEpochWithoutConsensus : ClusterState :=
  if (s.node s.myself).configEpoch = 0 ∨ (s.node s.myself).configEpoch ≠ clusterGetMaxEpoch s then takeNewEpoch s else s

def clusterHandleConfigEpochCollision (sender : Addr) : ClusterState :=
  if (s.node sender).configEpoch ≠ (s.node s.myself).configEpoch ∨ !(s.node sender).isMaster ∨ !(s.node s.myself).isMaster then s
  else if (s.node sender).name ≤ (s.node s.myself).name then s
  else takeNewEpoch s

def leaveMaster : ClusterState :=
  if (s.node s.myself).isMaster then
    clusterCloseAllSlots (s.modify s.myself fun me => { me with isMaster := false, isSlave := true })
  else detachFromMaster s s.myself

def clusterSetMaster (n : Addr) : Except Fault ClusterState :=
  if n = s.myself then .error .assertion
  else if (s.node s.myself).numslots ≠ 0 then .error .assertion
  else .ok (resetManualFailover (clusterNodeAddSlave (setSlaveof (leaveMaster s) s.myself (some n)) n s.myself))

def curmaster : Option Addr := if (s.node s.myself).isMaster then some s.myself else (s.node s.myself).slaveof

end

structure Rebinding where
  s : ClusterState
  newmaster : Bool
  dirtySlots : List Slot

def outdated (s : ClusterState) (sender : Addr) (senderConfigEpoch : Nat) (slot : Slot) : Bool :=
  s.slots.lookup slot ≠ some sender && (s.importingSlotsFrom.lookup slot).isNone &&
    match s.slots.lookup slot with
    | none => true
    | some owner => decide ((s.node owner).configEpoch < senderConfigEpoch)

def rebindSlot (sender : Addr) (senderConfigEpoch : Nat) (curmaster : Option Addr) (r : Rebinding) (slot : Slot) :
    Except Fault Rebinding := do
  if outdated r.s sender senderConfigEpoch slot then
    let owner := r.s.slots.lookup slot
    let dirty := owner = some r.s.myself && countKeysInSlot r.s slot ≠ 0
    let s ← clusterDelSlot r.s slot
    return ⟨clusterAddSlot s sender slot, r.newmaster || owner = curmaster, if dirty then r.dirtySlots ++ [slot] else r.dirtySlots⟩
  else return r

-- curmaster->numslots is only read when a slot of the current master was rebound.
def clusterUpdateSlotsConfigWith (s : ClusterState) (sender : Addr) (senderConfigEpoch : Nat) (slots : Bitmap) :
    Except Fault ClusterState := do
  if sender = s.myself then return s
  else
    let r ← slots.items.foldlM (rebindSlot sender senderConfigEpoch (curmaster s)) ⟨s, false, []⟩
    if r.newmaster then
      match curmaster s with
      | none => throw .nullDereference
      | some master =>
        if (r.s.node master).numslots = 0 then clusterSetMaster r.s sender
        else return r.dirtySlots.foldl delKeysInSlot r.s
    else return r.dirtySlots.foldl delKeysInSlot r.s

section

variable (env : Env) (s : ClusterState)

def clusterBuildMessageHdr : Header :=
  let me := s.node s.myself
  let master := if me.isSlave then s.node (me.slaveof.getD s.myself) else me
  { sender := me.name
    isMaster := me.isMaster
    isSlave := me.isSlave
    slaveof := me.slaveof.map fun m => (s.node m).name
    currentEpoch := s.currentEpoch
    configEpoch := master.configEpoch
    myslots := master.slots
    offset := env.replOffset
    paused := me.isMaster && s.mfEnd ≠ 0
    forceAck := false }

def clusterSendMessage (packet : Packet) : ClusterState := { s with sent := s.sent ++ [packet] }

def clusterSendPing (type : PingType) : ClusterState :=
  clusterSendMessage s ⟨clusterBuildMessageHdr env s, .ping type env.gossip⟩

def clusterSendFail (name : Name) : ClusterState :=
  clusterSendMessage s ⟨clusterBuildMessageHdr env s, .fail name⟩

def clusterSendUpdate (n : Addr) : ClusterState :=
  if env.linkUp then
    clusterSendMessage s ⟨clusterBuildMessageHdr env s, .update (s.node n).name (s.node n).configEpoch (s.node n).slots⟩
  else s

def clusterRequestFailoverAuth : ClusterState :=
  clusterSendMessage s ⟨{ clusterBuildMessageHdr env s with forceAck := s.mfEnd ≠ 0 }, .authRequest⟩

def clusterSendFailoverAuth : ClusterState :=
  if env.linkUp then clusterSendMessage s ⟨clusterBuildMessageHdr env s, .authAck⟩ else s

def clusterSendMFStart : ClusterState :=
  if env.linkUp then clusterSendMessage s ⟨clusterBuildMessageHdr env s, .mfstart⟩ else s

def neededQuorum : Nat := s.size / 2 + 1

def failureCount (n : Addr) : Nat := (s.node n).failReports.length + if (s.node s.myself).isMaster then 1 else 0

def setFailed (n : Addr) : ClusterState :=
  s.modify n fun node => { node with pfail := false, fail := true, failTime := env.now }

def recordMarking (n : Addr) : ClusterState :=
  { s with
    marked := s.marked ++ [{
      node := n
      time := env.now
      maxAge := failReportMaxAge env
      size := s.size
      reports := (s.node n).failReports
      myself := s.myself
      countsMyself := (s.node s.myself).isMaster
      masters := servingMasters s }] }

def announceFailure (n : Addr) : ClusterState :=
  if (s.node s.myself).isMaster then clusterSendFail env s (s.node n).name else s

def confirmFailure (n : Addr) : ClusterState :=
  if failureCount s n < neededQuorum s then s else announceFailure env (setFailed env (recordMarking env s n) n) n

def markNodeAsFailingIfNeeded (n : Addr) : ClusterState :=
  if !(s.node n).pfail || (s.node n).fail then s
  else confirmFailure env (clusterNodeCleanupFailureReports s env n) n

def clearNodeFailureIfNeeded (n : Addr) : ClusterState :=
  let node := s.node n
  if node.isSlave || node.numslots = 0 || (node.isMaster && env.nodeTimeout * 2 < env.now - node.failTime) then
    s.modify n fun node => { node with fail := false }
  else s

def handleFailureReport (sender : Option Addr) (g : GossipEntry) (n : Addr) : ClusterState :=
  match sender with
  | some sender =>
    if (s.node sender).isMaster && n ≠ s.myself then
      if g.failing then markNodeAsFailingIfNeeded env (clusterNodeAddFailureReport s env n sender) n
      else clusterNodeDelFailureReport s env n sender
    else s
  | none => s

-- Only clusterCron reads pong_received, and its timeouts are events here. What is left of the update of the pong time is
-- clusterNodeFailureReportsCount, which drops the reports that have expired.
def updatePongTime (g : GossipEntry) (n : Addr) : ClusterState :=
  if g.failing || env.pingSent n then s else clusterNodeCleanupFailureReports s env n

def processGossipEntry (sender : Option Addr) (s : ClusterState) (g : GossipEntry) : ClusterState :=
  match clusterLookupNode s g.nodename with
  | some n => updatePongTime env (handleFailureReport env s sender g n) g n
  | none =>
    match sender, if g.noaddr then none else env.handshake g.nodename with
    | some _, some name => startHandshake s name
    | _, _ => s

def clusterProcessGossipSection (link : Option Addr) (senderName : Name) (gossip : List GossipEntry) : ClusterState :=
  let sender := match link with
    | some n => some n
    | none => clusterLookupNode s senderName
  gossip.foldl (processGossipEntry env sender) s

-- The sender of a packet whose epochs are taken into account.
def trusted (sender : Option Addr) : Bool :=
  match sender with
  | some a => !(s.node a).inHandshake
  | none => false

def raiseCurrentEpoch (epoch : Nat) : ClusterState := { s with currentEpoch := max s.currentEpoch epoch }

def raiseConfigEpoch (n : Addr) (epoch : Nat) : ClusterState :=
  if (s.node n).configEpoch < epoch then setConfigEpoch s n epoch else s

def recordOffset (sender : Addr) (hdr : Header) : ClusterState :=
  let s := s.modify sender fun n => { n with replOffset := hdr.offset }
  if s.mfEnd ≠ 0 ∧ (s.node s.myself).isSlave ∧ (s.node s.myself).slaveof = some sender ∧ hdr.paused ∧ s.mfMasterOffset = 0 then
    { s with mfMasterOffset := hdr.offset }
  else s

def processHeader (sender : Option Addr) (hdr : Header) : ClusterState :=
  match sender with
  | some a =>
    if (s.node a).inHandshake then s
    else recordOffset (raiseConfigEpoch (raiseCurrentEpoch s hdr.currentEpoch) a hdr.configEpoch) a hdr
  | none => s

-- A PING or MEET is answered; a MEET from an unknown node starts a handshake with it.
def answerPing (sender : Option Addr) (link : Option Addr) (hdr : Header) (type : PingType) (gossip : List GossipEntry) :
    ClusterState :=
  match type with
  | .pong => s
  | .ping => clusterSendPing env s .pong
  | .meet =>
    if sender.isNone then
      clusterSendPing env (clusterProcessGossipSection env (startHandshake s env.randomName) link hdr.sender gossip) .pong
    else clusterSendPing env s .pong

def completeHandshake (n : Addr) (hdr : Header) : ClusterState :=
  (clusterRenameNode s n hdr.sender).modify n fun node =>
    { node with
      inHandshake := false
      isMaster := node.isMaster || hdr.isMaster
      isSlave := node.isSlave || hdr.isSlave }

def recordPong (link : Option Addr) (type : PingType) : ClusterState :=
  match link, type with
  | some n, .pong =>
    if (s.node n).pfail then s.modify n fun node => { node with pfail := false }
    else if (s.node n).fail then clearNodeFailureIfNeeded env s n
    else s
  | _, _ => s

def turnIntoSlave (sender : Addr) : Except Fault ClusterState := do
  if (s.node sender).isMaster then
    let s ← clusterDelNodeSlots s sender
    return s.modify sender fun n => { n with isMaster := false, isSlave := true }
  else return s

def replaceMaster (sender master : Addr) : ClusterState :=
  if (s.node sender).slaveof = some master then s
  else setSlaveof (clusterNodeAddSlave (detachFromMaster s sender) master sender) sender (some master)

def updateRole (sender : Addr) (hdr : Header) : Except Fault ClusterState :=
  match hdr.slaveof with
  | none => .ok (clusterSetNodeAsMaster s sender)
  | some name => do
    let master := clusterLookupNode s name
    let s ← turnIntoSlave s sender
    match master with
    | some master => return replaceMaster s sender master
    | none => return s

def senderMaster (sender : Addr) : Option Addr :=
  if (s.node sender).isMaster then some sender else (s.node sender).slaveof

def dirtySlots (sender : Addr) (hdr : Header) : Bool :=
  match senderMaster s sender with
  | some master => (s.node master).slots ≠ hdr.myslots
  | none => false

def staleSlot (sender : Addr) (senderConfigEpoch : Nat) (slot : Slot) : Bool :=
  match s.slots.lookup slot with
  | some owner => owner ≠ sender && decide (senderConfigEpoch < (s.node owner).configEpoch)
  | none => false

def sendUpdateIfStale (sender : Addr) (senderConfigEpoch : Nat) (hdr : Header) : ClusterState :=
  match hdr.myslots.items.find? (staleSlot s sender senderConfigEpoch) with
  | some slot => clusterSendUpdate env s ((s.slots.lookup slot).getD sender)
  | none => s

def updateSlots (sender : Addr) (senderConfigEpoch : Nat) (hdr : Header) : Except Fault ClusterState := do
  if dirtySlots s sender hdr then
    let s ← if (s.node sender).isMaster then clusterUpdateSlotsConfigWith s sender senderConfigEpoch hdr.myslots else .ok s
    return sendUpdateIfStale env s sender senderConfigEpoch hdr
  else return s

def checkCollision (sender : Addr) (senderConfigEpoch : Nat) : ClusterState :=
  if (s.node s.myself).isMaster ∧ (s.node sender).isMaster ∧ senderConfigEpoch = (s.node s.myself).configEpoch then
    clusterHandleConfigEpochCollision s sender
  else s

def processKnownPing (sender : Addr) (senderConfigEpoch : Nat) (link : Option Addr) (hdr : Header)
    (gossip : List GossipEntry) : Except Fault ClusterState := do
  let s ← updateRole s sender hdr
  let s ← updateSlots env s sender senderConfigEpoch hdr
  return clusterProcessGossipSection env (checkCollision s sender senderConfigEpoch) link hdr.sender gossip

def processPingBody (sender : Option Addr) (senderConfigEpoch : Nat) (link : Option Addr) (hdr : Header) (type : PingType)
    (gossip : List GossipEntry) : Except Fault ClusterState :=
  match sender with
  | some a => processKnownPing env (recordPong env s link type) a senderConfigEpoch link hdr gossip
  | none => .ok (recordPong env s link type)

-- The link of a handshake gives the new node its name and role, unless the node is known already. A
-- packet that comes over the link of another node is dropped.
def processPing (sender : Option Addr) (senderConfigEpoch : Nat) (link : Option Addr) (hdr : Header) (type : PingType)
    (gossip : List GossipEntry) : Except Fault ClusterState :=
  let s := answerPing env s sender link hdr type gossip
  match link with
  | none => processPingBody env s sender senderConfigEpoch link hdr type gossip
  | some n =>
    if (s.node n).inHandshake then
      if sender.isSome then clusterDelNode s env n
      else processPingBody env (completeHandshake s n hdr) sender senderConfigEpoch link hdr type gossip
    else if (s.node n).name ≠ hdr.sender then .ok s
    else processPingBody env s sender senderConfigEpoch link hdr type gossip

def processFail (about : Name) : ClusterState :=
  match clusterLookupNode s about with
  | some failing =>
    if (s.node failing).fail || failing = s.myself then s
    else setFailed env s failing
  | none => s

def slotEpochOk (requestConfigEpoch : Nat) (slot : Slot) : Bool :=
  match s.slots.lookup slot with
  | none => true
  | some owner => decide ((s.node owner).configEpoch ≤ requestConfigEpoch)

def grantVote (master : Addr) : ClusterState :=
  clusterSendFailoverAuth env
    ({ s with lastVoteEpoch := s.currentEpoch }.modify master fun m => { m with votedTime := env.now })

def clusterSendFailoverAuthIfNeeded (node : Addr) (request : Header) : ClusterState :=
  if (s.node s.myself).isSlave || (s.node s.myself).numslots = 0 then s
  else if request.currentEpoch < s.currentEpoch then s
  else if s.lastVoteEpoch = s.currentEpoch then s
  else if (s.node node).isMaster then s
  else
    match (s.node node).slaveof with
    | none => s
    | some master =>
      if !(s.node master).fail && !request.forceAck then s
      else if env.now - (s.node master).votedTime < env.nodeTimeout * 2 then s
      else if request.myslots.items.all (slotEpochOk s request.configEpoch) then grantVote env s master
      else s

def processAuthAck (sender : Addr) (senderCurrentEpoch : Nat) : ClusterState :=
  if (s.node sender).isMaster ∧ (s.node sender).numslots ≠ 0 ∧ s.failoverAuthEpoch ≤ senderCurrentEpoch then
    { s with failoverAuthCount := s.failoverAuthCount + 1 }
  else s

def processMFStart (sender : Addr) : ClusterState :=
  if (s.node sender).slaveof = some s.myself then { resetManualFailover s with mfEnd := env.now + 5000 } else s

def processUpdate (nodename : Name) (reportedConfigEpoch : Nat) (slots : Bitmap) : Except Fault ClusterState :=
  match clusterLookupNode s nodename with
  | none => .ok s
  | some n =>
    if reportedConfigEpoch ≤ (s.node n).configEpoch then .ok s
    else
      let s := if (s.node n).isSlave then clusterSetNodeAsMaster s n else s
      clusterUpdateSlotsConfigWith (setConfigEpoch s n reportedConfigEpoch) n reportedConfigEpoch slots

-- link is the node at the other end of the link, none for a link this node did not open.
def clusterProcessPacket (link : Option Addr) (packet : Packet) : Except Fault ClusterState :=
  let sender := clusterLookupNode s packet.hdr.sender
  let senderCurrentEpoch := if trusted s sender then packet.hdr.currentEpoch else 0
  let senderConfigEpoch := if trusted s sender then packet.hdr.configEpoch else 0
  let s := processHeader s sender packet.hdr
  match packet.body, sender with
  | .ping type gossip, _ => processPing env s sender senderConfigEpoch link packet.hdr type gossip
  | .fail about, some _ => .ok (processFail env s about)
  | .authRequest, some sender => .ok (clusterSendFailoverAuthIfNeeded env s sender packet.hdr)
  | .authAck, some sender => .ok (processAuthAck s sender senderCurrentEpoch)
  | .mfstart, some sender => .ok (processMFStart env s sender)
  | .update nodename configEpoch slots, some _ => processUpdate s nodename configEpoch slots
  | _, none => .ok s

end

end RedisCore.Cluster
