import Mathlib

set_option autoImplicit false

namespace RedisCore.Election

variable {N : Type} [DecidableEq N]

-- The masters that serve slots, which every node knows, and the configuration.
structure Cluster (N : Type) where
  masters : Finset N
  nodeTimeout : Int
  slaveValidityFactor : Int
  replPingSlavePeriod : Int

-- The part of a node's state that elections use. A node is a slave when slaveof is set. votedTime is
-- kept by masters for the master of the slave they voted for.
structure NodeState (N : Type) where
  currentEpoch : Nat
  lastVoteEpoch : Nat
  configEpoch : Nat
  slaveof : Option N
  failoverAuthTime : Int
  failoverAuthCount : Nat
  failoverAuthSent : Bool
  failoverAuthRank : Nat
  failoverAuthEpoch : Nat
  votedTime : N → Int

-- Epochs are 64-bit unsigned integers.
@[irreducible] def epochSucc (epoch : Nat) : Nat := if epoch + 1 < 2 ^ 64 then epoch + 1 else 0

-- What clusterHandleSlaveFailover reads besides the fields above.
structure FailoverInput where
  now : Int
  masterFailed : Bool
  mfEnd : Bool
  mfCanStart : Bool
  slaveNoFailover : Bool
  dataAge : Int
  rank : Nat
  randomDelay : Nat
  masterConfigEpoch : Nat
  masterSlots : List Nat

inductive Outcome where
  | nothing
  | request
  | won
  deriving DecidableEq

section

variable (cluster : Cluster N) (input : FailoverInput) (s : NodeState N)

def neededQuorum : Nat := cluster.masters.card / 2 + 1

def manualFailover : Bool := input.mfEnd && input.mfCanStart

def authTimeout : Int := if cluster.nodeTimeout * 2 < 2000 then 2000 else cluster.nodeTimeout * 2

def noReasonToFailover : Bool :=
  s.slaveof.isNone || (!input.masterFailed && !manualFailover input) ||
    (input.slaveNoFailover && !manualFailover input) || input.masterSlots.isEmpty

def dataTooOld : Bool :=
  let dataAge := if cluster.nodeTimeout < input.dataAge then input.dataAge - cluster.nodeTimeout else input.dataAge
  decide (cluster.slaveValidityFactor ≠ 0 ∧
    cluster.replPingSlavePeriod * 1000 + cluster.nodeTimeout * cluster.slaveValidityFactor < dataAge)

def scheduleElection : NodeState N :=
  { s with
    failoverAuthTime := if input.mfEnd then input.now else input.now + 500 + input.randomDelay + input.rank * 1000
    failoverAuthCount := 0
    failoverAuthSent := false
    failoverAuthRank := if input.mfEnd then 0 else input.rank }

def updateRank : NodeState N :=
  if s.failoverAuthSent = false ∧ input.mfEnd = false ∧ s.failoverAuthRank < input.rank then
    { s with
      failoverAuthTime := s.failoverAuthTime + (input.rank - s.failoverAuthRank : Nat) * 1000
      failoverAuthRank := input.rank }
  else s

-- The tests that a call passes before it raises currentEpoch.
def startsElection : Bool :=
  !noReasonToFailover input s && !(dataTooOld cluster input && !manualFailover input) &&
    decide (input.now - s.failoverAuthTime ≤ authTimeout cluster ∧ (updateRank input s).failoverAuthTime ≤ input.now) &&
    !s.failoverAuthSent

def startElection : NodeState N :=
  { s with
    currentEpoch := epochSucc s.currentEpoch
    failoverAuthEpoch := epochSucc s.currentEpoch
    failoverAuthSent := true }

def replaceMaster : NodeState N :=
  { s with
    configEpoch := if s.configEpoch < s.failoverAuthEpoch then s.failoverAuthEpoch else s.configEpoch
    slaveof := none }

-- The age of the attempt is taken before the delay for a changed rank is added.
def clusterHandleSlaveFailover : NodeState N × Outcome :=
  let authAge := input.now - s.failoverAuthTime
  if noReasonToFailover input s then (s, .nothing)
  else if dataTooOld cluster input && !manualFailover input then (s, .nothing)
  else if authTimeout cluster * 2 < authAge then (scheduleElection input s, .nothing)
  else if input.now < (updateRank input s).failoverAuthTime then (updateRank input s, .nothing)
  else if authTimeout cluster < authAge then (updateRank input s, .nothing)
  else if (updateRank input s).failoverAuthSent = false then (startElection (updateRank input s), .request)
  else if neededQuorum cluster ≤ (updateRank input s).failoverAuthCount then (replaceMaster (updateRank input s), .won)
  else (updateRank input s, .nothing)

end

structure Header where
  currentEpoch : Nat
  configEpoch : Nat
  myslots : List Nat
  forceAck : Bool

-- other stands for the packets that only carry the sender's epoch to an election.
inductive Msg where
  | authRequest (hdr : Header)
  | authAck (hdr : Header)
  | other (hdr : Header)

def Msg.hdr : Msg → Header
  | .authRequest hdr => hdr
  | .authAck hdr => hdr
  | .other hdr => hdr

-- What the receiver knows when it processes a packet: the sender's master and whether it failed, and
-- the configEpoch of the owner of each slot.
structure PacketInput (N : Type) where
  now : Int
  senderMaster : Option N
  masterFailed : Bool
  slotEpoch : Nat → Option Nat
  linkUp : Bool

def slotEpochOk (input : PacketInput N) (request : Header) (slot : Nat) : Bool :=
  match input.slotEpoch slot with
  | none => true
  | some epoch => decide (epoch ≤ request.configEpoch)

def clusterSendFailoverAuthIfNeeded (cluster : Cluster N) (voter : N) (input : PacketInput N) (request : Header)
    (s : NodeState N) : NodeState N × Bool :=
  if voter ∉ cluster.masters then (s, false)
  else if request.currentEpoch < s.currentEpoch then (s, false)
  else if s.lastVoteEpoch = s.currentEpoch then (s, false)
  else
    match input.senderMaster with
    | none => (s, false)
    | some master =>
      if !input.masterFailed && !request.forceAck then (s, false)
      else if input.now - s.votedTime master < cluster.nodeTimeout * 2 then (s, false)
      else if !request.myslots.all (slotEpochOk input request) then (s, false)
      else ({ s with lastVoteEpoch := s.currentEpoch, votedTime := Function.update s.votedTime master input.now }, true)

-- Messages from one node to another arrive in order. won records who passed the quorum test, and for
-- which failover_auth_epoch.
structure World (N : Type) where
  nodes : N → NodeState N
  queue : N → N → List Msg
  won : List (N × Nat)

section

variable (w : World N)

def World.setNode (n : N) (s : NodeState N) : World N := { w with nodes := Function.update w.nodes n s }

def World.setQueue (src dst : N) (msgs : List Msg) : World N :=
  { w with queue := Function.update w.queue src (Function.update (w.queue src) dst msgs) }

def World.send (src dst : N) (msg : Msg) : World N := w.setQueue src dst (w.queue src dst ++ [msg])

def World.broadcast (src : N) (linkUp : N → Bool) (msg : Msg) : World N :=
  { w with queue := fun a b => if a = src ∧ b ≠ src ∧ linkUp b = true then w.queue a b ++ [msg] else w.queue a b }

def raiseEpoch (s : NodeState N) (epoch : Nat) : NodeState N :=
  if s.currentEpoch < epoch then { s with currentEpoch := epoch } else s

def replyToRequest (cluster : Cluster N) (src dst : N) (input : PacketInput N) (request : Header) : World N :=
  let voted := clusterSendFailoverAuthIfNeeded cluster dst input request (w.nodes dst)
  if voted.2 && input.linkUp then
    (w.setNode dst voted.1).send dst src (.authAck ⟨voted.1.currentEpoch, voted.1.configEpoch, [], false⟩)
  else w.setNode dst voted.1

def countAck (cluster : Cluster N) (src dst : N) (hdr : Header) : World N :=
  if src ∈ cluster.masters ∧ (w.nodes dst).failoverAuthEpoch ≤ hdr.currentEpoch then
    w.setNode dst { w.nodes dst with failoverAuthCount := (w.nodes dst).failoverAuthCount + 1 }
  else w

def clusterProcessPacket (cluster : Cluster N) (src dst : N) (input : PacketInput N) (msg : Msg) : World N :=
  let w := w.setNode dst (raiseEpoch (w.nodes dst) msg.hdr.currentEpoch)
  match msg with
  | .authRequest hdr => replyToRequest w cluster src dst input hdr
  | .authAck hdr => countAck w cluster src dst hdr
  | .other _ => w

end

-- failover: a node calls clusterHandleSlaveFailover. gossip: it sends any other packet. newEpoch: it
-- raises its epoch to resolve a collision of config epochs. disconnect: queued packets are lost.
inductive Event (N : Type) where
  | failover (n : N) (input : FailoverInput) (linkUp : N → Bool)
  | deliver (src dst : N) (input : PacketInput N)
  | gossip (src dst : N)
  | newEpoch (n : N)
  | disconnect (src dst : N)

def handleFailover (cluster : Cluster N) (w : World N) (n : N) (input : FailoverInput) (linkUp : N → Bool) : World N :=
  match clusterHandleSlaveFailover cluster input (w.nodes n) with
  | (s, .nothing) => w.setNode n s
  | (s, .request) => (w.setNode n s).broadcast n linkUp
      (.authRequest ⟨s.currentEpoch, input.masterConfigEpoch, input.masterSlots, input.mfEnd⟩)
  | (s, .won) => { w.setNode n s with won := (n, s.failoverAuthEpoch) :: w.won }

def step (cluster : Cluster N) (w : World N) : Event N → World N
  | .failover n input linkUp => handleFailover cluster w n input linkUp
  | .deliver src dst input =>
    match w.queue src dst with
    | [] => w
    | msg :: rest => clusterProcessPacket (w.setQueue src dst rest) cluster src dst input msg
  | .gossip src dst => w.send src dst (.other ⟨(w.nodes src).currentEpoch, (w.nodes src).configEpoch, [], false⟩)
  | .newEpoch n => w.setNode n { w.nodes n with currentEpoch := epochSucc (w.nodes n).currentEpoch }
  | .disconnect src dst => w.setQueue src dst []

-- An acknowledgement that will be counted arrives while no request of its receiver is out.
def earlyAck (cluster : Cluster N) (w : World N) (src dst : N) : Bool :=
  match w.queue src dst with
  | .authAck hdr :: _ => decide (src ∈ cluster.masters ∧ (w.nodes dst).failoverAuthEpoch ≤ hdr.currentEpoch) &&
      !(w.nodes dst).failoverAuthSent
  | _ => false

def timely (cluster : Cluster N) (w : World N) : Event N → Bool
  | .failover n input _ => !startsElection cluster input (w.nodes n) || (w.nodes n).currentEpoch + 1 < 2 ^ 64
  | .deliver src dst _ => !earlyAck cluster w src dst
  | .newEpoch n => decide ((w.nodes n).currentEpoch + 1 < 2 ^ 64)
  | _ => true

def run (cluster : Cluster N) (w : World N) (events : List (Event N)) : World N := events.foldl (step cluster) w

def allTimely (cluster : Cluster N) : World N → List (Event N) → Bool
  | _, [] => true
  | w, event :: events => timely cluster w event && allTimely cluster (step cluster w event) events

structure Initial (w : World N) : Prop where
  votes : ∀ n, (w.nodes n).lastVoteEpoch ≤ (w.nodes n).currentEpoch
  epoch : ∀ n, (w.nodes n).failoverAuthEpoch ≤ (w.nodes n).currentEpoch
  count : ∀ n, (w.nodes n).failoverAuthCount = 0
  sent : ∀ n, (w.nodes n).failoverAuthSent = false
  queue : ∀ a b, w.queue a b = []
  won : w.won = []

end RedisCore.Election
