import Mathlib

set_option autoImplicit false

namespace RedisCore.Sentinel

open Function

inductive FailoverState where
  | none
  | waitStart
  | selectSlave
  | sendSlaveofNoone
  | waitPromotion
  | reconfSlaves
  | updateConfig
  deriving DecidableEq

-- What a sentinel remembers of another sentinel of a master: its vote and its opinion of the master.
structure Peer (S : Type) where
  leader : Option S
  leaderEpoch : Nat
  masterDown : Bool
  lastMasterDownReplyTime : Int

structure Master (S : Type) where
  addr : Nat
  quorum : Nat
  failoverTimeout : Int
  sDown : Bool
  oDown : Bool
  failoverInProgress : Bool
  forceFailover : Bool
  leader : Option S
  leaderEpoch : Nat
  configEpoch : Nat
  failoverEpoch : Nat
  failoverState : FailoverState
  failoverStartTime : Int
  failoverStateChangeTime : Int
  promotedSlave : Option Nat
  peers : S → Peer S

structure SentinelState (S M : Type) where
  myid : S
  currentEpoch : Nat
  master : M → Master S

-- The sentinels know each other and monitor the same masters.
structure Deployment (S M : Type) where
  sentinels : List S
  masters : List M
  distinct : sentinels.Nodup
  complete : ∀ n, n ∈ sentinels

-- scan is the order in which the vote counters are visited. The fields after it stand for the links and
-- the slaves of the master: whether the master answers, which sentinels are not connected, which slave
-- can be promoted, and how its promotion goes.
structure Env (S : Type) where
  now : Int
  desync : Nat
  tilt : Bool
  scan : List S
  masterDown : Bool
  disconnected : S → Bool
  slave : Option Nat
  slaveDisconnected : Bool
  slaveofSent : Bool
  promotedDown : Bool
  allReconfigured : Bool

structure Request (S M : Type) where
  about : M
  addr : Nat
  epoch : Nat
  runid : Option S

-- about is the instance that the requester's callback is for.
inductive Reply (S M : Type) where
  | down (about : M) (isdown : Bool) (leader : Option S) (epoch : Nat)
  | error (about : M)

structure Hello (M : Type) where
  currentEpoch : Nat
  about : M
  addr : Nat
  configEpoch : Nat

def askPeriod : Int := 1000
def electionTimeout : Int := 10000

variable {S M : Type} [DecidableEq S] [DecidableEq M]

def Deployment.others (d : Deployment S M) (n : S) : List S := d.sentinels.filter (· ≠ n)

section

variable (env : Env S) (d : Deployment S M) (s : SentinelState S M) (m : M)

def SentinelState.modify (f : Master S → Master S) : SentinelState S M :=
  { s with master := update s.master m (f (s.master m)) }

def raiseEpoch (epoch : Nat) : SentinelState S M :=
  if s.currentEpoch < epoch then { s with currentEpoch := epoch } else s

-- A vote for another sentinel delays the voter's own failover.
def recordVote (runid : S) : SentinelState S M :=
  s.modify m fun master =>
    { master with
      leader := some runid
      leaderEpoch := s.currentEpoch
      failoverStartTime := if runid = s.myid then master.failoverStartTime else env.now + env.desync }

def castVote (reqEpoch : Nat) (reqRunid : S) : SentinelState S M :=
  if (s.master m).leaderEpoch < reqEpoch ∧ s.currentEpoch ≤ reqEpoch then recordVote env s m reqRunid else s

def sentinelVoteLeader (reqEpoch : Nat) (reqRunid : S) : SentinelState S M := castVote env (raiseEpoch s reqEpoch) m reqEpoch reqRunid

-- The votes of the other sentinels, for the current epoch and not for the epoch of the attempt.
def otherVotes : List S :=
  (d.others s.myid).filterMap fun p =>
    if ((s.master m).peers p).leaderEpoch = s.currentEpoch then ((s.master m).peers p).leader else none

def scanOrder (votes : List S) : List S :=
  env.scan.dedup.filter (· ∈ votes) ++ votes.dedup.filter (· ∉ env.scan)

def better (votes : List S) (best : Nat × Option S) (runid : S) : Nat × Option S :=
  if best.1 < votes.count runid then (votes.count runid, some runid) else best

def mostVoted (votes : List S) : Nat × Option S := (scanOrder env votes).foldl (better votes) (0, none)

-- The sentinel's own vote, which counts if it is for the epoch of the attempt.
def countOwnVote (epoch : Nat) (votes : List S) (best : Nat × Option S) (master : Master S) : Nat × Option S :=
  match master.leader with
  | some mine => if master.leaderEpoch = epoch then better (mine :: votes) best mine else best
  | none => best

def sentinelGetLeader (epoch : Nat) : SentinelState S M × Option S :=
  let votes := otherVotes d s m
  let best := mostVoted env votes
  let voted := sentinelVoteLeader env s m epoch (best.2.getD s.myid)
  let final := countOwnVote epoch votes best (voted.master m)
  let votersQuorum := ((d.others s.myid).length + 1) / 2 + 1
  (voted, if final.1 < votersQuorum ∨ final.1 < (s.master m).quorum then none else final.2)

def sentinelAbortFailover : SentinelState S M :=
  s.modify m fun master =>
    { master with
      failoverInProgress := false
      forceFailover := false
      failoverState := .none
      failoverStateChangeTime := env.now
      promotedSlave := none }

def setFailoverState (state : FailoverState) : SentinelState S M :=
  s.modify m fun master => { master with failoverState := state, failoverStateChangeTime := env.now }

def isLeader : Bool := decide ((sentinelGetLeader env d s m (s.master m).failoverEpoch).2 = some s.myid)

def sentinelFailoverWaitStart : SentinelState S M :=
  let voted := (sentinelGetLeader env d s m (s.master m).failoverEpoch).1
  if isLeader env d s m || (voted.master m).forceFailover then setFailoverState env voted m .selectSlave
  else if min electionTimeout (voted.master m).failoverTimeout < env.now - (voted.master m).failoverStartTime then
    sentinelAbortFailover env voted m
  else voted

def sentinelFailoverSelectSlave : SentinelState S M :=
  match env.slave with
  | none => sentinelAbortFailover env s m
  | some slave => setFailoverState env (s.modify m fun master => { master with promotedSlave := some slave }) m .sendSlaveofNoone

def stateTimedOut : Bool := decide ((s.master m).failoverTimeout < env.now - (s.master m).failoverStateChangeTime)

def sentinelFailoverSendSlaveOfNoOne : SentinelState S M :=
  if env.slaveDisconnected then
    if stateTimedOut env s m then sentinelAbortFailover env s m else s
  else if env.slaveofSent then setFailoverState env s m .waitPromotion
  else s

def sentinelFailoverWaitPromotion : SentinelState S M :=
  if stateTimedOut env s m then sentinelAbortFailover env s m else s

def sentinelFailoverDetectEnd : SentinelState S M :=
  if (s.master m).promotedSlave.isNone || env.promotedDown then s
  else if env.allReconfigured || stateTimedOut env s m then setFailoverState env s m .updateConfig
  else s

def sentinelFailoverStateMachine : SentinelState S M :=
  if (s.master m).failoverInProgress then
    match (s.master m).failoverState with
    | .waitStart => sentinelFailoverWaitStart env d s m
    | .selectSlave => sentinelFailoverSelectSlave env s m
    | .sendSlaveofNoone => sentinelFailoverSendSlaveOfNoOne env s m
    | .waitPromotion => sentinelFailoverWaitPromotion env s m
    | .reconfSlaves => sentinelFailoverDetectEnd env s m
    | .none | .updateConfig => s
  else s

-- The state machine is in the state in which it asks for the leader, and this sentinel is it.
def electedNow : Bool :=
  (s.master m).failoverInProgress && decide ((s.master m).failoverState = .waitStart) && isLeader env d s m

-- current_epoch is a 64-bit unsigned integer.
def nextEpoch (epoch : Nat) : Nat := if epoch + 1 < 2 ^ 64 then epoch + 1 else 0

def sentinelStartFailover : SentinelState S M :=
  { s with currentEpoch := nextEpoch s.currentEpoch }.modify m fun master =>
    { master with
      failoverState := .waitStart
      failoverInProgress := true
      failoverEpoch := nextEpoch s.currentEpoch
      failoverStartTime := env.now + env.desync
      failoverStateChangeTime := env.now }

def canStartFailover : Bool :=
  (s.master m).oDown && !(s.master m).failoverInProgress &&
    !decide (env.now - (s.master m).failoverStartTime < (s.master m).failoverTimeout * 2)

def sentinelCheckSubjectivelyDown : SentinelState S M := s.modify m fun master => { master with sDown := env.masterDown }

def sentinelCheckObjectivelyDown : SentinelState S M :=
  let agreeing := ((d.others s.myid).filter fun p => ((s.master m).peers p).masterDown).length
  s.modify m fun master => { master with oDown := master.sDown && decide (master.quorum ≤ 1 + agreeing) }

def forgetOld (peer : Peer S) : Peer S :=
  if askPeriod * 5 < env.now - peer.lastMasterDownReplyTime then { peer with masterDown := false, leader := none } else peer

def asks (forced : Bool) (p : S) : Bool :=
  (s.master m).sDown && !env.disconnected p &&
    (forced || !decide (env.now - ((s.master m).peers p).lastMasterDownReplyTime < askPeriod))

def question : Request S M where
  about := m
  addr := (s.master m).addr
  epoch := s.currentEpoch
  runid := if (s.master m).failoverState = .none then none else some s.myid

def asked (forced : Bool) : List S := (d.others s.myid).filter (asks env s m forced)

def sentinelAskMasterStateToOtherSentinels : SentinelState S M :=
  s.modify m fun master => { master with peers := fun p => forgetOld env (master.peers p) }

def sentinelResetMaster : SentinelState S M :=
  s.modify m fun master =>
    { master with
      sDown := false
      oDown := false
      failoverInProgress := false
      forceFailover := false
      leader := none
      failoverState := .none
      failoverStateChangeTime := 0
      failoverStartTime := 0
      promotedSlave := none }

def sentinelResetMasterAndChangeAddress (addr : Nat) : SentinelState S M :=
  (sentinelResetMaster s m).modify m fun master => { master with addr := addr }

def sentinelFailoverSwitchToPromotedSlave : SentinelState S M :=
  sentinelResetMasterAndChangeAddress s m ((s.master m).promotedSlave.getD (s.master m).addr)

def sentinelGetCurrentMasterAddress : Nat :=
  match (s.master m).failoverInProgress, (s.master m).failoverState, (s.master m).promotedSlave with
  | true, .reconfSlaves, some slave | true, .updateConfig, some slave => slave
  | _, _, _ => (s.master m).addr

def sentinelSendHello : Hello M where
  currentEpoch := s.currentEpoch
  about := m
  addr := sentinelGetCurrentMasterAddress s m
  configEpoch := (s.master m).configEpoch

def sentinelProcessHelloMessage (hello : Hello M) : SentinelState S M :=
  let s := raiseEpoch s hello.currentEpoch
  if (s.master hello.about).configEpoch < hello.configEpoch then
    let s := s.modify hello.about fun master => { master with configEpoch := hello.configEpoch }
    if hello.addr ≠ (s.master hello.about).addr then sentinelResetMasterAndChangeAddress s hello.about hello.addr else s
  else s

def promotionSeen : SentinelState S M :=
  if (s.master m).failoverInProgress ∧ (s.master m).failoverState = .waitPromotion then
    setFailoverState env (s.modify m fun master => { master with configEpoch := master.failoverEpoch }) m .reconfSlaves
  else s

-- SENTINEL FAILOVER.
def sentinelFailoverCommand : SentinelState S M :=
  if (s.master m).failoverInProgress || env.slave.isNone then s
  else (sentinelStartFailover env s m).modify m fun master => { master with forceFailover := true }

def masterByAddr (addr : Nat) : Option M := d.masters.find? fun m => (s.master m).addr = addr

-- SENTINEL is-master-down-by-addr. The epoch is read as a signed 64-bit integer.
def answer (request : Request S M) : SentinelState S M × Reply S M :=
  if 2 ^ 63 ≤ request.epoch then (s, .error request.about)
  else
    match masterByAddr d s request.addr, request.runid with
    | none, _ => (s, .down request.about false none 0)
    | some m, none => (s, .down request.about (!env.tilt && (s.master m).sDown) none 0)
    | some m, some runid =>
      let voted := sentinelVoteLeader env s m request.epoch runid
      (voted, .down request.about (!env.tilt && (s.master m).sDown) (voted.master m).leader (voted.master m).leaderEpoch)

def recordReply (isdown : Bool) (leader : Option S) (epoch : Nat) (peer : Peer S) : Peer S :=
  match leader with
  | none => { peer with masterDown := isdown, lastMasterDownReplyTime := env.now }
  | some runid => ⟨some runid, epoch, isdown, env.now⟩

def sentinelReceiveIsMasterDownReply (src : S) (reply : Reply S M) : SentinelState S M :=
  match reply with
  | .error _ => s
  | .down about isdown leader epoch =>
    s.modify about fun master =>
      { master with peers := update master.peers src (recordReply env isdown leader epoch (master.peers src)) }

end

-- Messages on one link arrive in order. elected records who sentinelGetLeader made the leader for which
-- master and failover_epoch.
structure World (S M : Type) where
  sentinel : S → SentinelState S M
  requests : S → S → List (Request S M)
  replies : S → S → List (Reply S M)
  hellos : S → S → List (Hello M)
  elected : List (S × M × Nat)

inductive Event (S M : Type) where
  | timer (n : S) (m : M) (env : Env S)
  | request (src dst : S) (env : Env S)
  | reply (src dst : S) (env : Env S)
  | sendHello (src dst : S) (m : M)
  | hello (src dst : S)
  | failover (n : S) (m : M) (env : Env S)
  | promotion (n : S) (m : M) (env : Env S)
  | switchMaster (n : S) (m : M)
  | disconnect (a b : S)

section

variable (d : Deployment S M) (w : World S M)

def World.setSentinel (n : S) (s : SentinelState S M) : World S M := { w with sentinel := update w.sentinel n s }

def enqueue {α : Type} (queue : S → S → List α) (src dst : S) (msgs : List α) : S → S → List α :=
  update queue src (update (queue src) dst msgs)

def World.ask (n : S) (question : Request S M) (dsts : List S) : World S M :=
  { w with requests := fun a b => if a = n ∧ b ∈ dsts then w.requests a b ++ [question] else w.requests a b }

-- The start of a failover asks at once; the periodic question comes after the state machine.
def checkedMaster (env : Env S) (s : SentinelState S M) (m : M) : SentinelState S M :=
  sentinelCheckObjectivelyDown d (sentinelCheckSubjectivelyDown env s m) m

def startedMaster (env : Env S) (s : SentinelState S M) (m : M) : SentinelState S M :=
  if canStartFailover env (checkedMaster d env s m) m then
    sentinelAskMasterStateToOtherSentinels env (sentinelStartFailover env (checkedMaster d env s m) m) m
  else checkedMaster d env s m

def askAtStart (env : Env S) (n : S) (m : M) : World S M :=
  let checked := checkedMaster d env (w.sentinel n) m
  let started := sentinelStartFailover env checked m
  if canStartFailover env checked m then w.ask n (question started m) (asked env d started m true) else w

def sentinelHandleRedisInstance (env : Env S) (n : S) (m : M) : World S M :=
  if env.tilt then w
  else
    let started := startedMaster d env (w.sentinel n) m
    let moved := sentinelFailoverStateMachine env d started m
    let w := (askAtStart d w env n m).ask n (question moved m) (asked env d moved m false)
    { w.setSentinel n (sentinelAskMasterStateToOtherSentinels env moved m) with
      elected := if electedNow env d started m then (n, m, (started.master m).failoverEpoch) :: w.elected else w.elected }

def step : Event S M → World S M
  | .timer n m env => sentinelHandleRedisInstance d w env n m
  | .request src dst env =>
    match w.requests src dst with
    | [] => w
    | request :: rest =>
      let answered := answer env d (w.sentinel dst) request
      { w.setSentinel dst answered.1 with
        requests := enqueue w.requests src dst rest
        replies := enqueue w.replies dst src (w.replies dst src ++ [answered.2]) }
  | .reply src dst env =>
    match w.replies src dst with
    | [] => w
    | reply :: rest =>
      { w.setSentinel dst (sentinelReceiveIsMasterDownReply env (w.sentinel dst) src reply) with
        replies := enqueue w.replies src dst rest }
  | .sendHello src dst m =>
    { w with hellos := enqueue w.hellos src dst (w.hellos src dst ++ [sentinelSendHello (w.sentinel src) m]) }
  | .hello src dst =>
    match w.hellos src dst with
    | [] => w
    | hello :: rest =>
      { w.setSentinel dst (sentinelProcessHelloMessage (w.sentinel dst) hello) with
        hellos := enqueue w.hellos src dst rest }
  | .failover n m env => w.setSentinel n (sentinelFailoverCommand env (w.sentinel n) m)
  | .promotion n m env => w.setSentinel n (promotionSeen env (w.sentinel n) m)
  | .switchMaster n m =>
    if ((w.sentinel n).master m).failoverState = .updateConfig then
      w.setSentinel n (sentinelFailoverSwitchToPromotedSlave (w.sentinel n) m)
    else w
  | .disconnect a b =>
    { w with requests := enqueue w.requests a b [], replies := enqueue w.replies b a [] }

def run (events : List (Event S M)) : World S M := events.foldl (step d) w

-- The leader of an attempt is found before the sentinel's epoch has moved on, and a request is taken
-- for the master that it is about.
def timely : Event S M → Bool
  | .timer n m env =>
    let started := startedMaster d env (w.sentinel n) m
    !(electedNow env d started m) || decide (started.currentEpoch = (started.master m).failoverEpoch)
  | .request src dst _ =>
    match w.requests src dst with
    | [] => true
    | request :: _ =>
      match masterByAddr d (w.sentinel dst) request.addr with
      | none => true
      | some m => decide (m = request.about)
  | _ => true

end

def allTimely (d : Deployment S M) : World S M → List (Event S M) → Bool
  | _, [] => true
  | w, event :: events => timely d w event && allTimely d (step d w event) events

structure Initial (w : World S M) : Prop where
  myid : ∀ n, (w.sentinel n).myid = n
  leader : ∀ n m, ((w.sentinel n).master m).leader = none
  peers : ∀ n m p, (((w.sentinel n).master m).peers p).leader = none
  replies : ∀ a b, w.replies a b = []
  elected : w.elected = []

end RedisCore.Sentinel
