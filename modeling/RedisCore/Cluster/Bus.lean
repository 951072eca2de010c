import RedisCore.Cluster.Election
import RedisCore.Ae.Loop
import RedisCore.Lib.Outbox
import RedisCore.Lib.Outcome

set_option autoImplicit false

namespace RedisCore.Bus

open Election Ae Lib Function

variable {N : Type} [DecidableEq N]

abbrev Fd := Nat

-- sizeof(clusterMsg) - sizeof(union clusterMsgData)
def headerLength : Nat := 2256

-- A link is a connected descriptor, out holds the send buffers: a byte is marked with the epoch of the
-- acknowledgement it belongs to. linkOf is node->link. What is durable is lastVoteEpoch as clusterSaveConfig has stored it.
structure BusState (N : Type) where
  state : NodeState N
  todoSave : Bool
  connected : Fd → Bool
  mask : Fd → Mask
  linkOf : N → Option Fd
  out : Outbox Fd

-- A packet that has been read, and what else processing it does: what it sends in answer, whether it asks for the
-- configuration to be saved, and whether it has resolved a collision of config epochs.
structure Incoming (N : Type) where
  src : N
  msg : Msg
  input : PacketInput N
  answers : List (Fd × Nat)
  save : Bool
  collision : Bool

section

variable (b : BusState N)

def clusterSendMessage (fd : Fd) (bytes : List (Option Nat)) : BusState N :=
  if b.connected fd then
    { b with
      mask := if b.out.queue fd = [] ∧ bytes ≠ [] then
          update b.mask fd (aeCreateFileEvent (b.mask fd) ⟨false, true, true⟩) else b.mask
      out := b.out.put fd bytes }
  else b

def sendOther (message : Fd × Nat) : BusState N := clusterSendMessage b message.1 (List.replicate message.2 none)

def freeClusterLink (fd : Fd) : BusState N :=
  { b with
    connected := update b.connected fd false
    mask := update b.mask fd (aeDeleteFileEvent (b.mask fd) ⟨true, true, false⟩)
    linkOf := fun n => if b.linkOf n = some fd then none else b.linkOf n
    out := b.out.clear fd }

def clusterSaveConfig : BusState N := { b with out := b.out.commit b.state.lastVoteEpoch }

def clusterSendFailoverAuth (candidate : N) : BusState N :=
  match b.linkOf candidate with
  | none => b
  | some fd => clusterSendMessage b fd (List.replicate headerLength (some b.state.currentEpoch))

-- clusterDoBeforeSleep only asks for the configuration to be saved.
def vote (cluster : Cluster N) (me candidate : N) (input : PacketInput N) (request : Header) : BusState N :=
  match clusterSendFailoverAuthIfNeeded cluster me input request b.state with
  | (state, true) => clusterSendFailoverAuth { b with state := state, todoSave := true } candidate
  | (state, false) => { b with state := state }

def countVote (cluster : Cluster N) (sender : N) (hdr : Header) : BusState N :=
  if sender ∈ cluster.masters ∧ b.state.failoverAuthEpoch ≤ hdr.currentEpoch then
    { b with state := { b.state with failoverAuthCount := b.state.failoverAuthCount + 1 } }
  else b

-- clusterHandleConfigEpochCollision saves the configuration at once.
def newEpoch : BusState N :=
  clusterSaveConfig { b with state := { b.state with currentEpoch := epochSucc b.state.currentEpoch } }

def processBody (cluster : Cluster N) (me : N) (p : Incoming N) : BusState N :=
  match p.msg with
  | .authRequest hdr => vote b cluster me p.src p.input hdr
  | .authAck hdr => countVote b cluster p.src hdr
  | .other _ => if p.collision then newEpoch b else b

def clusterProcessPacket (cluster : Cluster N) (me : N) (p : Incoming N) : BusState N :=
  let b := processBody { b with state := raiseEpoch b.state p.msg.hdr.currentEpoch } cluster me p
  p.answers.foldl sendOther { b with todoSave := b.todoSave || p.save }

-- All the packets that have arrived; after an I/O error the link is freed.
def clusterReadHandler (cluster : Cluster N) (me : N) (fd : Fd) (packets : List (Incoming N)) (fails : Bool) : BusState N :=
  let b := packets.foldl (fun b p => clusterProcessPacket b cluster me p) b
  if fails then freeClusterLink b fd else b

-- accepts is how many bytes write() would take.
def clusterWriteHandler (fd : Fd) (accepts : Nat) : BusState N :=
  let nwritten := min accepts (b.out.queue fd).length
  if nwritten = 0 then freeClusterLink b fd
  else
    let out := b.out.take fd nwritten
    { b with
      out := out
      mask := if out.queue fd = [] then update b.mask fd (aeDeleteFileEvent (b.mask fd) ⟨false, true, false⟩) else b.mask }

end

structure Fired (N : Type) where
  fd : Fd
  readable : Bool
  writable : Bool
  packets : List (Incoming N)
  fails : Bool
  accepts : Nat

-- What clusterCron, clusterBeforeSleep and commands do: send packets, accept and open links, lose them, run
-- clusterHandleSlaveFailover, save the configuration or ask for it.
inductive Change (N : Type) where
  | send (fd : Fd) (length : Nat)
  | accept (fd : Fd)
  | connect (node : N) (fd : Fd)
  | lose (fd : Fd)
  | failover (input : FailoverInput)
  | save
  | todo

-- One round of the event loop. The rounds that processEventsWhileBlocked makes do not sleep.
structure Turn (N : Type) where
  sleeps : Bool
  failovers : List (Change N)
  fired : List (Fired N)
  timers : List (Change N)

section

variable (cluster : Cluster N) (me : N) (b : BusState N)

def change : Change N → BusState N
  | .send fd length => sendOther b (fd, length)
  | .accept fd =>
    if b.connected fd then b
    else { b with
      connected := update b.connected fd true
      mask := update b.mask fd (aeCreateFileEvent (b.mask fd) ⟨true, false, false⟩) }
  | .connect node fd =>
    if b.connected fd then b
    else { b with
      connected := update b.connected fd true
      mask := update b.mask fd (aeCreateFileEvent (b.mask fd) ⟨true, false, false⟩)
      linkOf := update b.linkOf node (some fd) }
  | .lose fd => freeClusterLink b fd
  | .failover input => { b with state := (clusterHandleSlaveFailover cluster input b.state).1 }
  | .save => clusterSaveConfig b
  | .todo => { b with todoSave := true }

-- The failover comes first, then the configuration is saved if that was asked for.
def clusterBeforeSleep (failovers : List (Change N)) : BusState N :=
  let b := failovers.foldl (change cluster) b
  { if b.todoSave then clusterSaveConfig b else b with todoSave := false }

def fire (f : Fired N) : BusState N :=
  serve (fun b => b.mask f.fd) (fun b => clusterReadHandler b cluster me f.fd f.packets f.fails)
    (fun b => clusterWriteHandler b f.fd f.accepts) f.readable f.writable b

def aeProcessEvents (fired : List (Fired N)) (timers : List (Change N)) : BusState N :=
  timers.foldl (change cluster) (fired.foldl (fire cluster me) b)

def turn (t : Turn N) : BusState N :=
  aeProcessEvents cluster me (if t.sleeps then clusterBeforeSleep cluster b t.failovers else b) t.fired t.timers

def run (turns : List (Turn N)) : BusState N := turns.foldl (turn cluster me) b

-- The write handler is not called for a link on which an acknowledgement waits since the configuration was last saved.
def fireHolds (f : Fired N) : Bool :=
  (writesFrom (fun b => b.mask f.fd) (fun b => clusterReadHandler b cluster me f.fd f.packets f.fails) f.readable f.writable b).all
    fun b => f.fd ∉ b.out.fresh

def changeHolds : Change N → Bool
  | .failover input => !startsElection cluster input b.state || b.state.currentEpoch + 1 < 2 ^ 64
  | _ => true

end

section

variable (cluster : Cluster N) (me : N) (b : BusState N)

def turnHolds (t : Turn N) : Bool :=
  let slept := if t.sleeps then clusterBeforeSleep cluster b t.failovers else b
  (!t.sleeps || allSteps (change cluster) (changeHolds cluster) b t.failovers) && allSteps (fire cluster me) (fireHolds cluster me) slept t.fired &&
    allSteps (change cluster) (changeHolds cluster) (t.fired.foldl (fire cluster me) slept) t.timers

def allHold (turns : List (Turn N)) : Bool := allSteps (turn cluster me) (turnHolds cluster me) b turns

end

end RedisCore.Bus
