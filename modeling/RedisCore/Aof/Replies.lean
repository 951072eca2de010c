import RedisCore.Keyspace.Server
import RedisCore.Ae.Loop
import RedisCore.Lib.Outbox

set_option autoImplicit false

namespace RedisCore.Aof

open Lib Ae Keyspace Function

def bulkLength (value : Bytes) : Nat := (Util.ll2string 32 value.length).length + value.length + 5

def replyLength : Reply → Nat
  | .ok => 5
  | .queued => 9
  | .error text => text.length + 2
  | .integer value => (Util.ll2string 32 value).length + 3
  | .bulk value => bulkLength value
  | .nullBulk => 5
  | .multiBulk items => (Util.ll2string 32 items.length).length + 3 + (items.map bulkLength).sum
  | .nullMultiBulk => 5
  | .arrayHeader length => (Util.ll2string 32 length).length + 3

-- With the AOF on and appendfsync always. A client is its descriptor, inbox the commands in its query buffer. fed is the
-- number of commands fed to the AOF. out holds the output buffers: a byte is marked with fed when the event it belongs to
-- has fed something; what is durable is the number of commands written and fsynced. others records the clients that got a
-- marked byte by an event of another one since the AOF was last flushed.
structure Instance where
  server : Server
  fed : Nat
  crashed : Bool
  clients : List ClientId
  mask : ClientId → Mask
  inbox : ClientId → List Command
  unblocked : List ClientId
  pendingWrite : List ClientId
  out : Outbox ClientId
  others : List ClientId

section

variable (i : Instance)

def blocked (s : Server) (c : ClientId) : Bool := (s.client c).bpop.isSome

-- prepareClientToWrite puts the client at the head of clients_pending_write.
def addOutput (c : ClientId) (bytes : List (Option Nat)) : Instance :=
  if bytes = [] then i
  else { i with
    pendingWrite := if i.out.queue c = [] ∧ c ∉ i.pendingWrite then c :: i.pendingWrite else i.pendingWrite
    out := i.out.put c bytes }

def newBytes (before after : Server) (mark : Option Nat) (c : ClientId) : List (Option Nat) :=
  (((after.client c).replies.drop (before.client c).replies.length).map fun reply => List.replicate (replyLength reply) mark).flatten

def deliver (before : Server) (mark : Option Nat) (c : Option ClientId) (i : Instance) (d : ClientId) : Instance :=
  let bytes := newBytes before i.server mark d
  { addOutput i d bytes with
    others := if bytes.any Option.isSome ∧ c ≠ some d then d :: i.others else i.others
    unblocked := if blocked before d ∧ !blocked i.server d ∧ d ∉ i.unblocked then i.unblocked ++ [d] else i.unblocked }

def owner : Event → Option ClientId
  | .command c _ => some c
  | _ => none

def perform (now : Int) (event : Event) : Instance :=
  if i.crashed then i
  else
    match Keyspace.step i.server now event with
    | .ok (some server) =>
      let grown := server.propagated.length - i.server.propagated.length
      let mark := if grown = 0 then none else some (i.fed + grown)
      i.clients.foldl (deliver i.server mark (owner event)) { i with server := server, fed := i.fed + grown }
    | _ => { i with crashed := true }

def setInbox (c : ClientId) (commands : List Command) : Instance := { i with inbox := update i.inbox c commands }

def processInputBuffer (now : Int) (c : ClientId) : List Command → Instance → Instance
  | [], i => setInbox i c []
  | command :: rest, i =>
    if blocked i.server c then setInbox i c (command :: rest)
    else processInputBuffer now c rest (perform i now (.command c command))

def freeClient (c : ClientId) : Instance :=
  let i := perform i i.server.now (.disconnect c)
  { i with
    clients := i.clients.erase c
    mask := update i.mask c Mask.none
    inbox := update i.inbox c []
    unblocked := i.unblocked.erase c
    pendingWrite := i.pendingWrite.erase c
    out := i.out.clear c }

-- More commands have arrived, or the connection is closed.
def readQueryFromClient (now : Int) (c : ClientId) (commands : List Command) (closed : Bool) : Instance :=
  if i.crashed then i
  else if closed then freeClient i c
  else processInputBuffer now c (i.inbox c ++ commands) i

-- How many bytes write() takes, in all its calls, and whether the last one fails.
structure Accept where
  count : Nat
  fails : Bool

def writeToClient (c : ClientId) (accept : Accept) (handlerInstalled : Bool) : Instance :=
  let out := i.out.take c accept.count
  if accept.fails then freeClient { i with out := out } c
  else { i with
    out := out
    mask := if out.queue c = [] ∧ handlerInstalled then
        update i.mask c (aeDeleteFileEvent (i.mask c) ⟨false, true, false⟩) else i.mask }

def sendReplyToClient (c : ClientId) (accept : Accept) : Instance := if i.crashed then i else writeToClient i c accept true

-- With appendfsync always the handler is installed with AE_BARRIER.
def installHandler (c : ClientId) : Instance :=
  if i.out.queue c = [] then i
  else { i with mask := update i.mask c (aeCreateFileEvent (i.mask c) ⟨false, true, true⟩) }

def handlePendingWrite (accepts : ClientId → Accept) (c : ClientId) : Instance :=
  let i := { i with pendingWrite := i.pendingWrite.erase c }
  if (accepts c).fails then writeToClient i c (accepts c) false else installHandler (writeToClient i c (accepts c) false) c

def handleClientsWithPendingWrites (accepts : ClientId → Accept) : Instance :=
  if i.crashed then i else i.pendingWrite.foldl (fun i c => handlePendingWrite i accepts c) i

def processUnblocked (now : Int) (c : ClientId) : Instance :=
  let i := { i with unblocked := i.unblocked.erase c }
  if blocked i.server c then i else processInputBuffer now c (i.inbox c) i

-- The loop goes on until no client is left; rounds bounds it.
def processUnblockedClients (now : Int) : (rounds : Nat) → Instance → Instance
  | 0, i => i
  | rounds + 1, i =>
    match i.unblocked with
    | [] => i
    | c :: _ => processUnblockedClients now rounds (processUnblocked i now c)

-- The whole buffer is written and fsynced, or the server exits.
def flushAppendOnlyFile : Instance := { i with out := i.out.commit i.fed, others := [] }

end

structure Sleep where
  now : Int
  expires : List (Nat × Bytes)
  rounds : Nat
  accepts : ClientId → Accept

structure Fired where
  client : ClientId
  readable : Bool
  writable : Bool
  now : Int
  commands : List Command
  closed : Bool
  accept : Accept

inductive Timer where
  | event (now : Int) (event : Event)
  | connect (c : ClientId)

-- One round of the event loop. processEventsWhileBlocked makes rounds that do not sleep but write pending replies, and the
-- rest of the round it was called from follows as a round without either.
structure Turn where
  sleep : Option Sleep
  fired : List Fired
  whileBlocked : Option (ClientId → Accept)
  timers : List Timer

section

variable (i : Instance)

def beforeSleep (sleep : Sleep) : Instance :=
  let i := sleep.expires.foldl (fun i key => perform i sleep.now (.expire key.1 key.2)) i
  handleClientsWithPendingWrites (flushAppendOnlyFile (processUnblockedClients sleep.now sleep.rounds i)) sleep.accepts

def fire (f : Fired) : Instance :=
  serve (fun i => i.mask f.client) (fun i => readQueryFromClient i f.now f.client f.commands f.closed)
    (fun i => sendReplyToClient i f.client f.accept) f.readable f.writable i

def timer : Timer → Instance
  | .event now event => perform i now event
  | .connect c =>
    if c ∈ i.clients then i
    else { i with clients := i.clients ++ [c], mask := update i.mask c ⟨true, false, false⟩ }

def slept (sleep : Option Sleep) : Instance :=
  match sleep with
  | some sleep => beforeSleep i sleep
  | none => i

def nested (accepts : Option (ClientId → Accept)) : Instance :=
  match accepts with
  | some accepts => handleClientsWithPendingWrites i accepts
  | none => i

def turn (t : Turn) : Instance := t.timers.foldl timer (nested (t.fired.foldl fire (slept i t.sleep)) t.whileBlocked)

def run (turns : List Turn) : Instance := turns.foldl turn i

def writesAt (f : Fired) : Option Instance :=
  writesFrom (fun i => i.mask f.client) (fun i => readQueryFromClient i f.now f.client f.commands f.closed) f.readable f.writable i

-- After beforeSleep: the write handler is not called for a client that another one's command has served. Without it:
-- for no client that waits for the AOF.
def fireHolds (slept : Bool) (f : Fired) : Bool :=
  (writesAt i f).all fun i => if slept then f.client ∉ i.others else f.client ∉ i.out.fresh

def nestedHolds (accepts : Option (ClientId → Accept)) : Bool :=
  accepts.isNone || i.pendingWrite.all fun c => c ∉ i.out.fresh

-- The poll reports each descriptor once.
def turnHolds (t : Turn) : Bool :=
  decide (t.fired.map Fired.client).Nodup && allSteps fire (fun i f => fireHolds i t.sleep.isSome f) (slept i t.sleep) t.fired &&
    nestedHolds (t.fired.foldl fire (slept i t.sleep)) t.whileBlocked

def allHold (turns : List Turn) : Bool := allSteps turn turnHolds i turns

end

end RedisCore.Aof
