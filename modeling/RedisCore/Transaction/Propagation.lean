import RedisCore.Keyspace.Server

set_option autoImplicit false

namespace RedisCore.Transaction

-- PROPAGATE_AOF and PROPAGATE_REPL, also used for the flags that force and prevent propagation.
structure Target where
  aof : Bool
  repl : Bool
  deriving DecidableEq

def Target.any (target : Target) : Bool := target.aof || target.repl

def toBoth : Target := ⟨true, true⟩
def toNone : Target := ⟨false, false⟩

inductive OpKind where
  | multi
  | exec
  | other
  deriving DecidableEq

-- The arguments of propagate().
structure Op where
  kind : OpKind
  dbid : Nat
  argv : List Bytes
  target : Target
  deriving DecidableEq

-- signalModifiedKey and signalFlushedDb; no database for a flush of all.
inductive Signal where
  | key (dbid : Nat) (key : Bytes)
  | flush (dbid : Option Nat)
  deriving DecidableEq

structure Request where
  dirty : Int
  dbid : Nat
  argv : List Bytes
  inMulti : Bool

-- What a command does. argv and dbid are those of the client afterwards. nested holds the commands
-- propagated while it runs, by the calls of a script.
structure Effects (S : Type) where
  data : S
  dirty : Int
  dbid : Nat
  argv : List Bytes
  nested : List Op
  also : List Op
  force : Target
  prevent : Target
  signals : List Signal

structure Command (S : Type) where
  isReadonly : Bool
  isAdmin : Bool
  isModule : Bool
  proc : S → Request → Effects S

def Effects.idle {S : Type} (data : S) (request : Request) : Effects S :=
  { data := data, dirty := request.dirty, dbid := request.dbid, argv := request.argv, nested := [], also := [], force := toNone,
    prevent := toNone, signals := [] }

structure Client (S : Type) where
  dbid : Nat
  inMulti : Bool
  dirtyCas : Bool
  dirtyExec : Bool
  commands : List (Command S × List Bytes)
  watchedKeys : List (Nat × Bytes)

def Client.fresh {S : Type} : Client S :=
  { dbid := 0, inMulti := false, dirtyCas := false, dirtyExec := false, commands := [], watchedKeys := [] }

-- A command handed to propagate() and the EXEC that was running then.
structure Propagated where
  op : Op
  during : Option Nat
  deriving DecidableEq

-- execs numbers the transactions executed so far.
structure Server (S : Type) where
  data : S
  dirty : Int
  clients : Nat → Client S
  propagated : List Propagated
  execs : Nat

section

variable {S : Type} (present : S → Nat → Bytes → Bool) (server : Server S) (id : Nat)

def Server.setClient (c : Client S) : Server S := { server with clients := Function.update server.clients id c }

def Server.propagate (during : Option Nat) (ops : List Op) : Server S :=
  { server with propagated := server.propagated ++ ops.map (⟨·, during⟩) }

-- Whether a signal marks a client. A flush only concerns keys that are there.
def touches (data : S) (c : Client S) : Signal → Bool
  | .key dbid key => decide ((dbid, key) ∈ c.watchedKeys)
  | .flush dbid => c.watchedKeys.any fun watched =>
      (dbid.isNone || decide (dbid = some watched.1)) && present data watched.1 watched.2

def touchWatchedKeys (data : S) (signals : List Signal) (c : Client S) : Client S :=
  if signals.any (touches present data c) then { c with dirtyCas := true } else c

def Target.without (target prevent : Target) : Target := ⟨target.aof && !prevent.aof, target.repl && !prevent.repl⟩

def propagateFlags (before : Int) (e : Effects S) : Target :=
  if e.prevent = toBoth then toNone
  else
    let changed := decide (0 < e.dirty - before)
    Target.without ⟨changed || e.force.aof, changed || e.force.repl⟩ e.prevent

def callOps (cmd : Command S) (before : Int) (e : Effects S) : List Op :=
  let self := if (propagateFlags before e).any && !cmd.isModule then [⟨.other, e.dbid, e.argv, propagateFlags before e⟩] else []
  e.nested ++ (self ++ e.also.filter (·.target.any))

def Server.request (argv : List Bytes) : Request :=
  { dirty := server.dirty, dbid := (server.clients id).dbid, argv := argv, inMulti := (server.clients id).inMulti }

def call (during : Option Nat) (cmd : Command S) (argv : List Bytes) : Server S :=
  let e := cmd.proc server.data (server.request id argv)
  let touched := fun other => touchWatchedKeys present server.data e.signals (server.clients other)
  { server with
    data := e.data
    dirty := e.dirty
    clients := Function.update touched id { touched id with dbid := e.dbid }
    propagated := server.propagated ++ (callOps cmd server.dirty e).map (⟨·, during⟩) }

def discardTransaction (c : Client S) : Client S :=
  { c with inMulti := false, dirtyCas := false, dirtyExec := false, commands := [], watchedKeys := [] }

-- One spelling stands for all the ways a client can write them.
def multiArgv : List Bytes := [[77, 85, 76, 84, 73]]
def execArgv : List Bytes := [[69, 88, 69, 67]]

def execCommandPropagateMulti (during : Option Nat) : Server S :=
  server.propagate during [⟨.multi, (server.clients id).dbid, multiArgv, toBoth⟩]

def startsMulti (must : Bool) (cmd : Command S) : Bool := !must && !(cmd.isReadonly || cmd.isAdmin)

def execLoop (during : Option Nat) : List (Command S × List Bytes) → Bool → Server S → Server S × Bool
  | [], must, server => (server, must)
  | (cmd, argv) :: rest, must, server =>
    if startsMulti must cmd then
      execLoop during rest true (call present (execCommandPropagateMulti server id during) id during cmd argv)
    else execLoop during rest must (call present server id during cmd argv)

-- EXEC without MULTI is an error, and a marked transaction is dropped.
def execAborts (c : Client S) : Bool := !c.inMulti || c.dirtyCas || c.dirtyExec

def runQueue : Server S × Bool :=
  execLoop present id (some server.execs) (server.clients id).commands false
    (server.setClient id { server.clients id with watchedKeys := [] })

-- After the queue the transaction is dropped and dirty says that EXEC has to follow MULTI. The call of
-- EXEC itself then compares dirty with its value at the start.
def execCommand : Server S :=
  let (after, must) := runQueue present server id
  let after := after.setClient id (discardTransaction (after.clients id))
  let after := if must then { after with dirty := after.dirty + 1 } else after
  let after := if 0 < after.dirty - server.dirty then
      after.propagate (some server.execs) [⟨.exec, (after.clients id).dbid, execArgv, toBoth⟩]
    else after
  { after with execs := server.execs + 1 }

def watchForKey (c : Client S) (key : Bytes) : Client S :=
  if (c.dbid, key) ∈ c.watchedKeys then c else { c with watchedKeys := c.watchedKeys ++ [(c.dbid, key)] }

-- unwatch in a transaction has nothing left to do.
def unwatchCommand : Command S := { isReadonly := false, isAdmin := false, isModule := false, proc := Effects.idle }

-- What a client does. rejected is a command refused with an error, which may mark the transaction.
inductive ClientAction (S : Type) where
  | multi
  | exec
  | discard
  | watch (keys : List Bytes)
  | unwatch
  | rejected (flagsTransaction : Bool)
  | command (cmd : Command S) (argv : List Bytes)
  | disconnect

def queueMultiCommand (c : Client S) (cmd : Command S) (argv : List Bytes) : Client S :=
  { c with commands := c.commands ++ [(cmd, argv)] }

def processCommand (action : ClientAction S) : Server S :=
  let c := server.clients id
  match action with
  | .multi => server.setClient id { c with inMulti := true }
  | .exec =>
    if execAborts c then (if c.inMulti then server.setClient id (discardTransaction c) else server)
    else execCommand present server id
  | .discard => if c.inMulti then server.setClient id (discardTransaction c) else server
  | .watch keys => if c.inMulti then server else server.setClient id (keys.foldl watchForKey c)
  | .unwatch =>
    if c.inMulti then server.setClient id (queueMultiCommand c unwatchCommand [])
    else server.setClient id { c with watchedKeys := [], dirtyCas := false }
  | .rejected flagsTransaction => server.setClient id { c with dirtyExec := c.dirtyExec || (flagsTransaction && c.inMulti) }
  | .command cmd argv =>
    if c.inMulti then server.setClient id (queueMultiCommand c cmd argv) else call present server id none cmd argv
  | .disconnect => server.setClient id Client.fresh

-- Between commands: serving blocked clients, expiration, eviction.
inductive Event (S : Type) where
  | client (id : Nat) (action : ClientAction S)
  | background (run : S → Int → Effects S)

def runBackground (run : S → Int → Effects S) : Server S :=
  let e := run server.data server.dirty
  { server with
    data := e.data
    dirty := e.dirty
    clients := fun other => touchWatchedKeys present server.data e.signals (server.clients other)
    propagated := server.propagated ++ e.also.map (⟨·, none⟩) }

def step (server : Server S) : Event S → Server S
  | .client id action => processCommand present server id action
  | .background run => runBackground present server run

def run (server : Server S) (events : List (Event S)) : Server S := events.foldl (step present) server

def Server.start (data : S) (dirty : Int) : Server S :=
  { data := data, dirty := dirty, clients := fun _ => Client.fresh, propagated := [], execs := 0 }

end

-- Where a reader of the stream is: the number the next transaction must reach, and the open one.
structure Reader where
  next : Nat
  inside : Option Nat
  deriving DecidableEq

-- MULTI opens the block of one transaction, EXEC closes it, and between them are commands of that
-- transaction only. Commands of transactions are nowhere else, and no transaction has two blocks.
def Reader.read (r : Reader) (p : Propagated) : Option Reader :=
  match r.inside, p.op.kind, p.during with
  | none, .multi, some n => if r.next ≤ n then some { r with inside := some n } else none
  | none, .other, none => some r
  | some m, .other, some n => if m = n then some r else none
  | some m, .exec, some n => if m = n then some ⟨n + 1, none⟩ else none
  | _, _, _ => none

def Reader.start : Reader := ⟨0, none⟩

def readStream (r : Reader) (stream : List Propagated) : Option Reader := stream.foldlM Reader.read r

def wellFormed (stream : List Propagated) : Bool :=
  match readStream .start stream with
  | some r => r.inside.isNone
  | none => false

section

variable {S : Type} (present : S → Nat → Bytes → Bool)

def Effects.plain (cmd : Command S) (before : Int) (e : Effects S) : Bool := (callOps cmd before e).all fun op => op.kind = .other

def quietQueue (id : Nat) (during : Option Nat) : List (Command S × List Bytes) → Bool → Server S → Bool
  | [], _, _ => true
  | (cmd, argv) :: rest, must, server =>
    let starts := startsMulti must cmd
    let server := if starts then execCommandPropagateMulti server id during else server
    let e := cmd.proc server.data (server.request id argv)
    (if must || starts then e.plain cmd server.dirty else decide (callOps cmd server.dirty e = [])) &&
      quietQueue id during rest (must || starts) (call present server id during cmd argv)

-- dirty is not above its value at the start unless MULTI was propagated, and then it is not below.
def quietExec (server : Server S) (id : Nat) : Bool :=
  quietQueue present id (some server.execs) (server.clients id).commands false
      (server.setClient id { server.clients id with watchedKeys := [] }) &&
    (if (runQueue present server id).2 then decide (server.dirty ≤ (runQueue present server id).1.dirty)
    else decide ((runQueue present server id).1.dirty ≤ server.dirty))

def quiet (server : Server S) : Event S → Bool
  | .client id .exec => execAborts (server.clients id) || quietExec present server id
  | .client id (.command cmd argv) =>
    (server.clients id).inMulti || (cmd.proc server.data (server.request id argv)).plain cmd server.dirty
  | .client _ _ => true
  | .background run => (run server.data server.dirty).also.all fun op => op.kind = .other

def allQuiet : Server S → List (Event S) → Bool
  | _, [] => true
  | server, event :: events => quiet present server event && allQuiet (step present server event) events

theorem readStream_append (r : Reader) (front back : List Propagated) :
    readStream r (front ++ back) = (readStream r front).bind fun r => readStream r back := by
  simp [readStream, List.foldlM_append]

theorem readStream_snoc {r r' : Reader} {front : List Propagated} (p : Propagated) (read : readStream r front = some r') :
    readStream r (front ++ [p]) = r'.read p := by
  rw [readStream_append, read]
  exact bind_pure _

theorem read_plain (r : Reader) {ops : List Op} (plain : ops.all fun op => op.kind = .other) :
    readStream r (ops.map (⟨·, r.inside⟩)) = some r := by
  induction ops with
  | nil => rfl
  | cons op ops ih =>
    simp only [List.all_cons, Bool.and_eq_true, decide_eq_true_eq] at plain
    have first : r.read ⟨op, r.inside⟩ = some r := by
      cases inside : r.inside <;> simp [Reader.read, inside, plain.1]
    rw [List.map_cons, readStream, List.foldlM_cons, first]
    exact ih plain.2

theorem call_propagated (server : Server S) (id : Nat) (during : Option Nat) (cmd : Command S) (argv : List Bytes) :
    (call present server id during cmd argv).propagated = server.propagated ++
      (callOps cmd server.dirty (cmd.proc server.data (server.request id argv))).map (⟨·, during⟩) := rfl

-- Once MULTI is out the reader stays inside the transaction; before, nothing is written.
theorem execLoop_stream {id n : Nat} {queue : List (Command S × List Bytes)} (must : Bool) (server : Server S) (r : Reader)
    (stream : readStream .start server.propagated = some r) (inside : r.inside = if must then some n else none)
    (next : r.next ≤ n) (quiet_queue : quietQueue present id (some n) queue must server = true) :
    ∃ r', readStream .start (execLoop present id (some n) queue must server).1.propagated = some r' ∧
      (r'.inside = if (execLoop present id (some n) queue must server).2 then some n else none) ∧ r'.next ≤ n := by
  induction queue generalizing must server r with
  | nil => exact ⟨r, stream, inside, next⟩
  | cons entry rest ih =>
    obtain ⟨cmd, argv⟩ := entry
    rw [quietQueue] at quiet_queue
    cases starts : startsMulti must cmd with
    | true =>
      have fresh : must = false := by
        simp only [startsMulti, Bool.and_eq_true, Bool.not_eq_true'] at starts
        exact starts.1
      subst fresh
      simp only [starts, Bool.or_true, if_true, Bool.and_eq_true] at quiet_queue
      rw [execLoop, starts, if_pos rfl]
      refine ih true _ { r with inside := some n } ?_ rfl next quiet_queue.2
      have opened : readStream .start (execCommandPropagateMulti server id (some n)).propagated =
          some { r with inside := some n } := by
        have outside : r.inside = none := by simpa using inside
        rw [execCommandPropagateMulti, Server.propagate, List.map_singleton, readStream_snoc _ stream]
        simp [Reader.read, outside, next]
      rw [call_propagated, readStream_append, opened]
      exact read_plain { r with inside := some n } quiet_queue.1
    | false =>
      simp only [starts, Bool.or_false, Bool.false_eq_true, if_false, Bool.and_eq_true] at quiet_queue
      rw [execLoop, starts, if_neg (by decide)]
      refine ih must _ r ?_ inside next quiet_queue.2
      rw [call_propagated, readStream_append, stream]
      cases must with
      | true =>
        have in_transaction : r.inside = some n := by simpa using inside
        rw [← in_transaction]
        exact read_plain r quiet_queue.1
      | false =>
        have nothing := of_decide_eq_true quiet_queue.1
        rw [nothing]
        rfl

structure Bracketed (server : Server S) : Prop where
  stream : ∃ r, readStream .start server.propagated = some r ∧ r.inside = none ∧ r.next ≤ server.execs

section

variable {server : Server S}

theorem setClient_bracketed (id : Nat) (c : Client S) (bracketed : Bracketed server) :
    Bracketed (server.setClient id c) := ⟨bracketed.stream⟩

theorem bracketed_append {server' : Server S} {ops : List Op} (bracketed : Bracketed server)
    (plain : ops.all fun op => op.kind = .other) (appended : server'.propagated = server.propagated ++ ops.map (⟨·, none⟩))
    (same : server'.execs = server.execs) : Bracketed server' := by
  obtain ⟨r, stream, outside, next⟩ := bracketed.stream
  refine ⟨r, ?_, outside, by rw [same]; exact next⟩
  rw [appended, readStream_append, stream]
  have plain_read := read_plain r plain
  rw [outside] at plain_read
  exact plain_read

theorem execCommand_bracketed {id : Nat} (bracketed : Bracketed server)
    (quiet_exec : quietExec present server id = true) : Bracketed (execCommand present server id) := by
  obtain ⟨r, stream, outside, next⟩ := bracketed.stream
  rw [quietExec, Bool.and_eq_true] at quiet_exec
  obtain ⟨quiet_queue, dirty⟩ := quiet_exec
  obtain ⟨r', stream', inside', next'⟩ := execLoop_stream present false
    (server.setClient id { server.clients id with watchedKeys := [] }) r stream outside next quiet_queue
  change readStream .start (runQueue present server id).1.propagated = some r' at stream'
  change r'.inside = if (runQueue present server id).2 then some server.execs else none at inside'
  unfold execCommand
  cases must : (runQueue present server id).2 with
  | true =>
    simp only [must, if_true, decide_eq_true_eq] at dirty inside' ⊢
    rw [if_pos (by simp only [Server.setClient]; omega)]
    refine ⟨⟨server.execs + 1, none⟩, ?_, rfl, le_rfl⟩
    refine (readStream_snoc _ stream').trans ?_
    simp [Reader.read, inside']
  | false =>
    simp only [must, Bool.false_eq_true, if_false, decide_eq_true_eq] at dirty inside' ⊢
    rw [if_neg (by simp only [Server.setClient]; omega)]
    exact ⟨r', stream', inside', next'.trans (Nat.le_succ _)⟩

theorem step_bracketed {event : Event S} (bracketed : Bracketed server)
    (is_quiet : quiet present server event = true) : Bracketed (step present server event) := by
  cases event with
  | background run => exact bracketed_append bracketed is_quiet rfl rfl
  | client id action =>
    cases action with
    | command cmd argv =>
      simp only [quiet, Bool.or_eq_true] at is_quiet
      simp only [step, processCommand]
      split_ifs with queued
      · exact setClient_bracketed id _ bracketed
      · exact bracketed_append bracketed (is_quiet.resolve_left queued) (call_propagated present server id none cmd argv) rfl
    | exec =>
      simp only [quiet, Bool.or_eq_true] at is_quiet
      simp only [step, processCommand]
      split_ifs with aborts
      · exact setClient_bracketed id _ bracketed
      · exact bracketed
      · exact execCommand_bracketed present bracketed (is_quiet.resolve_left aborts)
    | multi => exact setClient_bracketed id _ bracketed
    | rejected flags => exact setClient_bracketed id _ bracketed
    | disconnect => exact setClient_bracketed id _ bracketed
    | discard | watch | unwatch =>
      simp only [step, processCommand]
      split_ifs <;> first | exact setClient_bracketed id _ bracketed | exact bracketed

end

theorem run_bracketed (server : Server S) {events : List (Event S)} (bracketed : Bracketed server)
    (all_quiet : allQuiet present server events = true) : Bracketed (run present server events) := by
  induction events generalizing server with
  | nil => exact bracketed
  | cons event events ih =>
    rw [allQuiet, Bool.and_eq_true] at all_quiet
    exact ih _ (step_bracketed present bracketed all_quiet.1) all_quiet.2

-- A queued command before MULTI hands nothing to propagate() and leaves dirty, a later one hands over neither MULTI nor EXEC
-- and does not lower dirty.
def tameQueue (id : Nat) (during : Option Nat) : List (Command S × List Bytes) → Bool → Server S → Bool
  | [], _, _ => true
  | (cmd, argv) :: rest, must, server =>
    let starts := startsMulti must cmd
    let server := if starts then execCommandPropagateMulti server id during else server
    let e := cmd.proc server.data (server.request id argv)
    (if must || starts then e.plain cmd server.dirty && decide (server.dirty ≤ e.dirty)
      else decide (callOps cmd server.dirty e = [] ∧ e.dirty = server.dirty)) &&
      tameQueue id during rest (must || starts) (call present server id during cmd argv)

theorem execLoop_opened (id : Nat) (during : Option Nat) (queue : List (Command S × List Bytes)) (server : Server S) :
    (execLoop present id during queue true server).2 = true := by
  induction queue generalizing server with
  | nil => rfl
  | cons entry rest ih => exact ih _

-- Once MULTI is out dirty is not lowered; before, it is left alone.
theorem tameQueue_agrees {id : Nat} {during : Option Nat} {queue : List (Command S × List Bytes)} (must : Bool) (server : Server S)
    (tame : tameQueue present id during queue must server = true) :
    quietQueue present id during queue must server = true ∧
      (if (execLoop present id during queue must server).2 then server.dirty ≤ (execLoop present id during queue must server).1.dirty
      else (execLoop present id during queue must server).1.dirty = server.dirty) := by
  induction queue generalizing must server with
  | nil =>
    refine ⟨rfl, ?_⟩
    simp [execLoop]
  | cons entry rest ih =>
    obtain ⟨cmd, argv⟩ := entry
    rw [tameQueue] at tame
    rw [quietQueue, execLoop]
    cases starts : startsMulti must cmd with
    | true =>
      simp only [starts, Bool.or_true, if_true, Bool.and_eq_true, decide_eq_true_eq] at tame ⊢
      obtain ⟨quiet, raised⟩ := ih true _ tame.2
      rw [if_pos (execLoop_opened present id during rest _)] at raised ⊢
      exact ⟨⟨tame.1.1, quiet⟩, tame.1.2.trans raised⟩
    | false =>
      simp only [starts, Bool.or_false, Bool.false_eq_true, if_false, Bool.and_eq_true] at tame ⊢
      obtain ⟨quiet, agrees⟩ := ih must _ tame.2
      cases must with
      | true =>
        simp only [if_true, Bool.and_eq_true, decide_eq_true_eq] at tame ⊢
        rw [if_pos (execLoop_opened present id during rest _)] at agrees ⊢
        exact ⟨⟨tame.1.1, quiet⟩, tame.1.2.trans agrees⟩
      | false =>
        simp only [Bool.false_eq_true, if_false, decide_eq_true_eq] at tame ⊢
        refine ⟨⟨tame.1.1, quiet⟩, ?_⟩
        rw [← tame.1.2]
        exact agrees

theorem quietExec_of_tame {server : Server S} {id : Nat} (tame : tameQueue present id (some server.execs) (server.clients id).commands false
    (server.setClient id { server.clients id with watchedKeys := [] }) = true) : quietExec present server id = true := by
  obtain ⟨quiet, agrees⟩ := tameQueue_agrees present false _ tame
  refine (Bool.and_eq_true _ _).mpr ⟨quiet, ?_⟩
  change (if (runQueue present server id).2 then server.dirty ≤ (runQueue present server id).1.dirty
    else (runQueue present server id).1.dirty = server.dirty) at agrees
  split at agrees
  · next out => rw [if_pos out, decide_eq_true_eq]; exact agrees
  · next out => rw [if_neg out, decide_eq_true_eq]; exact agrees.le

theorem transactions_propagate_in_blocks (data : S) (dirty : Int) (events : List (Event S))
    (all_quiet : allQuiet present (.start data dirty) events = true) :
    wellFormed (run present (.start data dirty) events).propagated = true := by
  obtain ⟨r, stream, outside, _⟩ := (run_bracketed present (.start data dirty) ⟨.start, rfl, rfl, le_rfl⟩ all_quiet).stream
  simp [wellFormed, stream, outside]

end

section

variable (encode : Keyspace.Command → List Bytes) (c : Keyspace.ClientId)

def opKind : Keyspace.Command → OpKind
  | .multi => .multi
  | .exec => .exec
  | _ => .other

-- What the server of the keyspace has propagated, as arguments of propagate().
def opOf (entry : Nat × Keyspace.Command) : Op := ⟨opKind entry.2, entry.1, encode entry.2, toBoth⟩

def ops (s : Keyspace.Server) : List Op := s.propagated.map (opOf encode)

def effectsOf (command : Keyspace.Command) (done : Keyspace.Server) : Effects Keyspace.Server where
  data := done
  dirty := done.dirty
  dbid := Keyspace.currentDb done c
  argv := encode (done.rewritten.getD command)
  nested := []
  also := done.also.map (opOf encode)
  force := toNone
  prevent := if done.prevent then toBoth else toNone
  signals := []

-- What a command propagates on its own is in nested there and in the stream here.
def keyspaceCommand (command : Keyspace.Command) : Command Keyspace.Server where
  isReadonly := Keyspace.isReadonly command
  isAdmin := false
  isModule := false
  proc := fun s request =>
    match Keyspace.proc { s with rewritten := none, also := [], prevent := false } c command with
    | .ok done => effectsOf encode c command done
    | .error _ => Effects.idle s request

theorem propagateCall_ops (before : Int) {command : Keyspace.Command} {done : Keyspace.Server}
    (plain : opKind (done.rewritten.getD command) = .other) :
    ops encode (Keyspace.propagateCall done c before command) =
      ops encode done ++ callOps (keyspaceCommand encode c command) before (effectsOf encode c command done) := by
  have kept : (done.also.map (opOf encode)).filter (·.target.any) = done.also.map (opOf encode) := by
    refine List.filter_eq_self.mpr fun op inside => ?_
    obtain ⟨entry, -, rfl⟩ := List.mem_map.mp inside
    rfl
  have raised : 0 < done.dirty - before ↔ before < done.dirty := sub_pos
  simp only [ops, Keyspace.propagateCall, callOps, effectsOf, kept, keyspaceCommand, propagateFlags, raised, List.map_append,
    List.append_assoc, List.nil_append]
  cases done.prevent <;> by_cases grown : before < done.dirty <;>
    simp [grown, opOf, plain, Target.any, Target.without, toBoth, toNone]

section

variable {s s' : Keyspace.Server} {command : Keyspace.Command}

/-- Both models of call() hand the same commands to propagate() after those of the command itself. -/
theorem call_agrees (present : Keyspace.Server → Nat → Bytes → Bool) {server : Server Keyspace.Server} (data : server.data = s)
    (dirty : server.dirty = s.dirty) (ran : Keyspace.call s c command = .ok s')
    (plain : ∀ done, Keyspace.proc { s with rewritten := none, also := [], prevent := false } c command = .ok done →
      opKind (done.rewritten.getD command) = .other) (id : Nat) (during : Option Nat) (argv : List Bytes) :
    let after := call present server id during (keyspaceCommand encode c command) argv
    after.dirty = s'.dirty ∧
      ∃ done new, Keyspace.proc { s with rewritten := none, also := [], prevent := false } c command = .ok done ∧
        ops encode s' = ops encode done ++ new ∧ after.propagated = server.propagated ++ new.map (⟨·, during⟩) := by
  obtain ⟨done, ended, finished⟩ := Lib.bind_ok.mp ran
  cases finished
  have effects : (keyspaceCommand encode c command).proc server.data (server.request id argv) = effectsOf encode c command done := by
    simp only [keyspaceCommand, data, ended]
  refine ⟨?_, done, _, ended, propagateCall_ops encode c s.dirty (plain done ended), ?_⟩
  · simp only [call, effects]
    rfl
  · rw [call_propagated, effects, dirty]

/-- Both models of EXEC propagate MULTI before the same queued command. -/
theorem execOne_opens {must must' : Bool} (ran : Keyspace.execOne c (s, must) command = .ok (s', must')) :
    must' = (must || startsMulti must (keyspaceCommand encode c command)) := by
  obtain ⟨done, -, finished⟩ := Lib.bind_ok.mp ran
  cases finished
  simp [startsMulti, keyspaceCommand]

/-- Both models of EXEC propagate it when dirty, counted once more after MULTI, is above its value at the start. -/
theorem execRun_closes (ran : Keyspace.execRun s c = .ok s') : ∃ done must,
    (s.client c).commands.foldlM (Keyspace.execOne c)
        (Keyspace.addReply (Keyspace.unwatchAllKeys s c) c (.arrayHeader (s.client c).commands.length), false) = .ok (done, must) ∧
      let discarded := Keyspace.discardTransaction done c
      ops encode s' = ops encode discarded ++
        if 0 < (if must then discarded.dirty + 1 else discarded.dirty) - s.dirty then
          [⟨.exec, Keyspace.currentDb discarded c, encode .exec, toBoth⟩] else [] := by
  obtain ⟨⟨done, must⟩, looped, finished⟩ := Lib.bind_ok.mp ran
  refine ⟨done, must, looped, ?_⟩
  cases finished
  cases must <;> simp only [sub_pos, Bool.false_eq_true, if_true, if_false, Keyspace.Server.addDirty] <;> split_ifs <;>
    simp [ops, Keyspace.propagate, opOf, opKind, Keyspace.currentDb]

end

end

-- The values PFCOUNT meets: a HyperLogLog with the cardinality its registers give and the cached one,
-- if that is valid, or something else.
inductive PfValue where
  | hll (count : Nat) (cached : Option Nat)
  | other
  deriving DecidableEq

abbrev PfData := Nat → Bytes → Option PfValue

def pfPresent (data : PfData) (dbid : Nat) (key : Bytes) : Bool := (data dbid key).isSome

def setValue (data : PfData) (dbid : Nat) (key : Bytes) (value : Option PfValue) : PfData :=
  Function.update data dbid (Function.update (data dbid) key value)

-- With one key the cardinality is cached in the value; with more the union is only computed.
def pfcountProc (data : PfData) (request : Request) : Effects PfData :=
  match request.argv with
  | [_, key] =>
    match data request.dbid key with
    | some (.hll count none) =>
      { Effects.idle data request with
        data := setValue data request.dbid key (some (.hll count (some count)))
        dirty := request.dirty + 1
        signals := [.key request.dbid key] }
    | _ => Effects.idle data request
  | _ => Effects.idle data request

def pfcountCommand : Command PfData := { isReadonly := true, isAdmin := false, isModule := false, proc := pfcountProc }

def delKeys (dbid : Nat) : List Bytes → Effects PfData → Effects PfData
  | [], e => e
  | key :: keys, e =>
    if pfPresent e.data dbid key then
      delKeys dbid keys
        { e with data := setValue e.data dbid key none, dirty := e.dirty + 1, signals := e.signals ++ [.key dbid key] }
    else delKeys dbid keys e

def delCommand : Command PfData :=
  { isReadonly := false, isAdmin := false, isModule := false
    proc := fun data request => delKeys request.dbid request.argv.tail (Effects.idle data request) }

def staleData : PfData := fun dbid key => if dbid = 0 ∧ key = [104] then some (.hll 3 none) else none

def pfcountArgv : List Bytes := [[80, 70, 67, 79, 85, 78, 84], [104]]

def deleteInTransaction : List (Event PfData) :=
  [.client 1 .multi, .client 1 (.command delCommand [[68, 69, 76], [104]]), .client 2 (.command pfcountCommand pfcountArgv),
   .client 1 (.command pfcountCommand pfcountArgv), .client 1 .exec]

theorem delete_in_transaction_block :
    wellFormed (run pfPresent (.start staleData 0) deleteInTransaction).propagated = true :=
  transactions_propagate_in_blocks pfPresent staleData 0 deleteInTransaction (by decide +kernel)

-- PFCOUNT is flagged as a read, so MULTI is not propagated, but it changes dirty, so EXEC is.
def countInTransaction : List (Event PfData) :=
  [.client 1 .multi, .client 1 (.command pfcountCommand pfcountArgv), .client 1 .exec]

theorem pfcount_in_transaction_unopened :
    (run pfPresent (.start staleData 0) countInTransaction).propagated.map (fun p => (p.op.kind, p.op.argv)) =
        [(.other, pfcountArgv), (.exec, execArgv)] ∧
      wellFormed (run pfPresent (.start staleData 0) countInTransaction).propagated = false := by
  decide +kernel

end RedisCore.Transaction
