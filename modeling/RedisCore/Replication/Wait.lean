import RedisCore.Keyspace.TablesRun

set_option autoImplicit false

namespace RedisCore.Waiting

open Lib Keyspace List Function

structure Slave where
  id : Nat
  online : Bool
  replAckOff : Int
  deriving DecidableEq

-- An entry of clients_waiting_acks. written and served are those of the client when it issued WAIT.
structure Waiter where
  client : ClientId
  reploffset : Int
  numreplicas : Int
  timeout : Int
  written : List Int
  served : Bool
  deriving DecidableEq

-- An integer that WAIT replied, with what the online slaves had acknowledged by then.
structure Answer where
  client : ClientId
  count : Nat
  acked : List Int
  written : List Int
  served : Bool
  deriving DecidableEq

def Answer.Sound (a : Answer) : Prop := ∀ last ∈ a.written, a.count ≤ (a.acked.filter fun ack => last ≤ ack).length

instance (a : Answer) : Decidable a.Sound := inferInstanceAs (Decidable (∀ last ∈ a.written, _))

-- The bytes that a SELECT of a database and a command take in the replication stream.
structure Wire where
  select : Int → Nat
  command : Command → Nat

-- written records for each client where the propagation of its writes ended in the stream, answers the replies
-- of WAIT. served says that a blocked client was given an element and has not executed a command since.
structure Master where
  core : Server
  masterReplOffset : Int
  slaveseldb : Int
  replBacklog : Bool
  slaves : List Slave
  woff : ClientId → Int
  clientsWaitingAcks : List Waiter
  getAckFromSlaves : Bool
  written : ClientId → List Int
  served : ClientId → Bool
  answers : List Answer

section

variable (wire : Wire) (s : Master)

-- none is a failed assertion.
def replicationFeedSlaves (dictid : Int) (length : Nat) : Option Master :=
  if s.core.isSlave then some s
  else if s.replBacklog then
    some { s with
      masterReplOffset := s.masterReplOffset + ((if s.slaveseldb = dictid then 0 else wire.select dictid) + length : Nat)
      slaveseldb := dictid }
  else if s.slaves = [] then some s
  else none

def feedAll (ops : List (Int × Nat)) : Option Master := ops.foldlM (fun s op => replicationFeedSlaves wire s op.1 op.2) s

-- What the keyspace has propagated since it had propagated so many commands.
def newOps (before : Nat) (core : Server) : List (Int × Nat) :=
  (core.propagated.drop before).map fun op => ((op.1 : Int), wire.command op.2)

def setCore (core : Server) : Option Master := feedAll wire { s with core := core } (newOps wire s.core.propagated.length core)

-- After call() the offset is sampled. start is the offset before it.
def sampleOffset (start : Int) (c : ClientId) : Master :=
  { s with
    woff := update s.woff c s.masterReplOffset
    served := update s.served c false
    written := if start < s.masterReplOffset then update s.written c (s.written c ++ [s.masterReplOffset]) else s.written }

-- A client whose element could not be stored is unblocked with an error.
def servedBy (before after : Server) (c : ClientId) : Bool :=
  (before.client c).bpop.isSome && (after.client c).bpop.isNone && (after.client c).replies.getLast? ≠ some wrongType

def recordServed (before : Server) : Master :=
  { s with
    served := fun c => s.served c || servedBy before s.core c
    written := fun c => if servedBy before s.core c then s.written c ++ [s.masterReplOffset] else s.written c }

-- none also if the rounds are too few.
def handleClientsBlockedOnLists (rounds : Nat) : Option Master := do
  let core ← (Keyspace.handleClientsBlockedOnLists rounds s.core).toOption.join
  let fed ← setCore wire s core
  return recordServed fed s.core

def finishCall (start : Int) (c : ClientId) (rounds : Nat) : Option Master :=
  handleClientsBlockedOnLists wire (sampleOffset s start c) rounds

def processCommand (c : ClientId) (command : Command) (rounds : Nat) : Option Master :=
  if (s.core.client c).inMulti && !isControl command then some { s with core := queueMultiCommand s.core c command }
  else do
    let core ← (runCommand s.core c command).toOption
    let called ← setCore wire s core
    finishCall wire called s.masterReplOffset c rounds

def ackedOnline : List Int := (s.slaves.filter Slave.online).map Slave.replAckOff

def replicationCountAcksByOffset (offset : Int) : Nat := (s.slaves.filter fun slave => slave.online && decide (offset ≤ slave.replAckOff)).length

def isBlocked (c : ClientId) : Bool := (s.core.client c).bpop.isSome || s.clientsWaitingAcks.any fun w => w.client = c

def reply (a : Answer) : Master := { s with core := addReply s.core a.client (.integer a.count), answers := s.answers ++ [a] }

def waitCommand (now : Int) (c : ClientId) (numreplicas timeout : Int) : Master :=
  if s.core.isSlave then
    { s with core := addReply s.core c (.error ("-ERR WAIT cannot be used with slave instances. Please also note that since Redis 4.0 " ++
      "if a slave is configured to be writable (which is not the default) writes to slaves are just local and are not propagated.")) }
  else if timeout < 0 then { s with core := addReply s.core c (.error "-ERR timeout is negative") }
  else
    let ackreplicas := replicationCountAcksByOffset s (s.woff c)
    if numreplicas ≤ ackreplicas then reply s ⟨c, ackreplicas, ackedOnline s, s.written c, s.served c⟩
    else
      { s with
        clientsWaitingAcks := s.clientsWaitingAcks ++
          [⟨c, s.woff c, toInt numreplicas, if 0 < timeout then timeout + now else 0, s.written c, s.served c⟩]
        getAckFromSlaves := true }

-- In a transaction WAIT is queued, and EXEC counts without blocking.
def processWait (now : Int) (c : ClientId) (numreplicas timeout : Int) (rounds : Nat) : Option Master :=
  if (s.core.client c).inMulti then some { s with core := addReply s.core c .queued }
  else finishCall wire (waitCommand s now c numreplicas timeout) s.masterReplOffset c rounds

def answerTo (w : Waiter) (count : Nat) : Answer := ⟨w.client, count, ackedOnline s, w.written, w.served⟩

def waitersLoop : (lastOffset : Int) → (lastNumreplicas : Nat) → List Waiter → List Waiter × List Answer
  | _, _, [] => ([], [])
  | lastOffset, lastNumreplicas, w :: rest =>
    if lastOffset ≠ 0 ∧ w.reploffset < lastOffset ∧ w.numreplicas < lastNumreplicas then
      let next := waitersLoop lastOffset lastNumreplicas rest
      (next.1, answerTo s w lastNumreplicas :: next.2)
    else
      let numreplicas := replicationCountAcksByOffset s w.reploffset
      if w.numreplicas ≤ numreplicas then
        let next := waitersLoop w.reploffset numreplicas rest
        (next.1, answerTo s w numreplicas :: next.2)
      else
        let next := waitersLoop lastOffset lastNumreplicas rest
        (w :: next.1, next.2)

def processClientsWaitingReplicas : Master :=
  let next := waitersLoop s 0 0 s.clientsWaitingAcks
  next.2.foldl reply { s with clientsWaitingAcks := next.1 }

def getackLength : Nat := 37
def pingLength : Nat := 14

def requestAcks : Option Master :=
  if s.getAckFromSlaves then replicationFeedSlaves wire s s.slaveseldb getackLength else some s

def beforeSleep : Option Master := do
  let asked ← requestAcks wire s
  return processClientsWaitingReplicas { asked with getAckFromSlaves := false }

def modifySlave (id : Nat) (f : Slave → Slave) : Master := { s with slaves := s.slaves.map fun slave => if slave.id = id then f slave else slave }

def replconfAck (offset : Int) (slave : Slave) : Slave := { slave with replAckOff := max slave.replAckOff offset }

def unblockWaiting (c : ClientId) : Master := { s with clientsWaitingAcks := s.clientsWaitingAcks.filter fun w => w.client ≠ c }

-- clientsCronHandleTimeout for a blocked client.
def handleTimeout (now : Int) (c : ClientId) : Master :=
  match s.clientsWaitingAcks.find? fun w => w.client = c with
  | some w =>
    if w.timeout ≠ 0 ∧ w.timeout < now then
      unblockWaiting (reply s (answerTo s w (replicationCountAcksByOffset s w.reploffset))) c
    else s
  | none => { s with core := timeoutClient s.core c }

-- The id is free for another client then.
def freeClient (c : ClientId) : Master :=
  let s := unblockWaiting s c
  { s with
    core := Keyspace.freeClient s.core c
    woff := update s.woff c 0
    served := update s.served c false
    written := update s.written c [] }

end

-- command: of the modelled keyspace. call: any other command, with what it propagates. sync and continue: a slave
-- is attached by a full or a partial resynchronization. setupSlave: a full resynchronization begins.
inductive Event where
  | command (c : ClientId) (command : Command) (rounds : Nat)
  | call (c : ClientId) (ops : List (Int × Nat)) (rounds : Nat)
  | wait (c : ClientId) (numreplicas timeout : Int) (rounds : Nat)
  | timeout (c : ClientId)
  | disconnect (c : ClientId)
  | expire (j : Nat) (key : Bytes)
  | beforeSleep
  | ping
  | sync (id : Nat)
  | continue (id : Nat)
  | setupSlave
  | putOnline (id : Nat)
  | ack (id : Nat) (offset : Int)
  | freeSlave (id : Nat)
  | freeBacklog

def step (wire : Wire) (s : Master) (now : Int) : Event → Option Master
  | .command c command rounds =>
    if isBlocked s c then some s else processCommand wire { s with core := { s.core with now := now } } c command rounds
  | .call c ops rounds =>
    if isBlocked s c || (s.core.client c).inMulti then some s
    else do
      let called ← feedAll wire s ops
      finishCall wire called s.masterReplOffset c rounds
  | .wait c numreplicas timeout rounds => if isBlocked s c then some s else processWait wire s now c numreplicas timeout rounds
  | .timeout c => some (handleTimeout s now c)
  | .disconnect c => some (freeClient s c)
  | .expire j key =>
    if s.core.isSlave then some s else setCore wire s (activeExpireCycleTryExpire { s.core with now := now } j key now)
  | .beforeSleep => beforeSleep wire s
  | .ping => if s.slaves = [] then some s else replicationFeedSlaves wire s s.slaveseldb pingLength
  | .sync id => some { s with slaves := s.slaves ++ [⟨id, false, 0⟩], replBacklog := s.replBacklog || decide (s.slaves = []) }
  | .continue id => some (if s.replBacklog then { s with slaves := s.slaves ++ [⟨id, true, 0⟩] } else s)
  | .setupSlave => some { s with slaveseldb := -1 }
  | .putOnline id => some (modifySlave s id fun slave => { slave with online := true })
  | .ack id offset => some (modifySlave s id (replconfAck offset))
  | .freeSlave id => some { s with slaves := s.slaves.filter fun slave => slave.id ≠ id }
  | .freeBacklog => some (if s.slaves = [] ∧ s.core.isSlave = false then { s with replBacklog := false } else s)

def run (wire : Wire) (s : Master) (events : List (Int × Event)) : Option Master :=
  events.foldlM (fun s event => step wire s event.1 event.2) s

structure Inv (s : Master) : Prop where
  ends : ∀ c, ∀ last ∈ s.written c, last ≤ s.masterReplOffset
  fresh : ∀ c, s.served c = false → ∀ last ∈ s.written c, last ≤ s.woff c
  waiting : ∀ w ∈ s.clientsWaitingAcks, w.served = false → ∀ last ∈ w.written, last ≤ w.reploffset
  sound : ∀ a ∈ s.answers, a.served = false → a.Sound

structure Fed (s s' : Master) : Prop where
  offset : s.masterReplOffset ≤ s'.masterReplOffset
  woff : s'.woff = s.woff
  waiting : s'.clientsWaitingAcks = s.clientsWaitingAcks
  written : s'.written = s.written
  served : s'.served = s.served
  answers : s'.answers = s.answers

theorem Fed.refl (s : Master) : Fed s s := ⟨le_rfl, rfl, rfl, rfl, rfl, rfl⟩

theorem Fed.trans {s s' s'' : Master} (first : Fed s s') (second : Fed s' s'') : Fed s s'' where
  offset := first.offset.trans second.offset
  woff := second.woff.trans first.woff
  waiting := second.waiting.trans first.waiting
  written := second.written.trans first.written
  served := second.served.trans first.served
  answers := second.answers.trans first.answers

theorem Inv.of_fed {s s' : Master} (inv : Inv s) (fed : Fed s s') : Inv s' where
  ends := by
    intro c last inside
    rw [fed.written] at inside
    exact (inv.ends c last inside).trans fed.offset
  fresh := by
    rw [fed.served, fed.written, fed.woff]
    exact inv.fresh
  waiting := by
    rw [fed.waiting]
    exact inv.waiting
  sound := by
    rw [fed.answers]
    exact inv.sound

section

variable {wire : Wire} {s s' : Master}

theorem feedSlaves_fed {dictid : Int} {length : Nat} (fed : replicationFeedSlaves wire s dictid length = some s') : Fed s s' := by
  unfold replicationFeedSlaves at fed
  split at fed
  · cases fed
    exact .refl _
  · split at fed
    · cases fed
      exact ⟨le_add_of_nonneg_right (Int.natCast_nonneg _), rfl, rfl, rfl, rfl, rfl⟩
    · split at fed
      · cases fed
        exact .refl _
      · cases fed

theorem feedAll_fed {ops : List (Int × Nat)} (fed : feedAll wire s ops = some s') : Fed s s' := by
  induction ops generalizing s with
  | nil =>
    cases fed
    exact .refl _
  | cons op rest ih =>
    obtain ⟨middle, first, later⟩ := Option.bind_eq_some_iff.mp fed
    exact (feedSlaves_fed first).trans (ih later)

theorem setCore_fed {core : Server} (fed : setCore wire s core = some s') : Fed s s' := by
  have grown := feedAll_fed fed
  exact ⟨grown.1, grown.2, grown.3, grown.4, grown.5, grown.6⟩

theorem Inv.sampleOffset (inv : Inv s) (start : Int) (c : ClientId) : Inv (sampleOffset s start c) := by
  have ends : ∀ k, ∀ last ∈ (Waiting.sampleOffset s start c).written k, last ≤ s.masterReplOffset := by
    intro k last inside
    unfold Waiting.sampleOffset at inside
    dsimp only at inside
    split at inside
    · by_cases here : k = c
      · subst here
        rw [update_self] at inside
        rcases mem_append.mp inside with before | new
        · exact inv.ends k last before
        · exact (mem_singleton.mp new).le
      · rw [update_of_ne here] at inside
        exact inv.ends k last inside
    · exact inv.ends k last inside
  refine ⟨ends, ?_, inv.waiting, inv.sound⟩
  intro k idle last inside
  by_cases here : k = c
  · subst here
    simpa [Waiting.sampleOffset] using ends k last inside
  · have same : (Waiting.sampleOffset s start c).written k = s.written k := by
      unfold Waiting.sampleOffset
      dsimp only
      split
      · exact update_of_ne here _ _
      · rfl
    rw [same] at inside
    simp only [Waiting.sampleOffset, update_of_ne here] at idle ⊢
    exact inv.fresh k idle last inside

theorem Inv.recordServed (inv : Inv s) (before : Server) : Inv (recordServed s before) where
  ends := by
    intro c last inside
    unfold Waiting.recordServed at inside
    dsimp only at inside
    split at inside
    · rcases mem_append.mp inside with old | new
      · exact inv.ends c last old
      · exact (mem_singleton.mp new).le
    · exact inv.ends c last inside
  fresh := by
    intro c idle last inside
    obtain ⟨notServed, kept⟩ := (Bool.or_eq_false_iff).mp idle
    simp only [Waiting.recordServed, kept, Bool.false_eq_true, if_false] at inside
    exact inv.fresh c notServed last inside
  waiting := inv.waiting
  sound := inv.sound

theorem Inv.finishCall (inv : Inv s) {start : Int} {c : ClientId} {rounds : Nat}
    (finished : finishCall wire s start c rounds = some s') : Inv s' := by
  obtain ⟨core, -, rest⟩ := Option.bind_eq_some_iff.mp finished
  obtain ⟨fed, grown, last⟩ := Option.bind_eq_some_iff.mp rest
  cases last
  exact ((inv.sampleOffset start c).of_fed (setCore_fed grown)).recordServed _

theorem Inv.processCommand (inv : Inv s) {c : ClientId} {command : Command} {rounds : Nat}
    (processed : processCommand wire s c command rounds = some s') : Inv s' := by
  unfold Waiting.processCommand at processed
  split at processed
  · cases processed
    exact ⟨inv.1, inv.2, inv.3, inv.4⟩
  · obtain ⟨core, -, rest⟩ := Option.bind_eq_some_iff.mp processed
    obtain ⟨called, fed, finished⟩ := Option.bind_eq_some_iff.mp rest
    exact (inv.of_fed (setCore_fed fed)).finishCall finished

theorem count_le_acked {offset last : Int} (before : last ≤ offset) :
    replicationCountAcksByOffset s offset ≤ ((ackedOnline s).filter fun ack => last ≤ ack).length := by
  rw [replicationCountAcksByOffset, ackedOnline, filter_map, length_map, filter_filter,
    ← countP_eq_length_filter, ← countP_eq_length_filter]
  refine countP_mono_left fun slave _ counted => ?_
  simp only [Bool.and_eq_true, decide_eq_true_eq, Function.comp] at counted ⊢
  exact ⟨before.trans counted.2, counted.1⟩

theorem Inv.reply (inv : Inv s) (a : Answer) (sound : a.served = false → a.Sound) : Inv (reply s a) := by
  refine ⟨inv.ends, inv.fresh, inv.waiting, ?_⟩
  intro b inside
  rcases mem_append.mp inside with before | new
  · exact inv.sound b before
  · obtain rfl := mem_singleton.mp new
    exact sound

theorem Inv.replyAll (inv : Inv s) {answers : List Answer} (sound : ∀ a ∈ answers, a.served = false → a.Sound) :
    Inv (answers.foldl Waiting.reply s) := by
  induction answers generalizing s with
  | nil => exact inv
  | cons a rest ih =>
    exact ih (inv.reply a (sound a mem_cons_self)) fun b inside => sound b (mem_cons_of_mem a inside)

theorem Inv.waitCommand (inv : Inv s) (now : Int) (c : ClientId) (numreplicas timeout : Int) :
    Inv (waitCommand s now c numreplicas timeout) := by
  unfold Waiting.waitCommand
  split
  · exact ⟨inv.1, inv.2, inv.3, inv.4⟩
  · split
    · exact ⟨inv.1, inv.2, inv.3, inv.4⟩
    · dsimp only
      split
      · exact inv.reply _ fun idle last inside => count_le_acked (inv.fresh c idle last inside)
      · refine ⟨inv.ends, inv.fresh, ?_, inv.sound⟩
        intro w inside
        rcases mem_append.mp inside with before | new
        · exact inv.waiting w before
        · obtain rfl := mem_singleton.mp new
          exact inv.fresh c

-- The count that the next client may get is one of the acknowledgements of lastOffset.
theorem waitersLoop_sound {waiters : List Waiter} (lastOffset : Int) (lastNumreplicas : Nat)
    (cached : lastNumreplicas ≤ replicationCountAcksByOffset s lastOffset)
    (covered : ∀ w ∈ waiters, w.served = false → ∀ last ∈ w.written, last ≤ w.reploffset) :
    (∀ w ∈ (waitersLoop s lastOffset lastNumreplicas waiters).1, w ∈ waiters) ∧
      ∀ a ∈ (waitersLoop s lastOffset lastNumreplicas waiters).2, a.served = false → a.Sound := by
  induction waiters generalizing lastOffset lastNumreplicas with
  | nil => exact ⟨fun _ inside => inside, nofun⟩
  | cons w rest ih =>
    have later := fun v (inside : v ∈ rest) => covered v (mem_cons_of_mem w inside)
    have here := covered w mem_cons_self
    rw [waitersLoop]
    dsimp only
    split_ifs with reuse enough
    · obtain ⟨kept, sound⟩ := ih lastOffset lastNumreplicas cached later
      refine ⟨fun v inside => mem_cons_of_mem w (kept v inside), fun a inside => ?_⟩
      rcases mem_cons.mp inside with rfl | inside
      · exact fun idle last member => cached.trans (count_le_acked ((here idle last member).trans reuse.2.1.le))
      · exact sound a inside
    · obtain ⟨kept, sound⟩ := ih w.reploffset _ le_rfl later
      refine ⟨fun v inside => mem_cons_of_mem w (kept v inside), fun a inside => ?_⟩
      rcases mem_cons.mp inside with rfl | inside
      · exact fun idle last member => count_le_acked (here idle last member)
      · exact sound a inside
    · obtain ⟨kept, sound⟩ := ih lastOffset lastNumreplicas cached later
      refine ⟨fun v inside => ?_, sound⟩
      rcases mem_cons.mp inside with rfl | inside
      · exact mem_cons_self
      · exact mem_cons_of_mem w (kept v inside)

section

variable (inv : Inv s)

include inv

theorem Inv.processClientsWaitingReplicas : Inv (processClientsWaitingReplicas s) := by
  obtain ⟨kept, sound⟩ := waitersLoop_sound 0 0 (Nat.zero_le _) inv.waiting
  have remaining : Inv { s with clientsWaitingAcks := (waitersLoop s 0 0 s.clientsWaitingAcks).1 } :=
    ⟨inv.ends, inv.fresh, fun w inside => inv.waiting w (kept w inside), inv.sound⟩
  exact remaining.replyAll sound

theorem Inv.beforeSleep (slept : beforeSleep wire s = some s') : Inv s' := by
  obtain ⟨asked, fed, last⟩ := Option.bind_eq_some_iff.mp slept
  cases last
  have grown : Fed s asked := by
    unfold requestAcks at fed
    split at fed
    · exact feedSlaves_fed fed
    · cases fed
      exact .refl _
  have kept := inv.of_fed grown
  have cleared : Inv { asked with getAckFromSlaves := false } := ⟨kept.1, kept.2, kept.3, kept.4⟩
  exact cleared.processClientsWaitingReplicas

theorem Inv.unblockWaiting (c : ClientId) : Inv (unblockWaiting s c) :=
  ⟨inv.ends, inv.fresh, fun w inside => inv.waiting w (mem_filter.mp inside).1, inv.sound⟩

theorem Inv.handleTimeout (now : Int) (c : ClientId) : Inv (handleTimeout s now c) := by
  unfold Waiting.handleTimeout
  split
  next w found =>
    split
    · have covered := inv.waiting w (mem_of_find?_eq_some found)
      exact (inv.reply _ fun idle last inside => count_le_acked (covered idle last inside)).unblockWaiting c
    · exact inv
  next => exact ⟨inv.1, inv.2, inv.3, inv.4⟩

theorem Inv.freeClient (c : ClientId) : Inv (freeClient s c) where
  ends := by
    intro k last inside
    by_cases here : k = c
    · simp [Waiting.freeClient, here] at inside
    · simp only [Waiting.freeClient, update_of_ne here] at inside
      exact inv.ends k last inside
  fresh := by
    intro k idle last inside
    by_cases here : k = c
    · simp [Waiting.freeClient, here] at inside
    · simp only [Waiting.freeClient, update_of_ne here] at idle inside ⊢
      exact inv.fresh k idle last inside
  waiting := (inv.unblockWaiting c).waiting
  sound := inv.sound

theorem Inv.step {now : Int} {event : Event} (stepped : step wire s now event = some s') : Inv s' := by
  cases event with
  | command c command rounds =>
    simp only [Waiting.step] at stepped
    split at stepped
    · cases stepped
      exact inv
    · have timed : Inv { s with core := { s.core with now := now } } := ⟨inv.1, inv.2, inv.3, inv.4⟩
      exact timed.processCommand stepped
  | call c ops rounds =>
    simp only [Waiting.step] at stepped
    split at stepped
    · cases stepped
      exact inv
    · obtain ⟨called, fed, finished⟩ := Option.bind_eq_some_iff.mp stepped
      exact (inv.of_fed (feedAll_fed fed)).finishCall finished
  | wait c numreplicas timeout rounds =>
    simp only [Waiting.step, processWait] at stepped
    split_ifs at stepped
    · cases stepped
      exact inv
    · cases stepped
      exact ⟨inv.1, inv.2, inv.3, inv.4⟩
    · exact (inv.waitCommand now c numreplicas timeout).finishCall stepped
  | expire j key =>
    simp only [Waiting.step] at stepped
    split at stepped
    · cases stepped
      exact inv
    · exact inv.of_fed (setCore_fed stepped)
  | beforeSleep => exact inv.beforeSleep stepped
  | ping =>
    simp only [Waiting.step] at stepped
    split at stepped
    · cases stepped
      exact inv
    · exact inv.of_fed (feedSlaves_fed stepped)
  | timeout c =>
    cases stepped
    exact inv.handleTimeout now c
  | disconnect c =>
    cases stepped
    exact inv.freeClient c
  | «continue» id =>
    cases stepped
    split <;> exact ⟨inv.1, inv.2, inv.3, inv.4⟩
  | freeBacklog =>
    cases stepped
    split <;> exact ⟨inv.1, inv.2, inv.3, inv.4⟩
  | sync | setupSlave | putOnline | ack | freeSlave =>
    cases stepped
    exact ⟨inv.1, inv.2, inv.3, inv.4⟩

theorem Inv.run {events : List (Int × Event)} (ran : run wire s events = some s') : Inv s' := by
  induction events generalizing s with
  | nil =>
    cases ran
    exact inv
  | cons event rest ih =>
    obtain ⟨next, first, later⟩ := Option.bind_eq_some_iff.mp ran
    exact ih (inv.step first) later

end

end

theorem wait_replies_acknowledged (wire : Wire) (s : Master) (unwritten : ∀ c, s.written c = [])
    (idle : s.clientsWaitingAcks = []) (unanswered : s.answers = []) (events : List (Int × Event)) (s' : Master)
    (ran : run wire s events = some s') : ∀ a ∈ s'.answers, a.served = false → a.Sound := by
  have start : Inv s := by
    refine ⟨?_, ?_, ?_, ?_⟩
    · simp [unwritten]
    · simp [unwritten]
    · simp [idle]
    · simp [unanswered]
  exact (start.run ran).sound

def startMaster : Master where
  core := startServer false 15
  masterReplOffset := 0
  slaveseldb := -1
  replBacklog := false
  slaves := []
  woff := fun _ => 0
  clientsWaitingAcks := []
  getAckFromSlaves := false
  written := fun _ => []
  served := fun _ => false
  answers := []

-- The lengths of SELECT with one digit, and of RPUSH and LPOP with a key and an element of one byte.
def shortWire : Wire where
  select := fun _ => 23
  command := fun command =>
    match command with
    | .push _ _ _ => 29
    | .pop _ _ => 21
    | _ => 0

def attachSlave : List (Int × Event) := [(0, .sync 7), (0, .setupSlave), (10, .putOnline 7)]

def pushThenWait : List (Int × Event) :=
  attachSlave ++ [(20, .command 2 (.push .tail [0x6b] [[0x76]]) 1), (30, .wait 2 1 0 1), (40, .ack 7 52), (50, .beforeSleep)]

theorem push_acknowledged : ∃ s, run shortWire startMaster pushThenWait = some s ∧
    s.answers = [⟨2, 1, [52], [52], false⟩] ∧ ∀ a ∈ s.answers, a.Sound := by
  have answered : ((run shortWire startMaster pushThenWait).map Master.answers) = some [⟨2, 1, [52], [52], false⟩] := by
    decide +kernel
  obtain ⟨s, ran, answers⟩ := Option.map_eq_some_iff.mp answered
  refine ⟨s, ran, answers, fun a inside => ?_⟩
  refine wait_replies_acknowledged shortWire startMaster (fun _ => rfl) rfl rfl pushThenWait s ran a inside ?_
  rw [answers] at inside
  rw [mem_singleton.mp inside]

-- The slave has acknowledged the push of client 2, and not the pop that client 1 was waiting for.
def popThenWait : List (Int × Event) :=
  attachSlave ++ [(20, .command 1 (.bpop .head [[0x6b]] 0) 1), (30, .command 2 (.push .tail [0x6b] [[0x76]]) 2),
    (40, .ack 7 52), (50, .wait 1 1 0 1)]

theorem served_pop_not_acknowledged :
    ((run shortWire startMaster popThenWait).map Master.answers) = some [⟨1, 1, [52], [73], true⟩] ∧
    ¬ (⟨1, 1, [52], [73], true⟩ : Answer).Sound ∧
    ((run shortWire startMaster popThenWait).map fun s => (s.masterReplOffset, s.core.propagated)) =
      some (73, [(0, .push .tail [0x6b] [[0x76]]), (0, .pop .head [0x6b])]) := by
  exact ⟨by decide +kernel, by decide, by decide +kernel⟩

end RedisCore.Waiting
