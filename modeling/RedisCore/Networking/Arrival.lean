import RedisCore.Networking.Parsing

set_option autoImplicit false

namespace RedisCore.Networking

open Util List

variable {commands : List (List Bytes)}

inductive Outcome where
  | done
  | blocks (type : BlockType)
  | quits
  deriving DecidableEq

-- One connection. unread is what the peer has sent and the server has not read.
structure Connection where
  input : Input
  paused : Bool
  handed : List (List Bytes)
  unread : Bytes
  closed : Bool

inductive ConnectionEvent where
  | readable (n : Nat)
  | pause
  | unpause
  | unblock

section

variable (limits : Limits) (outcome : Nat → Outcome)

-- The nth command ends with the nth outcome.
def processCommand (handed : List (List Bytes)) (c : Input) : List (List Bytes) × Input :=
  match outcome handed.length with
  | .done => (handed ++ [c.argv], resetClient c)
  | .blocks .module => (handed ++ [c.argv], { c with blocked := some .module })
  | .blocks type => (handed ++ [c.argv], resetClient { c with blocked := some type })
  | .quits => (handed ++ [c.argv], { c with closeAfterReply := true })

def Connection.process (s : Connection) (c : Input) : Connection :=
  let (handed, c) := processInputBuffer limits s.paused (processCommand outcome) s.handed c
  { s with input := c, handed := handed }

def Connection.received (s : Connection) (n : Nat) : Input :=
  { s.input with querybuf := s.input.querybuf ++ s.unread.take (min n (readlen s.input)) }

-- Without input, read reports EAGAIN. A read of no bytes looks like the end of the input.
def readQueryFromClient (s : Connection) (n : Nat) : Connection :=
  if s.unread = [] ∨ n = 0 then s
  else if readlen s.input = 0 then { s with closed := true }
  else if limits.clientMaxQuerybufLen < (s.received n).querybuf.length then { s with closed := true }
  else Connection.process limits outcome { s with unread := s.unread.drop (min n (readlen s.input)) } (s.received n)

def unblockClient (c : Input) : Input :=
  { (if c.blocked = some .module then resetClient c else c) with blocked := none }

def Connection.step (s : Connection) (event : ConnectionEvent) : Connection :=
  if s.closed then s
  else
    match event with
    | .readable n => readQueryFromClient limits outcome s n
    | .pause => { s with paused := true }
    | .unpause => Connection.process limits outcome { s with paused := false } s.input
    | .unblock => Connection.process limits outcome s (unblockClient s.input)

def Connection.start (commands : List (List Bytes)) : Connection :=
  { input := .empty, paused := false, handed := [], unread := encode commands, closed := false }

def Connection.run (s : Connection) (events : List ConnectionEvent) : Connection :=
  events.foldl (Connection.step limits outcome) s

end

-- The buffer to be processed is at most 64 KB long, or is part of one big argument.
def shortBuffer (c : Input) : Bool :=
  decide (c.querybuf.length ≤ protoInlineMaxSize) ||
    (match c.bulklen with
    | some ll => decide (protoMbulkBigArg ≤ ll ∧ c.querybuf.length ≤ ll + 2)
    | none => false)

def idle (paused : Bool) (c : Input) : Bool := paused || c.blocked.isSome

def smooth (limits : Limits) (s : Connection) : ConnectionEvent → Bool
  | .readable n =>
    decide (readlen s.input ≠ 0) && decide ((s.received n).querybuf.length ≤ limits.clientMaxQuerybufLen) &&
      (idle s.paused s.input || shortBuffer (s.received n))
  | .pause => true
  | .unpause => idle false s.input || shortBuffer s.input
  | .unblock => s.paused || shortBuffer (unblockClient s.input)

def allSmooth (limits : Limits) (outcome : Nat → Outcome) : Connection → List ConnectionEvent → Bool
  | _, [] => true
  | s, event :: events => smooth limits s event && allSmooth limits outcome (s.step limits outcome event) events

theorem Expects.congr {c c' : Input} {rest : Bytes} (expects : Expects c commands rest)
    (same : ∃ querybuf blocked, c' = { c with querybuf := querybuf, blocked := blocked }) : Expects c' commands rest := by
  obtain ⟨querybuf, blocked, rfl⟩ := same
  cases expects with
  | fresh count unknown empty typed bytes => exact .fresh count unknown empty typed bytes
  | partly left others body some_left count typed split awaits bytes =>
    exact .partly left others body some_left count typed split awaits bytes

-- A client blocked in a module is reset when it is unblocked.
def settled (c : Input) : Input := if c.blocked = some .module then resetClient c else c

theorem settled_querybuf (c : Input) (querybuf : Bytes) :
    ∃ querybuf' blocked, settled { c with querybuf := querybuf } = { settled c with querybuf := querybuf', blocked := blocked } := by
  unfold settled
  dsimp only
  split_ifs
  · exact ⟨querybuf, c.blocked, rfl⟩
  · exact ⟨querybuf, c.blocked, rfl⟩

theorem unblockClient_fields (c : Input) :
    (unblockClient c).querybuf = c.querybuf ∧ (unblockClient c).closeAfterReply = c.closeAfterReply ∧
      (unblockClient c).protocolError = c.protocolError ∧
      ∃ querybuf blocked, settled (unblockClient c) = { settled c with querybuf := querybuf, blocked := blocked } := by
  unfold settled unblockClient
  dsimp only
  split_ifs with module stays stays
  · cases stays
  · exact ⟨rfl, rfl, rfl, c.querybuf, none, rfl⟩
  · cases stays
  · exact ⟨rfl, rfl, rfl, c.querybuf, none, rfl⟩

structure Receives (limits : Limits) (commands : List (List Bytes)) (s : Connection) : Prop where
  isOpen : s.closed = false
  stays : s.input.closeAfterReply = false
  noError : s.input.protocolError = none
  starved : idle s.paused s.input = true ∨ s.input.querybuf = [] ∨ s.unread ≠ []
  expects : ∃ remaining, commands = s.handed ++ remaining ∧
    Expects (settled s.input) remaining (s.input.querybuf ++ s.unread)

section

variable (limits : Limits) (outcome : Nat → Outcome)

theorem shortBuffer_fits {c : Input} (short : shortBuffer c = true) : Fits c.querybuf c.bulklen 0 := by
  simp only [shortBuffer, Bool.or_eq_true, decide_eq_true_eq] at short
  rcases short with short | big
  · exact .inl short
  · cases bulklen : c.bulklen with
    | none => simp [bulklen] at big
    | some ll =>
      rw [bulklen] at big
      obtain ⟨is_big, length⟩ := of_decide_eq_true big
      exact .inr ⟨ll, rfl, is_big, rfl, length⟩

theorem encode_eq_nil (empty : encode commands = []) : commands = [] := by
  cases commands with
  | nil => rfl
  | cons command others => simp [encode, encodeCommand, header] at empty

theorem expects_nil {c : Input} (expects : Expects c commands []) : commands = [] := by
  cases expects with
  | fresh count unknown empty typed bytes => exact encode_eq_nil bytes.symm
  | partly left others body some_left count typed split awaits bytes =>
    have nothing := (append_eq_nil_iff.mp bytes.symm).1
    have length := argBytes_length awaits some_left
    rw [nothing] at length
    cases bulklen : c.bulklen <;> simp [bulklen] at length

theorem processLoop_idle {S : Type} (paused : Bool) (execute : S → Input → S × Input) (turns : Nat) (s : S) (c : Input)
    (is_idle : idle paused c = true) : processLoop limits paused execute turns s c = (s, c) := by
  cases turns with
  | zero => rfl
  | succ turns =>
    rw [processLoop, if_pos]
    simp only [idle, Bool.or_eq_true] at is_idle
    simp only [Bool.or_eq_true]
    tauto

theorem processLoop_receives (paused : Bool) {later : Bytes}
    (valid : ∀ command ∈ commands, IsCommand limits command) (keeps : ∀ n, outcome n ≠ .quits) {turns : Nat}
    (handed remaining : List (List Bytes)) (c : Input) (split : commands = handed ++ remaining)
    (active : c.blocked = none) (stays : c.closeAfterReply = false) (no_error : c.protocolError = none)
    (expects : Expects c remaining (c.querybuf ++ later)) (fits : paused = false → Fits c.querybuf c.bulklen 0)
    (enough : c.querybuf.length < turns) :
    ∃ handed' remaining' c', processLoop limits paused (processCommand outcome) turns handed c = (handed', c') ∧
      commands = handed' ++ remaining' ∧ Expects (settled c') remaining' (c'.querybuf ++ later) ∧
      c'.closeAfterReply = false ∧ c'.protocolError = none ∧
      (idle paused c' = true ∨ c'.querybuf = [] ∨ later ≠ []) := by
  induction turns generalizing handed remaining c with
  | zero => exact absurd enough (Nat.not_lt_zero _)
  | succ turns ih =>
    have as_is : settled c = c := by simp [settled, active]
    rw [processLoop]
    by_cases ended : (decide (c.querybuf = []) || paused || c.blocked.isSome || c.closeAfterReply) = true
    · rw [if_pos ended]
      refine ⟨handed, remaining, c, rfl, split, by rw [as_is]; exact expects, stays, no_error, ?_⟩
      simp only [active, stays, Bool.or_eq_true, decide_eq_true_eq, Option.isSome_none, Bool.false_eq_true, or_false] at ended
      rcases ended with empty | is_paused
      · exact .inr (.inl empty)
      · exact .inl (by simp [idle, is_paused])
    · rw [if_neg ended]
      simp only [Bool.or_eq_true, decide_eq_true_eq, not_or, Bool.not_eq_true] at ended
      obtain ⟨⟨⟨some_input, running⟩, _⟩, _⟩ := ended
      have valid' : ∀ command ∈ remaining, IsCommand limits command := fun command member =>
        valid command (by rw [split]; exact mem_append_right _ member)
      cases parseRequest_spec valid' some_input expects (fits running) with
      | waits c' result expects' waiting starved flags shrinks =>
        rw [result]
        have same : settled c' = c' := by simp [settled, flags.1, active]
        exact ⟨handed, remaining, c', rfl, split, by rw [same]; exact expects', flags.2.1.trans stays, flags.2.2.trans no_error,
          .inr (.inr starved)⟩
      | ready c' command others first result argv bytes flags short shrinks =>
        subst first
        rw [append_cons] at split
        have is_command := valid' command mem_cons_self
        have executed : handleRequest (processCommand outcome) handed c' = processCommand outcome handed c' := by
          rw [handleRequest, if_neg (by rw [argv]; exact is_command.nonempty)]
        rw [result]
        dsimp only
        rw [executed, processCommand, argv]
        cases ends : outcome handed.length with
        | quits => exact absurd ends (keeps _)
        | done =>
          exact ih (handed ++ [command]) others (resetClient c') split (flags.1.trans active) (flags.2.1.trans stays)
            (flags.2.2.trans no_error) (.fresh rfl rfl rfl (by simp [resetClient]) bytes) (fun _ => .inl short)
            (Nat.lt_of_lt_of_le shrinks (Nat.le_of_lt_succ enough))
        | blocks type =>
          cases type with
          | module =>
            dsimp only
            rw [processLoop_idle limits paused _ turns _ _ (by simp [idle])]
            exact ⟨handed ++ [command], others, _, rfl, split, .fresh rfl rfl rfl (by simp [settled, resetClient]) bytes,
              flags.2.1.trans stays, flags.2.2.trans no_error, .inl (by simp [idle])⟩
          | list | wait =>
            dsimp only
            rw [processLoop_idle limits paused _ turns _ _ (by simp [idle, resetClient])]
            exact ⟨handed ++ [command], others, _, rfl, split, .fresh rfl rfl rfl (by simp [settled, resetClient]) bytes,
              flags.2.1.trans stays, flags.2.2.trans no_error, .inl (by simp [idle, resetClient])⟩

section

variable {commands : List (List Bytes)}

theorem process_receives {s : Connection} {c : Input}
    (valid : ∀ command ∈ commands, IsCommand limits command) (keeps : ∀ n, outcome n ≠ .quits) (is_open : s.closed = false)
    (stays : c.closeAfterReply = false) (no_error : c.protocolError = none)
    (expects : ∃ remaining, commands = s.handed ++ remaining ∧ Expects (settled c) remaining (c.querybuf ++ s.unread))
    (fits : idle s.paused c = true ∨ Fits c.querybuf c.bulklen 0) :
    Receives limits commands (s.process limits outcome c) := by
  obtain ⟨remaining, split, expects⟩ := expects
  unfold Connection.process processInputBuffer
  by_cases is_idle : idle s.paused c = true
  · rw [processLoop_idle limits s.paused _ _ _ _ is_idle]
    exact ⟨is_open, stays, no_error, .inl is_idle, remaining, split, expects⟩
  · have not_idle := is_idle
    simp only [idle, Bool.or_eq_true, not_or, Bool.not_eq_true, Option.isSome_eq_false_iff, Option.isNone_iff_eq_none] at not_idle
    have same : settled c = c := by simp [settled, not_idle.2]
    rw [same] at expects
    obtain ⟨handed', remaining', c', looped, split', expects', stays', no_error', starved⟩ :=
      processLoop_receives limits outcome s.paused valid keeps s.handed remaining c split
        not_idle.2 stays no_error expects (fun _ => fits.resolve_left is_idle) (Nat.lt_succ_self _)
    rw [looped]
    exact ⟨is_open, stays', no_error', starved, remaining', split', expects'⟩

theorem step_receives {s : Connection} {event : ConnectionEvent}
    (valid : ∀ command ∈ commands, IsCommand limits command) (keeps : ∀ n, outcome n ≠ .quits)
    (receives : Receives limits commands s) (is_smooth : smooth limits s event = true) :
    Receives limits commands (s.step limits outcome event) := by
  have is_open := receives.isOpen
  obtain ⟨remaining, split, expects⟩ := receives.expects
  simp only [Connection.step, is_open, Bool.false_eq_true, if_false]
  cases event with
  | readable n =>
    simp only [smooth, Bool.and_eq_true, Bool.or_eq_true, decide_eq_true_eq] at is_smooth
    obtain ⟨⟨some_room, within⟩, short⟩ := is_smooth
    dsimp only
    unfold readQueryFromClient
    split_ifs with nothing over_limit
    · exact receives
    · exact absurd over_limit (not_lt.mpr within)
    · refine process_receives limits outcome valid keeps is_open receives.stays receives.noError
        ⟨remaining, split, ?_⟩ (short.imp_right (shortBuffer_fits))
      have moved : (s.received n).querybuf ++ s.unread.drop (min n (readlen s.input)) = s.input.querybuf ++ s.unread := by
        rw [Connection.received, append_assoc, take_append_drop]
      rw [moved]
      exact expects.congr (settled_querybuf s.input _)
  | pause => exact ⟨rfl, receives.stays, receives.noError, .inl rfl, remaining, split, expects⟩
  | unpause =>
    simp only [smooth, Bool.or_eq_true] at is_smooth
    exact process_receives limits outcome valid keeps rfl receives.stays receives.noError
      ⟨remaining, split, expects⟩ (is_smooth.imp_right (shortBuffer_fits))
  | unblock =>
    simp only [smooth, Bool.or_eq_true] at is_smooth
    obtain ⟨same_buffer, same_close, same_error, same_expects⟩ := unblockClient_fields s.input
    refine process_receives limits outcome valid keeps is_open (same_close.trans receives.stays)
      (same_error.trans receives.noError) ⟨remaining, split, ?_⟩ ?_
    · rw [same_buffer]
      exact expects.congr same_expects
    · rcases is_smooth with is_paused | short
      · exact .inl (by simp [idle, is_paused])
      · exact .inr (shortBuffer_fits short)

theorem run_receives (s : Connection) {events : List ConnectionEvent}
    (valid : ∀ command ∈ commands, IsCommand limits command) (keeps : ∀ n, outcome n ≠ .quits)
    (receives : Receives limits commands s) (all_smooth : allSmooth limits outcome s events = true) :
    Receives limits commands (s.run limits outcome events) := by
  induction events generalizing s with
  | nil => exact receives
  | cons event events ih =>
    rw [allSmooth, Bool.and_eq_true] at all_smooth
    exact ih _ (step_receives limits outcome valid keeps receives all_smooth.1) all_smooth.2

end

theorem start_receives (commands : List (List Bytes)) : Receives limits commands (.start commands) where
  isOpen := rfl
  stays := rfl
  noError := rfl
  starved := .inr (.inl rfl)
  expects := ⟨commands, rfl, .fresh rfl rfl rfl (by simp [settled, Connection.start, Input.empty]) rfl⟩

end

theorem requests_arrive (limits : Limits) (outcome : Nat → Outcome) (commands : List (List Bytes))
    (valid : ∀ command ∈ commands, IsCommand limits command) (keeps : ∀ n, outcome n ≠ .quits) (events : List ConnectionEvent)
    (all_smooth : allSmooth limits outcome (.start commands) events = true) :
    let s := (Connection.start commands).run limits outcome events
    s.closed = false ∧ s.input.protocolError = none ∧ s.input.closeAfterReply = false ∧ s.handed <+: commands ∧
      (s.unread = [] → idle s.paused s.input = false → s.handed = commands) := by
  intro s
  have receives := run_receives limits outcome _ valid keeps (start_receives limits commands) all_smooth
  obtain ⟨remaining, split, expects⟩ := receives.expects
  refine ⟨receives.isOpen, receives.noError, receives.stays, ⟨remaining, split.symm⟩, ?_⟩
  intro all_read busy
  have drained : s.input.querybuf = [] := by
    rcases receives.starved with is_idle | empty | unread
    · exact absurd is_idle (by rw [busy]; decide)
    · exact empty
    · exact absurd all_read unread
  have nothing : remaining = [] := by
    rw [drained, all_read] at expects
    exact expects_nil expects
  rw [nothing, append_nil] at split
  exact split.symm

def sampleLimits : Limits :=
  { protoMaxBulkLen := 512 * 1024 * 1024, bulkLenFits := by decide, clientMaxQuerybufLen := 1024 * 1024 * 1024,
    sdssplitargs := fun s => some [s] }

def twoPings : List (List Bytes) := [[[80, 73, 78, 71]], [[80, 73, 78, 71], [97]]]

theorem pings_arrive :
    let s := (Connection.start twoPings).run sampleLimits (fun _ => .blocks .list) [.readable 5, .readable 12, .readable 30, .unblock]
    s.closed = false ∧ s.input.protocolError = none ∧ s.input.closeAfterReply = false ∧ s.handed <+: twoPings ∧
      (s.unread = [] → idle s.paused s.input = false → s.handed = twoPings) :=
  requests_arrive sampleLimits (fun _ => .blocks .list) twoPings (by
      intro command member
      simp only [twoPings, mem_cons, not_mem_nil, or_false] at member
      rcases member with rfl | rfl <;> exact ⟨by simp, by simp, by simp [sampleLimits]⟩)
    (by simp) _ (by decide +kernel)

theorem run_append (limits : Limits) (outcome : Nat → Outcome) (s : Connection) (first second : List ConnectionEvent) :
    s.run limits outcome (first ++ second) = (s.run limits outcome first).run limits outcome second :=
  foldl_append

-- Reads go on while the client is paused. The one after the last byte of a big argument asks for no
-- bytes, gets none, and is taken for the end of the input.
theorem paused_big_argument_closed (limits : Limits) (outcome : Nat → Outcome) {missing ll : Nat} (s : Connection)
    (is_paused : s.paused = true) (is_open : s.closed = false) (typed : s.input.reqtype = .multibulk)
    (count : s.input.multibulklen ≠ 0) (known : s.input.bulklen = some ll) (big : protoMbulkBigArg ≤ ll)
    (gap : s.input.querybuf.length + missing = ll + 2) (more : missing < s.unread.length)
    (limit : ll + 2 ≤ limits.clientMaxQuerybufLen) :
    (s.run limits outcome (List.replicate (missing + 1) (.readable 1))).closed = true := by
  have asks : ∀ missing (s : Connection), s.input.reqtype = .multibulk → s.input.multibulklen ≠ 0 → s.input.bulklen = some ll →
      s.input.querybuf.length + missing = ll + 2 → readlen s.input = min missing protoIobufLen := by
    intro missing s typed count known gap
    simp only [readlen, known, typed, count, big, ne_eq, not_false_eq_true, true_and, if_true]
    omega
  induction missing generalizing s with
  | zero =>
    have some_unread : s.unread ≠ [] := length_pos_iff.mp more
    have asks := asks 0 s typed count known gap
    simp [Connection.run, Connection.step, is_open, readQueryFromClient, some_unread, asks]
  | succ missing ih =>
    have some_unread : s.unread ≠ [] := length_pos_iff.mp (by omega)
    have asks := asks (missing + 1) s typed count known gap
    have one : min 1 (readlen s.input) = 1 := by
      rw [asks, protoIobufLen]
      omega
    have taken : (s.unread.take 1).length = 1 := by
      rw [length_take]
      omega
    let next : Connection := { s with input := s.received 1, unread := s.unread.drop 1 }
    have length : (s.received 1).querybuf.length = s.input.querybuf.length + 1 := by
      rw [Connection.received, one, length_append, taken]
    have stepped : s.step limits outcome (.readable 1) = next := by
      have nonzero : readlen s.input ≠ 0 := by omega
      have within : ¬limits.clientMaxQuerybufLen < (s.received 1).querybuf.length := by omega
      simp only [Connection.step, is_open, Bool.false_eq_true, if_false, readQueryFromClient, some_unread, nonzero, within,
        one_ne_zero, or_self, Connection.process, processInputBuffer]
      rw [processLoop_idle limits s.paused _ _ _ _ (by simp [idle, is_paused]), one]
      simp only [next, is_open]
    have rest : next.unread.length = s.unread.length - 1 := length_drop
    rw [replicate_succ, Connection.run, foldl_cons, stepped]
    exact ih next is_paused is_open typed count known (by simp only [next, length]; omega) (by omega)

def setThenPing (value : Bytes) : List (List Bytes) := [[[83, 69, 84], [107], value], [[80, 73, 78, 71]]]

-- The client is paused when the length of the value has been read.
def pausedReads : List ConnectionEvent := [.readable 28, .pause] ++ List.replicate (32770 + 1) (.readable 1)

theorem setThenPing_encoded {value : Bytes} (size : value.length = 32768) : encode (setThenPing value) =
    ([42, 51, 13, 10, 36, 51, 13, 10, 83, 69, 84, 13, 10, 36, 49, 13, 10, 107, 13, 10, 36, 51, 50, 55, 54, 56, 13, 10] : Bytes) ++
      (value ++ [13, 10, 42, 49, 13, 10, 36, 52, 13, 10, 80, 73, 78, 71, 13, 10]) := by
  have number : llString 32768 = [51, 50, 55, 54, 56] := by decide
  have short : llString 3 = [51] ∧ llString 1 = [49] ∧ llString 4 = [52] ∧ llString 2 = [50] := by decide
  simp [encode, setThenPing, encodeCommand, bulk, header, crlf, size, number, short]

def midArgument (value : Bytes) : Connection :=
  { input :=
      { querybuf := [], reqtype := .multibulk, multibulklen := 1, bulklen := some 32768, argv := [[83, 69, 84], [107]],
        blocked := none, closeAfterReply := false, protocolError := none }
    paused := true
    handed := []
    unread := value ++ [13, 10, 42, 49, 13, 10, 36, 52, 13, 10, 80, 73, 78, 71, 13, 10]
    closed := false }

theorem paused_mid_argument {value : Bytes} (size : value.length = 32768) :
    (Connection.start (setThenPing value)).run sampleLimits (fun _ => .done) [.readable 28, .pause] = midArgument value := by
  rw [Connection.start, setThenPing_encoded size]
  rfl

theorem paused_set_closed {value : Bytes} (size : value.length = 32768) :
    ((Connection.start (setThenPing value)).run sampleLimits (fun _ => .done) pausedReads).closed = true := by
  have more : 32770 < (midArgument value).unread.length := by simp [midArgument, size]
  rw [pausedReads, run_append, paused_mid_argument size]
  exact paused_big_argument_closed sampleLimits _ _ rfl rfl rfl (by simp [midArgument]) rfl (by decide) (by simp [midArgument])
    more (by decide)

theorem paused_set_connection_lost :
    (∀ command ∈ setThenPing (List.replicate 32768 97), IsCommand sampleLimits command) ∧
      (encode (setThenPing (List.replicate 32768 97))).length ≤ sampleLimits.clientMaxQuerybufLen ∧
      ((Connection.start (setThenPing (List.replicate 32768 97))).run sampleLimits (fun _ => .done) pausedReads).closed = true := by
  have size : (List.replicate 32768 (97 : UInt8)).length = 32768 := length_replicate
  generalize List.replicate 32768 (97 : UInt8) = value at size
  refine ⟨?_, ?_, paused_set_closed size⟩
  · intro command member
    simp only [setThenPing, mem_cons, not_mem_nil, or_false] at member
    rcases member with rfl | rfl
    · exact ⟨by simp, by simp, by simp [size, sampleLimits]⟩
    · exact ⟨by simp, by simp, by simp [sampleLimits]⟩
  · rw [setThenPing_encoded size]
    simp [size, sampleLimits]

end RedisCore.Networking
