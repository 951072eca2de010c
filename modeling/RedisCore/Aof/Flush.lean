import RedisCore.Lib.LittleEndian

set_option autoImplicit false

namespace RedisCore.AofFlush

inductive FsyncPolicy where
  | no
  | always
  | everysec
  deriving DecidableEq

-- lastWrite is the second of the last write to the file, and requested says that an fsync was asked for after it.
structure Server where
  aofFsync : FsyncPolicy
  noFsyncOnRewrite : Bool
  child : Bool
  unixtime : Int
  file : Bytes
  aofBuf : Bytes
  aofCurrentSize : Nat
  aofLastFsync : Int
  flushPostponedStart : Int
  lastWriteOk : Bool
  pendingFsyncs : Nat
  lastWrite : Option Int
  requested : Bool

-- What a call of write() does. Once the list of results is used up, writes succeed.
inductive WriteResult where
  | interrupted
  | error
  | wrote (count : Nat)

def aofWrite : List WriteResult → (len totwritten : Nat) → Nat × Bool
  | _, 0, totwritten => (totwritten, false)
  | [], len, totwritten => (totwritten + len, false)
  | .interrupted :: rest, len, totwritten => aofWrite rest len totwritten
  | .error :: _, _, totwritten => (totwritten, true)
  | .wrote count :: rest, len, totwritten => aofWrite rest (len - min count len) (totwritten + min count len)

section

variable (s : Server)

def syncInProgress : Bool := s.aofFsync = .everysec && decide (s.pendingFsyncs ≠ 0)

def ftruncate (length : Nat) : Server :=
  { s with file := s.file.take length ++ List.replicate (length - s.file.length) 0 }

-- none is exit(1). A partial write that could not be undone is taken from the buffer.
def handleWriteError (nwritten : Nat) (truncated : Bool) : Option Server :=
  let undone := if nwritten ≠ 0 ∧ truncated then ftruncate s s.aofCurrentSize else s
  if s.aofFsync = .always then none
  else if nwritten ≠ 0 ∧ !truncated then
    some { undone with
      lastWriteOk := false
      aofCurrentSize := s.aofCurrentSize + nwritten
      aofBuf := s.aofBuf.drop nwritten }
  else some { undone with lastWriteOk := false }

def fsyncIfNeeded (inProgress : Bool) : Server :=
  if s.noFsyncOnRewrite && s.child then s
  else if s.aofFsync = .always then { s with requested := true, aofLastFsync := s.unixtime }
  else if s.aofFsync = .everysec ∧ s.aofLastFsync < s.unixtime then
    { s with
      pendingFsyncs := if inProgress then s.pendingFsyncs else s.pendingFsyncs + 1
      requested := s.requested || !inProgress
      aofLastFsync := s.unixtime }
  else s

def recordWrite (nwritten : Nat) : Server :=
  { s with
    file := s.file ++ s.aofBuf.take nwritten
    flushPostponedStart := 0
    lastWrite := if nwritten = 0 then s.lastWrite else some s.unixtime
    requested := s.requested && decide (nwritten = 0) }

def writeBuffer (results : List WriteResult) (truncated : Bool) : Option Server :=
  let nwritten := (aofWrite results s.aofBuf.length 0).1
  let written := recordWrite s nwritten
  if nwritten ≠ s.aofBuf.length then handleWriteError written nwritten truncated
  else
    some (fsyncIfNeeded { written with lastWriteOk := true, aofCurrentSize := s.aofCurrentSize + nwritten, aofBuf := [] }
      (syncInProgress s))

def flushAppendOnlyFile (force : Bool) (results : List WriteResult) (truncated : Bool) : Option Server :=
  if s.aofBuf = [] then some s
  else if syncInProgress s && !force then
    if s.flushPostponedStart = 0 then some { s with flushPostponedStart := s.unixtime }
    else if s.unixtime - s.flushPostponedStart < 2 then some s
    else writeBuffer s results truncated
  else writeBuffer s results truncated

end

inductive Event where
  | feed (bytes : Bytes)
  | tick (seconds : Nat)
  | fsyncDone
  | flush (force : Bool) (results : List WriteResult) (truncated : Bool)

def step (s : Server) : Event → Option Server
  | .feed bytes => some { s with aofBuf := s.aofBuf ++ bytes }
  | .tick seconds => some { s with unixtime := s.unixtime + seconds }
  | .fsyncDone => some { s with pendingFsyncs := s.pendingFsyncs - 1 }
  | .flush force results truncated => flushAppendOnlyFile s force results truncated

def run (s : Server) (events : List Event) : Option Server := events.foldlM step s

def Event.fed : Event → Bytes
  | .feed bytes => bytes
  | _ => []

def fed (events : List Event) : Bytes := (events.map Event.fed).flatten

theorem aofWrite_le (results : List WriteResult) (len totwritten : Nat) :
    (aofWrite results len totwritten).1 ≤ totwritten + len := by
  fun_induction aofWrite results len totwritten <;> omega

variable {results : List WriteResult}

theorem flush_cases {s s' : Server} {force truncated : Bool}
    (flushed : flushAppendOnlyFile s force results truncated = some s') :
    (∃ start, s' = { s with flushPostponedStart := start }) ∨ s.aofBuf ≠ [] ∧ writeBuffer s results truncated = some s' := by
  unfold flushAppendOnlyFile at flushed
  split_ifs at flushed with empty
  · exact .inl ⟨s.flushPostponedStart, (Option.some.inj flushed).symm⟩
  · exact .inl ⟨s.unixtime, (Option.some.inj flushed).symm⟩
  · exact .inl ⟨s.flushPostponedStart, (Option.some.inj flushed).symm⟩
  · exact .inr ⟨empty, flushed⟩
  · exact .inr ⟨empty, flushed⟩

theorem writeBuffer_always {s s' : Server} {truncated : Bool} (always : s.aofFsync = .always)
    (rewriting : (s.noFsyncOnRewrite && s.child) = false) (wrote : writeBuffer s results truncated = some s') :
    s'.file = s.file ++ s.aofBuf ∧ s'.aofBuf = [] ∧ s'.requested = true ∧ s'.aofFsync = .always := by
  have policy : ∀ nwritten, (recordWrite s nwritten).aofFsync = .always := fun _ => always
  unfold writeBuffer at wrote
  simp only [handleWriteError, policy, if_true] at wrote
  split_ifs at wrote with short
  have whole := not_not.mp short
  cases wrote
  simp [fsyncIfNeeded, rewriting, recordWrite, always, whole]

-- The file and the buffer hold the stream, and the size is that of the file.
structure Holds (stream : Bytes) (s : Server) : Prop where
  contents : s.file ++ s.aofBuf = stream
  size : s.aofCurrentSize = s.file.length

section

variable {s : Server} {stream : Bytes}

theorem Holds.fsync (holds : Holds stream s) (inProgress : Bool) : Holds stream (fsyncIfNeeded s inProgress) := by
  unfold fsyncIfNeeded
  split_ifs <;> exact ⟨holds.contents, holds.size⟩

section

variable (holds : Holds stream s) (notAlways : s.aofFsync ≠ .always)

include holds notAlways

theorem Holds.handleWriteError {nwritten : Nat}
    (most : nwritten ≤ s.aofBuf.length) (truncated : Bool) :
    ∃ s', handleWriteError (recordWrite s nwritten) nwritten truncated = some s' ∧ Holds stream s' ∧ s'.aofFsync = s.aofFsync := by
  have policy : (recordWrite s nwritten).aofFsync ≠ .always := notAlways
  have taken : (s.aofBuf.take nwritten).length = nwritten := List.length_take_of_le most
  simp only [AofFlush.handleWriteError, if_neg policy]
  by_cases nothing : nwritten = 0
  · subst nothing
    simp only [ne_eq, not_true, false_and, if_false]
    refine ⟨_, rfl, ⟨?_, holds.size.trans ?_⟩, rfl⟩
    · simpa [recordWrite] using holds.contents
    · simp [recordWrite]
  · cases truncated with
    | true =>
      simp only [ne_eq, nothing, not_false_eq_true, and_self, if_true, Bool.not_true, Bool.false_eq_true, and_false, if_false]
      refine ⟨_, rfl, ⟨?_, ?_⟩, rfl⟩
      · simpa [recordWrite, ftruncate, holds.size] using holds.contents
      · simp [recordWrite, ftruncate, holds.size]
    | false =>
      simp only [ne_eq, nothing, not_false_eq_true, true_and, Bool.not_false, Bool.false_eq_true, if_true, if_false]
      refine ⟨_, rfl, ⟨?_, ?_⟩, rfl⟩
      · simpa [recordWrite] using holds.contents
      · simp [recordWrite, holds.size, taken]

theorem Holds.writeBuffer (results : List WriteResult) (truncated : Bool) :
    ∃ s', writeBuffer s results truncated = some s' ∧ Holds stream s' ∧ s'.aofFsync = s.aofFsync := by
  have most := aofWrite_le results s.aofBuf.length 0
  rw [Nat.zero_add] at most
  simp only [AofFlush.writeBuffer]
  generalize (aofWrite results s.aofBuf.length 0).1 = nwritten at most
  split_ifs with short
  · exact holds.handleWriteError notAlways most truncated
  · have whole : nwritten = s.aofBuf.length := not_not.mp short
    refine ⟨_, rfl, Holds.fsync ⟨?_, ?_⟩ _, ?_⟩
    · simpa [recordWrite, whole] using holds.contents
    · simp [recordWrite, whole, holds.size]
    · unfold fsyncIfNeeded
      split_ifs <;> rfl

theorem Holds.step (event : Event) :
    ∃ s', step s event = some s' ∧ Holds (stream ++ event.fed) s' ∧ s'.aofFsync = s.aofFsync := by
  cases event with
  | feed bytes =>
    refine ⟨_, rfl, ⟨?_, holds.size⟩, rfl⟩
    rw [← holds.contents, List.append_assoc]
    rfl
  | flush force results truncated =>
    have same : stream ++ (Event.flush force results truncated).fed = stream := List.append_nil stream
    obtain ⟨wrote, written, kept⟩ := holds.writeBuffer notAlways results truncated
    rw [same]
    cases flushed : flushAppendOnlyFile s force results truncated with
    | none =>
      unfold flushAppendOnlyFile at flushed
      split_ifs at flushed <;> simp [written] at flushed
    | some s' =>
      obtain ⟨start, rfl⟩ | ⟨_, writes⟩ := flush_cases flushed
      · exact ⟨_, flushed, ⟨holds.contents, holds.size⟩, rfl⟩
      · rw [written] at writes
        cases writes
        exact ⟨wrote, flushed, kept⟩
  | tick | fsyncDone => exact ⟨_, rfl, ⟨by simpa [Event.fed] using holds.contents, holds.size⟩, rfl⟩

end

end

theorem appends_exactly_once (s : Server) (notAlways : s.aofFsync ≠ .always) (size : s.aofCurrentSize = s.file.length)
    (events : List Event) :
    ∃ s', run s events = some s' ∧ s'.file ++ s'.aofBuf = s.file ++ s.aofBuf ++ fed events ∧ s'.aofCurrentSize = s'.file.length := by
  have start : Holds (s.file ++ s.aofBuf) s := ⟨rfl, size⟩
  generalize s.file ++ s.aofBuf = stream at start
  induction events generalizing s stream with
  | nil => exact ⟨s, rfl, by simpa [fed] using start.contents, start.size⟩
  | cons event rest ih =>
    obtain ⟨middle, stepped, holds, policy⟩ := start.step notAlways event
    obtain ⟨s', ran, contents, size'⟩ := ih middle (policy ▸ notAlways) holds.size _ holds
    refine ⟨s', ?_, ?_, size'⟩
    · rw [run, List.foldlM_cons, stepped]
      exact ran
    · rw [contents, List.append_assoc]
      rfl

def opened (policy : FsyncPolicy) (file : Bytes) (unixtime : Int) : Server where
  aofFsync := policy
  noFsyncOnRewrite := false
  child := false
  unixtime := unixtime
  file := file
  aofBuf := []
  aofCurrentSize := file.length
  aofLastFsync := unixtime
  flushPostponedStart := 0
  lastWriteOk := true
  pendingFsyncs := 0
  lastWrite := none
  requested := false

theorem appended_after_short_writes : ∃ s, run (opened .everysec [0] 10)
      [.feed [1, 2, 3], .flush false [.wrote 2, .error] false, .feed [4], .flush false [.wrote 1, .error] true, .flush false [] true] =
        some s ∧ s.file ++ s.aofBuf = [0, 1, 2, 3, 4] ∧ s.aofCurrentSize = s.file.length := by
  obtain ⟨s, ran, contents, size⟩ := appends_exactly_once (opened .everysec [0] 10) (by decide) rfl
    [.feed [1, 2, 3], .flush false [.wrote 2, .error] false, .feed [4], .flush false [.wrote 1, .error] true, .flush false [] true]
  exact ⟨s, ran, contents, size⟩

def Event.writes : Event → Bool
  | .flush _ results _ => results.all fun result => match result with
    | .error => false
    | _ => true
  | _ => true

theorem aofWrite_whole (len totwritten : Nat) (fine : (Event.flush false results false).writes = true) :
    (aofWrite results len totwritten).1 = totwritten + len := by
  fun_induction aofWrite results len totwritten with
  | case1 => rfl
  | case2 => rfl
  | case3 rest len totwritten _ ih => exact ih (by simpa [Event.writes] using fine)
  | case4 => simp [Event.writes] at fine
  | case5 count rest len totwritten _ ih =>
    rw [ih (by simpa [Event.writes] using fine)]
    omega

-- Every fsync was decided on by a call that has also written.
structure Timely (s : Server) : Prop where
  policy : s.aofFsync = .everysec
  child : s.child = false
  fsync : s.aofLastFsync ≤ s.unixtime
  write : ∀ second, s.lastWrite = some second → s.aofLastFsync ≤ second ∧ second ≤ s.unixtime

section

variable {s s' : Server}

theorem writeBuffer_timely (timely : Timely s) {truncated : Bool}
    (fine : (Event.flush false results false).writes = true) (some_data : s.aofBuf ≠ [])
    (wrote : writeBuffer s results truncated = some s') :
    Timely s' ∧ (s.pendingFsyncs = 0 → s.aofLastFsync < s.unixtime → s'.requested = true) := by
  have whole : (aofWrite results s.aofBuf.length 0).1 = s.aofBuf.length := by
    rw [aofWrite_whole _ 0 fine, Nat.zero_add]
  have positive : s.aofBuf.length ≠ 0 := by simpa using some_data
  unfold writeBuffer at wrote
  simp only [whole, ne_eq, not_true, if_false, Option.some.injEq] at wrote
  subst wrote
  obtain ⟨policy, child, fsync, write⟩ := timely
  have written : (if s.aofBuf.length = 0 then s.lastWrite else some s.unixtime) = some s.unixtime := if_neg positive
  unfold fsyncIfNeeded
  by_cases later : s.aofLastFsync < s.unixtime
  · simp only [recordWrite, child, policy, later, written, Bool.and_false, Bool.false_eq_true, reduceCtorEq, if_false, true_and, if_true]
    refine ⟨⟨rfl, rfl, le_rfl, ?_⟩, fun idle _ => by simp [syncInProgress, idle]⟩
    intro second last
    cases last
    exact ⟨le_rfl, le_rfl⟩
  · simp only [recordWrite, child, policy, later, written, Bool.and_false, Bool.false_eq_true, reduceCtorEq, if_false, and_false]
    refine ⟨⟨rfl, rfl, fsync, ?_⟩, fun _ newer => newer.elim⟩
    intro second last
    cases last
    exact ⟨fsync, le_rfl⟩

theorem Timely.step (timely : Timely s) {event : Event} (fine : event.writes = true) (stepped : step s event = some s') :
    Timely s' := by
  obtain ⟨policy, child, fsync, write⟩ := timely
  cases event with
  | feed | fsyncDone =>
    cases stepped
    exact ⟨policy, child, fsync, write⟩
  | tick seconds =>
    cases stepped
    have later : s.unixtime ≤ s.unixtime + seconds := by omega
    exact ⟨policy, child, fsync.trans later, fun second last => ⟨(write second last).1, (write second last).2.trans later⟩⟩
  | flush force results truncated =>
    obtain ⟨start, rfl⟩ | ⟨some_data, wrote⟩ := flush_cases stepped
    · exact ⟨policy, child, fsync, write⟩
    · exact (writeBuffer_timely ⟨policy, child, fsync, write⟩ fine some_data wrote).1

theorem Timely.run (timely : Timely s) {events : List Event} (fine : ∀ event ∈ events, event.writes = true)
    (ran : run s events = some s') : Timely s' := by
  induction events generalizing s with
  | nil =>
    cases ran
    exact timely
  | cons event rest ih =>
    obtain ⟨middle, first, later⟩ := Option.bind_eq_some_iff.mp ran
    exact ih (timely.step (fine event List.mem_cons_self) first) (fun next inside => fine next (List.mem_cons_of_mem event inside))
      later

end

theorem everysec_covers_nonempty_flush (start : Server) (policy : start.aofFsync = .everysec) (child : start.child = false)
    (fsync : start.aofLastFsync ≤ start.unixtime) (unwritten : start.lastWrite = none) (events : List Event)
    (fine : ∀ event ∈ events, event.writes = true) (s : Server) (ran : run start events = some s)
    (force truncated : Bool) (results : List WriteResult) (writes : (Event.flush force results truncated).writes = true)
    (second : Int) (last : s.lastWrite = some second) (later : second < s.unixtime) (idle : s.pendingFsyncs = 0)
    (some_data : s.aofBuf ≠ []) :
    ∃ s', flushAppendOnlyFile s force results truncated = some s' ∧ s'.requested = true := by
  have begins : Timely start := ⟨policy, child, fsync, by simp [unwritten]⟩
  have timely := begins.run fine ran
  have newer : s.aofLastFsync < s.unixtime := lt_of_le_of_lt (timely.write second last).1 later
  have whole : (aofWrite results s.aofBuf.length 0).1 = s.aofBuf.length := by
    rw [aofWrite_whole _ 0 writes, Nat.zero_add]
  have waits : syncInProgress s = false := by simp [syncInProgress, idle]
  have wrote : flushAppendOnlyFile s force results truncated = writeBuffer s results truncated := by
    rw [flushAppendOnlyFile, if_neg some_data, waits, if_neg (by simp)]
  rw [wrote]
  cases returned : writeBuffer s results truncated with
  | none => simp [writeBuffer, whole] at returned
  | some s' => exact ⟨s', rfl, (writeBuffer_timely timely writes some_data returned).2 idle newer⟩

theorem next_write_is_covered : ∃ s s', run (opened .everysec [] 10)
      [.tick 1, .feed [1], .flush false [] true, .feed [2], .fsyncDone, .flush false [] true, .tick 1, .feed [3]] = some s ∧
    flushAppendOnlyFile s false [] true = some s' ∧ s'.requested = true := by
  obtain ⟨s', flushed, covered⟩ := everysec_covers_nonempty_flush (opened .everysec [] 10) rfl rfl le_rfl rfl
    [.tick 1, .feed [1], .flush false [] true, .feed [2], .fsyncDone, .flush false [] true, .tick 1, .feed [3]] (by decide) _ rfl
    false true [] (by decide) 11 rfl (by decide) rfl (by decide)
  exact ⟨_, s', rfl, flushed, covered⟩

-- The second write of a second is never synced when no other one follows.
def idleAfterWrite : List Event :=
  [.tick 1, .feed [1], .flush false [] true, .feed [2], .fsyncDone, .flush false [] true, .tick 3]

theorem idle_flush_requests_nothing : ∃ s, run (opened .everysec [] 10) idleAfterWrite = some s ∧
    s.lastWrite = some 11 ∧ s.unixtime = 14 ∧ s.pendingFsyncs = 0 ∧ s.aofLastFsync = 11 ∧
    flushAppendOnlyFile s false [] true = some s ∧ s.requested = false :=
  ⟨_, rfl, rfl, rfl, rfl, rfl, rfl, rfl⟩

end RedisCore.AofFlush
