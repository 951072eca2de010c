import RedisCore.Aof.Flush
import RedisCore.Aof.Replies
import RedisCore.Keyspace.TablesRun

set_option autoImplicit false

namespace RedisCore.Aof

open Lib Ae Keyspace List

variable {c : ClientId}

-- A write handler is only installed with a barrier.
def Barred (mask : ClientId → Mask) : Prop := ∀ c, (mask c).writable = true → (mask c).barrier = true

structure Inv (i : Instance) : Prop where
  sound : i.out.Sound i.fed
  barrier : Barred i.mask

-- Who waits for the AOF was served by another client's event, or is one of done.
def Own (done : List ClientId) (i : Instance) : Prop := ∀ c ∈ i.out.fresh, c ∈ i.others ∨ c ∈ done

theorem Barred.update {mask : ClientId → Mask} (barred : Barred mask) (c : ClientId) (new : Mask)
    (fine : new.writable = true → new.barrier = true) : Barred (Function.update mask c new) := by
  intro d
  by_cases here : d = c
  · subst here
    rw [Function.update_self]
    exact fine
  · rw [Function.update_of_ne here]
    exact barred d

section

variable {i : Instance} {done : List ClientId}

theorem newBytes_marks {before after : Server} {mark : Option Nat} {n : Nat}
    (marked : some n ∈ newBytes before after mark c) : mark = some n := by
  obtain ⟨bytes, inside, member⟩ := mem_flatten.mp marked
  obtain ⟨reply, -, rfl⟩ := mem_map.mp inside
  exact (eq_of_mem_replicate member).symm

theorem newBytes_unmarked (before after : Server) (c : ClientId) : (newBytes before after none c).any Option.isSome = false := by
  rw [any_eq_false]
  rintro (_ | n) inside
  · simp
  · cases newBytes_marks inside

theorem deliver_fields (before : Server) (mark : Option Nat) (c : Option ClientId) (i : Instance) (d : ClientId) :
    (deliver before mark c i d).fed = i.fed ∧ (deliver before mark c i d).mask = i.mask := by
  unfold deliver addOutput
  dsimp only
  split_ifs <;> exact ⟨rfl, rfl⟩

theorem deliver_out (before : Server) (mark : Option Nat) (c : Option ClientId) (i : Instance) (d : ClientId) :
    (deliver before mark c i d).out = if newBytes before i.server mark d = [] then i.out
      else i.out.put d (newBytes before i.server mark d) := by
  unfold deliver addOutput
  dsimp only
  split_ifs <;> rfl

theorem Inv.deliver (inv : Inv i) (before : Server) (mark : Option Nat) (c : Option ClientId) (d : ClientId)
    (level : ∀ n, mark = some n → n ≤ i.fed) : Inv (deliver before mark c i d) := by
  obtain ⟨fed, mask⟩ := deliver_fields before mark c i d
  refine ⟨?_, mask ▸ inv.barrier⟩
  rw [fed, deliver_out]
  split_ifs
  · exact inv.sound
  · exact inv.sound.put d _ fun n marked => level n (newBytes_marks marked)

theorem Own.deliver (own : Own done i) (before : Server) (mark : Option Nat) {c : Option ClientId} (d : ClientId)
    (mine : ∀ x, c = some x → x ∈ done) : Own done (deliver before mark c i d) := by
  intro x fresh
  have others : (Aof.deliver before mark c i d).others =
      if (newBytes before i.server mark d).any Option.isSome ∧ c ≠ some d then d :: i.others else i.others := rfl
  rw [others]
  have earlier : x ∈ i.out.fresh ∨ x = d ∧ (newBytes before i.server mark d).any Option.isSome = true := by
    rw [deliver_out] at fresh
    split_ifs at fresh
    · exact .inl fresh
    · exact Outbox.mem_put_fresh.mp fresh
  obtain old | ⟨rfl, marked⟩ := earlier
  · refine (own x old).imp_left fun inside => ?_
    split_ifs
    · exact mem_cons_of_mem _ inside
    · exact inside
  · by_cases self : c = some x
    · exact .inr (mine x self)
    · exact .inl (by rw [if_pos ⟨marked, self⟩]; exact mem_cons_self)

theorem Inv.perform (inv : Inv i) (now : Int) (event : Event) : Inv (perform i now event) := by
  unfold Aof.perform
  split_ifs
  · exact inv
  · split
    next server _ =>
      dsimp only
      generalize server.propagated.length - i.server.propagated.length = grown
      have start : Inv { i with server := server, fed := i.fed + grown } :=
        ⟨inv.sound.move ((Nat.le_add_right _ _).trans (le_max_right _ _)), inv.barrier⟩
      refine (foldl_kept (P := fun i' => Inv i' ∧ i'.fed = i.fed + grown) ?_ i.clients _ ⟨start, rfl⟩).1
      rintro i' d ⟨inv', fed⟩
      refine ⟨inv'.deliver _ _ _ d ?_, (deliver_fields _ _ _ i' d).1.trans fed⟩
      intro n marked
      split_ifs at marked
      exact fed ▸ (Option.some.inj marked).ge
    · exact ⟨inv.sound, inv.barrier⟩

theorem Own.perform (own : Own done i) (now : Int) (event : Event) (mine : ∀ x, owner event = some x → x ∈ done) :
    Own done (perform i now event) := by
  unfold Aof.perform
  split_ifs
  · exact own
  · split
    · exact foldl_kept (P := Own done) (fun i' d own => own.deliver _ _ d mine) i.clients _ own
    · exact own

theorem perform_mask (i : Instance) (now : Int) (event : Event) : (perform i now event).mask = i.mask := by
  unfold perform
  split_ifs
  · rfl
  · split
    · refine foldl_kept (P := fun i' : Instance => i'.mask = i.mask) ?_ i.clients _ rfl
      exact fun i' d same => (deliver_fields _ _ _ i' d).2.trans same
    · rfl

section

variable (s : Server) (c : ClientId)

theorem unblockClient_propagated : (unblockClient s c).propagated = s.propagated := by
  change ((blockedKeys s c).foldl (removeBlocked c (currentDb s c)) s).propagated = s.propagated
  refine foldl_kept (P := fun s' : Server => s'.propagated = s.propagated) ?_ _ s rfl
  exact fun s' key same => same

theorem unwatchAllKeys_propagated : (unwatchAllKeys s c).propagated = s.propagated := by
  change ((s.client c).watchedKeys.foldl (removeWatcher c) s).propagated = s.propagated
  refine foldl_kept (P := fun s' : Server => s'.propagated = s.propagated) ?_ _ s rfl
  exact fun s' watch same => same

theorem freeClient_propagated : (Keyspace.freeClient s c).propagated = s.propagated := by
  refine (unwatchAllKeys_propagated _ c).trans ?_
  split_ifs
  · exact unblockClient_propagated s c
  · rfl

end

-- A client that leaves feeds nothing to the AOF.
theorem perform_disconnect (i : Instance) (now : Int) (c : ClientId) :
    (perform i now (.disconnect c)).out.fresh = i.out.fresh ∧ (perform i now (.disconnect c)).others = i.others := by
  unfold perform
  split_ifs
  · exact ⟨rfl, rfl⟩
  · simp only [Keyspace.step, freeClient_propagated, Nat.sub_self, if_true]
    refine foldl_kept (P := fun i' : Instance => i'.out.fresh = i.out.fresh ∧ i'.others = i.others) ?_ i.clients _ ⟨rfl, rfl⟩
    rintro i' d ⟨fresh, others⟩
    have unmarked := newBytes_unmarked i.server i'.server d
    refine ⟨?_, ?_⟩
    · rw [deliver_out]
      split_ifs
      · exact fresh
      · simp only [Outbox.put, unmarked, Bool.false_eq_true, if_false]
        exact fresh
    · simp only [deliver, unmarked, Bool.false_eq_true, false_and, if_false]
      exact others

theorem Inv.free (inv : Inv i) (c : ClientId) : Inv (freeClient i c) := by
  have left := inv.perform i.server.now (.disconnect c)
  exact ⟨left.sound.clear c, left.barrier.update c _ nofun⟩

theorem Own.free (own : Own done i) (c : ClientId) : Own done (freeClient i c) := by
  obtain ⟨fresh, others⟩ := perform_disconnect i i.server.now c
  intro x waits
  exact others ▸ own x (fresh ▸ waits)

theorem freeClient_fresh (i : Instance) (c : ClientId) : (freeClient i c).out.fresh = i.out.fresh :=
  (perform_disconnect i i.server.now c).1

theorem Inv.input (inv : Inv i) (now : Int) (c : ClientId) (commands : List Command) : Inv (processInputBuffer now c commands i) := by
  induction commands generalizing i with
  | nil => exact ⟨inv.sound, inv.barrier⟩
  | cons command rest ih =>
    unfold processInputBuffer
    split_ifs
    · exact ⟨inv.sound, inv.barrier⟩
    · exact ih (inv.perform now _)

theorem Own.input (own : Own done i) (now : Int) (mine : c ∈ done) (commands : List Command) :
    Own done (processInputBuffer now c commands i) := by
  induction commands generalizing i with
  | nil => exact own
  | cons command rest ih =>
    unfold processInputBuffer
    split_ifs
    · exact own
    · exact ih (own.perform now _ fun x same => Option.some.inj same ▸ mine)

theorem input_mask (now : Int) (c : ClientId) (commands : List Command) (i : Instance) :
    (processInputBuffer now c commands i).mask = i.mask := by
  induction commands generalizing i with
  | nil => rfl
  | cons command rest ih =>
    unfold processInputBuffer
    split_ifs
    · rfl
    · rw [ih, perform_mask]

theorem Inv.read (inv : Inv i) (now : Int) (c : ClientId) (commands : List Command) (closed : Bool) :
    Inv (readQueryFromClient i now c commands closed) := by
  unfold readQueryFromClient
  split_ifs
  · exact inv
  · exact inv.free c
  · exact inv.input now c _

theorem Own.read (own : Own done i) (now : Int) (mine : c ∈ done) (commands : List Command) (closed : Bool) :
    Own done (readQueryFromClient i now c commands closed) := by
  unfold readQueryFromClient
  split_ifs
  · exact own
  · exact own.free c
  · exact own.input now mine _

-- Reading installs no write handler.
theorem read_writable {i : Instance} (now : Int) {c : ClientId} (commands : List Command) (closed : Bool)
    (idle : (i.mask c).writable = false) : ((readQueryFromClient i now c commands closed).mask c).writable = false := by
  unfold readQueryFromClient
  split_ifs
  · exact idle
  · simp [freeClient, Mask.none]
  · rw [input_mask]
    exact idle

theorem Inv.write (inv : Inv i) (accept : Accept) (installed : Bool) (calm : c ∉ i.out.fresh) :
    Inv (writeToClient i c accept installed) := by
  have taken : Inv { i with out := i.out.take c accept.count } := ⟨inv.sound.take _ calm, inv.barrier⟩
  unfold writeToClient
  dsimp only
  split_ifs
  · exact taken.free c
  · exact ⟨taken.sound, inv.barrier.update c _ (by simp [aeDeleteFileEvent])⟩
  · exact taken

theorem write_fresh (i : Instance) (c : ClientId) (accept : Accept) (installed : Bool) :
    (writeToClient i c accept installed).out.fresh = i.out.fresh := by
  unfold writeToClient
  dsimp only
  split_ifs
  · exact freeClient_fresh _ c
  · rfl
  · rfl

theorem write_others (i : Instance) (c : ClientId) (accept : Accept) (installed : Bool) :
    (writeToClient i c accept installed).others = i.others := by
  unfold writeToClient
  dsimp only
  split_ifs
  · exact (perform_disconnect _ _ c).2
  · rfl
  · rfl

theorem Inv.install (inv : Inv i) (c : ClientId) : Inv (installHandler i c) := by
  unfold installHandler
  split_ifs
  · exact inv
  · exact ⟨inv.sound, inv.barrier.update c _ fun _ => by simp [aeCreateFileEvent]⟩

theorem install_fresh (i : Instance) (c : ClientId) : (installHandler i c).out = i.out := by
  unfold installHandler
  split_ifs <;> rfl

theorem Inv.pending (inv : Inv i) (accepts : ClientId → Accept) (calm : c ∉ i.out.fresh) :
    Inv (handlePendingWrite i accepts c) ∧ (handlePendingWrite i accepts c).out.fresh = i.out.fresh := by
  have erased : Inv { i with pendingWrite := i.pendingWrite.erase c } := ⟨inv.sound, inv.barrier⟩
  have written := erased.write (accepts c) false calm
  unfold handlePendingWrite
  dsimp only
  split_ifs
  · exact ⟨written, write_fresh _ c _ false⟩
  · exact ⟨written.install c, by rw [install_fresh]; exact write_fresh _ c _ false⟩

theorem Inv.pendingWrites (inv : Inv i) (accepts : ClientId → Accept) (calm : ∀ c ∈ i.pendingWrite, c ∉ i.out.fresh) :
    Inv (handleClientsWithPendingWrites i accepts) ∧ (handleClientsWithPendingWrites i accepts).out.fresh = i.out.fresh := by
  unfold handleClientsWithPendingWrites
  split_ifs with dead
  · exact ⟨inv, rfl⟩
  · clear dead
    generalize i.pendingWrite = clients at calm
    induction clients generalizing i with
    | nil => exact ⟨inv, rfl⟩
    | cons c rest ih =>
      obtain ⟨first, fresh⟩ := inv.pending accepts (calm c mem_cons_self)
      obtain ⟨last, same⟩ := ih first fun d inside => fresh ▸ calm d (mem_cons_of_mem _ inside)
      exact ⟨last, same.trans fresh⟩

theorem Inv.unblocked (inv : Inv i) (now : Int) (rounds : Nat) : Inv (processUnblockedClients now rounds i) := by
  induction rounds generalizing i with
  | zero => exact inv
  | succ rounds ih =>
    unfold processUnblockedClients
    split
    · exact inv
    next c _ _ =>
      refine ih ?_
      have erased : Inv { i with unblocked := i.unblocked.erase c } := ⟨inv.sound, inv.barrier⟩
      unfold processUnblocked
      dsimp only
      split_ifs
      · exact erased
      · exact erased.input now c _

-- The file and the buffer hold the log of the commands fed, the file that of the durable ones, and what has been written is
-- fsynced.
structure Backed (log : Nat → Bytes) (i : Instance) (s : AofFlush.Server) : Prop where
  always : s.aofFsync = .always
  contents : s.file ++ s.aofBuf = log i.fed
  fed : i.out.durable ≤ i.fed
  durable : log i.out.durable <+: s.file
  synced : s.lastWrite = none ∨ s.requested = true

/-- A flush of the file that does not exit makes every command fed durable. -/
theorem Backed.flush {log : Nat → Bytes} {s s' : AofFlush.Server} (backed : Backed log i s)
    (rewriting : (s.noFsyncOnRewrite && s.child) = false) {force truncated : Bool} {results : List AofFlush.WriteResult}
    (flushed : AofFlush.flushAppendOnlyFile s force results truncated = some s') : Backed log (flushAppendOnlyFile i) s' := by
  have level : (flushAppendOnlyFile i).out.durable = i.fed := max_eq_right backed.fed
  unfold AofFlush.flushAppendOnlyFile at flushed
  have idle : AofFlush.syncInProgress s = false := by simp [AofFlush.syncInProgress, backed.always]
  rw [idle, Bool.false_and, if_neg Bool.false_ne_true] at flushed
  split_ifs at flushed with empty
  · cases flushed
    refine ⟨backed.always, backed.contents, level.le, ?_, backed.synced⟩
    have whole : s.file = log i.fed := by simpa [empty] using backed.contents
    rw [level, whole]
  · obtain ⟨file, buffer, requested, always⟩ := AofFlush.writeBuffer_always backed.always rewriting flushed
    have whole : s'.file = log i.fed := file.trans backed.contents
    refine ⟨always, ?_, level.le, ?_, .inr requested⟩
    · rw [buffer, append_nil]
      exact whole
    · rw [level, whole]

-- The AOF is flushed before the pending replies are written.
theorem Inv.beforeSleep (inv : Inv i) (sleep : Sleep) : Inv (beforeSleep i sleep) ∧ (beforeSleep i sleep).out.fresh = [] := by
  have expired := foldl_kept (P := Inv) (fun i key inv => inv.perform sleep.now (.expire key.1 key.2)) sleep.expires i inv
  have served := expired.unblocked sleep.now sleep.rounds
  have flushed : Inv (flushAppendOnlyFile (processUnblockedClients sleep.now sleep.rounds
      (sleep.expires.foldl (fun i key => Aof.perform i sleep.now (.expire key.1 key.2)) i))) := ⟨served.sound.commit, served.barrier⟩
  obtain ⟨written, fresh⟩ := flushed.pendingWrites sleep.accepts fun _ _ => not_mem_nil
  exact ⟨written, fresh⟩

theorem Inv.send (inv : Inv i) (accept : Accept) (calm : c ∉ i.out.fresh) : Inv (sendReplyToClient i c accept) := by
  unfold sendReplyToClient
  split_ifs
  · exact inv
  · exact inv.write accept true calm

theorem Own.send (own : Own done i) (c : ClientId) (accept : Accept) : Own done (sendReplyToClient i c accept) := by
  unfold sendReplyToClient
  split_ifs
  · exact own
  · intro x waits
    rw [write_fresh] at waits
    rw [write_others]
    exact own x waits

-- With the barrier a client is written to before its own commands are read.
theorem writesAt_same (inv : Inv i) {f : Fired} {i' : Instance} (writes : writesAt i f = some i') : i' = i := by
  obtain ⟨rfl, fires⟩ := writesFrom_some writes
  refine readBefore_barred (inv.barrier f.client ?_)
  by_contra idle
  refine absurd fires (Bool.eq_false_iff.mp ?_)
  refine readBefore_preserves (P := fun i : Instance => (i.mask f.client).writable = false) ?_ (eq_false_of_ne_true idle)
  exact fun i => read_writable f.now f.commands f.closed

theorem Inv.fire (inv : Inv i) (f : Fired) (calm : ∀ i', writesAt i f = some i' → f.client ∉ i'.out.fresh) : Inv (fire i f) :=
  serve_preserves (P := Inv) (fun _ inv => inv.read f.now f.client f.commands f.closed)
    (fun i' writes inv => inv.send f.accept (calm i' writes)) inv

theorem Own.fire (own : Own done i) (f : Fired) : Own (f.client :: done) (fire i f) := by
  have start : Own (f.client :: done) i := fun c waits => (own c waits).imp_right (mem_cons_of_mem _)
  refine serve_preserves (P := Own (f.client :: done)) ?_ ?_ start
  · exact fun _ own => own.read f.now mem_cons_self f.commands f.closed
  · exact fun _ _ own => own.send f.client f.accept

section

variable (inv : Inv i)

include inv

theorem Inv.fireAwake (f : Fired) (holds : fireHolds i false f = true) : Inv (Aof.fire i f) := by
  refine inv.fire f fun i' writes => ?_
  unfold fireHolds at holds
  rw [writes] at holds
  simpa using holds

theorem Inv.fireSlept (own : Own done i) {f : Fired} (once : f.client ∉ done) (holds : fireHolds i true f = true) :
    Inv (Aof.fire i f) := by
  refine inv.fire f fun i' writes waits => ?_
  unfold fireHolds at holds
  rw [writes] at holds
  have served : f.client ∉ i'.others := by simpa using holds
  obtain rfl := writesAt_same inv writes
  exact (own f.client waits).elim served once

-- The induction goes over the descriptors; done are those before.
theorem Inv.firedSlept (own : Own done i) {fired : List Fired} (once : (fired.map Fired.client).Nodup)
    (apart : ∀ f ∈ fired, f.client ∉ done) (holds : allSteps Aof.fire (fun i f => fireHolds i true f) i fired = true) :
    Inv (fired.foldl Aof.fire i) := by
  induction fired generalizing i done with
  | nil => exact inv
  | cons f rest ih =>
    obtain ⟨first, later⟩ := (Bool.and_eq_true _ _).mp holds
    obtain ⟨new, others⟩ := nodup_cons.mp once
    refine ih (inv.fireSlept own (apart f mem_cons_self) first) (own.fire f) others ?_ later
    intro g inside
    rw [mem_cons, not_or]
    exact ⟨fun same => new (mem_map.mpr ⟨g, inside, same⟩), apart g (mem_cons_of_mem _ inside)⟩

theorem Inv.fired {sleep : Option Sleep} {fired : List Fired} (once : (fired.map Fired.client).Nodup)
    (holds : allSteps Aof.fire (fun i f => fireHolds i sleep.isSome f) (Aof.slept i sleep) fired = true) :
    Inv (fired.foldl Aof.fire (Aof.slept i sleep)) := by
  cases sleep with
  | none => exact foldl_guarded (P := Inv) (fun _ f inv => inv.fireAwake f) fired i inv holds
  | some sleep =>
    obtain ⟨asleep, fresh⟩ := inv.beforeSleep sleep
    have own : Own [] (Aof.beforeSleep i sleep) := by
      intro c waits
      rw [fresh] at waits
      exact absurd waits not_mem_nil
    exact asleep.firedSlept own once (fun _ _ => not_mem_nil) holds

theorem Inv.nested {accepts : Option (ClientId → Accept)} (holds : nestedHolds i accepts = true) :
    Inv (nested i accepts) := by
  cases accepts with
  | none => exact inv
  | some accepts => exact (inv.pendingWrites accepts (by simpa [nestedHolds] using holds)).1

theorem Inv.timer (t : Timer) : Inv (timer i t) := by
  cases t with
  | event now event => exact inv.perform now event
  | connect c =>
    simp only [Aof.timer]
    split_ifs
    · exact inv
    · exact ⟨inv.sound, inv.barrier.update c _ nofun⟩

theorem Inv.turn (t : Turn) (holds : turnHolds i t = true) : Inv (turn i t) := by
  simp only [turnHolds, Bool.and_eq_true, decide_eq_true_eq] at holds
  obtain ⟨⟨once, calm⟩, pending⟩ := holds
  have written := (inv.fired once calm).nested pending
  exact foldl_kept (P := Inv) (fun _ timer inv => inv.timer timer) t.timers _ written

end

end

-- Output of earlier commands may be pending, and write handlers installed, for any client.
theorem reply_durable_before_sent (start : Instance)
    (pending : ∀ c n, some n ∈ start.out.queue c → n ≤ start.out.durable) (unsent : start.out.written = [])
    (barred : Barred start.mask) (turns : List Turn) (holds : allHold start turns = true) :
    ∀ sent ∈ (run start turns).out.written, sent.1 ≤ sent.2 := by
  have inv : Inv start := by
    refine ⟨⟨fun c n waits => (pending c n waits).trans (le_max_left _ _), fun c n waits _ => pending c n waits, ?_⟩, barred⟩
    rw [unsent]
    exact nofun
  exact (foldl_guarded (P := Inv) (fun _ t inv => inv.turn t) turns start inv holds).sound.written

def idleInstance : Instance :=
  { server := startServer false 0
    fed := 0
    crashed := false
    clients := [0, 1]
    mask := fun _ => ⟨true, false, false⟩
    inbox := fun _ => []
    unblocked := []
    pendingWrite := []
    out := ⟨fun _ => [], [], 0, []⟩
    others := [] }

def reads (c : ClientId) (commands : List Command) : Fired := ⟨c, true, false, 0, commands, false, ⟨0, false⟩⟩

def writes (c : ClientId) (count : Nat) : Fired := ⟨c, false, true, 0, [], false, ⟨count, false⟩⟩

def sleeps (count : Nat) : Option Sleep := some ⟨0, [], 2, fun _ => ⟨count, false⟩⟩

-- Client 1 sends GET and BLPOP, and its socket takes nothing, so that a write handler is installed. Client 0 pushes.
def popTurns (fired : List Fired) : List Turn :=
  [⟨sleeps 0, [reads 1 [.get [0], .bpop .head [[1]] 0]], none, []⟩, ⟨sleeps 0, fired, none, []⟩, ⟨sleeps 100, [], none, []⟩]

theorem reply_durable_before_sent_pop :
    allHold idleInstance (popTurns [writes 1 100, reads 0 [.push .head [1] [[7]]]]) = true ∧
      (run idleInstance (popTurns [writes 1 100, reads 0 [.push .head [1] [[7]]]])).out.written ≠ [] ∧
      ∀ sent ∈ (run idleInstance (popTurns [writes 1 100, reads 0 [.push .head [1] [[7]]]])).out.written, sent.1 ≤ sent.2 := by
  have holds : allHold idleInstance (popTurns [writes 1 100, reads 0 [.push .head [1] [[7]]]]) = true := by decide +kernel
  exact ⟨holds, by decide +kernel, reply_durable_before_sent idleInstance (fun _ _ => nofun) rfl (fun _ => nofun) _ holds⟩

-- The push is read first and serves client 1, whose write handler is called in the same round.
theorem reply_sent_before_durable :
    (2, 0) ∈ (run idleInstance (popTurns [reads 0 [.push .head [1] [[7]]], writes 1 100])).out.written := by
  decide +kernel

end RedisCore.Aof
