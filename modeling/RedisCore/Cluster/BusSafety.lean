import RedisCore.Cluster.Bus
import RedisCore.Cluster.SingleWinner

set_option autoImplicit false

namespace RedisCore.Bus

open Election Ae Lib

variable {N : Type}

-- The last vote is stored or is not later than the current epoch, and the next clusterBeforeSleep stores it.
structure Inv (b : BusState N) : Prop where
  sound : b.out.Sound b.state.lastVoteEpoch
  epochs : b.state.lastVoteEpoch ≤ max b.out.durable b.state.currentEpoch
  asked : b.todoSave = false → b.out.fresh = []

section

variable {b : BusState N}

section

variable (inv : Inv b)

include inv

theorem Inv.send (fd : Fd) (bytes : List (Option Nat)) (marks : ∀ n, some n ∈ bytes → n ≤ b.state.lastVoteEpoch)
    (asked : b.todoSave = false → bytes.any Option.isSome = false) : Inv (clusterSendMessage b fd bytes) := by
  unfold clusterSendMessage
  by_cases up : b.connected fd = true
  · rw [if_pos up]
    refine ⟨inv.sound.put fd bytes marks, inv.epochs, ?_⟩
    intro idle
    simp only [Outbox.put, asked idle, Bool.false_eq_true, if_false]
    exact inv.asked idle
  · rw [if_neg up]
    exact inv

theorem Inv.other (message : Fd × Nat) : Inv (sendOther b message) := by
  refine inv.send message.1 _ ?_ ?_
  · intro n marked
    cases List.eq_of_mem_replicate marked
  · intro _
    simp

theorem Inv.free (fd : Fd) : Inv (freeClusterLink b fd) := ⟨inv.sound.clear fd, inv.epochs, inv.asked⟩

theorem Inv.save : Inv (clusterSaveConfig b) :=
  ⟨inv.sound.commit, (le_max_right _ _).trans (le_max_left _ _), fun _ => rfl⟩

theorem Inv.todo (todo : Bool) (more : b.todoSave = true → todo = true) : Inv { b with todoSave := todo } := by
  refine ⟨inv.sound, inv.epochs, ?_⟩
  intro idle
  refine inv.asked (Bool.eq_false_iff.mpr fun asked => ?_)
  exact Bool.false_ne_true (idle.symm.trans (more asked))

theorem Inv.state {state : NodeState N} (vote : state.lastVoteEpoch = b.state.lastVoteEpoch)
    (epoch : b.state.currentEpoch ≤ state.currentEpoch) : Inv { b with state := state } := by
  refine ⟨?_, ?_, inv.asked⟩
  · exact vote ▸ inv.sound
  · have epochs := inv.epochs
    simp only
    omega

end

end

section

variable [DecidableEq N] {b : BusState N} {cluster : Cluster N} {me : N}

omit [DecidableEq N] in
theorem Inv.auth (inv : Inv b) (asked : b.todoSave = true) (voted : b.state.currentEpoch = b.state.lastVoteEpoch) (candidate : N) :
    Inv (clusterSendFailoverAuth b candidate) := by
  unfold clusterSendFailoverAuth
  split
  · exact inv
  · refine inv.send _ _ ?_ fun idle => absurd (idle.symm.trans asked) Bool.false_ne_true
    intro n marked
    cases List.eq_of_mem_replicate marked
    exact voted.le

theorem Inv.vote (inv : Inv b) (candidate : N) (input : PacketInput N) (request : Header) :
    Inv (vote b cluster me candidate input request) := by
  unfold Bus.vote
  obtain denied | ⟨-, -, -, voted, granted⟩ := clusterSendFailoverAuthIfNeeded_cases cluster me input request b.state
  · rw [denied]
    exact inv
  · rw [granted]
    have voting : Inv { b with
        state := { b.state with lastVoteEpoch := b.state.currentEpoch, votedTime := voted }
        todoSave := true } := ⟨inv.sound.move inv.epochs, le_max_right _ _, nofun⟩
    exact voting.auth rfl rfl candidate

theorem Inv.count (inv : Inv b) (sender : N) (hdr : Header) : Inv (countVote b cluster sender hdr) := by
  unfold countVote
  split_ifs
  · exact inv.state rfl (le_refl _)
  · exact inv

omit [DecidableEq N] in
-- The epoch may start again at 0, but the last vote is stored.
theorem Inv.newEpoch (inv : Inv b) : Inv (newEpoch b) :=
  ⟨inv.sound.commit, (le_max_right _ _).trans (le_max_left _ _), fun _ => rfl⟩

theorem Inv.packet (inv : Inv b) (p : Incoming N) : Inv (clusterProcessPacket b cluster me p) := by
  have raised : Inv { b with state := raiseEpoch b.state p.msg.hdr.currentEpoch } := by
    unfold raiseEpoch
    split_ifs with newer
    · exact inv.state rfl newer.le
    · exact inv
  have body : Inv (processBody { b with state := raiseEpoch b.state p.msg.hdr.currentEpoch } cluster me p) := by
    unfold processBody
    split
    · exact raised.vote _ _ _
    · exact raised.count _ _
    · split_ifs
      · exact raised.newEpoch
      · exact raised
  unfold clusterProcessPacket
  exact foldl_kept (fun b message inv => inv.other message) p.answers _ (body.todo _ fun asked => by simp [asked])

theorem Inv.read (inv : Inv b) (fd : Fd) (packets : List (Incoming N)) (fails : Bool) :
    Inv (clusterReadHandler b cluster me fd packets fails) := by
  have processed : Inv (packets.foldl (fun b p => clusterProcessPacket b cluster me p) b) :=
    foldl_kept (P := Inv) (fun b p inv => inv.packet p) packets b inv
  unfold clusterReadHandler
  dsimp only
  split_ifs
  · exact processed.free fd
  · exact processed

omit [DecidableEq N] in
theorem Inv.write (inv : Inv b) {fd : Fd} (accepts : Nat) (calm : fd ∉ b.out.fresh) : Inv (clusterWriteHandler b fd accepts) := by
  unfold clusterWriteHandler
  dsimp only
  split_ifs
  · exact inv.free fd
  all_goals exact ⟨inv.sound.take _ calm, inv.epochs, inv.asked⟩

theorem Inv.fire (inv : Inv b) {f : Fired N} (holds : fireHolds cluster me b f = true) : Inv (fire cluster me b f) := by
  refine serve_preserves (fun b inv => inv.read f.fd f.packets f.fails) ?_ inv
  intro t writes inv
  unfold fireHolds at holds
  rw [writes] at holds
  exact inv.write f.accepts (of_decide_eq_true holds)

omit [DecidableEq N] in
theorem failover_epochs (cluster : Cluster N) (input : FailoverInput) {s : NodeState N}
    (room : startsElection cluster input s = true → s.currentEpoch + 1 < 2 ^ 64) :
    (clusterHandleSlaveFailover cluster input s).1.lastVoteEpoch = s.lastVoteEpoch ∧
      s.currentEpoch ≤ (clusterHandleSlaveFailover cluster input s).1.currentEpoch := by
  obtain ⟨epoch, vote, -⟩ := updateRank_fields input s
  rcases clusterHandleSlaveFailover_cases cluster input s with called | called | called | ⟨starts, -, called⟩ | ⟨-, -, called⟩
  all_goals rw [called]
  · exact ⟨rfl, le_refl _⟩
  · exact ⟨rfl, le_refl _⟩
  · exact ⟨vote, epoch.ge⟩
  · refine ⟨vote, ?_⟩
    change s.currentEpoch ≤ epochSucc (updateRank input s).currentEpoch
    rw [epoch, epochSucc_of_lt (room starts)]
    exact Nat.le_succ _
  · exact ⟨vote, epoch.ge⟩

theorem Inv.change (inv : Inv b) {c : Change N} (holds : changeHolds cluster b c = true) : Inv (change cluster b c) := by
  cases c with
  | send fd length => exact inv.other _
  | accept fd =>
    simp only [Bus.change]
    split_ifs
    · exact inv
    · exact ⟨inv.sound, inv.epochs, inv.asked⟩
  | connect node fd =>
    simp only [Bus.change]
    split_ifs
    · exact inv
    · exact ⟨inv.sound, inv.epochs, inv.asked⟩
  | lose fd => exact inv.free fd
  | failover input =>
    have room : startsElection cluster input b.state = true → b.state.currentEpoch + 1 < 2 ^ 64 := by
      intro starts
      simpa [changeHolds, starts] using holds
    obtain ⟨vote, epoch⟩ := failover_epochs cluster input room
    exact inv.state vote epoch
  | save => exact inv.save
  | todo => exact inv.todo true fun _ => rfl

omit [DecidableEq N] in
theorem Inv.sleep (inv : Inv b) : Inv { if b.todoSave then clusterSaveConfig b else b with todoSave := false } ∧
    (if b.todoSave then clusterSaveConfig b else b).out.fresh = [] := by
  split_ifs with asked
  · have saved := inv.save
    exact ⟨⟨saved.sound, saved.epochs, fun _ => rfl⟩, rfl⟩
  · have calm := inv.asked (by simpa using asked)
    exact ⟨⟨inv.sound, inv.epochs, fun _ => calm⟩, calm⟩

theorem Inv.turn (inv : Inv b) {t : Turn N} (holds : turnHolds cluster me b t = true) : Inv (turn cluster me b t) := by
  obtain ⟨both, timers⟩ := (Bool.and_eq_true _ _).mp holds
  obtain ⟨failovers, fired⟩ := (Bool.and_eq_true _ _).mp both
  have slept : Inv (if t.sleeps then clusterBeforeSleep cluster b t.failovers else b) := by
    split_ifs with sleeps
    · simp only [sleeps, Bool.not_true, Bool.false_or] at failovers
      exact (foldl_guarded (P := Inv) (fun b c inv holds => inv.change holds) t.failovers b inv failovers).sleep.1
    · exact inv
  have served := foldl_guarded (P := Inv) (fun b f inv holds => inv.fire holds) t.fired _ slept fired
  exact foldl_guarded (P := Inv) (fun b c inv holds => inv.change holds) t.timers _ served timers

def Msg.asks : Msg → Bool
  | .authRequest _ => true
  | _ => false

-- Once a request for a vote may have been read, no descriptor is served for writing.
def orderly : List (Fired N) → Bool
  | [] => true
  | f :: rest => (!(f.packets.any fun p => Msg.asks p.msg) || (f :: rest).all fun g => !g.writable) && orderly rest

section

variable {b : BusState N} (calm : b.out.fresh = [])

include calm

omit [DecidableEq N] in
theorem sendOther_calm (message : Fd × Nat) : (sendOther b message).out.fresh = [] := by
  unfold sendOther clusterSendMessage
  by_cases up : b.connected message.1 = true
  · simpa [up, Outbox.put] using calm
  · rwa [if_neg up]

theorem packet_calm {p : Incoming N} (unasked : Msg.asks p.msg = false) :
    (clusterProcessPacket b cluster me p).out.fresh = [] := by
  have body : (processBody { b with state := raiseEpoch b.state p.msg.hdr.currentEpoch } cluster me p).out.fresh = [] := by
    unfold processBody
    split
    · next asked => simp [asked, Msg.asks] at unasked
    · unfold countVote
      split_ifs <;> exact calm
    · split_ifs
      · rfl
      · exact calm
  exact foldl_kept (P := fun b : BusState N => b.out.fresh = []) (fun b message calm => sendOther_calm calm message) p.answers _ body

theorem read_calm (fd : Fd) {packets : List (Incoming N)} (unasked : (packets.any fun p => Msg.asks p.msg) = false)
    (fails : Bool) : (clusterReadHandler b cluster me fd packets fails).out.fresh = [] := by
  have processed : (packets.foldl (fun b p => clusterProcessPacket b cluster me p) b).out.fresh = [] := by
    induction packets generalizing b with
    | nil => exact calm
    | cons p rest ih =>
      obtain ⟨first, later⟩ := Bool.or_eq_false_iff.mp unasked
      exact ih (packet_calm calm first) later
  unfold clusterReadHandler
  dsimp only
  split_ifs <;> exact processed

omit [DecidableEq N] in
theorem write_calm (fd : Fd) (accepts : Nat) : (clusterWriteHandler b fd accepts).out.fresh = [] := by
  unfold clusterWriteHandler
  dsimp only
  split_ifs <;> exact calm

end

theorem unwritten_holds {fired : List (Fired N)} (unwritten : (fired.all fun g => !g.writable) = true) :
    allSteps (fire cluster me) (fireHolds cluster me) b fired = true := by
  induction fired generalizing b with
  | nil => rfl
  | cons f rest ih =>
    obtain ⟨first, later⟩ := (Bool.and_eq_true _ _).mp unwritten
    refine (Bool.and_eq_true _ _).mpr ⟨?_, ih later⟩
    simp only [Bool.not_eq_true'] at first
    simp [fireHolds, writesFrom, first]

/-- In a round that has saved the configuration, votes after the writes are enough. -/
theorem orderly_holds (calm : b.out.fresh = []) {fired : List (Fired N)} (order : orderly fired = true) :
    allSteps (fire cluster me) (fireHolds cluster me) b fired = true := by
  induction fired generalizing b with
  | nil => rfl
  | cons f rest ih =>
    obtain ⟨first, later⟩ := (Bool.and_eq_true _ _).mp order
    cases asked : f.packets.any fun p => Msg.asks p.msg with
    | true => exact unwritten_holds (by simpa only [asked, Bool.not_true, Bool.false_or] using first)
    | false =>
      have reads : ∀ b : BusState N, b.out.fresh = [] → (clusterReadHandler b cluster me f.fd f.packets f.fails).out.fresh = [] :=
        fun b calm => read_calm calm f.fd asked f.fails
      refine (Bool.and_eq_true _ _).mpr ⟨?_, ih ?_ later⟩
      · unfold fireHolds
        cases writes : writesFrom (fun b => b.mask f.fd) (fun b => clusterReadHandler b cluster me f.fd f.packets f.fails)
            f.readable f.writable b with
        | none => rfl
        | some t =>
          have served : t.out.fresh = [] := (writesFrom_some writes).1 ▸ readBefore_preserves reads calm
          simp [served]
      · exact serve_preserves (P := fun b : BusState N => b.out.fresh = []) reads (fun t _ calm => write_calm calm f.fd f.accepts) calm

/-- clusterBeforeSleep has saved every vote before the descriptors are served. -/
theorem orderly_round_holds (inv : Inv b) (failovers : List (Change N))
    (hold : allSteps (change cluster) (changeHolds cluster) b failovers = true) {fired : List (Fired N)} (order : orderly fired = true) :
    allSteps (fire cluster me) (fireHolds cluster me) (clusterBeforeSleep cluster b failovers) fired = true := by
  have changed := foldl_guarded (P := Inv) (fun b c inv holds => inv.change holds) failovers b inv hold
  exact orderly_holds (b := clusterBeforeSleep cluster b failovers) changed.sleep.2 order

/-- While no link with a waiting acknowledgement is served for writing before the configuration is saved, every byte of an
acknowledgement that has left was written when a configuration with at least its epoch was stored. -/
theorem vote_stored_before_sent (cluster : Cluster N) (me : N) (start : BusState N) (marks : ∀ fd n, some n ∉ start.out.queue fd)
    (calm : start.out.fresh = []) (written : start.out.written = []) (stored : start.state.lastVoteEpoch ≤ start.out.durable)
    (turns : List (Turn N)) (holds : allHold cluster me start turns = true) :
    ∀ w ∈ (run cluster me start turns).out.written, w.1 ≤ w.2 := by
  have inv : Inv start := by
    refine ⟨⟨fun fd n waits => absurd waits (marks fd n), fun fd n waits => absurd waits (marks fd n), ?_⟩,
      stored.trans (le_max_left _ _), fun _ => calm⟩
    rw [written]
    exact nofun
  exact (foldl_guarded (P := Inv) (fun b t inv holds => inv.turn holds) turns start inv holds).sound.written

-- A master, 0, with a packet pending for the slave 1 of the failed master 2, on descriptor 11.
local instance three_nodes : NeZero 3 := ⟨by decide⟩

def masters : Cluster (Fin 3) := ⟨{0, 2}, 100, 10, 10⟩

def pending : BusState (Fin 3) where
  state := ⟨5, 5, 0, none, 0, 0, false, 0, 0, fun _ => 0⟩
  todoSave := false
  connected := fun fd => fd = 10 ∨ fd = 11
  mask := fun fd => if fd = 10 then ⟨true, false, false⟩ else if fd = 11 then ⟨true, true, true⟩ else Mask.none
  linkOf := fun n => if n = 1 then some 11 else none
  out := ⟨fun fd => if fd = 11 then [none] else [], [], 5, []⟩

def asking : Fired (Fin 3) :=
  ⟨10, true, false, [⟨1, .authRequest ⟨6, 0, [], false⟩, ⟨1000, some 2, true, fun _ => none, true⟩, [], false, false⟩], false, 0⟩

def writing : Fired (Fin 3) := ⟨11, false, true, [], false, 4000⟩

theorem vote_stored_before_sent_two :
    (∀ w ∈ (run masters 0 pending [⟨true, [], [writing, asking], []⟩, ⟨true, [], [writing], []⟩]).out.written, w.1 ≤ w.2) ∧
      (6, 6) ∈ (run masters 0 pending [⟨true, [], [writing, asking], []⟩, ⟨true, [], [writing], []⟩]).out.written := by
  refine ⟨vote_stored_before_sent masters 0 pending ?_ rfl rfl (le_refl _) _ (by decide +kernel), by decide +kernel⟩
  intro fd n waits
  simp only [pending] at waits
  split_ifs at waits <;> simp at waits

/-- The request is read first and the link of the slave is written afterwards, in the same iteration. -/
theorem vote_sent_before_stored : (∀ fd n, some n ∉ pending.out.queue fd) ∧
    (6, 5) ∈ (run masters 0 pending [⟨true, [], [asking, writing], []⟩]).out.written := by
  refine ⟨?_, by decide +kernel⟩
  intro fd n waits
  simp only [pending] at waits
  split_ifs at waits <;> simp at waits

end

end RedisCore.Bus
