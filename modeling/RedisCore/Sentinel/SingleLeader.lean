import RedisCore.Sentinel.Model

set_option autoImplicit false

namespace RedisCore.Sentinel

open Function

variable {S M : Type} [DecidableEq S] [DecidableEq M]
variable {s : SentinelState S M} {m : M} {env : Env S} {best : Nat × Option S} {votes : List S}

structure Recast (x y : Master S) : Prop where
  epoch : x.leaderEpoch ≤ y.leaderEpoch
  leader : ∀ a, y.leader = some a → (x.leader = some a ∧ x.leaderEpoch = y.leaderEpoch) ∨ x.leaderEpoch < y.leaderEpoch

-- A sentinel acts on its own: it may vote, and forget what it knows of the votes of others.
structure Acts (s s' : SentinelState S M) : Prop where
  myid : s'.myid = s.myid
  votes : ∀ m, Recast (s.master m) (s'.master m)
  peers : ∀ m p a, ((s'.master m).peers p).leader = some a → ((s.master m).peers p).leader = some a ∧
    ((s.master m).peers p).leaderEpoch = ((s'.master m).peers p).leaderEpoch

omit [DecidableEq S] in
theorem Recast.refl (x : Master S) : Recast x x := ⟨le_rfl, fun _ voted => .inl ⟨voted, rfl⟩⟩

omit [DecidableEq S] in
theorem Recast.trans {x y z : Master S} (first : Recast x y) (second : Recast y z) : Recast x z := by
  refine ⟨first.epoch.trans second.epoch, ?_⟩
  intro a voted
  rcases second.leader a voted with ⟨before, same⟩ | later
  · rcases first.leader a before with ⟨old, same'⟩ | earlier
    · exact .inl ⟨old, same'.trans same⟩
    · exact .inr (by omega)
  · exact .inr (lt_of_le_of_lt first.epoch later)

section

variable {s s' s'' : SentinelState S M}

omit [DecidableEq S] [DecidableEq M] in
theorem Acts.refl (s : SentinelState S M) : Acts s s :=
  ⟨rfl, fun _ => .refl _, fun _ _ _ voted => ⟨voted, rfl⟩⟩

omit [DecidableEq S] [DecidableEq M] in
theorem Acts.trans (first : Acts s s') (second : Acts s' s'') : Acts s s'' := by
  refine ⟨second.myid.trans first.myid, fun m => (first.votes m).trans (second.votes m), ?_⟩
  intro m p a voted
  obtain ⟨before, same⟩ := second.peers m p a voted
  obtain ⟨before', same'⟩ := first.peers m p a before
  exact ⟨before', same'.trans same⟩

omit [DecidableEq S] [DecidableEq M] in
theorem Acts.epoch (s : SentinelState S M) (epoch : Nat) : Acts s { s with currentEpoch := epoch } :=
  ⟨rfl, fun _ => .refl _, fun _ _ _ voted => ⟨voted, rfl⟩⟩

omit [DecidableEq S] in
theorem Acts.modify {s : SentinelState S M} (f : Master S → Master S) (recast : Recast (s.master m) (f (s.master m)))
    (peers : ∀ p a, ((f (s.master m)).peers p).leader = some a → ((s.master m).peers p).leader = some a ∧
      ((s.master m).peers p).leaderEpoch = ((f (s.master m)).peers p).leaderEpoch) : Acts s (s.modify m f) := by
  refine ⟨rfl, ?_, ?_⟩
  · intro k
    by_cases here : k = m
    · subst here
      simpa [SentinelState.modify] using recast
    · simpa [SentinelState.modify, here] using Recast.refl (s.master k)
  · intro k p a voted
    by_cases here : k = m
    · subst here
      simpa [SentinelState.modify] using peers p a (by simpa [SentinelState.modify] using voted)
    · simpa [SentinelState.modify, here] using voted

omit [DecidableEq S] in
theorem Acts.quiet {s : SentinelState S M} (f : Master S → Master S) (leader : (f (s.master m)).leader = (s.master m).leader)
    (epoch : (f (s.master m)).leaderEpoch = (s.master m).leaderEpoch) (peers : (f (s.master m)).peers = (s.master m).peers) :
    Acts s (s.modify m f) := by
  refine .modify f ⟨epoch.ge, ?_⟩ ?_
  · intro a voted
    exact .inl ⟨leader ▸ voted, epoch.symm⟩
  · intro p a voted
    rw [peers] at voted ⊢
    exact ⟨voted, rfl⟩

variable (env : Env S) (d : Deployment S M) (m : M)

omit [DecidableEq S] [DecidableEq M] in
theorem raiseEpoch_acts (epoch : Nat) : Acts s (raiseEpoch s epoch) := by
  unfold raiseEpoch
  split
  · exact .epoch s epoch
  · exact .refl s

theorem castVote_acts {reqEpoch : Nat} (reqRunid : S) (known : reqEpoch ≤ s.currentEpoch) :
    Acts s (castVote env s m reqEpoch reqRunid) := by
  unfold castVote recordVote
  split
  · next free =>
    have later : (s.master m).leaderEpoch < s.currentEpoch := by omega
    exact .modify _ ⟨later.le, fun _ _ => .inr later⟩ fun _ _ voted => ⟨voted, rfl⟩
  · exact .refl s

omit [DecidableEq S] [DecidableEq M] in
theorem raiseEpoch_le (epoch : Nat) : epoch ≤ (raiseEpoch s epoch).currentEpoch := by
  unfold raiseEpoch
  split
  · exact le_rfl
  · omega

theorem voteLeader_acts (reqEpoch : Nat) (reqRunid : S) : Acts s (sentinelVoteLeader env s m reqEpoch reqRunid) :=
  (raiseEpoch_acts reqEpoch).trans (castVote_acts env m reqRunid (raiseEpoch_le reqEpoch))

omit [DecidableEq S] in
theorem abortFailover_acts : Acts s (sentinelAbortFailover env s m) := .quiet _ rfl rfl rfl

omit [DecidableEq S] in
theorem setFailoverState_acts (state : FailoverState) : Acts s (setFailoverState env s m state) := .quiet _ rfl rfl rfl

theorem waitStart_acts : Acts s (sentinelFailoverWaitStart env d s m) := by
  have voted : Acts s (sentinelGetLeader env d s m (s.master m).failoverEpoch).1 := voteLeader_acts env m _ _
  unfold sentinelFailoverWaitStart
  dsimp only
  split_ifs
  · exact voted.trans (setFailoverState_acts env m _)
  · exact voted.trans (abortFailover_acts env m)
  · exact voted

theorem stateMachine_acts : Acts s (sentinelFailoverStateMachine env d s m) := by
  unfold sentinelFailoverStateMachine
  split
  · split
    · exact waitStart_acts env d m
    · unfold sentinelFailoverSelectSlave
      split
      · exact abortFailover_acts env m
      · exact (Acts.quiet _ rfl rfl rfl).trans (setFailoverState_acts env m _)
    · unfold sentinelFailoverSendSlaveOfNoOne
      split_ifs
      · exact abortFailover_acts env m
      · exact .refl s
      · exact setFailoverState_acts env m _
      · exact .refl s
    · unfold sentinelFailoverWaitPromotion
      split
      · exact abortFailover_acts env m
      · exact .refl s
    · unfold sentinelFailoverDetectEnd
      split_ifs
      · exact .refl s
      · exact setFailoverState_acts env m _
      · exact .refl s
    · exact .refl s
    · exact .refl s
  · exact .refl s

omit [DecidableEq S] in
theorem startFailover_acts : Acts s (sentinelStartFailover env s m) :=
  (Acts.epoch s _).trans (.quiet _ rfl rfl rfl)

omit [DecidableEq S] in
theorem ask_acts : Acts s (sentinelAskMasterStateToOtherSentinels env s m) := by
  refine .modify _ ⟨le_rfl, fun _ voted => .inl ⟨voted, rfl⟩⟩ ?_
  intro p a voted
  simp only [forgetOld] at voted ⊢
  split_ifs at voted ⊢
  exact ⟨voted, rfl⟩

theorem started_acts : Acts s (startedMaster d env s m) := by
  have subjective : Acts s (sentinelCheckSubjectivelyDown env s m) := .quiet _ rfl rfl rfl
  have objective : Acts (sentinelCheckSubjectivelyDown env s m) (checkedMaster d env s m) := by
    unfold checkedMaster sentinelCheckObjectivelyDown
    exact .quiet _ rfl rfl rfl
  have checked := subjective.trans objective
  unfold startedMaster
  split
  · exact (checked.trans (startFailover_acts env m)).trans (ask_acts env m)
  · exact checked

omit [DecidableEq S] in
theorem resetMaster_acts (addr : Nat) : Acts s (sentinelResetMasterAndChangeAddress s m addr) :=
  (Acts.modify _ ⟨le_rfl, fun _ voted => by cases voted⟩ fun _ _ voted => ⟨voted, rfl⟩).trans (.quiet _ rfl rfl rfl)

omit [DecidableEq S] in
theorem processHello_acts (hello : Hello M) : Acts s (sentinelProcessHelloMessage s hello) := by
  have raised := raiseEpoch_acts (s := s) hello.currentEpoch
  have configured : Acts s ((raiseEpoch s hello.currentEpoch).modify hello.about fun master =>
      { master with configEpoch := hello.configEpoch }) := raised.trans (.quiet _ rfl rfl rfl)
  unfold sentinelProcessHelloMessage
  dsimp only
  split_ifs
  · exact configured.trans (resetMaster_acts hello.about hello.addr)
  · exact configured
  · exact raised

omit [DecidableEq S] in
theorem failoverCommand_acts : Acts s (sentinelFailoverCommand env s m) := by
  unfold sentinelFailoverCommand
  split
  · exact .refl s
  · exact (startFailover_acts env m).trans (.quiet _ rfl rfl rfl)

omit [DecidableEq S] in
theorem promotionSeen_acts : Acts s (promotionSeen env s m) := by
  unfold promotionSeen
  split
  · exact (Acts.quiet _ rfl rfl rfl).trans (setFailoverState_acts env m _)
  · exact .refl s

theorem better_spec (runid : S)
    (counted : ∀ x, best.2 = some x → best.1 = votes.count x) :
    ∀ x, (better votes best runid).2 = some x → (better votes best runid).1 = votes.count x := by
  intro x found
  unfold better at found ⊢
  split_ifs at found ⊢
  · cases found
    rfl
  · exact counted x found

theorem mostVoted_spec (votes : List S) (x : S) (found : (mostVoted env votes).2 = some x) :
    (mostVoted env votes).1 = votes.count x := by
  have scanned : ∀ (keys : List S) (best : Nat × Option S), (∀ x, best.2 = some x → best.1 = votes.count x) →
      ∀ x, (keys.foldl (better votes) best).2 = some x → (keys.foldl (better votes) best).1 = votes.count x := by
    intro keys
    induction keys with
    | nil => exact fun best counted => counted
    | cons key rest ih => exact fun best counted => ih _ (better_spec key counted)
  exact scanned _ (0, none) nofun x found

theorem countOwnVote_spec {epoch : Nat} {master : Master S}
    (counted : ∀ x, best.2 = some x → best.1 = votes.count x) {x : S}
    (found : (countOwnVote epoch votes best master).2 = some x) :
    (countOwnVote epoch votes best master).1 = votes.count x ∨
      (countOwnVote epoch votes best master).1 = votes.count x + 1 ∧ master.leader = some x ∧ master.leaderEpoch = epoch := by
  unfold countOwnVote at found ⊢
  split at found
  · next mine leader =>
    split_ifs at found ⊢ with current
    · unfold better at found ⊢
      split_ifs at found ⊢
      · cases found
        exact .inr ⟨List.count_cons_self, leader, current⟩
      · exact .inl (counted x found)
    · exact .inl (counted x found)
  · exact .inl (counted x found)

def votersFor (x : S) : Finset S :=
  ((d.others s.myid).filter fun p =>
    ((s.master m).peers p).leader = some x ∧ ((s.master m).peers p).leaderEpoch = s.currentEpoch).toFinset

omit [DecidableEq M] in
theorem count_otherVotes (x : S) : (otherVotes d s m).count x = (votersFor (s := s) d m x).card := by
  have distinct : ((d.others s.myid).filter fun p =>
      ((s.master m).peers p).leader = some x ∧ ((s.master m).peers p).leaderEpoch = s.currentEpoch).Nodup :=
    (d.distinct.filter _).filter _
  unfold votersFor otherVotes
  rw [List.toFinset_card_of_nodup distinct]
  clear distinct
  induction d.others s.myid with
  | nil => rfl
  | cons p rest ih =>
    by_cases current : ((s.master m).peers p).leaderEpoch = s.currentEpoch
    · cases leader : ((s.master m).peers p).leader with
      | none => simp [current, leader, ih]
      | some y => by_cases same : y = x <;> simp [current, leader, same, ih]
    · simp [current, ih]

theorem getLeader_voters {epoch : Nat} {x : S} (found : (sentinelGetLeader env d s m epoch).2 = some x) :
    ∃ voters : Finset S, d.sentinels.length / 2 + 1 ≤ voters.card ∧ ∀ v ∈ voters,
      (v = s.myid ∧ ((sentinelGetLeader env d s m epoch).1.master m).leader = some x ∧
        ((sentinelGetLeader env d s m epoch).1.master m).leaderEpoch = epoch) ∨
      (((s.master m).peers v).leader = some x ∧ ((s.master m).peers v).leaderEpoch = s.currentEpoch) := by
  let best := mostVoted env (otherVotes d s m)
  let voted := sentinelVoteLeader env s m epoch (best.2.getD s.myid)
  let final := countOwnVote epoch (otherVotes d s m) best (voted.master m)
  have size : (d.others s.myid).length + 1 = d.sentinels.length := by
    have removed := List.length_erase_add_one (d.complete s.myid)
    rw [d.distinct.erase_eq_filter] at removed
    simpa [Deployment.others, bne, beq_eq_decide] using removed
  have result : (if final.1 < ((d.others s.myid).length + 1) / 2 + 1 ∨ final.1 < (s.master m).quorum then none else final.2) =
      some x := found
  rw [size] at result
  split_ifs at result with enough
  have quorum : d.sentinels.length / 2 + 1 ≤ final.1 := by omega
  have backed : ∀ v ∈ votersFor (s := s) d m x, v ≠ s.myid ∧ ((s.master m).peers v).leader = some x ∧
      ((s.master m).peers v).leaderEpoch = s.currentEpoch := by
    intro v inside
    simp only [votersFor, Deployment.others, List.mem_toFinset, List.mem_filter, decide_eq_true_eq] at inside
    exact ⟨inside.1.2, inside.2⟩
  rcases countOwnVote_spec (mostVoted_spec env _) result with
    others | ⟨own, leader, current⟩
  · refine ⟨votersFor (s := s) d m x, ?_, fun v inside => .inr (backed v inside).2⟩
    rw [← count_otherVotes, ← others]
    exact quorum
  · have absent : s.myid ∉ votersFor (s := s) d m x := fun inside => (backed _ inside).1 rfl
    refine ⟨insert s.myid (votersFor (s := s) d m x), ?_, ?_⟩
    · rw [Finset.card_insert_of_notMem absent, ← count_otherVotes, ← own]
      exact quorum
    · intro v inside
      rcases Finset.mem_insert.mp inside with rfl | other
      · exact .inl ⟨rfl, leader, current⟩
      · exact .inr (backed v other).2

end

-- Who voted for whom: voter, master, epoch and candidate.
abbrev Votes (S M : Type) := S → M → Nat → S → Prop

structure Inv (d : Deployment S M) (votes : Votes S M) (w : World S M) : Prop where
  myid : ∀ n, (w.sentinel n).myid = n
  unique : ∀ v m e a b, votes v m e a → votes v m e b → a = b
  bounded : ∀ v m e a, votes v m e a → e ≤ ((w.sentinel v).master m).leaderEpoch
  leader : ∀ v m a, ((w.sentinel v).master m).leader = some a → votes v m ((w.sentinel v).master m).leaderEpoch a
  peers : ∀ n m v a, (((w.sentinel n).master m).peers v).leader = some a →
    votes v m (((w.sentinel n).master m).peers v).leaderEpoch a
  replies : ∀ v n m isdown a e, Reply.down m isdown (some a) e ∈ w.replies v n → votes v m e a
  elected : ∀ n m e, (n, m, e) ∈ w.elected →
    ∃ voters : Finset S, d.sentinels.length / 2 + 1 ≤ voters.card ∧ ∀ v ∈ voters, votes v m e n

section

variable {d : Deployment S M} {votes : Votes S M} {w w' : World S M}

omit [DecidableEq M] in
-- Two majorities of the sentinels share a voter, who votes once in an epoch.
theorem Inv.single_leader (inv : Inv d votes w) {a b : S} {e : Nat} (first : (a, m, e) ∈ w.elected)
    (second : (b, m, e) ∈ w.elected) : a = b := by
  obtain ⟨voters, quorum, voted⟩ := inv.elected a m e first
  obtain ⟨voters', quorum', voted'⟩ := inv.elected b m e second
  have size : d.sentinels.toFinset.card = d.sentinels.length := List.toFinset_card_of_nodup d.distinct
  obtain ⟨v, inside⟩ := Finset.inter_nonempty_of_card_lt_card_add_card (s := d.sentinels.toFinset)
    (t := voters) (u := voters') (fun v _ => List.mem_toFinset.mpr (d.complete v))
    (fun v _ => List.mem_toFinset.mpr (d.complete v)) (by omega)
  obtain ⟨left, right⟩ := Finset.mem_inter.mp inside
  exact inv.unique v m e a b (voted v left) (voted' v right)

omit [DecidableEq S] [DecidableEq M] in
theorem inv_initial (initial : Initial w) : Inv d (fun _ _ _ _ => False) w where
  myid := initial.myid
  unique := nofun
  bounded := nofun
  leader := fun v m a voted => by simp [initial.leader] at voted
  peers := fun n m v a voted => by simp [initial.peers] at voted
  replies := fun v n m isdown a e inside => by simp [initial.replies] at inside
  elected := fun n m e inside => by simp [initial.elected] at inside

def withShown (votes : Votes S M) (n : S) (s : SentinelState S M) : Votes S M := fun v m e a =>
  votes v m e a ∨ (v = n ∧ (s.master m).leader = some a ∧ (s.master m).leaderEpoch = e)

omit [DecidableEq M] in
theorem Inv.act (inv : Inv d votes w) (n : S) (s : SentinelState S M) (acts : Acts (w.sentinel n) s) :
    Inv d (withShown votes n s) (w.setSentinel n s) := by
  have at_n : (w.setSentinel n s).sentinel n = s := by simp [World.setSentinel]
  have elsewhere : ∀ k, k ≠ n → (w.setSentinel n s).sentinel k = w.sentinel k := fun k other => by
    simp [World.setSentinel, other]
  have fresh : ∀ m a b, (s.master m).leader = some a → votes n m (s.master m).leaderEpoch b → a = b := by
    intro m a b voted old
    rcases (acts.votes m).leader a voted with ⟨before, same⟩ | later
    · rw [← same] at old
      exact inv.unique n m _ a b (inv.leader n m a before) old
    · exact absurd (inv.bounded n m _ b old) (by omega)
  refine ⟨?_, ?_, ?_, ?_, ?_, ?_, ?_⟩
  · intro k
    by_cases here : k = n
    · rw [here, at_n, acts.myid, inv.myid]
    · rw [elsewhere k here, inv.myid]
  · rintro v m e a b (old | ⟨rfl, voted, rfl⟩) (old' | ⟨same, voted', epoch⟩)
    · exact inv.unique v m e a b old old'
    · subst same epoch
      exact (fresh m b a voted' old).symm
    · exact fresh m a b voted old'
    · exact Option.some.inj (voted.symm.trans voted')
  · rintro v m e a (old | ⟨rfl, -, rfl⟩)
    · by_cases here : v = n
      · subst here
        rw [at_n]
        exact (inv.bounded v m e a old).trans (acts.votes m).epoch
      · rw [elsewhere v here]
        exact inv.bounded v m e a old
    · rw [at_n]
  · intro v m a voted
    by_cases here : v = n
    · subst here
      rw [at_n] at voted ⊢
      exact .inr ⟨rfl, voted, rfl⟩
    · rw [elsewhere v here] at voted ⊢
      exact .inl (inv.leader v m a voted)
  · intro k m v a voted
    by_cases here : k = n
    · subst here
      rw [at_n] at voted ⊢
      obtain ⟨before, same⟩ := acts.peers m v a voted
      rw [← same]
      exact .inl (inv.peers k m v a before)
    · rw [elsewhere k here] at voted ⊢
      exact .inl (inv.peers k m v a voted)
  · intro v k m isdown a e inside
    exact .inl (inv.replies v k m isdown a e inside)
  · intro k m e inside
    obtain ⟨voters, quorum, voted⟩ := inv.elected k m e inside
    exact ⟨voters, quorum, fun v member => .inl (voted v member)⟩

omit [DecidableEq S] [DecidableEq M] in
theorem Inv.carry (inv : Inv d votes w) (sentinel : w'.sentinel = w.sentinel) (elected : w'.elected = w.elected)
    (replies : ∀ a b reply, reply ∈ w'.replies a b → reply ∈ w.replies a b) : Inv d votes w' where
  myid := by rw [sentinel]; exact inv.myid
  unique := inv.unique
  bounded := by rw [sentinel]; exact inv.bounded
  leader := by rw [sentinel]; exact inv.leader
  peers := by rw [sentinel]; exact inv.peers
  replies := fun v n m isdown a e inside => inv.replies v n m isdown a e (replies v n _ inside)
  elected := by rw [elected]; exact inv.elected

theorem mem_enqueue {α : Type} {queue : S → S → List α} {src dst a b : S} {msgs : List α} {x : α}
    (inside : x ∈ enqueue queue src dst msgs a b) : (a = src ∧ b = dst ∧ x ∈ msgs) ∨ x ∈ queue a b := by
  by_cases first : a = src
  · subst first
    by_cases second : b = dst
    · subst second
      exact .inl ⟨rfl, rfl, by simpa [enqueue] using inside⟩
    · exact .inr (by simpa [enqueue, second] using inside)
  · exact .inr (by simpa [enqueue, first] using inside)

theorem receive_own (env : Env S) (s : SentinelState S M) (src : S) (reply : Reply S M) (m : M) :
    ((sentinelReceiveIsMasterDownReply env s src reply).master m).leader = (s.master m).leader ∧
    ((sentinelReceiveIsMasterDownReply env s src reply).master m).leaderEpoch = (s.master m).leaderEpoch := by
  cases reply with
  | error about => exact ⟨rfl, rfl⟩
  | down about isdown leader epoch =>
    by_cases here : m = about <;> simp [sentinelReceiveIsMasterDownReply, SentinelState.modify, here]

theorem receive_peers {src : S} {reply : Reply S M} {v a : S}
    (voted : (((sentinelReceiveIsMasterDownReply env s src reply).master m).peers v).leader = some a) :
    (((s.master m).peers v).leader = some a ∧ ((s.master m).peers v).leaderEpoch =
      (((sentinelReceiveIsMasterDownReply env s src reply).master m).peers v).leaderEpoch) ∨
    (v = src ∧ ∃ isdown, reply = .down m isdown (some a)
      (((sentinelReceiveIsMasterDownReply env s src reply).master m).peers v).leaderEpoch) := by
  cases reply with
  | error about => exact .inl ⟨voted, rfl⟩
  | down about isdown leader epoch =>
    by_cases here : m = about
    · subst here
      by_cases other : v = src
      · subst other
        cases leader with
        | none =>
          simp only [sentinelReceiveIsMasterDownReply, SentinelState.modify, update_self, recordReply] at voted ⊢
          exact .inl ⟨voted, trivial⟩
        | some runid =>
          simp only [sentinelReceiveIsMasterDownReply, SentinelState.modify, update_self, recordReply] at voted ⊢
          cases voted
          exact .inr ⟨trivial, isdown, rfl⟩
      · simp only [sentinelReceiveIsMasterDownReply, SentinelState.modify, update_self,
          update_of_ne other] at voted ⊢
        exact .inl ⟨voted, trivial⟩
    · simp only [sentinelReceiveIsMasterDownReply, SentinelState.modify, update_of_ne here] at voted ⊢
      exact .inl ⟨voted, trivial⟩

theorem Inv.receive (inv : Inv d votes w) (env : Env S) (src dst : S) (reply : Reply S M) (queued : reply ∈ w.replies src dst) :
    Inv d votes (w.setSentinel dst (sentinelReceiveIsMasterDownReply env (w.sentinel dst) src reply)) := by
  let s := sentinelReceiveIsMasterDownReply env (w.sentinel dst) src reply
  have at_dst : (w.setSentinel dst s).sentinel dst = s := by simp [World.setSentinel]
  have elsewhere : ∀ k, k ≠ dst → (w.setSentinel dst s).sentinel k = w.sentinel k := fun k other => by
    simp [World.setSentinel, other]
  have own : ∀ k m, (((w.setSentinel dst s).sentinel k).master m).leader = ((w.sentinel k).master m).leader ∧
      (((w.setSentinel dst s).sentinel k).master m).leaderEpoch = ((w.sentinel k).master m).leaderEpoch := by
    intro k m
    by_cases here : k = dst
    · subst here
      rw [at_dst]
      exact receive_own env _ src reply m
    · rw [elsewhere k here]
      exact ⟨rfl, rfl⟩
  refine ⟨?_, inv.unique, ?_, ?_, ?_, inv.replies, inv.elected⟩
  · intro k
    by_cases here : k = dst
    · subst here
      rw [at_dst, ← inv.myid k]
      cases reply <;> rfl
    · rw [elsewhere k here, inv.myid]
  · intro v m e a voted
    rw [(own v m).2]
    exact inv.bounded v m e a voted
  · intro v m a voted
    rw [(own v m).1] at voted
    rw [(own v m).2]
    exact inv.leader v m a voted
  · intro k m v a voted
    by_cases here : k = dst
    · subst here
      rw [at_dst] at voted ⊢
      rcases receive_peers voted with ⟨before, same⟩ | ⟨rfl, isdown, replied⟩
      · rw [← same]
        exact inv.peers k m v a before
      · exact inv.replies v k m isdown a _ (replied ▸ queued)
    · rw [elsewhere k here] at voted ⊢
      exact inv.peers k m v a voted

theorem answer_acts (env : Env S) (s : SentinelState S M) (request : Request S M) : Acts s (answer env d s request).1 := by
  unfold answer
  split_ifs
  · exact .refl s
  · split
    · exact .refl s
    · exact .refl s
    · exact voteLeader_acts env _ _ _

theorem answer_vote {request : Request S M}
    (about : ∀ m, masterByAddr d s request.addr = some m → m = request.about) {isdown : Bool} {a : S} {e : Nat}
    (replied : (answer env d s request).2 = .down m isdown (some a) e) :
    ((answer env d s request).1.master m).leader = some a ∧ ((answer env d s request).1.master m).leaderEpoch = e := by
  unfold answer at replied ⊢
  split_ifs at replied ⊢
  split at replied
  · cases replied
  · cases replied
  · next k runid found asked =>
    obtain rfl := about k found
    simp only [Reply.down.injEq] at replied
    obtain ⟨rfl, -, leader, epoch⟩ := replied
    exact ⟨leader, epoch⟩

omit [DecidableEq M] in
theorem Inv.reply (inv : Inv d votes w) (src dst : S) (reply : Reply S M)
    (backed : ∀ m isdown a e, reply = .down m isdown (some a) e → votes src m e a) :
    Inv d votes { w with replies := enqueue w.replies src dst (w.replies src dst ++ [reply]) } := by
  refine ⟨inv.myid, inv.unique, inv.bounded, inv.leader, inv.peers, ?_, inv.elected⟩
  intro v n m isdown a e inside
  rcases mem_enqueue inside with ⟨rfl, rfl, queued⟩ | old
  · rcases List.mem_append.mp queued with old | new
    · exact inv.replies v n m isdown a e old
    · exact backed m isdown a e (List.mem_singleton.mp new).symm
  · exact inv.replies v n m isdown a e old

omit [DecidableEq S] [DecidableEq M] in
theorem Inv.elect (inv : Inv d votes w) {n : S} {m : M} {e : Nat} {voters : Finset S}
    (quorum : d.sentinels.length / 2 + 1 ≤ voters.card) (voted : ∀ v ∈ voters, votes v m e n) :
    Inv d votes { w with elected := (n, m, e) :: w.elected } := by
  refine ⟨inv.myid, inv.unique, inv.bounded, inv.leader, inv.peers, inv.replies, ?_⟩
  intro k j i inside
  rcases List.mem_cons.mp inside with same | old
  · cases same
    exact ⟨voters, quorum, voted⟩
  · exact inv.elected k j i old

theorem electedNow_moved (elected : electedNow env d s m = true) :
    (sentinelGetLeader env d s m (s.master m).failoverEpoch).2 = some s.myid ∧
    ((sentinelFailoverStateMachine env d s m).master m).leader =
      ((sentinelGetLeader env d s m (s.master m).failoverEpoch).1.master m).leader ∧
    ((sentinelFailoverStateMachine env d s m).master m).leaderEpoch =
      ((sentinelGetLeader env d s m (s.master m).failoverEpoch).1.master m).leaderEpoch := by
  simp only [electedNow, Bool.and_eq_true, decide_eq_true_eq] at elected
  obtain ⟨⟨inProgress, waiting⟩, leads⟩ := elected
  have moved : sentinelFailoverStateMachine env d s m =
      setFailoverState env (sentinelGetLeader env d s m (s.master m).failoverEpoch).1 m .selectSlave := by
    simp only [sentinelFailoverStateMachine, inProgress, waiting, sentinelFailoverWaitStart, leads, Bool.true_or, if_true]
  refine ⟨of_decide_eq_true leads, ?_⟩
  rw [moved]
  simp [setFailoverState, SentinelState.modify]

theorem Inv.elected_voters (inv : Inv d votes w) {n : S}
    (acts : Acts (w.sentinel n) s) (elected : electedNow env d s m = true) (current : s.currentEpoch = (s.master m).failoverEpoch) :
    ∃ voters : Finset S, d.sentinels.length / 2 + 1 ≤ voters.card ∧
      ∀ v ∈ voters, withShown votes n (sentinelFailoverStateMachine env d s m) v m (s.master m).failoverEpoch n := by
  have myid : s.myid = n := acts.myid.trans (inv.myid n)
  obtain ⟨leads, leader, epoch⟩ := electedNow_moved elected
  obtain ⟨voters, quorum, voted⟩ := getLeader_voters env d m leads
  refine ⟨voters, quorum, ?_⟩
  intro v inside
  rw [myid] at voted
  rcases voted v inside with ⟨rfl, own, same⟩ | ⟨other, same⟩
  · exact .inr ⟨rfl, leader.trans own, epoch.trans same⟩
  · obtain ⟨before, same'⟩ := acts.peers m v n other
    have known := inv.peers n m v n before
    rw [same', same, current] at known
    exact .inl known

theorem Inv.timer (inv : Inv d votes w) {n : S} (allowed : timely d w (.timer n m env) = true) :
    ∃ votes', Inv d votes' (sentinelHandleRedisInstance d w env n m) := by
  unfold sentinelHandleRedisInstance
  split
  · exact ⟨votes, inv⟩
  · let started := startedMaster d env (w.sentinel n) m
    let moved := sentinelFailoverStateMachine env d started m
    let after := sentinelAskMasterStateToOtherSentinels env moved m
    have begun : Acts (w.sentinel n) started := started_acts env d m
    have acts : Acts (w.sentinel n) after := (begun.trans (stateMachine_acts env d m)).trans (ask_acts env m)
    have own : ∀ k, (after.master k).leader = (moved.master k).leader ∧ (after.master k).leaderEpoch = (moved.master k).leaderEpoch := by
      intro k
      by_cases here : k = m <;> simp [after, sentinelAskMasterStateToOtherSentinels, SentinelState.modify, here]
    have asking : Inv d (withShown votes n after) (((askAtStart d w env n m).ask n (question moved m)
        (asked env d moved m false)).setSentinel n after) := by
      refine (inv.act n after acts).carry ?_ ?_ ?_
      all_goals
        unfold askAtStart
        dsimp only
        split
      all_goals first | rfl | exact fun _ _ _ inside => inside
    refine ⟨withShown votes n after, ?_⟩
    dsimp only
    split
    · next elected =>
      have current : started.currentEpoch = (started.master m).failoverEpoch := by
        simpa [timely, elected] using allowed
      obtain ⟨voters, quorum, voted⟩ := inv.elected_voters begun elected current
      refine asking.elect quorum ?_
      intro v inside
      rcases voted v inside with old | ⟨rfl, leader, epoch⟩
      · exact .inl old
      · exact .inr ⟨rfl, (own m).1.trans leader, (own m).2.trans epoch⟩
    · exact asking

theorem Inv.step (inv : Inv d votes w) {event : Event S M} (allowed : timely d w event = true) :
    ∃ votes', Inv d votes' (step d w event) := by
  cases event with
  | timer n m env => exact inv.timer allowed
  | request src dst env =>
    simp only [Sentinel.step]
    cases queued : w.requests src dst with
    | nil => exact ⟨votes, inv⟩
    | cons request rest =>
      have acted := inv.act dst (answer env d (w.sentinel dst) request).1 (answer_acts env _ request)
      have about : ∀ m, masterByAddr d (w.sentinel dst) request.addr = some m → m = request.about := by
        intro m found
        simpa [timely, queued, found] using allowed
      have replied := acted.reply dst src (answer env d (w.sentinel dst) request).2 fun m isdown a e reply =>
        .inr ⟨rfl, answer_vote about reply⟩
      exact ⟨_, replied.carry rfl rfl fun _ _ _ inside => inside⟩
  | reply src dst env =>
    simp only [Sentinel.step]
    cases queued : w.replies src dst with
    | nil => exact ⟨votes, inv⟩
    | cons reply rest =>
      have received := inv.receive env src dst reply (by simp [queued])
      refine ⟨votes, received.carry rfl rfl ?_⟩
      intro a b x inside
      rcases mem_enqueue inside with ⟨rfl, rfl, later⟩ | old
      · change x ∈ w.replies a b
        rw [queued]
        exact List.mem_cons_of_mem _ later
      · exact old
  | sendHello src dst m => exact ⟨votes, inv.carry rfl rfl fun _ _ _ inside => inside⟩
  | hello src dst =>
    simp only [Sentinel.step]
    cases w.hellos src dst with
    | nil => exact ⟨votes, inv⟩
    | cons hello rest => exact ⟨_, (inv.act dst _ (processHello_acts hello)).carry rfl rfl fun _ _ _ inside => inside⟩
  | failover n m env => exact ⟨_, inv.act n _ (failoverCommand_acts env m)⟩
  | promotion n m env => exact ⟨_, inv.act n _ (promotionSeen_acts env m)⟩
  | switchMaster n m =>
    simp only [Sentinel.step]
    split
    · exact ⟨_, inv.act n _ (resetMaster_acts m _)⟩
    · exact ⟨votes, inv⟩
  | disconnect a b =>
    refine ⟨votes, inv.carry rfl rfl ?_⟩
    intro c e x inside
    rcases mem_enqueue inside with ⟨rfl, rfl, none⟩ | old
    · cases none
    · exact old

theorem Inv.run (inv : Inv d votes w) {events : List (Event S M)} (allowed : allTimely d w events = true) :
    ∃ votes', Inv d votes' (run d w events) := by
  induction events generalizing votes w with
  | nil => exact ⟨votes, inv⟩
  | cons event rest ih =>
    simp only [allTimely, Bool.and_eq_true] at allowed
    obtain ⟨votes', next⟩ := inv.step allowed.1
    exact ih next allowed.2

theorem one_leader_per_failover_epoch (d : Deployment S M) (w : World S M) (initial : Initial w) (events : List (Event S M))
    (allowed : allTimely d w events = true) (a b : S) (m : M) (epoch : Nat) (first : (a, m, epoch) ∈ (run d w events).elected)
    (second : (b, m, epoch) ∈ (run d w events).elected) : a = b := by
  obtain ⟨votes, inv⟩ := (inv_initial (d := d) initial).run allowed
  exact inv.single_leader first second

theorem step_recast (event : Event S M) (n : S) (m : M) :
    Recast ((w.sentinel n).master m) (((step d w event).sentinel n).master m) := by
  have only : ∀ {k : S} {s : SentinelState S M}, (∀ m, Recast ((w.sentinel k).master m) (s.master m)) →
      Recast ((w.sentinel n).master m) ((update w.sentinel k s n).master m) := by
    intro k s recast
    by_cases here : n = k
    · rw [here, update_self]
      exact recast m
    · rw [update_of_ne here]
      exact .refl _
  cases event with
  | timer k m env =>
    simp only [step, sentinelHandleRedisInstance]
    split
    · exact .refl _
    · have asked : (askAtStart d w env k m).sentinel = w.sentinel := by
        unfold askAtStart
        dsimp only
        split <;> rfl
      simp only [World.setSentinel, World.ask, asked]
      exact only (((started_acts env d m).trans (stateMachine_acts env d m)).trans (ask_acts env m)).votes
  | request src dst env =>
    simp only [step]
    split
    · exact .refl _
    · exact only (answer_acts env _ _).votes
  | reply src dst env =>
    simp only [step]
    split
    · exact .refl _
    next reply _ _ =>
      refine only fun m => ?_
      obtain ⟨leader, epoch⟩ := receive_own env (w.sentinel dst) src reply m
      exact ⟨epoch.ge, fun a voted => .inl ⟨leader ▸ voted, epoch.symm⟩⟩
  | hello src dst =>
    simp only [step]
    split
    · exact .refl _
    · exact only (processHello_acts _).votes
  | failover k m env => exact only (failoverCommand_acts env m).votes
  | promotion k m env => exact only (promotionSeen_acts env m).votes
  | switchMaster k m =>
    simp only [step]
    split
    · exact only (resetMaster_acts m _).votes
    · exact .refl _
  | sendHello | disconnect => exact .refl _

/-- Also in runs that are not timely, a sentinel votes again only in a later epoch. -/
theorem one_vote_per_epoch (d : Deployment S M) (w : World S M) (events : List (Event S M)) (n : S) (m : M) :
    let before := (w.sentinel n).master m
    let after := ((run d w events).sentinel n).master m
    before.leaderEpoch ≤ after.leaderEpoch ∧
      (before.leaderEpoch = after.leaderEpoch → ∀ a, after.leader = some a → before.leader = some a) := by
  have recast : Recast ((w.sentinel n).master m) (((run d w events).sentinel n).master m) := by
    induction events generalizing w with
    | nil => exact .refl _
    | cons event rest ih => exact (step_recast event n m).trans (ih (step d w event))
  refine ⟨recast.epoch, fun same a voted => ?_⟩
  rcases recast.leader a voted with ⟨leader, _⟩ | later
  · exact leader
  · exact absurd same later.ne

end

local instance three_sentinels : NeZero 3 := ⟨by decide⟩

local instance two_masters : NeZero 2 := ⟨by decide⟩

def threeSentinels : Deployment (Fin 3) (Fin 2) := ⟨[0, 1, 2], [0, 1], by decide, by decide⟩

def freshPeer : Peer (Fin 3) := ⟨none, 0, false, 0⟩

def freshMaster (addr : Nat) : Master (Fin 3) where
  addr := addr
  quorum := 1
  failoverTimeout := 180000
  sDown := false
  oDown := false
  failoverInProgress := false
  forceFailover := false
  leader := none
  leaderEpoch := 0
  configEpoch := 0
  failoverEpoch := 0
  failoverState := .none
  failoverStartTime := 0
  failoverStateChangeTime := 0
  promotedSlave := none
  peers := fun _ => freshPeer

def freshWorld : World (Fin 3) (Fin 2) where
  sentinel := fun n => ⟨n, 0, fun m => freshMaster (m + 100)⟩
  requests := fun _ _ => []
  replies := fun _ _ => []
  hellos := fun _ _ => []
  elected := []

def down (now : Int) : Env (Fin 3) := ⟨now, 0, false, [], true, fun _ => false, none, false, false, false, false⟩

-- Sentinel 0 wins epoch 1 with the vote of 2.
def firstElection : List (Event (Fin 3) (Fin 2)) :=
  [.timer 0 0 (down 1000000), .timer 1 0 (down 1000000), .request 0 2 (down 1000010), .reply 2 0 (down 1000020),
   .timer 0 0 (down 1000100)]

-- Sentinel 1 also attempts a failover of the other master, which takes its epoch to 2, and then gets the
-- vote of 2 for epoch 2.
def secondElection : List (Event (Fin 3) (Fin 2)) :=
  [.timer 1 1 (down 1000200), .timer 1 0 (down 1000300)] ++
    (List.replicate 5 [.request 1 2 (down 1000400), .reply 2 1 (down 1000500)]).flatten ++ [.timer 1 0 (down 1000600)]

theorem first_election_unique : allTimely threeSentinels freshWorld firstElection = true ∧
    (0, 0, 1) ∈ (run threeSentinels freshWorld firstElection).elected ∧
    ∀ b, (b, 0, 1) ∈ (run threeSentinels freshWorld firstElection).elected → (0 : Fin 3) = b := by
  have initial : Initial freshWorld := ⟨fun _ => rfl, fun _ _ => rfl, fun _ _ _ => rfl, fun _ _ => rfl, rfl⟩
  have allowed : allTimely threeSentinels freshWorld firstElection = true := by decide +kernel
  have elected : ((0 : Fin 3), (0 : Fin 2), 1) ∈ (run threeSentinels freshWorld firstElection).elected := by decide +kernel
  exact ⟨allowed, elected, fun b => one_leader_per_failover_epoch threeSentinels freshWorld initial firstElection allowed 0 b 0 1 elected⟩

theorem two_leaders_in_one_epoch :
    (run threeSentinels freshWorld (firstElection ++ secondElection)).elected = [(1, 0, 1), (0, 0, 1)] := by
  decide +kernel

end RedisCore.Sentinel
