import RedisCore.Cluster.Packets

set_option autoImplicit false

namespace RedisCore.Election

open List Function

variable {N : Type} [DecidableEq N]
variable {s : NodeState N} {rest : List Msg} {n : N}

abbrev Vote (N : Type) := N × N × Nat

def ackEpoch : Msg → Option Nat
  | .authAck hdr => some hdr.currentEpoch
  | _ => none

-- votes holds (voter, candidate, epoch); counted c holds the voters whose acknowledgements the candidate
-- c has counted since its request went out.
structure Inv (cluster : Cluster N) (votes : Finset (Vote N)) (counted : N → Finset N) (w : World N) : Prop where
  voter : ∀ v c e, (v, c, e) ∈ votes →
    v ∈ cluster.masters ∧ e ≤ (w.nodes v).lastVoteEpoch ∧ e ≤ (w.nodes c).failoverAuthEpoch
  unique : ∀ v c₁ c₂ e, (v, c₁, e) ∈ votes → (v, c₂, e) ∈ votes → c₁ = c₂
  lastVote : ∀ n, (w.nodes n).lastVoteEpoch ≤ (w.nodes n).currentEpoch
  authEpoch : ∀ n, (w.nodes n).failoverAuthEpoch ≤ (w.nodes n).currentEpoch
  request : ∀ src dst hdr, Msg.authRequest hdr ∈ w.queue src dst → hdr.currentEpoch ≤ (w.nodes src).failoverAuthEpoch
  ack : ∀ v c e, e ∈ (w.queue v c).filterMap ackEpoch → (v, c, e) ∈ votes
  once : ∀ v c, ((w.queue v c).filterMap ackEpoch).Nodup
  idle : ∀ c, (w.nodes c).failoverAuthSent = false → (w.nodes c).failoverAuthCount = 0
  tally : ∀ c, (w.nodes c).failoverAuthSent = true → (w.nodes c).failoverAuthCount = (counted c).card ∧
    ∀ v ∈ counted c, (v, c, (w.nodes c).failoverAuthEpoch) ∈ votes ∧
      (w.nodes c).failoverAuthEpoch ∉ (w.queue v c).filterMap ackEpoch
  won : ∀ c e, (c, e) ∈ w.won → ∃ voters : Finset N, neededQuorum cluster ≤ voters.card ∧ ∀ v ∈ voters, (v, c, e) ∈ votes

section

variable (cluster : Cluster N) {votes : Finset (Vote N)} {counted : N → Finset N} {w : World N}

omit [DecidableEq N] in
theorem inv_initial (initial : Initial w) : Inv cluster ∅ (fun _ => ∅) w where
  voter := nofun
  unique := nofun
  lastVote := initial.votes
  authEpoch := initial.epoch
  request := fun src dst hdr inside => by simp [initial.queue] at inside
  ack := fun v c e inside => by simp [initial.queue] at inside
  once := fun v c => by simp [initial.queue]
  idle := fun c _ => initial.count c
  tally := fun c sent => by simp [initial.sent] at sent
  won := fun c e inside => by simp [initial.won] at inside

variable {cluster}

section

variable (inv : Inv cluster votes counted w)

include inv

-- Two quorums of the masters share a voter, and a voter grants an epoch once.
theorem Inv.single_winner {c₁ c₂ : N} {e : Nat} (first : (c₁, e) ∈ w.won)
    (second : (c₂, e) ∈ w.won) : c₁ = c₂ := by
  obtain ⟨voters₁, quorum₁, granted₁⟩ := inv.won c₁ e first
  obtain ⟨voters₂, quorum₂, granted₂⟩ := inv.won c₂ e second
  obtain ⟨v, inside⟩ := Finset.inter_nonempty_of_card_lt_card_add_card
    (fun v inside => (inv.voter v c₁ e (granted₁ v inside)).1)
    (fun v inside => (inv.voter v c₂ e (granted₂ v inside)).1)
    (by unfold neededQuorum at quorum₁ quorum₂; omega)
  rw [Finset.mem_inter] at inside
  exact inv.unique v c₁ c₂ e (granted₁ v inside.1) (granted₂ v inside.2)

theorem Inv.update (voters : Finset N)
    (epoch : (w.nodes n).currentEpoch ≤ s.currentEpoch) (vote : s.lastVoteEpoch = (w.nodes n).lastVoteEpoch)
    (auth : s.failoverAuthEpoch = (w.nodes n).failoverAuthEpoch) (idle : s.failoverAuthSent = false → s.failoverAuthCount = 0)
    (tally : s.failoverAuthSent = true → s.failoverAuthCount = voters.card ∧ ∀ v ∈ voters,
      (v, n, (w.nodes n).failoverAuthEpoch) ∈ votes ∧ (w.nodes n).failoverAuthEpoch ∉ (w.queue v n).filterMap ackEpoch) :
    Inv cluster votes (Function.update counted n voters) (w.setNode n s) := by
  have same_vote : ∀ m, ((w.setNode n s).nodes m).lastVoteEpoch = (w.nodes m).lastVoteEpoch := by
    intro m
    by_cases same : m = n <;> simp [World.setNode, same, vote]
  have same_auth : ∀ m, ((w.setNode n s).nodes m).failoverAuthEpoch = (w.nodes m).failoverAuthEpoch := by
    intro m
    by_cases same : m = n <;> simp [World.setNode, same, auth]
  have raised : ∀ m, (w.nodes m).currentEpoch ≤ ((w.setNode n s).nodes m).currentEpoch := by
    intro m
    by_cases same : m = n <;> simp [World.setNode, same, epoch]
  have at_n : (w.setNode n s).nodes n = s := by simp [World.setNode]
  have elsewhere : ∀ m, m ≠ n → (w.setNode n s).nodes m = w.nodes m := fun m other => by simp [World.setNode, other]
  refine ⟨?_, inv.unique, ?_, ?_, ?_, inv.ack, inv.once, ?_, ?_, inv.won⟩
  · intro v c e granted
    rw [same_vote, same_auth]
    exact inv.voter v c e granted
  · intro m
    rw [same_vote]
    exact le_trans (inv.lastVote m) (raised m)
  · intro m
    rw [same_auth]
    exact le_trans (inv.authEpoch m) (raised m)
  · intro src dst hdr inside
    rw [same_auth]
    exact inv.request src dst hdr inside
  · intro c unsent
    by_cases same : c = n
    · rw [same, at_n] at unsent ⊢
      exact idle unsent
    · rw [elsewhere c same] at unsent ⊢
      exact inv.idle c unsent
  · intro c sent
    rw [same_auth]
    by_cases same : c = n
    · subst same
      rw [at_n] at sent ⊢
      rw [update_self]
      exact tally sent
    · rw [elsewhere c same] at sent ⊢
      rw [update_of_ne same]
      exact inv.tally c sent

theorem Inv.touch (n : N) (s : NodeState N)
    (epoch : (w.nodes n).currentEpoch ≤ s.currentEpoch) (vote : s.lastVoteEpoch = (w.nodes n).lastVoteEpoch)
    (auth : s.failoverAuthEpoch = (w.nodes n).failoverAuthEpoch)
    (election : s.failoverAuthSent = false ∧ s.failoverAuthCount = 0 ∨
      s.failoverAuthSent = (w.nodes n).failoverAuthSent ∧ s.failoverAuthCount = (w.nodes n).failoverAuthCount) :
    Inv cluster votes counted (w.setNode n s) := by
  have result := inv.update (counted n) epoch vote auth
    (fun unsent => by
      rcases election with ⟨_, zero⟩ | ⟨sent, count⟩
      · exact zero
      · rw [count]
        exact inv.idle n (sent ▸ unsent))
    (fun out => by
      rcases election with ⟨unsent, _⟩ | ⟨sent, count⟩
      · rw [unsent] at out
        cases out
      · rw [count]
        exact inv.tally n (sent ▸ out))
  rwa [update_eq_self] at result

theorem Inv.lose (src dst : N) (msgs : List Msg) (sub : msgs.Sublist (w.queue src dst)) :
    Inv cluster votes counted (w.setQueue src dst msgs) := by
  have fewer : ∀ a b, ((w.setQueue src dst msgs).queue a b).Sublist (w.queue a b) := by
    intro a b
    by_cases first : a = src
    · subst first
      by_cases second : b = dst
      · subst second
        simpa [World.setQueue] using sub
      · simp [World.setQueue, second]
    · simp [World.setQueue, first]
  refine ⟨inv.voter, inv.unique, inv.lastVote, inv.authEpoch, ?_, ?_, ?_, inv.idle, ?_, inv.won⟩
  · exact fun a b hdr inside => inv.request a b hdr ((fewer a b).subset inside)
  · exact fun v c e inside => inv.ack v c e (((fewer v c).filterMap ackEpoch).subset inside)
  · exact fun v c => (inv.once v c).sublist ((fewer v c).filterMap ackEpoch)
  · intro c sent
    obtain ⟨count, all⟩ := inv.tally c sent
    exact ⟨count, fun v inside => ⟨(all v inside).1, fun again =>
      (all v inside).2 (((fewer v c).filterMap ackEpoch).subset again)⟩⟩

theorem Inv.other (src dst : N) (hdr : Header) :
    Inv cluster votes counted (w.send src dst (.other hdr)) := by
  have queue_eq : ∀ a b, (w.send src dst (.other hdr)).queue a b = w.queue a b ∨
      (w.send src dst (.other hdr)).queue a b = w.queue a b ++ [.other hdr] := by
    intro a b
    by_cases first : a = src
    · subst first
      by_cases second : b = dst
      · subst second
        exact .inr (by simp [World.send, World.setQueue])
      · exact .inl (by simp [World.send, World.setQueue, second])
    · exact .inl (by simp [World.send, World.setQueue, first])
  have acks : ∀ a b, ((w.send src dst (.other hdr)).queue a b).filterMap ackEpoch = (w.queue a b).filterMap ackEpoch := by
    intro a b
    rcases queue_eq a b with same | more
    · rw [same]
    · rw [more, filterMap_append]
      simp [ackEpoch]
  refine ⟨inv.voter, inv.unique, inv.lastVote, inv.authEpoch, ?_, ?_, ?_, inv.idle, ?_, inv.won⟩
  · intro a b request inside
    rcases queue_eq a b with same | more
    · exact inv.request a b request (same ▸ inside)
    · rw [more] at inside
      exact inv.request a b request (by simpa using inside)
  · intro v c e inside
    rw [acks] at inside
    exact inv.ack v c e inside
  · intro v c
    rw [acks]
    exact inv.once v c
  · intro c sent
    obtain ⟨count, all⟩ := inv.tally c sent
    refine ⟨count, fun v inside => ⟨(all v inside).1, ?_⟩⟩
    rw [acks]
    exact (all v inside).2

theorem Inv.start (linkUp : N → Bool) (hdr : Header)
    (unsent : (w.nodes n).failoverAuthSent = false) (epoch : s.currentEpoch = (w.nodes n).currentEpoch + 1)
    (vote : s.lastVoteEpoch = (w.nodes n).lastVoteEpoch) (auth : s.failoverAuthEpoch = s.currentEpoch)
    (sent : s.failoverAuthSent = true) (count : s.failoverAuthCount = (w.nodes n).failoverAuthCount)
    (carried : hdr.currentEpoch = s.currentEpoch) :
    Inv cluster votes (Function.update counted n ∅) ((w.setNode n s).broadcast n linkUp (.authRequest hdr)) := by
  have below := inv.authEpoch n
  have at_n : ((w.setNode n s).broadcast n linkUp (.authRequest hdr)).nodes n = s := by simp [World.broadcast, World.setNode]
  have elsewhere : ∀ m, m ≠ n → ((w.setNode n s).broadcast n linkUp (.authRequest hdr)).nodes m = w.nodes m := by
    intro m other
    simp [World.broadcast, World.setNode, other]
  have auth_le : ∀ m, (w.nodes m).failoverAuthEpoch ≤
      (((w.setNode n s).broadcast n linkUp (.authRequest hdr)).nodes m).failoverAuthEpoch := by
    intro m
    by_cases same : m = n
    · rw [same, at_n, auth, epoch]
      omega
    · rw [elsewhere m same]
  have acks : ∀ a b, (((w.setNode n s).broadcast n linkUp (.authRequest hdr)).queue a b).filterMap ackEpoch =
      (w.queue a b).filterMap ackEpoch := by
    intro a b
    change (if _ then w.queue a b ++ [Msg.authRequest hdr] else w.queue a b).filterMap ackEpoch = _
    split <;> simp [ackEpoch]
  refine ⟨?_, inv.unique, ?_, ?_, ?_, ?_, ?_, ?_, ?_, inv.won⟩
  · intro v c e granted
    obtain ⟨member, voted, asked⟩ := inv.voter v c e granted
    refine ⟨member, ?_, le_trans asked (auth_le c)⟩
    by_cases same : v = n
    · rw [same, at_n, vote, ← same]
      exact voted
    · rw [elsewhere v same]
      exact voted
  · intro m
    by_cases same : m = n
    · rw [same, at_n, vote, epoch]
      exact le_trans (inv.lastVote n) (Nat.le_succ _)
    · rw [elsewhere m same]
      exact inv.lastVote m
  · intro m
    by_cases same : m = n
    · rw [same, at_n, auth]
    · rw [elsewhere m same]
      exact inv.authEpoch m
  · intro src dst request inside
    change _ ∈ (if _ then w.queue src dst ++ [Msg.authRequest hdr] else w.queue src dst) at inside
    split at inside
    next here =>
      rcases mem_append.mp inside with old | new
      · exact le_trans (inv.request src dst request old) (auth_le src)
      · obtain rfl := Msg.authRequest.inj (mem_singleton.mp new)
        rw [here.1, at_n, carried, auth]
    next => exact le_trans (inv.request src dst request inside) (auth_le src)
  · intro v c e inside
    rw [acks] at inside
    exact inv.ack v c e inside
  · intro v c
    rw [acks]
    exact inv.once v c
  · intro c idle
    by_cases same : c = n
    · rw [same, at_n, sent] at idle
      cases idle
    · rw [elsewhere c same] at idle ⊢
      exact inv.idle c idle
  · intro c out
    by_cases same : c = n
    · subst same
      rw [at_n, count, inv.idle c unsent]
      simp
    · rw [elsewhere c same] at out ⊢
      rw [update_of_ne same]
      obtain ⟨total, all⟩ := inv.tally c out
      refine ⟨total, fun v inside => ⟨(all v inside).1, ?_⟩⟩
      rw [acks]
      exact (all v inside).2

end

omit [DecidableEq N] in
theorem Inv.win (inv : Inv cluster votes counted w) (n : N) (sent : (w.nodes n).failoverAuthSent = true)
    (quorum : neededQuorum cluster ≤ (w.nodes n).failoverAuthCount) :
    Inv cluster votes counted { w with won := (n, (w.nodes n).failoverAuthEpoch) :: w.won } := by
  refine ⟨inv.voter, inv.unique, inv.lastVote, inv.authEpoch, inv.request, inv.ack, inv.once, inv.idle, inv.tally, ?_⟩
  intro c e inside
  rcases mem_cons.mp inside with same | old
  · cases same
    obtain ⟨total, all⟩ := inv.tally n sent
    exact ⟨counted n, total ▸ quorum, fun v inside => (all v inside).1⟩
  · exact inv.won c e old

section

variable (inv : Inv cluster votes counted w) {v c : N}

include inv

theorem Inv.grant (s : NodeState N) (member : v ∈ cluster.masters)
    (first : (w.nodes v).lastVoteEpoch < (w.nodes v).currentEpoch)
    (asked : (w.nodes v).currentEpoch ≤ (w.nodes c).failoverAuthEpoch) (epoch : s.currentEpoch = (w.nodes v).currentEpoch)
    (vote : s.lastVoteEpoch = (w.nodes v).currentEpoch) (auth : s.failoverAuthEpoch = (w.nodes v).failoverAuthEpoch)
    (sent : s.failoverAuthSent = (w.nodes v).failoverAuthSent) (count : s.failoverAuthCount = (w.nodes v).failoverAuthCount) :
    Inv cluster (insert (v, c, (w.nodes v).currentEpoch) votes) counted (w.setNode v s) := by
  have same_auth : ∀ m, ((w.setNode v s).nodes m).failoverAuthEpoch = (w.nodes m).failoverAuthEpoch := by
    intro m
    by_cases same : m = v <;> simp [World.setNode, same, auth]
  have same_epoch : ∀ m, ((w.setNode v s).nodes m).currentEpoch = (w.nodes m).currentEpoch := by
    intro m
    by_cases same : m = v <;> simp [World.setNode, same, epoch]
  have same_sent : ∀ m, ((w.setNode v s).nodes m).failoverAuthSent = (w.nodes m).failoverAuthSent := by
    intro m
    by_cases same : m = v <;> simp [World.setNode, same, sent]
  have same_count : ∀ m, ((w.setNode v s).nodes m).failoverAuthCount = (w.nodes m).failoverAuthCount := by
    intro m
    by_cases same : m = v <;> simp [World.setNode, same, count]
  have voted_le : ∀ m, (w.nodes m).lastVoteEpoch ≤ ((w.setNode v s).nodes m).lastVoteEpoch := by
    intro m
    by_cases same : m = v
    · subst same
      simp only [World.setNode, update_self, vote]
      exact first.le
    · simp [World.setNode, same]
  have at_v : ((w.setNode v s).nodes v).lastVoteEpoch = (w.nodes v).currentEpoch := by simp [World.setNode, vote]
  have fresh : ∀ c', (v, c', (w.nodes v).currentEpoch) ∉ votes := fun c' old =>
    absurd (inv.voter v c' _ old).2.1 (not_le.mpr first)
  refine ⟨?_, ?_, ?_, ?_, ?_, ?_, inv.once, ?_, ?_, ?_⟩
  · intro v' c' e granted
    rcases Finset.mem_insert.mp granted with new | old
    · cases new
      exact ⟨member, at_v.ge, by rw [same_auth]; exact asked⟩
    · obtain ⟨old_member, voted, before⟩ := inv.voter v' c' e old
      exact ⟨old_member, le_trans voted (voted_le v'), by rw [same_auth]; exact before⟩
  · intro v' c₁ c₂ e granted₁ granted₂
    rcases Finset.mem_insert.mp granted₁ with new₁ | old₁ <;> rcases Finset.mem_insert.mp granted₂ with new₂ | old₂
    · cases new₁
      cases new₂
      rfl
    · cases new₁
      exact absurd old₂ (fresh c₂)
    · cases new₂
      exact absurd old₁ (fresh c₁)
    · exact inv.unique v' c₁ c₂ e old₁ old₂
  · intro m
    rw [same_epoch]
    by_cases same : m = v
    · rw [same, at_v]
    · simpa [World.setNode, same] using inv.lastVote m
  · intro m
    rw [same_auth, same_epoch]
    exact inv.authEpoch m
  · intro src dst hdr inside
    rw [same_auth]
    exact inv.request src dst hdr inside
  · exact fun v' c' e inside => Finset.mem_insert_of_mem (inv.ack v' c' e inside)
  · intro c'
    rw [same_sent, same_count]
    exact inv.idle c'
  · intro c'
    rw [same_sent, same_count, same_auth]
    intro out
    obtain ⟨total, all⟩ := inv.tally c' out
    exact ⟨total, fun v' inside => ⟨Finset.mem_insert_of_mem (all v' inside).1, (all v' inside).2⟩⟩
  · intro c' e inside
    obtain ⟨voters, quorum, all⟩ := inv.won c' e inside
    exact ⟨voters, quorum, fun v' member => Finset.mem_insert_of_mem (all v' member)⟩

theorem Inv.sendAck {hdr : Header} (granted : (v, c, hdr.currentEpoch) ∈ votes)
    (unsent : hdr.currentEpoch ∉ (w.queue v c).filterMap ackEpoch)
    (uncounted : (w.nodes c).failoverAuthSent = true → (w.nodes c).failoverAuthEpoch = hdr.currentEpoch → v ∉ counted c) :
    Inv cluster votes counted (w.send v c (.authAck hdr)) := by
  have queue_eq : ∀ a b, (w.send v c (.authAck hdr)).queue a b =
      if a = v ∧ b = c then w.queue a b ++ [.authAck hdr] else w.queue a b := by
    intro a b
    by_cases first : a = v
    · subst first
      by_cases second : b = c <;> simp [World.send, World.setQueue, second]
    · simp [World.send, World.setQueue, first]
  refine ⟨inv.voter, inv.unique, inv.lastVote, inv.authEpoch, ?_, ?_, ?_, inv.idle, ?_, inv.won⟩
  · intro src dst request inside
    rw [queue_eq] at inside
    split at inside
    · exact inv.request src dst request (by simpa using inside)
    · exact inv.request src dst request inside
  · intro a b e inside
    rw [queue_eq] at inside
    split at inside
    next here =>
      obtain ⟨rfl, rfl⟩ := here
      rw [filterMap_append, mem_append] at inside
      rcases inside with old | new
      · exact inv.ack a b e old
      · obtain rfl : e = hdr.currentEpoch := by simpa [ackEpoch] using new
        exact granted
    next => exact inv.ack a b e inside
  · intro a b
    rw [queue_eq]
    split
    next here =>
      obtain ⟨rfl, rfl⟩ := here
      rw [filterMap_append, nodup_append]
      refine ⟨inv.once a b, by simp [ackEpoch], ?_⟩
      intro e old e' new same
      obtain rfl : e' = hdr.currentEpoch := by simpa [ackEpoch] using new
      exact unsent (same ▸ old)
    next => exact inv.once a b
  · intro c' out
    obtain ⟨total, all⟩ := inv.tally c' out
    refine ⟨total, fun v' inside => ⟨(all v' inside).1, ?_⟩⟩
    rw [queue_eq]
    split
    next here =>
      obtain ⟨rfl, rfl⟩ := here
      rw [filterMap_append, mem_append]
      rintro (old | new)
      · exact (all v' inside).2 old
      · have same : ((w.send v' c' (.authAck hdr)).nodes c').failoverAuthEpoch = hdr.currentEpoch := by
          simpa [ackEpoch] using new
        exact uncounted out same inside
    next => exact (all v' inside).2

theorem Inv.count {hdr : Header}
    (at_head : w.queue v c = .authAck hdr :: rest) (sent : (w.nodes c).failoverAuthSent = true)
    (recent : (w.nodes c).failoverAuthEpoch ≤ hdr.currentEpoch) (epoch : s.currentEpoch = (w.nodes c).currentEpoch)
    (vote : s.lastVoteEpoch = (w.nodes c).lastVoteEpoch) (auth : s.failoverAuthEpoch = (w.nodes c).failoverAuthEpoch)
    (same_sent : s.failoverAuthSent = (w.nodes c).failoverAuthSent)
    (count : s.failoverAuthCount = (w.nodes c).failoverAuthCount + 1) :
    Inv cluster votes (Function.update counted c (insert v (counted c))) ((w.setQueue v c rest).setNode c s) := by
  have first : (w.queue v c).filterMap ackEpoch = hdr.currentEpoch :: rest.filterMap ackEpoch := by
    rw [at_head]
    rfl
  have granted := inv.ack v c hdr.currentEpoch (by rw [first]; exact mem_cons_self)
  have same : (w.nodes c).failoverAuthEpoch = hdr.currentEpoch := le_antisymm recent (inv.voter v c _ granted).2.2
  obtain ⟨total, all⟩ := inv.tally c sent
  have uncounted : v ∉ counted c := fun inside => (all v inside).2 (by rw [first, same]; exact mem_cons_self)
  have once := inv.once v c
  rw [first, nodup_cons] at once
  have popped := inv.lose v c rest (by rw [at_head]; exact sublist_cons_self _ rest)
  refine popped.update (insert v (counted c)) epoch.ge vote auth ?_ ?_
  · intro unsent
    rw [same_sent, sent] at unsent
    cases unsent
  · intro _
    refine ⟨by rw [count, total, Finset.card_insert_of_notMem uncounted], fun v' inside => ?_⟩
    change (v', c, (w.nodes c).failoverAuthEpoch) ∈ votes ∧
      (w.nodes c).failoverAuthEpoch ∉ ((w.setQueue v c rest).queue v' c).filterMap ackEpoch
    rcases Finset.mem_insert.mp inside with rfl | old
    · rw [same]
      exact ⟨granted, by simpa [World.setQueue] using once.1⟩
    · have other : v' ≠ v := fun equal => uncounted (equal ▸ old)
      exact ⟨(all v' old).1, by simpa [World.setQueue, other] using (all v' old).2⟩

end

end

section

variable (cluster : Cluster N) (votes : Finset (Vote N)) (counted : N → Finset N) (w : World N)

omit [DecidableEq N] in
theorem updateRank_fields (input : FailoverInput) (s : NodeState N) :
    (updateRank input s).currentEpoch = s.currentEpoch ∧ (updateRank input s).lastVoteEpoch = s.lastVoteEpoch ∧
      (updateRank input s).failoverAuthEpoch = s.failoverAuthEpoch ∧ (updateRank input s).failoverAuthSent = s.failoverAuthSent ∧
      (updateRank input s).failoverAuthCount = s.failoverAuthCount := by
  unfold updateRank
  split <;> simp

theorem epochSucc_of_lt {epoch : Nat} (room : epoch + 1 < 2 ^ 64) : epochSucc epoch = epoch + 1 := by
  rw [epochSucc, if_pos room]

omit [DecidableEq N] in
theorem clusterHandleSlaveFailover_cases (input : FailoverInput) (s : NodeState N) :
    clusterHandleSlaveFailover cluster input s = (s, .nothing) ∨
    clusterHandleSlaveFailover cluster input s = (scheduleElection input s, .nothing) ∨
    clusterHandleSlaveFailover cluster input s = (updateRank input s, .nothing) ∨
    startsElection cluster input s = true ∧ s.failoverAuthSent = false ∧
      clusterHandleSlaveFailover cluster input s = (startElection (updateRank input s), .request) ∨
    s.failoverAuthSent = true ∧ neededQuorum cluster ≤ s.failoverAuthCount ∧
      clusterHandleSlaveFailover cluster input s = (replaceMaster (updateRank input s), .won) := by
  obtain ⟨_, _, _, sent, count⟩ := updateRank_fields input s
  unfold clusterHandleSlaveFailover
  dsimp only
  split_ifs with no_reason too_old retry waiting expired unsent quorum
  · exact .inl rfl
  · exact .inl rfl
  · exact .inr (.inl rfl)
  · exact .inr (.inr (.inl rfl))
  · exact .inr (.inr (.inl rfl))
  · have idle := sent ▸ unsent
    refine .inr (.inr (.inr (.inl ⟨?_, idle, rfl⟩)))
    simp [startsElection, no_reason, too_old, idle, not_lt.mp waiting, not_lt.mp expired]
  · exact .inr (.inr (.inr (.inr ⟨by simpa [sent] using unsent, count ▸ quorum, rfl⟩)))
  · exact .inr (.inr (.inl rfl))

theorem Inv.failover (inv : Inv cluster votes counted w) (input : FailoverInput) (linkUp : N → Bool)
    (room : startsElection cluster input (w.nodes n) = true → (w.nodes n).currentEpoch + 1 < 2 ^ 64) :
    ∃ counted', Inv cluster votes counted' (handleFailover cluster w n input linkUp) := by
  obtain ⟨epoch, vote, auth, sent, count⟩ := updateRank_fields input (w.nodes n)
  unfold handleFailover
  rcases clusterHandleSlaveFailover_cases cluster input (w.nodes n) with
    called | called | called | ⟨starts, unsent, called⟩ | ⟨out, quorum, called⟩
  all_goals rw [called]
  · exact ⟨counted, inv.touch n _ le_rfl rfl rfl (.inr ⟨rfl, rfl⟩)⟩
  · exact ⟨counted, inv.touch n _ le_rfl rfl rfl (.inl ⟨rfl, rfl⟩)⟩
  · exact ⟨counted, inv.touch n _ epoch.ge vote auth (.inr ⟨sent, count⟩)⟩
  · refine ⟨_, inv.start linkUp _ unsent ?_ vote rfl rfl count rfl⟩
    change epochSucc (updateRank input (w.nodes n)).currentEpoch = _
    rw [epoch, epochSucc_of_lt (room starts)]
  · have replaced := inv.touch n (replaceMaster (updateRank input (w.nodes n))) epoch.ge vote auth
      (.inr ⟨sent, count⟩)
    have at_n : (w.setNode n (replaceMaster (updateRank input (w.nodes n)))).nodes n =
        replaceMaster (updateRank input (w.nodes n)) := by simp [World.setNode]
    have winner := replaced.win n (by rw [at_n]; exact sent.trans out)
      (by rw [at_n]; exact le_of_le_of_eq quorum count.symm)
    rw [at_n] at winner
    exact ⟨counted, winner⟩

omit [DecidableEq N] in
theorem raiseEpoch_fields (s : NodeState N) (epoch : Nat) :
    s.currentEpoch ≤ (raiseEpoch s epoch).currentEpoch ∧
      (raiseEpoch s epoch).lastVoteEpoch = s.lastVoteEpoch ∧ (raiseEpoch s epoch).failoverAuthEpoch = s.failoverAuthEpoch ∧
      (raiseEpoch s epoch).failoverAuthSent = s.failoverAuthSent ∧
      (raiseEpoch s epoch).failoverAuthCount = s.failoverAuthCount := by
  unfold raiseEpoch
  split
  · simp
    omega
  · simp

theorem clusterSendFailoverAuthIfNeeded_cases (voter : N) (input : PacketInput N) (request : Header) (s : NodeState N) :
    clusterSendFailoverAuthIfNeeded cluster voter input request s = (s, false) ∨
    voter ∈ cluster.masters ∧ s.currentEpoch ≤ request.currentEpoch ∧ s.lastVoteEpoch ≠ s.currentEpoch ∧ ∃ votedTime,
      clusterSendFailoverAuthIfNeeded cluster voter input request s =
        ({ s with lastVoteEpoch := s.currentEpoch, votedTime := votedTime }, true) := by
  unfold clusterSendFailoverAuthIfNeeded
  cases input.senderMaster with
  | none =>
    refine .inl ?_
    split_ifs <;> rfl
  | some master =>
    dsimp only
    split_ifs with member old voted unforced recent stale
    · exact .inl rfl
    · exact .inl rfl
    · exact .inl rfl
    · exact .inl rfl
    · exact .inl rfl
    · exact .inr ⟨member, not_lt.mp old, voted, _, rfl⟩
    · exact .inl rfl

variable {cluster}

section

variable (inv : Inv cluster votes counted w)

include inv

theorem Inv.reply (src dst : N) (input : PacketInput N) {request : Header}
    (asked : request.currentEpoch ≤ (w.nodes src).failoverAuthEpoch) :
    ∃ votes', Inv cluster votes' counted (replyToRequest w cluster src dst input request) := by
  unfold replyToRequest
  rcases clusterSendFailoverAuthIfNeeded_cases cluster dst input request (w.nodes dst) with
    refused | ⟨member, recent, unvoted, votedTime, granted⟩
  · rw [refused]
    exact ⟨votes, inv.touch dst _ le_rfl rfl rfl (.inr ⟨rfl, rfl⟩)⟩
  · rw [granted]
    have first : (w.nodes dst).lastVoteEpoch < (w.nodes dst).currentEpoch := lt_of_le_of_ne (inv.lastVote dst) unvoted
    have voted := inv.grant
      { w.nodes dst with lastVoteEpoch := (w.nodes dst).currentEpoch, votedTime := votedTime } member first
      (le_trans recent asked) rfl rfl rfl rfl rfl
    refine ⟨insert (dst, src, (w.nodes dst).currentEpoch) votes, ?_⟩
    cases input.linkUp with
    | false => exact voted
    | true =>
      refine voted.sendAck (Finset.mem_insert_self _ _) ?_ ?_
      · intro old
        exact absurd (inv.voter dst src _ (inv.ack dst src _ old)).2.1 (not_le.mpr first)
      · intro sent same inside
        have unmoved : ∀ m, ((w.setNode dst { w.nodes dst with
            lastVoteEpoch := (w.nodes dst).currentEpoch, votedTime := votedTime }).nodes m).failoverAuthSent =
              (w.nodes m).failoverAuthSent ∧ ((w.setNode dst { w.nodes dst with
            lastVoteEpoch := (w.nodes dst).currentEpoch, votedTime := votedTime }).nodes m).failoverAuthEpoch =
              (w.nodes m).failoverAuthEpoch := by
          intro m
          by_cases equal : m = dst <;> simp [World.setNode, equal]
        rw [(unmoved src).1] at sent
        rw [(unmoved src).2] at same
        have counted_vote := ((inv.tally src sent).2 dst inside).1
        rw [same] at counted_vote
        exact absurd (inv.voter dst src _ counted_vote).2.1 (not_le.mpr first)

theorem Inv.deliver {src dst : N} (input : PacketInput N) {msg : Msg}
    (at_head : w.queue src dst = msg :: rest) (on_time : earlyAck cluster w src dst = false) :
    ∃ votes' counted', Inv cluster votes' counted' (clusterProcessPacket (w.setQueue src dst rest) cluster src dst input msg) := by
  obtain ⟨raised, vote, auth, sent, count⟩ := raiseEpoch_fields (w.nodes dst) msg.hdr.currentEpoch
  have known := inv.touch dst _ raised vote auth (.inr ⟨sent, count⟩)
  have popped := known.lose src dst rest
    (by change rest.Sublist (w.queue src dst); rw [at_head]; exact sublist_cons_self msg rest)
  cases msg with
  | other hdr => exact ⟨votes, counted, popped⟩
  | authRequest hdr =>
    obtain ⟨votes', result⟩ := popped.reply votes counted _ src dst input
      (known.request src dst hdr (by change _ ∈ w.queue src dst; rw [at_head]; exact mem_cons_self))
    exact ⟨votes', counted, result⟩
  | authAck hdr =>
    unfold clusterProcessPacket countAck
    dsimp only
    split
    next counts =>
      have at_dst : (w.setNode dst (raiseEpoch (w.nodes dst) (Msg.authAck hdr).hdr.currentEpoch)).nodes dst =
          raiseEpoch (w.nodes dst) (Msg.authAck hdr).hdr.currentEpoch := by simp [World.setNode]
      have out : (w.nodes dst).failoverAuthSent = true := by
        have recent : (w.nodes dst).failoverAuthEpoch ≤ hdr.currentEpoch := by
          have := counts.2
          simp only [World.setNode, World.setQueue, update_self] at this
          rw [← auth]
          exact this
        simpa [earlyAck, at_head, counts.1, recent] using on_time
      refine ⟨votes, _, known.count at_head ?_ counts.2 rfl rfl rfl rfl rfl⟩
      rw [at_dst]
      exact sent.trans out
    next => exact ⟨votes, counted, popped⟩

theorem Inv.step {event : Event N} (on_time : timely cluster w event = true) :
    ∃ votes' counted', Inv cluster votes' counted' (Election.step cluster w event) := by
  cases event with
  | failover n input linkUp =>
    have room : startsElection cluster input (w.nodes n) = true → (w.nodes n).currentEpoch + 1 < 2 ^ 64 := by
      intro starts
      simpa [timely, starts] using on_time
    obtain ⟨counted', result⟩ := inv.failover cluster votes counted w input linkUp room
    exact ⟨votes, counted', result⟩
  | deliver src dst input =>
    have early : earlyAck cluster w src dst = false := by simpa [timely] using on_time
    cases queue : w.queue src dst with
    | nil => exact ⟨votes, counted, by rw [Election.step, queue]; exact inv⟩
    | cons msg rest =>
      rw [Election.step, queue]
      exact inv.deliver votes counted w input queue early
  | gossip src dst => exact ⟨votes, counted, inv.other src dst _⟩
  | newEpoch n =>
    refine ⟨votes, counted, inv.touch n _ ?_ rfl rfl (.inr ⟨rfl, rfl⟩)⟩
    rw [epochSucc_of_lt (of_decide_eq_true on_time)]
    exact Nat.le_succ _
  | disconnect src dst => exact ⟨votes, counted, inv.lose src dst [] (nil_sublist _)⟩

theorem Inv.run (events : List (Event N)) (on_time : allTimely cluster w events = true) :
    ∃ votes' counted', Inv cluster votes' counted' (Election.run cluster w events) := by
  induction events generalizing votes counted w with
  | nil => exact ⟨votes, counted, inv⟩
  | cons event events ih =>
    rw [allTimely, Bool.and_eq_true] at on_time
    obtain ⟨votes₁, counted₁, inv₁⟩ := inv.step votes counted w on_time.1
    exact ih votes₁ counted₁ _ inv₁ on_time.2

end

end

section

open RedisCore.Cluster

variable (env : Env) (s : ClusterState) (sender : Addr) (request : Cluster.Header)

-- What elections use of the whole state of a node, and what its vote reads of the sender and the slots.
def electionState : NodeState Addr where
  currentEpoch := s.currentEpoch
  lastVoteEpoch := s.lastVoteEpoch
  configEpoch := (s.node s.myself).configEpoch
  slaveof := (s.node s.myself).slaveof
  failoverAuthTime := s.failoverAuthTime
  failoverAuthCount := s.failoverAuthCount
  failoverAuthSent := s.failoverAuthSent
  failoverAuthRank := s.failoverAuthRank
  failoverAuthEpoch := s.failoverAuthEpoch
  votedTime := fun a => (s.node a).votedTime

def packetInput : PacketInput Addr where
  now := env.now
  senderMaster := if (s.node sender).isMaster then none else (s.node sender).slaveof
  masterFailed := (s.node sender).slaveof.any fun master => (s.node master).fail
  slotEpoch := fun slot =>
    if inside : slot < 16384 then (s.slots.lookup ⟨slot, inside⟩).map fun owner => (s.node owner).configEpoch else none
  linkUp := env.linkUp

def requestHeader : Header := ⟨request.currentEpoch, request.configEpoch, request.myslots.items.map Fin.val, request.forceAck⟩

theorem slotEpochOk_election : (requestHeader request).myslots.all (slotEpochOk (packetInput env s sender) (requestHeader request)) =
    request.myslots.items.all (Cluster.slotEpochOk s request.configEpoch) := by
  rw [requestHeader, all_map]
  refine congrArg (request.myslots.items.all ·) (funext fun slot => ?_)
  simp only [Function.comp, slotEpochOk, packetInput, dif_pos slot.isLt, Cluster.slotEpochOk]
  cases s.slots.lookup slot <;> rfl

def withVote (s : NodeState Addr) (master : Addr) (now : Int) : NodeState Addr :=
  { s with lastVoteEpoch := s.currentEpoch, votedTime := Function.update s.votedTime master now }

theorem grantVote_election (master : Addr) :
    electionState (grantVote env s master) = withVote (electionState s) master env.now ∧
      (grantVote env s master).sent = s.sent ++
        if env.linkUp then [⟨clusterBuildMessageHdr env (grantVote env s master), .authAck⟩] else [] := by
  have same : ∀ a, (if a = master then { s.node master with votedTime := env.now } else s.node a) =
      { s.node a with votedTime := if a = master then env.now else (s.node a).votedTime } := by
    intro a
    split_ifs with here
    · rw [here]
    · rfl
  unfold grantVote clusterSendFailoverAuth
  refine ⟨?_, ?_⟩
  · have times : (fun a => if a = master then env.now else (s.node a).votedTime) =
        update (fun a => (s.node a).votedTime) master env.now := by
      funext a
      rw [update_apply]
    split <;> simp only [clusterSendMessage, ClusterState.modify, electionState, withVote, update_apply, same, times]
  · split
    · simp only [clusterSendMessage]
      rfl
    · simp [ClusterState.modify]

variable {cluster : Cluster Addr} (timeout : cluster.nodeTimeout = env.nodeTimeout)
  (member : s.myself ∉ cluster.masters ↔ ((s.node s.myself).isSlave || (s.node s.myself).numslots = 0) = true)

include timeout member

theorem clusterSendFailoverAuthIfNeeded_agree :
    Cluster.clusterSendFailoverAuthIfNeeded env s sender request = s ∧
        clusterSendFailoverAuthIfNeeded cluster s.myself (packetInput env s sender) (requestHeader request) (electionState s) =
          (electionState s, false) ∨
      ∃ master, Cluster.clusterSendFailoverAuthIfNeeded env s sender request = grantVote env s master ∧
        clusterSendFailoverAuthIfNeeded cluster s.myself (packetInput env s sender) (requestHeader request) (electionState s) =
          (withVote (electionState s) master env.now, true) := by
  simp only [Cluster.clusterSendFailoverAuthIfNeeded, clusterSendFailoverAuthIfNeeded, member, slotEpochOk_election]
  simp only [packetInput, requestHeader, timeout]
  cases promoted : (s.node sender).isMaster with
  | true =>
    refine .inl ?_
    simp only [if_true]
    split_ifs <;> exact ⟨rfl, rfl⟩
  | false =>
    cases (s.node sender).slaveof with
    | none =>
      refine .inl ?_
      simp only [Bool.false_eq_true, if_false]
      split_ifs <;> exact ⟨rfl, rfl⟩
    | some master =>
      have epoch : (electionState s).currentEpoch = s.currentEpoch := rfl
      have last : (electionState s).lastVoteEpoch = s.lastVoteEpoch := rfl
      have time : (electionState s).votedTime master = (s.node master).votedTime := rfl
      simp only [Bool.false_eq_true, if_false, Option.any_some, epoch, last, time, Bool.not_eq_true']
      split_ifs with slave old voted unforced recent allowed refused
      · exact .inl ⟨rfl, rfl⟩
      · exact .inl ⟨rfl, rfl⟩
      · exact .inl ⟨rfl, rfl⟩
      · exact .inl ⟨rfl, rfl⟩
      · exact .inl ⟨rfl, rfl⟩
      · exact absurd (refused.symm.trans allowed) Bool.false_ne_true
      · exact .inr ⟨master, rfl, rfl⟩
      · exact .inl ⟨rfl, rfl⟩
      · next granted => exact absurd (Bool.eq_false_iff.mpr allowed) granted

/-- The vote of the whole node is the one of the election. -/
theorem clusterSendFailoverAuthIfNeeded_election :
    let voted := clusterSendFailoverAuthIfNeeded cluster s.myself (packetInput env s sender) (requestHeader request) (electionState s)
    let after := Cluster.clusterSendFailoverAuthIfNeeded env s sender request
    electionState after = voted.1 ∧
      after.sent = s.sent ++ if voted.2 && env.linkUp then [⟨clusterBuildMessageHdr env after, .authAck⟩] else [] := by
  obtain ⟨unmoved, refused⟩ | ⟨master, granted, voted⟩ :=
    clusterSendFailoverAuthIfNeeded_agree env s sender request timeout member
  · simp only [unmoved, refused, Bool.false_and, Bool.false_eq_true, if_false, append_nil, and_self]
  · simp only [granted, voted, Bool.true_and]
    exact grantVote_election env s master

end

theorem failover_election_single_winner (cluster : Cluster N) (w : World N) (initial : Initial w) (events : List (Event N))
    (on_time : allTimely cluster w events = true) (c₁ c₂ : N) (epoch : Nat)
    (first : (c₁, epoch) ∈ (run cluster w events).won) (second : (c₂, epoch) ∈ (run cluster w events).won) : c₁ = c₂ := by
  obtain ⟨votes, counted, inv⟩ := (inv_initial cluster initial).run ∅ (fun _ => ∅) w events on_time
  exact inv.single_winner first second

-- Masters 0, 1 and 2, and two replicas of master 0, which failed.
def sampleCluster : Cluster (Fin 5) :=
  { masters := {0, 1, 2}, nodeTimeout := 1000, slaveValidityFactor := 0, replPingSlavePeriod := 10 }

def sampleNode (slaveof : Option (Fin 5)) : NodeState (Fin 5) :=
  { currentEpoch := 0, lastVoteEpoch := 0, configEpoch := 0, slaveof := slaveof, failoverAuthTime := 0, failoverAuthCount := 0,
    failoverAuthSent := false, failoverAuthRank := 0, failoverAuthEpoch := 0, votedTime := fun _ => 0 }

def sampleWorld : World (Fin 5) :=
  { nodes := fun n => sampleNode (if 3 ≤ n then some 0 else none), queue := fun _ _ => [], won := [] }

def cron (n : Fin 5) (now : Int) : Event (Fin 5) :=
  .failover n
    { now := now, masterFailed := true, mfEnd := false, mfCanStart := false, slaveNoFailover := false, dataAge := 0, rank := 0,
      randomDelay := 0, masterConfigEpoch := 0, masterSlots := [0] }
    (fun _ => true)

def receive (src dst : Fin 5) (now : Int) : Event (Fin 5) :=
  .deliver src dst
    { now := now, senderMaster := some 0, masterFailed := true, slotEpoch := fun _ => none, linkUp := true }

theorem sampleWorld_initial : Initial sampleWorld where
  votes := fun _ => le_rfl
  epoch := fun _ => le_rfl
  count := fun _ => rfl
  sent := fun _ => rfl
  queue := fun _ _ => rfl
  won := rfl

def promptElection : List (Event (Fin 5)) :=
  [cron 3 100000, cron 3 100500, receive 3 1 100501, receive 3 2 100501, receive 1 3 100502, receive 2 3 100502, cron 3 100600]

theorem prompt_election_single_winner : (3, 1) ∈ (run sampleCluster sampleWorld promptElection).won ∧
      ∀ c, (c, 1) ∈ (run sampleCluster sampleWorld promptElection).won → c = 3 := by
  have winner : (3, 1) ∈ (run sampleCluster sampleWorld promptElection).won := by decide +kernel
  exact ⟨winner, fun c other => failover_election_single_winner sampleCluster sampleWorld sampleWorld_initial promptElection
    (by decide +kernel) c 3 1 other winner⟩

-- The votes of replica 3's first attempt reach it after it scheduled the second one, which reset the
-- counter but kept the old epoch. It counts them again for the second attempt, whose real votes went to
-- replica 4.
def lateVotes : List (Event (Fin 5)) :=
  [cron 3 100000, cron 3 100500, receive 3 1 100501, receive 3 2 100501, receive 3 4 100501,
   cron 3 105000, receive 1 3 105001, receive 2 3 105001,
   cron 4 105000, cron 4 105500, receive 4 1 105501, receive 4 2 105501, receive 1 4 105502, receive 2 4 105502, cron 4 105600,
   cron 3 105700, cron 3 105800]

theorem late_votes_two_winners :
    Initial sampleWorld ∧ (3, 2) ∈ (run sampleCluster sampleWorld lateVotes).won ∧
      (4, 2) ∈ (run sampleCluster sampleWorld lateVotes).won :=
  ⟨sampleWorld_initial, by decide +kernel, by decide +kernel⟩

end RedisCore.Election
