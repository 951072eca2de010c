import RedisCore.Cluster.LinkedRun

set_option autoImplicit false

namespace RedisCore.Cluster

open Lib

variable {s' : ClusterState} {sender : Addr}

structure Calm (s s' : ClusterState) : Prop where
  marked : s'.marked = s.marked
  reports : ∀ a, (s'.node a).failReports = (s.node a).failReports ∨ (s'.node a).failReports = []

theorem Calm.refl (s : ClusterState) : Calm s s := ⟨rfl, fun _ => .inl rfl⟩

theorem Calm.trans {s s'' : ClusterState} (first : Calm s s') (second : Calm s' s'') : Calm s s'' where
  marked := second.marked.trans first.marked
  reports := by
    intro a
    rcases second.reports a with same | none
    · rw [same]
      exact first.reports a
    · exact .inr none

section

variable (env : Env) (s : ClusterState)

theorem Calm.of_modify (a : Addr) (f : ClusterNode → ClusterNode)
    (same : (f (s.node a)).failReports = (s.node a).failReports) : Calm s (s.modify a f) := by
  refine ⟨rfl, fun b => .inl ?_⟩
  by_cases here : b = a <;> simp [here, same]

theorem Calm.foldl {α : Type} (f : ClusterState → α → ClusterState) (calm : ∀ s a, Calm s (f s a)) (l : List α) :
    Calm s (l.foldl f s) :=
  foldl_kept (P := Calm s) (fun s' a before => before.trans (calm s' a)) l s (.refl s)

theorem detach_calm (a : Addr) : Calm s (detachFromMaster s a) := by
  unfold detachFromMaster
  split
  · exact .of_modify s _ _ rfl
  · exact .refl s

theorem addSlave_calm (m a : Addr) : Calm s (clusterNodeAddSlave s m a) := by
  unfold clusterNodeAddSlave
  split
  · exact .refl s
  · exact .of_modify s m _ rfl

theorem setNodeAsMaster_calm (a : Addr) : Calm s (clusterSetNodeAsMaster s a) := by
  unfold clusterSetNodeAsMaster
  split
  · exact .refl s
  · exact (detach_calm s a).trans (.of_modify _ a _ rfl)

theorem replaceMaster_calm (a m : Addr) : Calm s (replaceMaster s a m) := by
  unfold replaceMaster
  split
  · exact .refl s
  · exact ((detach_calm s a).trans (addSlave_calm _ m a)).trans (.of_modify _ a _ rfl)

theorem leaveMaster_calm : Calm s (leaveMaster s) := by
  unfold leaveMaster
  split
  · have demoted : Calm s (s.modify s.myself fun me => { me with isMaster := false, isSlave := true }) := .of_modify s s.myself _ rfl
    exact ⟨demoted.1, demoted.2⟩
  · exact detach_calm s s.myself

theorem setMaster_calm {n : Addr} (set : clusterSetMaster s n = .ok s') : Calm s s' := by
  obtain ⟨-, -, rfl⟩ := (setMaster_ok s n s').mp set
  have linked := ((leaveMaster_calm s).trans (.of_modify _ s.myself (fun me => { me with slaveof := some n }) rfl)).trans
    (addSlave_calm _ n s.myself)
  exact ⟨linked.1, linked.2⟩

theorem freeNode_calm (n : Addr) : Calm s (freeClusterNode s n) := by
  have orphaned : Calm s (orphanSlaves s (s.node n).slaves) := .foldl s _ (fun s a => .of_modify s a _ rfl) _
  have detached : Calm s (if ((orphanSlaves s (s.node n).slaves).node n).isSlave then
      detachFromMaster (orphanSlaves s (s.node n).slaves) n else orphanSlaves s (s.node n).slaves) := by
    split
    · exact orphaned.trans (detach_calm _ n)
    · exact orphaned
  exact ⟨detached.1, detached.2⟩

theorem delSlot_calm {slot : Slot} (deleted : clusterDelSlot s slot = .ok s') : Calm s s' := by
  obtain ⟨-, rfl⟩ | ⟨n, -, -, rfl⟩ := delSlot_cases deleted
  · exact .refl _
  · have cleared : Calm s (clusterNodeClearSlotBit s n slot) := .of_modify s n _ (by split <;> rfl)
    exact ⟨cleared.1, cleared.2⟩

theorem addSlot_calm (n : Addr) (slot : Slot) : Calm s (clusterAddSlot s n slot) := by
  obtain ⟨-, unchanged⟩ | ⟨-, added⟩ := addSlot_cases s n slot
  · rw [unchanged]
    exact .refl s
  · rw [added]
    have set : Calm s (clusterNodeSetSlotBit s n slot) := .of_modify s n _ (by split <;> rfl)
    exact ⟨set.1, set.2⟩

theorem delSlots_calm {slots : List Slot} (deleted : clusterDelSlots s slots = .ok s') : Calm s s' :=
  foldlM_preserves (Calm s) s (fun _ _ _ _ before step => before.trans (delSlot_calm _ step)) (.refl s) deleted

theorem startHandshake_calm (name : Name) : Calm s (startHandshake s name) := by
  unfold startHandshake clusterAddNode
  split
  · exact .refl s
  · refine ⟨rfl, fun a => ?_⟩
    by_cases new : a = s.next
    · exact .inr (by simp [new, createClusterNode])
    · exact .inl (by simp [new])

theorem completeHandshake_calm (n : Addr) (hdr : Header) : Calm s (completeHandshake s n hdr) :=
  (Calm.of_modify s n _ rfl).trans (.of_modify _ n _ rfl)

theorem turnIntoSlave_calm (turned : turnIntoSlave s sender = .ok s') : Calm s s' := by
  obtain ⟨-, rfl⟩ | ⟨middle, -, deleted, rfl⟩ := turnIntoSlave_cases turned
  · exact .refl _
  · exact (delSlots_calm s deleted).trans (.of_modify middle sender _ rfl)

theorem updateRole_calm {hdr : Header} (updated : updateRole s sender hdr = .ok s') :
    Calm s s' := by
  unfold updateRole at updated
  split at updated
  · cases updated
    exact setNodeAsMaster_calm s sender
  · obtain ⟨middle, turned, finish⟩ := bind_ok.mp updated
    have slave := turnIntoSlave_calm s turned
    split at finish
    · cases finish
      exact slave.trans (replaceMaster_calm middle sender _)
    · cases finish
      exact slave

theorem rebindSlot_calm {epoch : Nat} {master : Option Addr} {r r' : Rebinding} {slot : Slot}
    (rebound : rebindSlot sender epoch master r slot = .ok r') : Calm r.s r'.s := by
  unfold rebindSlot at rebound
  split_ifs at rebound
  · obtain ⟨middle, deleted, finish⟩ := bind_ok.mp rebound
    cases finish
    exact (delSlot_calm r.s deleted).trans (addSlot_calm middle sender slot)
  · cases rebound
    exact .refl _

theorem updateSlotsConfigWith_calm {epoch : Nat} {slots : Bitmap}
    (updated : clusterUpdateSlotsConfigWith s sender epoch slots = .ok s') : Calm s s' := by
  unfold clusterUpdateSlotsConfigWith at updated
  split_ifs at updated
  · cases updated
    exact .refl _
  · obtain ⟨r, loop, rest⟩ := bind_ok.mp updated
    have rebound : Calm s r.s := foldlM_preserves (fun r => Calm s r.s) _
      (fun _ slot b' _ before step => before.trans (rebindSlot_calm step)) (.refl s) loop
    have cleaned : Calm s (r.dirtySlots.foldl delKeysInSlot r.s) :=
      rebound.trans (.foldl r.s delKeysInSlot (fun _ _ => ⟨rfl, fun _ => .inl rfl⟩) _)
    split_ifs at rest
    · split at rest
      · cases rest
      · split_ifs at rest
        · exact rebound.trans (setMaster_calm r.s rest)
        · cases rest
          exact cleaned
    · cases rest
      exact cleaned

theorem sendUpdateIfStale_calm (sender : Addr) (epoch : Nat) (hdr : Header) : Calm s (sendUpdateIfStale env s sender epoch hdr) := by
  unfold sendUpdateIfStale clusterSendUpdate
  split
  · split <;> exact ⟨rfl, fun _ => .inl rfl⟩
  · exact .refl s

theorem updateSlots_calm {epoch : Nat} {hdr : Header}
    (updated : updateSlots env s sender epoch hdr = .ok s') : Calm s s' := by
  unfold updateSlots at updated
  split_ifs at updated
  · obtain ⟨middle, changed, finish⟩ := bind_ok.mp updated
    cases finish
    exact (updateSlotsConfigWith_calm s changed).trans (sendUpdateIfStale_calm env middle sender epoch hdr)
  · cases updated
    exact sendUpdateIfStale_calm env s sender epoch hdr
  · cases updated
    exact .refl _

theorem takeNewEpoch_calm : Calm s (takeNewEpoch s) := by
  have set := Calm.of_modify (generateEpoch s) s.myself
    (fun node => { node with configEpoch := (generateEpoch s).currentEpoch }) rfl
  exact ⟨set.1, set.2⟩

theorem bump_calm : Calm s (clusterBumpConfigEpochWithoutConsensus s) := by
  unfold clusterBumpConfigEpochWithoutConsensus
  split
  · exact takeNewEpoch_calm s
  · exact .refl s

theorem collision_calm (sender : Addr) (epoch : Nat) : Calm s (checkCollision s sender epoch) := by
  unfold checkCollision clusterHandleConfigEpochCollision
  split_ifs
  all_goals first | exact .refl s | exact takeNewEpoch_calm s

theorem recordPong_calm (link : Option Addr) (type : PingType) : Calm s (recordPong env s link type) := by
  unfold recordPong
  split
  · next n =>
    split_ifs
    · exact .of_modify s n _ rfl
    · unfold clearNodeFailureIfNeeded
      dsimp only
      split
      · exact .of_modify s n _ rfl
      · exact .refl s
    · exact .refl s
  · exact .refl s

theorem raiseConfigEpoch_calm (n : Addr) (epoch : Nat) : Calm s (raiseConfigEpoch s n epoch) := by
  unfold raiseConfigEpoch
  split
  · exact .of_modify s n _ rfl
  · exact .refl s

theorem processHeader_calm (sender : Option Addr) (hdr : Header) : Calm s (processHeader s sender hdr) := by
  unfold processHeader
  split
  · next a =>
    split
    · exact .refl s
    · have raised := raiseConfigEpoch_calm (raiseCurrentEpoch s hdr.currentEpoch) a hdr.configEpoch
      refine Calm.trans ⟨raised.1, raised.2⟩ ?_
      unfold recordOffset
      have written := Calm.of_modify (raiseConfigEpoch (raiseCurrentEpoch s hdr.currentEpoch) a hdr.configEpoch) a
        (fun n => { n with replOffset := hdr.offset }) rfl
      dsimp only
      split
      · exact ⟨written.1, written.2⟩
      · exact written
  · exact .refl s

theorem setFailed_calm (n : Addr) : Calm s (setFailed env s n) := .of_modify s n _ rfl

theorem processFail_calm (about : Name) : Calm s (processFail env s about) := by
  unfold processFail
  split
  · split
    · exact .refl s
    · exact setFailed_calm env s _
  · exact .refl s

theorem sendFailoverAuthIfNeeded_calm (node : Addr) (request : Header) :
    Calm s (clusterSendFailoverAuthIfNeeded env s node request) := by
  have granted (master : Addr) : Calm s (grantVote env s master) := by
    have voted := Calm.of_modify { s with lastVoteEpoch := s.currentEpoch } master (fun m => { m with votedTime := env.now }) rfl
    unfold grantVote clusterSendFailoverAuth
    split <;> exact ⟨voted.1, voted.2⟩
  unfold clusterSendFailoverAuthIfNeeded
  repeat' split
  all_goals first | exact .refl s | exact granted _

theorem processAuthAck_calm (sender : Addr) (epoch : Nat) : Calm s (processAuthAck s sender epoch) := by
  unfold processAuthAck
  split <;> exact ⟨rfl, fun _ => .inl rfl⟩

theorem processMFStart_calm (sender : Addr) : Calm s (processMFStart env s sender) := by
  unfold processMFStart
  split <;> exact ⟨rfl, fun _ => .inl rfl⟩

theorem processUpdate_calm {nodename : Name} {epoch : Nat} {slots : Bitmap}
    (processed : processUpdate s nodename epoch slots = .ok s') : Calm s s' := by
  unfold processUpdate at processed
  split at processed
  · cases processed
    exact .refl _
  · next n _ =>
    dsimp only at processed
    split_ifs at processed
    · cases processed
      exact .refl _
    · exact ((setNodeAsMaster_calm s n).trans (.of_modify _ n _ rfl)).trans (updateSlotsConfigWith_calm _ processed)
    · exact (Calm.of_modify s n _ rfl).trans (updateSlotsConfigWith_calm _ processed)

theorem assignSlot_calm {del : Bool} {slot : Slot} (assigned : assignSlot del s slot = .ok s') : Calm s s' := by
  unfold assignSlot at assigned
  dsimp only at assigned
  split_ifs at assigned
  · have deleted := delSlot_calm _ assigned
    exact ⟨deleted.1, deleted.2⟩
  · cases assigned
    have added := addSlot_calm { s with importingSlotsFrom := s.importingSlotsFrom.erase slot } s.myself slot
    exact ⟨added.1, added.2⟩

theorem takeSlot_calm {slot : Slot} (taken : takeSlot s slot = .ok s') : Calm s s' := by
  unfold takeSlot at taken
  obtain ⟨middle, deleted, finish⟩ := bind_ok.mp taken
  cases finish
  exact (delSlot_calm s deleted).trans (addSlot_calm middle middle.myself slot)

theorem replaceYourMaster_calm (replaced : clusterFailoverReplaceYourMaster env s = .ok s') : Calm s s' := by
  unfold clusterFailoverReplaceYourMaster at replaced
  split at replaced
  · cases replaced
    exact .refl _
  · split_ifs at replaced
    · cases replaced
      exact .refl _
    · obtain ⟨middle, loop, finish⟩ := bind_ok.mp replaced
      cases finish
      have taken := foldlM_preserves (Calm s) _
        (fun b slot b' _ before step => before.trans (takeSlot_calm b step)) (setNodeAsMaster_calm s s.myself) loop
      exact ⟨taken.1, taken.2⟩

theorem reject_calm {result : ClusterState × Reply} {text : String} (ok : reject s text = .ok result) : Calm s result.1 := by
  cases ok
  exact .refl s

theorem failover_calm {option : FailoverOption} {result : ClusterState × Reply} (ok : failover env s option = .ok result) :
    Calm s result.1 := by
  unfold failover at ok
  split_ifs at ok
  · exact reject_calm s ok
  · split at ok
    · exact reject_calm s ok
    · split_ifs at ok
      · exact reject_calm s ok
      · dsimp only at ok
        split at ok
        · obtain ⟨s', replaced, same⟩ := accepted id ok
          rw [same]
          have bumped := bump_calm { resetManualFailover s with mfEnd := env.now + 5000 }
          exact Calm.trans ⟨bumped.1, bumped.2⟩ (replaceYourMaster_calm env _ replaced)
        · cases ok
          exact ⟨rfl, fun _ => .inl rfl⟩
        · cases ok
          unfold clusterSendMFStart
          split <;> exact ⟨rfl, fun _ => .inl rfl⟩

theorem slaveFailover_calm {s' : ClusterState} (ok : clusterHandleSlaveFailover env s = .ok s') : Calm s s' := by
  have ranked : Calm s (updateRank env s) := by
    unfold updateRank
    split <;> exact ⟨rfl, fun _ => .inl rfl⟩
  have waits (ok : Except.ok (updateRank env s) = (Except.ok s' : Except Fault ClusterState)) : Calm s s' :=
    Except.ok.inj ok ▸ ranked
  unfold clusterHandleSlaveFailover at ok
  dsimp only at ok
  split_ifs at ok
  · cases ok
    exact .refl s
  · cases ok
    exact .refl s
  · cases ok
    exact ⟨rfl, fun _ => .inl rfl⟩
  · exact waits ok
  · exact waits ok
  · cases ok
    exact ranked.trans ⟨rfl, fun _ => .inl rfl⟩
  · exact (ranked.trans (raiseConfigEpoch_calm _ _ _)).trans (replaceYourMaster_calm env _ ok)
  · exact waits ok

theorem beforeReset_calm : Calm s (beforeReset s) := by
  unfold beforeReset
  split
  · have master := setNodeAsMaster_calm s s.myself
    exact ⟨master.1, master.2⟩
  · exact ⟨rfl, fun _ => .inl rfl⟩

theorem hardReset_calm : Calm s (hardReset env s) := by
  have zeroed := Calm.of_modify { s with currentEpoch := 0, lastVoteEpoch := 0 } s.myself (fun node => { node with configEpoch := 0 }) rfl
  have renamed := zeroed.trans (.of_modify _ s.myself (fun node => { node with name := env.randomName }) rfl)
  exact ⟨renamed.1, renamed.2⟩

theorem importedSlot_calm (n : Addr) (slot : Slot) : Calm s (finishImport (stopMigrating s slot) n slot) := by
  have stopped : Calm s (stopMigrating s slot) := by
    unfold stopMigrating
    split <;> exact ⟨rfl, fun _ => .inl rfl⟩
  refine stopped.trans ?_
  unfold finishImport
  split
  · have bumped := bump_calm (stopMigrating s slot)
    exact ⟨bumped.1, bumped.2⟩
  · exact .refl _

theorem setslot_calm {slot : Slot} {action : SetSlotAction} {result : ClusterState × Reply}
    (ok : setslot s slot action = .ok result) : Calm s result.1 := by
  have closed (importing migrating : SlotTable) :
      Calm s { s with importingSlotsFrom := importing, migratingSlotsTo := migrating } := ⟨rfl, fun _ => .inl rfl⟩
  unfold setslot at ok
  split_ifs at ok with slave
  · exact reject_calm s ok
  · cases action with
    | migrating name =>
      simp only [setslotMigrating] at ok
      split_ifs at ok
      · exact reject_calm s ok
      · split at ok
        · exact reject_calm s ok
        · cases ok
          exact closed _ _
    | importing name =>
      simp only [setslotImporting] at ok
      split_ifs at ok
      · exact reject_calm s ok
      · split at ok
        · exact reject_calm s ok
        · cases ok
          exact closed _ _
    | stable =>
      cases ok
      exact closed _ _
    | node name =>
      simp only [setslotNode] at ok
      split at ok
      · exact reject_calm s ok
      · next n found =>
        split_ifs at ok
        · exact reject_calm s ok
        · obtain ⟨middle, deleted, same⟩ := accepted (fun s' => clusterAddSlot s' n slot) ok
          rw [same]
          exact ((importedSlot_calm s n slot).trans (delSlot_calm _ deleted)).trans (addSlot_calm middle n slot)

theorem manualFailover_calm : Calm s (let s' := manualFailoverCheckTimeout env s
    if (s'.node s'.myself).isSlave then clusterHandleManualFailover env s' else s') := by
  have checked : Calm s (manualFailoverCheckTimeout env s) := by
    unfold manualFailoverCheckTimeout
    split <;> exact ⟨rfl, fun _ => .inl rfl⟩
  refine checked.trans ?_
  dsimp only
  unfold clusterHandleManualFailover
  split_ifs <;> exact ⟨rfl, fun _ => .inl rfl⟩

end

end RedisCore.Cluster
