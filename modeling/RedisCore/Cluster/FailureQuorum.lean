import RedisCore.Cluster.CoherentRun
import RedisCore.Cluster.Reports

set_option autoImplicit false

namespace RedisCore.Cluster

open Lib List

variable {s' : ClusterState} {link : Option Addr}

section

variable (m : Marking)

-- The masters that serve slots and hold the node for failing: this one, and those whose report is not too old.
def Marking.agreeing : List Addr :=
  m.masters.filter fun a => a = m.myself || m.reports.any fun r => r.node = a && decide (m.time - r.time ≤ m.maxAge)

def Marking.Majority : Prop := m.masters.length < 2 * m.agreeing.length

-- cluster->size is up to date, all who are counted serve slots, and this node has not reported to itself.
def Marking.Fair : Prop :=
  m.size = m.masters.length ∧ (∀ r ∈ m.reports, r.node ∈ m.masters ∧ r.node ≠ m.myself) ∧
    (m.countsMyself = true → m.myself ∈ m.masters)

instance : Decidable m.Majority := inferInstanceAs (Decidable (_ < _))

instance : Decidable m.Fair := inferInstanceAs (Decidable (_ ∧ _ ∧ _))

theorem Marking.majority_of_fair (fair : m.Fair) (recent : ∀ r ∈ m.reports, m.time - r.time ≤ m.maxAge)
    (distinct : (m.reports.map FailReport.node).Nodup)
    (quorum : m.size / 2 + 1 ≤ m.reports.length + if m.countsMyself then 1 else 0) : m.Majority := by
  obtain ⟨size, reporters, self⟩ := fair
  have reported : ∀ a ∈ m.reports.map FailReport.node, a ∈ m.agreeing := by
    intro a inside
    obtain ⟨r, member, rfl⟩ := mem_map.mp inside
    refine mem_filter.mpr ⟨(reporters r member).1, ?_⟩
    rw [Bool.or_eq_true, any_eq_true]
    exact .inr ⟨r, member, by simpa using recent r member⟩
  have count : m.reports.length + (if m.countsMyself then 1 else 0) ≤ m.agreeing.length := by
    by_cases counts : m.countsMyself = true
    · -- This node is one of the voters and none of the reporters.
      have voter : m.myself ∈ m.agreeing := mem_filter.mpr ⟨self counts, by simp⟩
      have voters : (m.myself :: m.reports.map FailReport.node).Nodup := by
        refine nodup_cons.mpr ⟨fun inside => ?_, distinct⟩
        obtain ⟨r, member, same⟩ := mem_map.mp inside
        exact (reporters r member).2 same
      have le := (voters.subperm (cons_subset.mpr ⟨voter, reported⟩)).length_le
      simpa [counts] using le
    · have le := (distinct.subperm reported).length_le
      simpa [counts] using le
  unfold Marking.Majority
  omega

end

structure Counted (s : ClusterState) : Prop where
  distinct : ∀ a, ((s.node a).failReports.map FailReport.node).Nodup
  marked : ∀ m ∈ s.marked, m.Fair → m.Majority

theorem Counted.of_calm {s : ClusterState} (counted : Counted s) (calm : Calm s s') : Counted s' where
  distinct := by
    intro a
    rcases calm.reports a with same | none
    · rw [same]
      exact counted.distinct a
    · rw [none]
      exact nodup_nil
  marked := by
    rw [calm.marked]
    exact counted.marked

section

variable {s : ClusterState}

theorem Counted.modify (counted : Counted s) (a : Addr) (f : ClusterNode → ClusterNode)
    (distinct : ((f (s.node a)).failReports.map FailReport.node).Nodup) : Counted (s.modify a f) where
  distinct := by
    intro b
    rw [modify_node]
    split
    · exact distinct
    · exact counted.distinct b
  marked := counted.marked

section

variable (counted : Counted s) (env : Env)

include counted

theorem cleanup_counted (n : Addr) : Counted (clusterNodeCleanupFailureReports s env n) :=
  counted.modify n _ ((counted.distinct n).sublist (filter_sublist.map _))

theorem addFailureReport_counted (failing sender : Addr) :
    Counted (clusterNodeAddFailureReport s env failing sender) := by
  refine counted.modify failing _ ?_
  have distinct := counted.distinct failing
  split
  next =>
    have same : ((s.node failing).failReports.map fun r => if r.node = sender then { r with time := env.now } else r).map
        FailReport.node = (s.node failing).failReports.map FailReport.node := by
      rw [map_map]
      refine map_congr_left fun r _ => ?_
      dsimp only [Function.comp]
      split <;> rfl
    rw [same]
    exact distinct
  next absent =>
    rw [map_append]
    refine nodup_append.mpr ⟨distinct, nodup_singleton _, ?_⟩
    intro a inside b only same
    obtain ⟨r, member, rfl⟩ := mem_map.mp inside
    obtain rfl : b = sender := by simpa using only
    exact absent (any_eq_true.mpr ⟨r, member, by simpa using same⟩)

theorem delFailureReport_counted (n sender : Addr) :
    Counted (clusterNodeDelFailureReport s env n sender) := by
  unfold clusterNodeDelFailureReport
  split
  · exact cleanup_counted (counted.modify n _ ((counted.distinct n).sublist (eraseP_sublist.map _))) env n
  · exact counted

theorem recordMarking_counted {n : Addr}
    (recent : ∀ r ∈ (s.node n).failReports, env.now - r.time ≤ failReportMaxAge env)
    (quorum : neededQuorum s ≤ failureCount s n) : Counted (recordMarking env s n) where
  distinct := counted.distinct
  marked := by
    intro m inside
    rcases mem_append.mp inside with before | new
    · exact counted.marked m before
    · rw [mem_singleton.mp new]
      exact fun fair => Marking.majority_of_fair _ fair recent (counted.distinct n) quorum

theorem markNodeAsFailing_counted (n : Addr) :
    Counted (markNodeAsFailingIfNeeded env s n) := by
  have cleaned := cleanup_counted counted env n
  have recent : ∀ r ∈ ((clusterNodeCleanupFailureReports s env n).node n).failReports,
      env.now - r.time ≤ failReportMaxAge env := by
    intro r inside
    rw [clusterNodeCleanupFailureReports, modify_self] at inside
    simpa using (mem_filter.mp inside).2
  unfold markNodeAsFailingIfNeeded confirmFailure
  split
  · exact counted
  · split
    next => exact cleaned
    next enough =>
      have recorded := recordMarking_counted cleaned env recent (not_lt.mp enough)
      have failed := recorded.of_calm (setFailed_calm env _ n)
      unfold announceFailure
      split
      · exact ⟨failed.1, failed.2⟩
      · exact failed

theorem handleFailureReport_counted (sender : Option Addr) (g : GossipEntry) (n : Addr) :
    Counted (handleFailureReport env s sender g n) := by
  unfold handleFailureReport
  split
  · split_ifs
    · exact markNodeAsFailing_counted (addFailureReport_counted counted env _ _) env _
    · exact delFailureReport_counted counted env _ _
    · exact counted
  · exact counted

theorem processGossipEntry_counted (sender : Option Addr) (g : GossipEntry) :
    Counted (processGossipEntry env sender s g) := by
  unfold processGossipEntry updatePongTime
  split
  · have handled := handleFailureReport_counted counted env sender g
    split
    · exact handled _
    · exact cleanup_counted (handled _) env _
  · split
    · exact counted.of_calm (startHandshake_calm s _)
    · exact counted

theorem gossip_counted (link : Option Addr) (name : Name) (gossip : List GossipEntry) :
    Counted (clusterProcessGossipSection env s link name gossip) :=
  foldl_kept (P := Counted) (fun _ g counted => processGossipEntry_counted counted env _ g) gossip s counted

theorem delNode_counted {n : Addr}
    (deleted : clusterDelNode s env n = .ok s') : Counted s' := by
  obtain ⟨middle, removed, rfl⟩ := (delNode_ok s env n s').mp deleted
  have emptied : Counted middle := by
    have calm := delSlots_calm _ removed
    exact counted.of_calm ⟨calm.1, calm.2⟩
  exact (foldl_kept (P := Counted) (fun _ other counted => delFailureReport_counted counted env other n) _ _ emptied).of_calm
    (freeNode_calm _ n)

theorem answerPing_counted (sender link : Option Addr) (hdr : Header) (type : PingType)
    (gossip : List GossipEntry) : Counted (answerPing env s sender link hdr type gossip) := by
  unfold answerPing
  split
  · exact counted
  · exact ⟨counted.1, counted.2⟩
  · split
    · have met := gossip_counted (counted.of_calm (startHandshake_calm s env.randomName)) env link hdr.sender gossip
      exact ⟨met.1, met.2⟩
    · exact ⟨counted.1, counted.2⟩

variable {env}

theorem processKnownPing_counted {sender : Addr} {epoch : Nat} {hdr : Header}
    {gossip : List GossipEntry} (processed : processKnownPing env s sender epoch link hdr gossip = .ok s') :
    Counted s' := by
  obtain ⟨roled, slotted, role, slots, rfl⟩ := (processKnownPing_ok env sender epoch link hdr gossip s').mp processed
  have calm := ((updateRole_calm s role).trans (updateSlots_calm env roled slots)).trans
    (collision_calm slotted sender epoch)
  exact gossip_counted (counted.of_calm calm) env link hdr.sender gossip

section

variable {sender : Option Addr} {epoch : Nat} {link : Option Addr} {hdr : Header} {type : PingType}
  {gossip : List GossipEntry} {s' : ClusterState}

theorem processPingBody_counted
    (processed : processPingBody env s sender epoch link hdr type gossip = .ok s') : Counted s' := by
  have recorded := counted.of_calm (recordPong_calm env s link type)
  unfold processPingBody at processed
  split at processed
  · exact processKnownPing_counted recorded processed
  · cases processed
    exact recorded

theorem processPing_counted
    (processed : processPing env s sender epoch link hdr type gossip = .ok s') : Counted s' := by
  have answered := answerPing_counted counted env sender link hdr type gossip
  unfold processPing at processed
  dsimp only at processed
  split at processed
  · exact processPingBody_counted answered processed
  · next n =>
    split_ifs at processed
    · exact delNode_counted answered env processed
    · exact processPingBody_counted (answered.of_calm (completeHandshake_calm _ n hdr)) processed
    · cases processed
      exact answered
    · exact processPingBody_counted answered processed

end

theorem processPacket_counted {packet : Packet}
    (processed : clusterProcessPacket env s link packet = .ok s') : Counted s' := by
  have header := counted.of_calm (processHeader_calm s (clusterLookupNode s packet.hdr.sender) packet.hdr)
  unfold clusterProcessPacket at processed
  dsimp only at processed
  split at processed
  · exact processPing_counted header processed
  · cases processed
    exact header.of_calm (processFail_calm env _ _)
  · cases processed
    exact header.of_calm (sendFailoverAuthIfNeeded_calm env _ _ _)
  · cases processed
    exact header.of_calm (processAuthAck_calm _ _ _)
  · cases processed
    exact header.of_calm (processMFStart_calm env _ _)
  · exact header.of_calm (processUpdate_calm _ processed)
  · cases processed
    exact header

theorem reset_counted {hard : Bool}
    (done : clusterReset env s hard = .ok s') : Counted s' := by
  obtain ⟨emptied, alone, deleted, forgotten, rfl⟩ := (reset_ok env hard s').mp done
  have before := counted.of_calm ((beforeReset_calm s).trans (delSlots_calm _ deleted))
  have remaining : Counted alone := foldlM_preserves Counted emptied
    (fun _ n b' _ kept step => delNode_counted kept env step) before forgotten
  split
  · exact remaining.of_calm (hardReset_calm env alone)
  · exact remaining

theorem command_counted {c : Command} {result : ClusterState × Reply}
    (ok : clusterCommand env s c = .ok result) : Counted result.1 := by
  have rejected {text : String} (ok : reject s text = .ok result) := counted.of_calm (reject_calm s ok)
  cases c with
  | meet =>
    cases ok
    exact counted.of_calm (startHandshake_calm s env.randomName)
  | flushslots =>
    simp only [clusterCommand, flushslots] at ok
    split_ifs at ok
    · exact rejected ok
    · obtain ⟨s', deleted, same⟩ := accepted id ok
      rw [same]
      exact counted.of_calm (delSlots_calm s deleted)
  | addslots slots | delslots slots =>
    simp only [clusterCommand, addOrDelSlots] at ok
    split at ok
    · exact rejected ok
    · obtain ⟨s', assigned, same⟩ := accepted id ok
      rw [same]
      exact foldlM_preserves Counted s (fun b slot b' _ before step => before.of_calm (assignSlot_calm b step))
        counted assigned
  | setslot slot action => exact counted.of_calm (setslot_calm s ok)
  | bumpepoch =>
    cases ok
    exact counted.of_calm (bump_calm s)
  | forget name =>
    simp only [clusterCommand, forget] at ok
    split at ok
    · exact rejected ok
    · split_ifs at ok
      · exact rejected ok
      · exact rejected ok
      · obtain ⟨s', deleted, same⟩ := accepted id ok
        rw [same]
        exact delNode_counted counted env deleted
  | replicate name =>
    simp only [clusterCommand, replicate] at ok
    split at ok
    · exact rejected ok
    · split_ifs at ok
      · exact rejected ok
      · exact rejected ok
      · exact rejected ok
      · obtain ⟨s', set, same⟩ := accepted id ok
        rw [same]
        exact counted.of_calm (setMaster_calm s set)
  | failover option => exact counted.of_calm (failover_calm env s ok)
  | setConfigEpoch epoch =>
    simp only [clusterCommand, assignConfigEpoch] at ok
    split_ifs at ok
    · exact rejected ok
    · exact rejected ok
    · cases ok
      have set := Calm.of_modify s s.myself (fun node => { node with configEpoch := epoch }) rfl
      exact counted.of_calm ⟨set.1, set.2⟩
  | reset hard =>
    simp only [clusterCommand, reset] at ok
    split_ifs at ok
    · exact rejected ok
    · obtain ⟨s', done, same⟩ := accepted id ok
      rw [same]
      exact reset_counted counted done

theorem step_counted {event : Event} (ok : step env s event = .ok s') :
    Counted s' := by
  cases event with
  | packet link packet =>
    simp only [step] at ok
    split_ifs at ok
    · exact processPacket_counted counted ok
    · cases ok
      exact counted
  | command c =>
    simp only [step] at ok
    obtain ⟨result, computed, finish⟩ := bind_ok.mp ok
    cases finish
    exact command_counted counted computed
  | handshakeTimeout n =>
    simp only [step] at ok
    split_ifs at ok
    · exact delNode_counted counted env ok
    · cases ok
      exact counted
  | pingTimeout n =>
    simp only [step] at ok
    split_ifs at ok
    · cases ok
      exact counted.of_calm (.of_modify s n _ rfl)
    · cases ok
      exact counted
  | manualFailover =>
    cases ok
    exact counted.of_calm (manualFailover_calm env s)
  | slaveFailover =>
    simp only [step] at ok
    split_ifs at ok
    · exact counted.of_calm (slaveFailover_calm env s ok)
    · cases ok
      exact counted
  | updateState =>
    cases ok
    exact ⟨counted.1, counted.2⟩
  | sendPing type =>
    cases ok
    exact ⟨counted.1, counted.2⟩
  | keyspace keys =>
    cases ok
    exact ⟨counted.1, counted.2⟩

end

end

theorem run_counted {s : ClusterState} (counted : Counted s) {events : List (Env × Event)}
    (ran : run s events = .ok s') : Counted s' :=
  foldlM_preserves Counted s (fun _ _ _ _ before ok => step_counted before ok) counted ran

theorem failing_marked_by_majority (s : ClusterState) (quiet : ∀ a, (s.node a).failReports = []) (unmarked : s.marked = [])
    (events : List (Env × Event)) (s' : ClusterState) (ran : run s events = .ok s') : ∀ m ∈ s'.marked, m.Fair → m.Majority := by
  have start : Counted s := by
    refine ⟨fun a => ?_, fun m inside => ?_⟩
    · rw [quiet a]
      exact nodup_nil
    · rw [unmarked] at inside
      exact absurd inside not_mem_nil
  exact (run_counted start ran).marked

def joinMaster (now : Int) (a : Addr) (name : Name) (slots : List Slot) : List (Env × Event) :=
  [(clock now (name + 50), .command .meet),
   (clock now 0, .packet (some a) ⟨masterHeader name a slots, .ping .pong []⟩),
   (clock now 0, .packet (some a) ⟨masterHeader name a slots, .ping .pong []⟩)]

def servingThree : List (Env × Event) :=
  (clock 0 0, .command (.addslots [0])) :: joinMaster 10 1 7 [3] ++ joinMaster 20 2 8 [4]

def reportFailing (now : Int) (a : Addr) (name : Name) (slots : List Slot) : Env × Event :=
  (clock now 0, .packet (some a) ⟨masterHeader name a slots, .ping .pong [⟨8, true, false⟩]⟩)

def failByMajority : List (Env × Event) :=
  servingThree ++ [(clock 40 0, .updateState), (clock 50 0, .pingTimeout 2), reportFailing 60 1 7 [3]]

theorem failing_marked_by_two_of_three : ∃ s, run (ClusterState.start 1) failByMajority = .ok s ∧
    s.marked.map Marking.node = [2] ∧ ∀ m ∈ s.marked, m.Fair ∧ m.Majority := by
  have marked : ((run (ClusterState.start 1) failByMajority).toOption.map fun s =>
      (s.marked.map Marking.node, decide (∀ m ∈ s.marked, m.Fair))) = some ([2], true) := by decide +kernel
  cases ran : run (ClusterState.start 1) failByMajority with
  | error f => simp [ran, Except.toOption] at marked
  | ok s =>
    simp only [ran, Except.toOption, Option.map_some, Option.some.injEq, Prod.mk.injEq, decide_eq_true_eq] at marked
    have majority := failing_marked_by_majority (ClusterState.start 1) (fun _ => rfl) rfl failByMajority s ran
    exact ⟨s, rfl, marked.1, fun m inside => ⟨marked.2 m inside, majority m inside (marked.2 m inside)⟩⟩

-- The master at address 3 serves no slot.
def failByEmptyMaster : List (Env × Event) :=
  servingThree ++ joinMaster 30 3 9 [] ++
    [(clock 40 0, .updateState), (clock 50 0, .pingTimeout 2), reportFailing 60 3 9 []]

-- The masters have not been counted since they joined.
def failByOldSize : List (Env × Event) :=
  servingThree ++ joinMaster 30 3 9 [5] ++ joinMaster 35 4 10 [6] ++ [(clock 50 0, .pingTimeout 2), reportFailing 60 3 9 [5]]

-- The master at address 3 has become a slave since its report.
def failByFormerMaster : List (Env × Event) :=
  servingThree ++ joinMaster 30 3 9 [5] ++ joinMaster 35 4 10 [6] ++
    [reportFailing 40 3 9 [5],
     (clock 45 0, .packet (some 3) ⟨⟨9, false, true, some 7, 3, 3, orderedSlots [], 0, false, false⟩, .ping .pong []⟩),
     (clock 50 0, .updateState), (clock 55 0, .pingTimeout 2), reportFailing 60 1 7 [3]]

def markings (events : List (Env × Event)) : Option (List (Addr × List Addr × List Addr × Bool)) :=
  (run (ClusterState.start 1) events).toOption.map fun s =>
    s.marked.map fun m => (m.node, m.masters, m.agreeing, decide m.Majority)

theorem failing_marked_by_minority : markings failByEmptyMaster = some [(2, [0, 1, 2], [0], false)] ∧
    markings failByOldSize = some [(2, [0, 1, 2, 3, 4], [0, 3], false)] ∧
    markings failByFormerMaster = some [(2, [0, 1, 2, 4], [0, 1], false)] ∧
    ((run (ClusterState.start 1) failByEmptyMaster).toOption.map fun s => (s.node 2).fail) = some true := by
  exact ⟨by decide +kernel, by decide +kernel, by decide +kernel, by decide +kernel⟩

end RedisCore.Cluster
