import RedisCore.Keyspace.SideTables

set_option autoImplicit false

namespace RedisCore.Keyspace

open Lib List

variable {key : Bytes}

section

variable {cluster : Bool} {s s' : Server}

theorem lookupKey_eq_none (j : Nat) (key : Bytes) : lookupKey s j key = none ↔ key ∉ (s.db j).dict := AList.lookup_eq_none

theorem mem_of_lookupKey {j : Nat} {val : Value} (found : lookupKey s j key = some val) : key ∈ (s.db j).dict := by
  rw [← AList.lookup_isSome]
  exact Option.isSome_of_eq_some found

theorem dbDelete_coherent (coherent : Coherent cluster s) (j : Nat) (key : Bytes) : Coherent cluster (dbDelete s j key).1 := by
  rw [dbDelete_eq]
  exact unlinkKey_coherent coherent j key

theorem dbDelete_absent (j : Nat) (key : Bytes) : key ∉ ((dbDelete s j key).1.db j).dict := by
  rw [dbDelete_eq]
  unfold unlinkKey
  split
  · rw [(indexDeleted_data key).db]
    simp [eraseKey]
  · simp [eraseKey]

section

variable (coherent : Coherent cluster s) (j : Nat) (key : Bytes)

include coherent

theorem deleteExpired_coherent :
    Coherent cluster (deleteExpired s j key).1 := by
  have recorded : Coherent cluster (propagateExpire s j key) :=
    coherent.of_same ⟨rfl, rfl, fun _ => rfl, fun _ => rfl, rfl, rfl, fun _ => rfl⟩
  have deleted := unlinkKey_coherent recorded j key
  unfold deleteExpired dbAsyncDelete dbSyncDelete
  dsimp only
  split <;> exact deleted

theorem expireAt_coherent (when : Int) :
    Coherent cluster (expireAt s j key when).1 := by
  unfold expireAt
  split_ifs
  · exact coherent
  · exact coherent
  · exact coherent
  · exact deleteExpired_coherent coherent j key

theorem getExpire_ok : ∃ when, getExpire s j key = .ok when := by
  unfold getExpire
  split
  · exact ⟨-1, rfl⟩
  next when expiring =>
    have present : key ∈ (s.db j).expires := by
      rw [← AList.lookup_isSome, expiring]
      rfl
    exact ⟨when, if_pos (coherent.expires j key present)⟩

theorem lookupKeyWrite_ok :
    ∃ s', lookupKeyWrite s j key = .ok (s', lookupKey s' j key) ∧ Coherent cluster s' := by
  obtain ⟨when, expire⟩ := getExpire_ok coherent j key
  refine ⟨(expireAt s j key when).1, ?_, expireAt_coherent coherent j key when⟩
  simp only [lookupKeyWrite, expireIfNeeded, expire]
  rfl

theorem activeExpire_coherent (now : Int) :
    Coherent cluster (activeExpireCycleTryExpire s j key now) := by
  unfold activeExpireCycleTryExpire
  split
  · exact coherent
  · split
    · exact deleteExpired_coherent coherent j key
    · exact coherent

end

theorem addDirty_coherent (coherent : Coherent cluster s) (n : Int) : Coherent cluster (s.addDirty n) :=
  coherent.of_same ⟨rfl, rfl, fun _ => rfl, fun _ => rfl, rfl, rfl, fun _ => rfl⟩

theorem addReply_coherent (coherent : Coherent cluster s) (c : ClientId) (reply : Reply) : Coherent cluster (addReply s c reply) :=
  coherent.of_same (addReply_same c reply)

section

variable (coherent : Coherent cluster s) (j : Nat) (key : Bytes)

include coherent

theorem signal_coherent : Coherent cluster (signalModifiedKey s j key) :=
  coherent.of_same (signalModifiedKey_same j key)

theorem dbAdd_total (val : Value) (only : cluster = true → j = 0) (absent : key ∉ (s.db j).dict) :
    Returns (dbAdd s j key val) fun s' => Coherent cluster s' ∧ key ∈ (s'.db j).dict := by
  have added : dbAdd s j key val = .ok (indexAdded (listAdded (setValue s j key val) j key val) key) := if_neg absent
  refine ⟨_, added, dbAdd_coherent coherent only added, ?_⟩
  rw [(indexAdded_data key).db, (listAdded_same j key val).dict]
  simp [setValue]

theorem dbOverwrite_total (val : Value) (present : key ∈ (s.db j).dict) :
    Returns (dbOverwrite s j key val) fun s' => Coherent cluster s' ∧ key ∈ (s'.db j).dict := by
  refine ⟨setValue s j key val, if_pos present, setValue_coherent coherent val present, ?_⟩
  simp [setValue]

theorem removeExpire_total (present : key ∈ (s.db j).dict) :
    Returns (removeExpire s j key) (Coherent cluster) := by
  refine ⟨_, if_pos present, expires_coherent coherent ?_⟩
  intro x inside
  exact coherent.expires j x (AList.mem_erase.mp inside).2

theorem setExpire_total (when : Int) (present : key ∈ (s.db j).dict) :
    Returns (setExpire s j key when) (Coherent cluster) := by
  refine ⟨_, if_pos present, expires_coherent coherent ?_⟩
  intro x inside
  obtain rfl | before := (AList.mem_insert _).mp inside
  · exact present
  · exact coherent.expires j x before

theorem setKey_total (val : Value) (only : cluster = true → j = 0) :
    Returns (setKey s j key val) (Coherent cluster) := by
  obtain ⟨found, lookup, coherentFound⟩ := lookupKeyWrite_ok coherent j key
  have stored : Returns (addOrOverwrite found j key val (lookupKey found j key)) fun written =>
      Coherent cluster written ∧ key ∈ (written.db j).dict := by
    cases present : lookupKey found j key with
    | none => exact dbAdd_total coherentFound j key val only ((lookupKey_eq_none j key).mp present)
    | some old => exact dbOverwrite_total coherentFound j key val (mem_of_lookupKey present)
  rw [setKey, lookup, ok_bind]
  exact stored.bind fun written kept => (removeExpire_total kept.1 j key kept.2).bind fun persistent kept =>
    ⟨_, rfl, signal_coherent kept j key⟩

theorem copyExpire_total (expire : Int) (present : key ∈ (s.db j).dict) :
    Returns (copyExpire s j key expire) (Coherent cluster) := by
  unfold copyExpire
  split
  · exact ⟨s, rfl, coherent⟩
  · exact setExpire_total coherent j key expire present

end

section

variable (coherent : Coherent cluster s) (c : ClientId) {j : Nat} (nx : Bool) (src dst : Bytes) (o : Value)
  (expire : Int) (only : cluster = true → j = 0)

include coherent only

theorem renameMove_total (absent : dst ∉ (s.db j).dict) :
    Returns (renameMove s c j nx src dst o expire) (Coherent cluster) := by
  exact (dbAdd_total coherent j dst o only absent).bind fun added kept =>
    (copyExpire_total kept.1 j dst expire kept.2).bind fun expiring kept => ⟨_, rfl, addReply_coherent (addDirty_coherent
      (signal_coherent (signal_coherent (dbDelete_coherent kept j src) j src) j dst) 1) c (if nx then .integer 1 else .ok)⟩

theorem renameOnto_total :
    Returns (renameOnto c j nx src dst o expire (s, lookupKey s j dst)) (Coherent cluster) := by
  unfold renameOnto
  split_ifs with exists_ nx
  · exact ⟨_, rfl, addReply_coherent coherent c _⟩
  · exact renameMove_total (dbDelete_coherent coherent j dst) c _ src dst o expire only (dbDelete_absent j dst)
  · refine renameMove_total coherent c nx src dst o expire only ?_
    rw [← lookupKey_eq_none]
    simpa using exists_

end

theorem rename_total (coherent : Coherent cluster s) (c : ClientId) (nx : Bool) (src dst : Bytes) :
    Returns (renameGenericCommand s c nx src dst) (Coherent cluster) := by
  have only : cluster = true → currentDb s c = 0 := fun enabled => coherent.selected enabled c
  generalize here : currentDb s c = j at only
  obtain ⟨found, lookup, coherentFound⟩ := lookupKeyWrite_ok coherent j src
  simp only [renameGenericCommand, here, lookup, ok_bind, renameFound]
  split
  · exact ⟨_, rfl, addReply_coherent coherentFound c _⟩
  next o _ =>
    split
    · exact ⟨_, rfl, addReply_coherent coherentFound c _⟩
    · obtain ⟨expire, expiring⟩ := getExpire_ok coherentFound j src
      obtain ⟨target, second, coherentTarget⟩ := lookupKeyWrite_ok coherentFound j dst
      rw [expiring, ok_bind, second, ok_bind]
      exact renameOnto_total coherentTarget c nx src dst o expire only

theorem moveKey_total (coherent : Coherent false s) (c : ClientId) (src dst : Nat) (o : Value) (expire : Int)
    (absent : key ∉ (s.db dst).dict) : Returns (moveKey s c src dst key o expire) (Coherent false) := by
  exact (dbAdd_total coherent dst key o nofun absent).bind fun added kept =>
    (copyExpire_total kept.1 dst key expire kept.2).bind fun expiring kept =>
      ⟨_, rfl, addReply_coherent (addDirty_coherent (dbDelete_coherent kept src key) 1) c (.integer 1)⟩

theorem moveFound_total (coherent : Coherent false s) (c : ClientId) (src dst : Nat) (key : Bytes) :
    Returns (moveFound c src dst key (s, lookupKey s src key)) (Coherent false) := by
  unfold moveFound
  split
  · exact ⟨_, rfl, addReply_coherent coherent c _⟩
  next o _ =>
    obtain ⟨expire, expiring⟩ := getExpire_ok coherent src key
    obtain ⟨target, second, coherentTarget⟩ := lookupKeyWrite_ok coherent dst key
    rw [expiring, ok_bind, second, ok_bind]
    cases present : lookupKey target dst key with
    | some old => exact ⟨_, rfl, addReply_coherent coherentTarget c (.integer 0)⟩
    | none => exact moveKey_total coherentTarget c src dst o expire ((lookupKey_eq_none dst key).mp present)

theorem move_total (coherent : Coherent cluster s) (c : ClientId) (key : Bytes) (dbid : Int) :
    Returns (moveCommand s c key dbid) (Coherent cluster) := by
  unfold moveCommand
  rw [coherent.mode]
  cases cluster with
  | true => exact ⟨_, rfl, addReply_coherent coherent c _⟩
  | false =>
    rw [if_neg (by simp)]
    unfold moveTo
    split
    · exact ⟨_, rfl, addReply_coherent coherent c _⟩
    next dst _ =>
      split_ifs
      · exact ⟨_, rfl, addReply_coherent coherent c _⟩
      · obtain ⟨found, lookup, coherentFound⟩ := lookupKeyWrite_ok coherent (currentDb s c) key
        rw [lookup, ok_bind]
        exact moveFound_total coherentFound c (currentDb s c) dst key

theorem scan_coherent (coherent : Coherent cluster s) (j : Nat) : Coherent cluster (scanDatabaseForReadyLists s j) := by
  unfold scanDatabaseForReadyLists
  generalize (s.db j).blockingKeys.keys = keys
  induction keys generalizing s with
  | nil => exact coherent
  | cons key rest ih =>
    rw [foldl_cons]
    split
    · exact ih (coherent.of_same (signalListAsReady_same j key))
    · exact ih coherent

theorem swapTables_coherent (coherent : Coherent false s) (id1 id2 : Nat) : Coherent false (swapTables s id1 id2) := by
  refine ⟨coherent.mode, coherent.dbs, ?_, nofun, nofun, nofun, nofun⟩
  intro j key
  simp only [swapTables]
  split_ifs
  · exact coherent.expires id2 key
  · exact coherent.expires id1 key
  · exact coherent.expires j key

theorem swapdb_coherent (coherent : Coherent cluster s) (c : ClientId) (id1 id2 : Int) :
    Coherent cluster (swapdbCommand s c id1 id2) := by
  unfold swapdbCommand
  rw [coherent.mode]
  cases cluster with
  | true => exact addReply_coherent coherent c _
  | false =>
    rw [if_neg (by simp)]
    split
    · apply addReply_coherent
      apply addDirty_coherent
      unfold dbSwapDatabases
      split_ifs
      · exact coherent
      · exact scan_coherent (scan_coherent (swapTables_coherent coherent _ _) _) _
    · exact addReply_coherent coherent c _

theorem select_coherent (coherent : Coherent cluster s) (c : ClientId) (id : Int) : Coherent cluster (selectCommand s c id) := by
  unfold selectCommand
  split_ifs with refused
  · exact addReply_coherent coherent c _
  split
  · exact addReply_coherent coherent c _
  next j chosen =>
    apply addReply_coherent
    refine ⟨coherent.mode, coherent.dbs, coherent.expires, coherent.index, coherent.counts, coherent.others, ?_⟩
    intro enabled k
    have zero : id = 0 := by simpa [coherent.mode, enabled] using refused
    have first : j = 0 := by
      rw [zero, toInt, Int.zero_bmod] at chosen
      unfold selectDb at chosen
      split_ifs at chosen
      exact (Option.some.inj chosen).symm
    by_cases here : k = c
    · simp [Server.modifyClient, here, first]
    · simpa [Server.modifyClient, here] using coherent.selected enabled k

theorem flushedTables_dict (which : Flushed) (j : Nat) :
    ((flushedTables s which).db j).dict = ∅ ∧ ((flushedTables s which).db j).expires = ∅ ∨
      (flushedTables s which).db j = s.db j := by
  cases which with
  | one k =>
    by_cases here : j = k <;> simp [flushedTables, emptyOne, here]
  | all =>
    simp only [flushedTables, emptyAll]
    split_ifs <;> simp

def Flushed.first : Flushed → Bool
  | .one j => decide (j = 0)
  | .all => true

theorem flushedTables_first {which : Flushed} (first : which.first = true) (dbs : 0 < s.dbnum) :
    ((flushedTables s which).db 0).dict = ∅ := by
  cases which with
  | one k =>
    obtain rfl : k = 0 := by simpa [Flushed.first] using first
    simp [flushedTables, emptyOne]
  | all => simp [flushedTables, emptyAll, dbs]

theorem emptyDb_coherent (coherent : Coherent cluster s) {which : Flushed} (async : Bool)
    (first : cluster = true → which.first = true) : Coherent cluster (emptyDb s which async) := by
  have expires : ∀ j key, key ∈ ((flushedTables s which).db j).expires → key ∈ ((flushedTables s which).db j).dict := by
    intro j key
    obtain ⟨_, empty⟩ | same := flushedTables_dict (s := s) which j
    · simp [empty]
    · rw [same]
      exact coherent.expires j key
  have same : (flushedTables s which).clusterEnabled = s.clusterEnabled ∧ (flushedTables s which).dbnum = s.dbnum ∧
      (flushedTables s which).client = s.client := by
    cases which <;> exact ⟨rfl, rfl, rfl⟩
  obtain ⟨mode, dbnum, client⟩ := same
  unfold emptyDb
  rw [coherent.mode]
  cases cluster with
  | false =>
    rw [if_neg (by simp)]
    exact ⟨mode.trans coherent.mode, dbnum ▸ coherent.dbs, expires, nofun, nofun, nofun, nofun⟩
  | true =>
    have empty := flushedTables_first (s := s) (first rfl) coherent.dbs
    rw [if_pos rfl]
    refine ⟨mode.trans coherent.mode, dbnum ▸ coherent.dbs, expires, ?_, ?_, ?_, ?_⟩
    · intro _ x
      simp [slotToKeyFlush, empty]
    · intro _ slot
      simp [slotToKeyFlush, empty]
    · intro _ j other
      simp only [slotToKeyFlush]
      obtain ⟨empty, _⟩ | same := flushedTables_dict (s := s) which j
      · exact empty
      · rw [same]
        exact coherent.others rfl j other
    · intro _ c
      simp only [slotToKeyFlush, client]
      exact coherent.selected rfl c

theorem flush_coherent (coherent : Coherent cluster s) (c : ClientId) {which : Flushed} (async : Bool) (extra : Int)
    (first : cluster = true → which.first = true) : Coherent cluster (flush s c which async extra) := by
  apply addReply_coherent
  apply addDirty_coherent
  have flagged : SameTables s (signalFlushedDb s which) := by
    refine ⟨rfl, rfl, fun _ => rfl, fun _ => rfl, rfl, rfl, ?_⟩
    intro k
    simp only [signalFlushedDb, touchWatchedKeysOnFlush]
    split <;> rfl
  exact emptyDb_coherent (coherent.of_same flagged) async first

theorem two_bytes_between {a b a' b' : UInt8} {x : Bytes} (low : [a, b] ≤ a' :: b' :: x)
    (high : a' :: b' :: x ≤ a :: b :: key) : a' = a ∧ b' = b := by
  rw [← not_lt, cons_lt_cons_iff, cons_lt_cons_iff] at low high
  grind

theorem slot_between (slot : Slot) (x key : Bytes) (low : slotBytes slot ≤ indexed x) (high : indexed x ≤ slotBytes slot ++ key) :
    keyHashSlot x = slot := by
  obtain ⟨first, second⟩ := two_bytes_between low high
  apply slotBytes_inj
  rw [slotBytes, first, second, slotBytes]

theorem slotBytes_le_indexed (key : Bytes) : slotBytes (keyHashSlot key) ≤ indexed key := by
  rw [← not_lt, indexed, slotBytes]
  simp

theorem seekSlot_spec (coherent : Coherent true s) (slot : Slot) (some_ : s.slotsKeysCount slot ≠ 0) :
    ∃ key, seekSlot s slot = some (indexed key) ∧ key ∈ (s.db 0).dict ∧ keyHashSlot key = slot := by
  rw [coherent.counts rfl slot, keyCount_pos] at some_
  obtain ⟨key, present, mine⟩ := some_
  have mine : keyHashSlot key = slot := by simpa [inSlot] using mine
  have entry : indexed key ∈ s.slotsToKeys := (coherent.index rfl _).mpr ⟨key, present, rfl⟩
  have above : slotBytes slot ≤ indexed key := by
    rw [← mine]
    exact slotBytes_le_indexed key
  have found : (seekSlot s slot).isSome := by
    rw [seekSlot, find?_isSome]
    exact ⟨indexed key, entry, by simpa using above⟩
  obtain ⟨x, sought⟩ := Option.isSome_iff_exists.mp found
  obtain ⟨start, before, after, split, smaller⟩ := find?_eq_some_iff_append.mp sought
  have inside : x ∈ s.slotsToKeys := mem_of_find?_eq_some sought
  obtain ⟨least, presentLeast, rfl⟩ := (coherent.index rfl x).mp inside
  have below : indexed least ≤ indexed key := by
    have sorted := s.slotsToKeys.sorted
    have entry' : indexed key ∈ s.slotsToKeys.items := entry
    rw [split] at sorted entry'
    obtain earlier | later := mem_append.mp entry'
    · simpa [above] using smaller _ earlier
    · obtain same | later := mem_cons.mp later
      · exact same ▸ le_refl _
      · exact (pairwise_cons.mp (pairwise_append.mp sorted).2.1).1 _ later
  refine ⟨least, sought, presentLeast, slot_between slot least key (by simpa using start) ?_⟩
  rw [← mine]
  exact below

theorem dbDelete_lookup (j : Nat) (key x : Bytes) :
    lookupKey (dbDelete s j key).1 j x = if x = key then none else lookupKey s j x := by
  have erased : lookupKey (eraseKey s j key) j x = if x = key then none else lookupKey s j x := by
    simp only [lookupKey, eraseKey, modifyDb_db, if_true]
    split_ifs with same
    · rw [same, AList.lookup_erase]
    · rw [AList.lookup_erase_ne same]
  rw [dbDelete_eq]
  unfold unlinkKey
  split
  · simpa only [lookupKey, (indexDeleted_data key).db] using erased
  · exact erased

theorem dbDelete_count (coherent : Coherent true s) (present : key ∈ (s.db 0).dict) :
    (dbDelete s 0 key).1.slotsKeysCount (keyHashSlot key) + 1 = s.slotsKeysCount (keyHashSlot key) := by
  have positive : s.slotsKeysCount (keyHashSlot key) ≠ 0 := by
    rw [coherent.counts rfl, keyCount_pos]
    exact ⟨key, present, by simp [inSlot]⟩
  rw [dbDelete_eq]
  simp only [unlinkKey, if_pos present, indexDeleted, eraseKey, Server.modifyDb, coherent.mode, if_true, slotToKeyDel,
    Function.update_self, countDown, if_neg positive]
  omega

theorem delKeysInSlotLoop_spec (coherent : Coherent true s) {slot : Slot} (n deleted : Nat) (count : s.slotsKeysCount slot = n) :
    ∃ s', delKeysInSlotLoop slot (n + 1) s deleted = some (s', deleted + n) ∧ Coherent true s' ∧
      ∀ x, lookupKey s' 0 x = if keyHashSlot x = slot then none else lookupKey s 0 x := by
  induction n generalizing s deleted with
  | zero =>
    refine ⟨s, by simp [delKeysInSlotLoop, count], coherent, ?_⟩
    intro x
    split_ifs with mine
    · rw [lookupKey_eq_none]
      intro present
      rw [coherent.counts rfl slot] at count
      exact (keyCount_pos _ _).mpr ⟨x, present, by simp [inSlot, mine]⟩ count
    · rfl
  | succ n ih =>
    obtain ⟨key, sought, present, mine⟩ := seekSlot_spec coherent slot (by omega)
    have fewer : (dbDelete s 0 key).1.slotsKeysCount slot = n := by
      have one := dbDelete_count coherent present
      rw [mine] at one
      omega
    obtain ⟨final, done, coherentFinal, lookups⟩ := ih (dbDelete_coherent coherent 0 key) (deleted + 1) fewer
    have dropped : ((seekSlot s slot).getD []).drop 2 = key := by
      rw [sought]
      rfl
    refine ⟨final, ?_, coherentFinal, ?_⟩
    · rw [delKeysInSlotLoop, if_neg (by omega), dropped, done, Nat.add_right_comm, Nat.add_assoc]
    · intro x
      rw [lookups, dbDelete_lookup]
      by_cases same : x = key
      · simp [same, mine]
      · simp [same]

theorem delKeysInSlot_spec (coherent : Coherent true s) (slot : Slot) :
    ∃ s', delKeysInSlot s slot = some (s', keyCount (inSlot slot) (s.db 0).dict) ∧ Coherent true s' ∧
      ∀ x, lookupKey s' 0 x = if keyHashSlot x = slot then none else lookupKey s 0 x := by
  obtain ⟨final, done, kept⟩ := delKeysInSlotLoop_spec coherent _ 0 rfl
  refine ⟨final, ?_, kept⟩
  rw [delKeysInSlot, done, ← coherent.counts rfl slot, Nat.zero_add]

end

structure Settings where
  now : Int
  isSlave : Bool
  loading : Bool
  lazyExpire : Bool
  lazyServerDel : Bool

inductive Call where
  | dbAdd (c : ClientId) (key : Bytes) (val : Value)
  | dbOverwrite (c : ClientId) (key : Bytes) (val : Value)
  | setKey (c : ClientId) (key : Bytes) (val : Value)
  | setExpire (c : ClientId) (key : Bytes) (when : Int)
  | removeExpire (c : ClientId) (key : Bytes)
  | dbSyncDelete (c : ClientId) (key : Bytes)
  | dbAsyncDelete (c : ClientId) (key : Bytes)
  | flushdb (c : ClientId) (async : Bool)
  | flushall (c : ClientId) (async : Bool)
  | rename (c : ClientId) (nx : Bool) (src dst : Bytes)
  | move (c : ClientId) (key : Bytes) (dbid : Int)
  | swapdb (c : ClientId) (id1 id2 : Int)
  | select (c : ClientId) (id : Int)
  | lookup (c : ClientId) (key : Bytes)
  | activeExpire (j : Nat) (key : Bytes)
  | delKeysInSlot (slot : Slot)

def perform (s : Server) : Call → Except Fault Server
  | .dbAdd c key val => dbAdd s (currentDb s c) key val
  | .dbOverwrite c key val => dbOverwrite s (currentDb s c) key val
  | .setKey c key val => setKey s (currentDb s c) key val
  | .setExpire c key when => setExpire s (currentDb s c) key when
  | .removeExpire c key => removeExpire s (currentDb s c) key
  | .dbSyncDelete c key => .ok (dbSyncDelete s (currentDb s c) key).1
  | .dbAsyncDelete c key => .ok (dbAsyncDelete s (currentDb s c) key).1
  | .flushdb c async => .ok (flushdbCommand s c async)
  | .flushall c async => .ok (flushallCommand s c async)
  | .rename c nx src dst => renameGenericCommand s c nx src dst
  | .move c key dbid => moveCommand s c key dbid
  | .swapdb c id1 id2 => .ok (swapdbCommand s c id1 id2)
  | .select c id => .ok (selectCommand s c id)
  | .lookup c key => (lookupKeyWrite s (currentDb s c) key).map Prod.fst
  | .activeExpire j key => .ok (activeExpireCycleTryExpire s j key s.now)
  | .delKeysInSlot slot =>
    if s.clusterEnabled then
      match delKeysInSlot s slot with
      | some (s', _) => .ok s'
      | none => .error .assertion
    else .ok s

def contract (s : Server) : Call → Bool
  | .dbAdd c key _ => decide (key ∉ (s.db (currentDb s c)).dict)
  | .dbOverwrite c key _ => decide (key ∈ (s.db (currentDb s c)).dict)
  | .setExpire c key _ => decide (key ∈ (s.db (currentDb s c)).dict)
  | .removeExpire c key => decide (key ∈ (s.db (currentDb s c)).dict)
  | _ => true

def withSettings (s : Server) (settings : Settings) : Server :=
  { s with
    now := settings.now
    isSlave := settings.isSlave
    loading := settings.loading
    lazyExpire := settings.lazyExpire
    lazyServerDel := settings.lazyServerDel }

def emptyTables : Db := ⟨∅, ∅, ∅, [], ∅⟩

def newClient : Client := ⟨0, false, false, false, [], [], none, []⟩

-- others is the number of databases besides the first.
def startServer (cluster : Bool) (others : Nat) : Server :=
  { clusterEnabled := cluster
    dbnum := others + 1
    isSlave := false
    loading := false
    lazyExpire := false
    lazyServerDel := false
    now := 0
    dirty := 0
    db := fun _ => emptyTables
    client := fun _ => newClient
    readyKeys := []
    slotsToKeys := .empty
    slotsKeysCount := fun _ => 0
    expired := []
    lost := []
    tickets := 0
    propagated := []
    rewritten := none
    also := []
    prevent := false }

def performAll (s : Server) (calls : List (Settings × Call)) : Except Fault Server :=
  calls.foldlM (fun s call => perform (withSettings s call.1) call.2) s

section

variable {cluster : Bool} {s s' : Server}

theorem startServer_coherent (cluster : Bool) (others : Nat) : Coherent cluster (startServer cluster others) := by
  refine ⟨rfl, Nat.succ_pos others, ?_, ?_, fun _ _ => rfl, fun _ _ _ => rfl, fun _ _ => rfl⟩
  · intro j key inside
    simp [startServer, emptyTables] at inside
  · intro _ x
    simp [startServer, emptyTables]

theorem withSettings_coherent (coherent : Coherent cluster s) (settings : Settings) : Coherent cluster (withSettings s settings) :=
  coherent.of_same ⟨rfl, rfl, fun _ => rfl, fun _ => rfl, rfl, rfl, fun _ => rfl⟩

theorem perform_total (coherent : Coherent cluster s) (call : Call) (kept : contract s call = true) :
    Returns (perform s call) (Coherent cluster) := by
  have only : ∀ c, cluster = true → currentDb s c = 0 := fun c enabled => coherent.selected enabled c
  cases call with
  | dbAdd c key val =>
    exact (dbAdd_total coherent _ key val (only c) (by simpa [contract] using kept)).imp fun _ kept => kept.1
  | dbOverwrite c key val =>
    exact (dbOverwrite_total coherent (currentDb s c) key val (by simpa [contract] using kept)).imp fun _ kept => kept.1
  | setKey c key val => exact setKey_total coherent _ key val (only c)
  | setExpire c key when => exact setExpire_total coherent _ key when (by simpa [contract] using kept)
  | removeExpire c key => exact removeExpire_total coherent _ key (by simpa [contract] using kept)
  | dbSyncDelete c key => exact ⟨_, rfl, unlinkKey_coherent coherent _ key⟩
  | dbAsyncDelete c key => exact ⟨_, rfl, unlinkKey_coherent coherent _ key⟩
  | flushdb c async =>
    refine ⟨_, rfl, flush_coherent coherent c async 0 ?_⟩
    intro enabled
    simp [Flushed.first, only c enabled]
  | flushall c async => exact ⟨_, rfl, flush_coherent coherent c async 1 (fun _ => rfl)⟩
  | rename c nx src dst => exact rename_total coherent c nx src dst
  | move c key dbid => exact move_total coherent c key dbid
  | swapdb c id1 id2 => exact ⟨_, rfl, swapdb_coherent coherent c id1 id2⟩
  | select c id => exact ⟨_, rfl, select_coherent coherent c id⟩
  | lookup c key =>
    obtain ⟨s', found, coherent'⟩ := lookupKeyWrite_ok coherent (currentDb s c) key
    exact ⟨s', by simp [perform, found, Except.map], coherent'⟩
  | activeExpire j key => exact ⟨_, rfl, activeExpire_coherent coherent j key s.now⟩
  | delKeysInSlot slot =>
    simp only [perform]
    split_ifs with enabled
    · obtain rfl : cluster = true := coherent.mode.symm.trans enabled
      obtain ⟨s', deleted, coherent', _⟩ := delKeysInSlot_spec coherent slot
      rw [deleted]
      exact ⟨s', rfl, coherent'⟩
    · exact ⟨s, rfl, coherent⟩

theorem contract_of_ok {call : Call} (performed : perform s call = .ok s') : contract s call = true := by
  cases call with
  | dbAdd c key val =>
    obtain ⟨absent, _⟩ := dbAdd_ok performed
    simpa [contract] using absent
  | dbOverwrite c key val =>
    by_contra broken
    simp_all [contract, perform, dbOverwrite]
  | setExpire c key when =>
    by_contra broken
    simp_all [contract, perform, setExpire]
  | removeExpire c key =>
    by_contra broken
    simp_all [contract, perform, removeExpire]
  | _ => rfl

theorem perform_coherent (coherent : Coherent cluster s) {call : Call} (performed : perform s call = .ok s') :
    Coherent cluster s' := by
  obtain ⟨final, done, kept⟩ := perform_total coherent call (contract_of_ok performed)
  obtain rfl := Except.ok.inj (performed.symm.trans done)
  exact kept

theorem performAll_coherent (coherent : Coherent cluster s) {calls : List (Settings × Call)}
    (performed : performAll s calls = .ok s') : Coherent cluster s' := by
  refine foldlM_preserves (Coherent cluster) s ?_ coherent performed
  intro b call b' _ before done
  exact perform_coherent (withSettings_coherent before call.1) done

end

theorem side_tables_stay_coherent (cluster : Bool) (others : Nat) (calls : List (Settings × Call)) (s : Server)
    (performed : performAll (startServer cluster others) calls = .ok s) :
    -- Every key with an expire is in the dictionary, so that no assertion of getExpire fails, and the next
    -- operation fails only if it is called against its contract.
    (∀ j key, key ∈ (s.db j).expires → key ∈ (s.db j).dict) ∧
    (∀ j key, ∃ when, getExpire s j key = .ok when) ∧
    (∀ settings call, contract s call = true ↔ ∃ s', perform (withSettings s settings) call = .ok s') ∧
    (cluster = true → (∀ x, x ∈ s.slotsToKeys ↔ ∃ key, key ∈ (s.db 0).dict ∧ indexed key = x) ∧
      (∀ slot, s.slotsKeysCount slot = keyCount (inSlot slot) (s.db 0).dict) ∧
      ∀ slot, ∃ s', delKeysInSlot s slot = some (s', keyCount (inSlot slot) (s.db 0).dict) ∧
        ∀ key, lookupKey s' 0 key = if keyHashSlot key = slot then none else lookupKey s 0 key) := by
  have coherent := performAll_coherent (startServer_coherent cluster others) performed
  refine ⟨coherent.expires, getExpire_ok coherent, ?_, ?_⟩
  · intro settings call
    constructor
    · intro kept
      obtain ⟨s', done, _⟩ := perform_total (withSettings_coherent coherent settings) call
        (by cases call <;> exact kept)
      exact ⟨s', done⟩
    · rintro ⟨s', done⟩
      have kept := contract_of_ok done
      cases call <;> exact kept
  · rintro rfl
    refine ⟨coherent.index rfl, coherent.counts rfl, ?_⟩
    intro slot
    obtain ⟨s', deleted, _, lookups⟩ := delKeysInSlot_spec coherent slot
    exact ⟨s', deleted, lookups⟩

theorem slot_emptied_in_cluster_mode :
    ∃ s, performAll (startServer true 15)
        [(⟨0, false, false, false, false⟩, .setKey 1 [0x61] (.string [0x31])),
          (⟨1, false, false, false, true⟩, .setExpire 1 [0x61] 100),
          (⟨2, false, false, true, false⟩, .rename 2 false [0x61] [0x62])] = .ok s ∧
      (∀ j key, key ∈ (s.db j).expires → key ∈ (s.db j).dict) ∧
      ∃ s', delKeysInSlot s (keyHashSlot [0x62]) = some (s', keyCount (inSlot (keyHashSlot [0x62])) (s.db 0).dict) ∧
        lookupKey s' 0 [0x62] = none := by
  obtain ⟨s, performed⟩ := exists_of_isOk (performAll (startServer true 15)
        [(⟨0, false, false, false, false⟩, .setKey 1 [0x61] (.string [0x31])),
          (⟨1, false, false, false, true⟩, .setExpire 1 [0x61] 100),
          (⟨2, false, false, true, false⟩, .rename 2 false [0x61] [0x62])]) (by decide +kernel)
  obtain ⟨expires, _, _, inCluster⟩ := side_tables_stay_coherent true 15 _ s performed
  obtain ⟨s', deleted, lookups⟩ := (inCluster rfl).2.2 (keyHashSlot [0x62])
  exact ⟨s, performed, expires, s', deleted, by rw [lookups, if_pos rfl]⟩

end RedisCore.Keyspace
