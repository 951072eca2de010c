import RedisCore.Keyspace.Server

set_option autoImplicit false

namespace RedisCore.Keyspace

open Lib

variable {key : Bytes} {j : Nat}

def inSlot (slot : Slot) (key : Bytes) : Bool := decide (keyHashSlot key = slot)

structure Coherent (cluster : Bool) (s : Server) : Prop where
  mode : s.clusterEnabled = cluster
  dbs : 0 < s.dbnum
  expires : ∀ j key, key ∈ (s.db j).expires → key ∈ (s.db j).dict
  index : cluster = true → ∀ x, x ∈ s.slotsToKeys ↔ ∃ key, key ∈ (s.db 0).dict ∧ indexed key = x
  counts : cluster = true → ∀ slot, s.slotsKeysCount slot = keyCount (inSlot slot) (s.db 0).dict
  others : cluster = true → ∀ j, j ≠ 0 → (s.db j).dict = ∅
  selected : cluster = true → ∀ c, (s.client c).db = 0

structure SameTables (s s' : Server) : Prop where
  cluster : s'.clusterEnabled = s.clusterEnabled
  dbnum : s'.dbnum = s.dbnum
  dict : ∀ j, (s'.db j).dict = (s.db j).dict
  expires : ∀ j, (s'.db j).expires = (s.db j).expires
  slots : s'.slotsToKeys = s.slotsToKeys
  counts : s'.slotsKeysCount = s.slotsKeysCount
  client : ∀ c, (s'.client c).db = (s.client c).db

section

variable {cluster : Bool} {s s' s'' : Server}

theorem SameTables.refl (s : Server) : SameTables s s := ⟨rfl, rfl, fun _ => rfl, fun _ => rfl, rfl, rfl, fun _ => rfl⟩

theorem SameTables.trans (first : SameTables s s') (second : SameTables s' s'') : SameTables s s'' where
  cluster := second.cluster.trans first.cluster
  dbnum := second.dbnum.trans first.dbnum
  dict := fun j => (second.dict j).trans (first.dict j)
  expires := fun j => (second.expires j).trans (first.expires j)
  slots := second.slots.trans first.slots
  counts := second.counts.trans first.counts
  client := fun c => (second.client c).trans (first.client c)

theorem Coherent.of_same (coherent : Coherent cluster s) (same : SameTables s s') : Coherent cluster s' where
  mode := same.cluster.trans coherent.mode
  dbs := same.dbnum ▸ coherent.dbs
  expires := fun j key => by
    rw [same.expires, same.dict]
    exact coherent.expires j key
  index := by
    rw [same.slots, same.dict]
    exact coherent.index
  counts := by
    rw [same.counts, same.dict]
    exact coherent.counts
  others := fun enabled j other => by
    rw [same.dict]
    exact coherent.others enabled j other
  selected := fun enabled c => by
    rw [same.client]
    exact coherent.selected enabled c

theorem modifyClient_same {c : ClientId} (f : Client → Client) (db : (f (s.client c)).db = (s.client c).db) :
    SameTables s (s.modifyClient c f) := by
  refine ⟨rfl, rfl, fun _ => rfl, fun _ => rfl, rfl, rfl, ?_⟩
  intro k
  by_cases here : k = c <;> simp [Server.modifyClient, here, db]

theorem addReply_same (c : ClientId) (reply : Reply) : SameTables s (addReply s c reply) := modifyClient_same _ rfl

theorem signalModifiedKey_same (j : Nat) (key : Bytes) : SameTables s (signalModifiedKey s j key) := by
  unfold signalModifiedKey touchWatchedKey
  generalize ((s.db j).watchedKeys.lookup key).getD [] = clients
  induction clients generalizing s with
  | nil => exact .refl s
  | cons c rest ih => exact (modifyClient_same _ rfl).trans ih

theorem modifyDb_same (j : Nat) (f : Db → Db) (dict : (f (s.db j)).dict = (s.db j).dict)
    (expires : (f (s.db j)).expires = (s.db j).expires) : SameTables s (s.modifyDb j f) := by
  refine ⟨rfl, rfl, ?_, ?_, rfl, rfl, fun _ => rfl⟩
  · intro k
    by_cases here : k = j <;> simp [Server.modifyDb, here, dict]
  · intro k
    by_cases here : k = j <;> simp [Server.modifyDb, here, expires]

theorem signalListAsReady_same (j : Nat) (key : Bytes) : SameTables s (signalListAsReady s j key) := by
  unfold signalListAsReady
  split
  · exact .refl s
  split
  · exact .refl s
  · have ready := modifyDb_same (s := s) j (fun db => { db with readyKeys := db.readyKeys ++ [key] }) rfl rfl
    exact ⟨ready.cluster, ready.dbnum, ready.dict, ready.expires, ready.slots, ready.counts, ready.client⟩

theorem listAdded_same (j : Nat) (key : Bytes) (val : Value) : SameTables s (listAdded s j key val) := by
  unfold listAdded
  split
  · exact signalListAsReady_same j key
  · exact .refl s

@[simp] theorem modifyDb_db (j k : Nat) (f : Db → Db) : (s.modifyDb j f).db k = if k = j then f (s.db j) else s.db k := by
  simp [Server.modifyDb, Function.update_apply]

theorem setValue_coherent (coherent : Coherent cluster s) (val : Value) (present : key ∈ (s.db j).dict) :
    Coherent cluster (setValue s j key val) := by
  have member : ∀ k x, x ∈ ((setValue s j key val).db k).dict ↔ x ∈ (s.db k).dict := by
    intro k x
    by_cases here : k = j
    · subst here
      simp only [setValue, modifyDb_db, if_true, AList.mem_insert]
      exact ⟨fun either => either.elim (fun same => same ▸ present) id, Or.inr⟩
    · simp [setValue, here]
  refine ⟨coherent.mode, coherent.dbs, ?_, ?_, ?_, ?_, coherent.selected⟩
  · intro k x inside
    rw [member]
    refine coherent.expires k x ?_
    by_cases here : k = j
    · subst here
      simpa [setValue] using inside
    · simpa [setValue, here] using inside
  · intro enabled x
    simp only [member]
    exact coherent.index enabled x
  · intro enabled slot
    rw [show (setValue s j key val).slotsKeysCount slot = s.slotsKeysCount slot from rfl, coherent.counts enabled slot]
    by_cases here : 0 = j
    · subst here
      simp [setValue, keyCount_insert_of_mem, present]
    · simp [setValue, here]
  · intro enabled k other
    by_cases here : k = j
    · subst here
      rw [coherent.others enabled k other] at present
      simp at present
    · simpa [setValue, here] using coherent.others enabled k other

structure SameData (s s' : Server) : Prop where
  cluster : s'.clusterEnabled = s.clusterEnabled
  dbnum : s'.dbnum = s.dbnum
  db : s'.db = s.db
  client : s'.client = s.client

theorem indexAdded_data (key : Bytes) : SameData s (indexAdded s key) := by
  unfold indexAdded
  split <;> exact ⟨rfl, rfl, rfl, rfl⟩

theorem indexDeleted_data (key : Bytes) : SameData s (indexDeleted s key) := by
  unfold indexDeleted
  split <;> exact ⟨rfl, rfl, rfl, rfl⟩

theorem add_coherent (coherent : Coherent cluster s) (val : Value) (absent : key ∉ (s.db j).dict)
    (only : cluster = true → j = 0) : Coherent cluster (indexAdded (setValue s j key val) key) := by
  have data := indexAdded_data (s := setValue s j key val) key
  have tables : ∀ k, ((setValue s j key val).db k).dict = if k = j then (s.db j).dict.insert key val else (s.db k).dict := by
    intro k
    by_cases here : k = j <;> simp [setValue, here]
  refine ⟨data.cluster.trans coherent.mode, by rw [data.dbnum]; exact coherent.dbs, ?_, ?_, ?_, ?_, ?_⟩
  · intro k x inside
    rw [data.db] at inside ⊢
    rw [tables]
    by_cases here : k = j
    · subst here
      rw [if_pos rfl, AList.mem_insert]
      exact .inr (coherent.expires k x (by simpa [setValue] using inside))
    · rw [if_neg here]
      exact coherent.expires k x (by simpa [setValue, here] using inside)
  · intro enabled x
    have mode : s.clusterEnabled = true := coherent.mode.trans enabled
    obtain rfl := only enabled
    rw [data.db, tables, if_pos rfl]
    simp only [indexAdded, setValue, Server.modifyDb, mode, if_true, slotToKeyAdd, SortedSet.mem_insert, AList.mem_insert,
      coherent.index enabled x]
    constructor
    · rintro (rfl | ⟨other, inside, rfl⟩)
      · exact ⟨key, .inl rfl, rfl⟩
      · exact ⟨other, .inr inside, rfl⟩
    · rintro ⟨other, rfl | inside, rfl⟩
      · exact .inl rfl
      · exact .inr ⟨other, inside, rfl⟩
  · intro enabled slot
    have mode : s.clusterEnabled = true := coherent.mode.trans enabled
    obtain rfl := only enabled
    have counted : (indexAdded (setValue s 0 key val) key).slotsKeysCount slot =
        s.slotsKeysCount slot + if keyHashSlot key = slot then 1 else 0 := by
      simp only [indexAdded, setValue, Server.modifyDb, mode, if_true, slotToKeyAdd]
      by_cases here : slot = keyHashSlot key
      · simp [here]
      · rw [Function.update_of_ne here, if_neg (Ne.symm here), Nat.add_zero]
    rw [counted, data.db, tables, if_pos rfl, keyCount_insert_of_notMem _ _ absent, coherent.counts enabled slot]
    simp [inSlot]
  · intro enabled k other
    rw [data.db, tables, if_neg (fun same => other (same.trans (only enabled)))]
    exact coherent.others enabled k other
  · intro enabled c
    rw [data.client]
    exact coherent.selected enabled c

theorem dbAdd_ok {val : Value} {s' : Server} (added : dbAdd s j key val = .ok s') :
    key ∉ (s.db j).dict ∧ s' = indexAdded (listAdded (setValue s j key val) j key val) key := by
  unfold dbAdd at added
  split_ifs at added with present
  exact ⟨present, (Except.ok.inj added).symm⟩

theorem indexAdded_same (key : Bytes) (same : SameTables s s') : SameTables (indexAdded s key) (indexAdded s' key) := by
  unfold indexAdded
  rw [same.cluster]
  split
  · refine ⟨same.cluster, same.dbnum, same.dict, same.expires, ?_, ?_, same.client⟩
    · simp only [slotToKeyAdd, same.slots]
    · simp only [slotToKeyAdd, same.counts]
  · exact same

theorem dbAdd_coherent (coherent : Coherent cluster s) {val : Value} (only : cluster = true → j = 0)
    {s' : Server} (added : dbAdd s j key val = .ok s') : Coherent cluster s' := by
  obtain ⟨absent, rfl⟩ := dbAdd_ok added
  exact (add_coherent coherent val absent only).of_same (indexAdded_same key (listAdded_same j key val))

theorem unlinkKey_coherent (coherent : Coherent cluster s) (j : Nat) (key : Bytes) : Coherent cluster (unlinkKey s j key).1 := by
  have tables : ∀ k, ((eraseKey s j key).db k).dict = if k = j then (s.db j).dict.erase key else (s.db k).dict := by
    intro k
    by_cases here : k = j <;> simp [eraseKey, here]
  have expiring : ∀ k x, x ∈ ((eraseKey s j key).db k).expires → x ∈ (s.db k).expires ∧ (k = j → x ≠ key) := by
    intro k x inside
    by_cases here : k = j
    · subst here
      simp only [eraseKey, modifyDb_db, if_true, AList.mem_erase] at inside
      exact ⟨inside.2, fun _ => inside.1⟩
    · exact ⟨by simpa [eraseKey, here] using inside, fun same => absurd same here⟩
  have expires : ∀ k x, x ∈ ((eraseKey s j key).db k).expires → x ∈ ((eraseKey s j key).db k).dict := by
    intro k x inside
    obtain ⟨before, other⟩ := expiring k x inside
    rw [tables]
    split_ifs with here
    · subst here
      exact AList.mem_erase.mpr ⟨other rfl, coherent.expires k x before⟩
    · exact coherent.expires k x before
  unfold unlinkKey
  split_ifs with present
  · have data := indexDeleted_data (s := eraseKey s j key) key
    -- In cluster mode only the first database has keys.
    have only : cluster = true → j = 0 := by
      intro enabled
      by_contra other
      rw [coherent.others enabled j other] at present
      simp at present
    refine ⟨data.cluster.trans coherent.mode, by rw [data.dbnum]; exact coherent.dbs, ?_, ?_, ?_, ?_, ?_⟩
    · rw [data.db]
      exact expires
    · intro enabled x
      have mode : s.clusterEnabled = true := coherent.mode.trans enabled
      obtain rfl := only enabled
      rw [data.db, tables, if_pos rfl]
      simp only [indexDeleted, eraseKey, Server.modifyDb, mode, if_true, slotToKeyDel, SortedSet.mem_erase, AList.mem_erase,
        coherent.index enabled x]
      constructor
      · rintro ⟨different, other, inside, rfl⟩
        exact ⟨other, ⟨fun same => different (same ▸ rfl), inside⟩, rfl⟩
      · rintro ⟨other, ⟨different, inside⟩, rfl⟩
        exact ⟨fun same => different (indexed_inj same), other, inside, rfl⟩
    · intro enabled slot
      have mode : s.clusterEnabled = true := coherent.mode.trans enabled
      obtain rfl := only enabled
      have erased := keyCount_erase (inSlot slot) present
      have before := coherent.counts enabled slot
      have counted : (indexDeleted (eraseKey s 0 key) key).slotsKeysCount slot + (if inSlot slot key then 1 else 0) =
          s.slotsKeysCount slot := by
        simp only [indexDeleted, eraseKey, Server.modifyDb, mode, if_true, slotToKeyDel]
        by_cases here : slot = keyHashSlot key
        · subst here
          have mine : inSlot (keyHashSlot key) key = true := by simp [inSlot]
          rw [mine, if_pos rfl] at erased
          rw [Function.update_self, mine, if_pos rfl, countDown, if_neg (by omega)]
          omega
        · have other : inSlot slot key = false := by simp [inSlot, Ne.symm here]
          rw [Function.update_of_ne here, other]
          simp
      rw [data.db, tables, if_pos rfl]
      change (indexDeleted (eraseKey s 0 key) key).slotsKeysCount slot = _
      omega
    · intro enabled k other
      rw [data.db, tables, if_neg (fun same => other (same.trans (only enabled)))]
      exact coherent.others enabled k other
    · intro enabled c
      rw [data.client]
      exact coherent.selected enabled c
  · have same : ∀ k, ((eraseKey s j key).db k).dict = (s.db k).dict := by
      intro k
      rw [tables]
      split_ifs with here
      · rw [here, erase_of_notMem present]
      · rfl
    refine ⟨coherent.mode, coherent.dbs, expires, ?_, ?_, ?_, coherent.selected⟩
    · rw [same]
      exact coherent.index
    · rw [same]
      exact coherent.counts
    · intro enabled k other
      rw [same]
      exact coherent.others enabled k other

theorem dbDelete_eq (j : Nat) (key : Bytes) : dbDelete s j key = unlinkKey s j key := by
  unfold dbDelete dbAsyncDelete dbSyncDelete
  split <;> rfl

theorem expires_coherent (coherent : Coherent cluster s) {j : Nat} {expires : AList fun _ : Bytes => Int}
    (known : ∀ x, x ∈ expires → x ∈ (s.db j).dict) : Coherent cluster (s.modifyDb j fun db => { db with expires := expires }) := by
  have same : ∀ k, ((s.modifyDb j fun db => { db with expires := expires }).db k).dict = (s.db k).dict := by
    intro k
    by_cases here : k = j <;> simp [here]
  refine ⟨coherent.mode, coherent.dbs, ?_, ?_, ?_, ?_, coherent.selected⟩
  · intro k x inside
    rw [same]
    by_cases here : k = j
    · subst here
      exact known x (by simpa using inside)
    · exact coherent.expires k x (by simpa [here] using inside)
  · rw [same]
    exact coherent.index
  · rw [same]
    exact coherent.counts
  · intro enabled k other
    rw [same]
    exact coherent.others enabled k other

end

end RedisCore.Keyspace
