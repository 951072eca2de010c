import RedisCore.Lib.SortedSet
import RedisCore.Lib.Outcome
import RedisCore.Lib.ByteOrder

set_option autoImplicit false

namespace RedisCore.Keyspace

open Lib

def crc16tab : Array (BitVec 16) := #[
  0x0000, 0x1021, 0x2042, 0x3063, 0x4084, 0x50a5, 0x60c6, 0x70e7, 0x8108, 0x9129, 0xa14a, 0xb16b, 0xc18c, 0xd1ad, 0xe1ce, 0xf1ef,
  0x1231, 0x0210, 0x3273, 0x2252, 0x52b5, 0x4294, 0x72f7, 0x62d6, 0x9339, 0x8318, 0xb37b, 0xa35a, 0xd3bd, 0xc39c, 0xf3ff, 0xe3de,
  0x2462, 0x3443, 0x0420, 0x1401, 0x64e6, 0x74c7, 0x44a4, 0x5485, 0xa56a, 0xb54b, 0x8528, 0x9509, 0xe5ee, 0xf5cf, 0xc5ac, 0xd58d,
  0x3653, 0x2672, 0x1611, 0x0630, 0x76d7, 0x66f6, 0x5695, 0x46b4, 0xb75b, 0xa77a, 0x9719, 0x8738, 0xf7df, 0xe7fe, 0xd79d, 0xc7bc,
  0x48c4, 0x58e5, 0x6886, 0x78a7, 0x0840, 0x1861, 0x2802, 0x3823, 0xc9cc, 0xd9ed, 0xe98e, 0xf9af, 0x8948, 0x9969, 0xa90a, 0xb92b,
  0x5af5, 0x4ad4, 0x7ab7, 0x6a96, 0x1a71, 0x0a50, 0x3a33, 0x2a12, 0xdbfd, 0xcbdc, 0xfbbf, 0xeb9e, 0x9b79, 0x8b58, 0xbb3b, 0xab1a,
  0x6ca6, 0x7c87, 0x4ce4, 0x5cc5, 0x2c22, 0x3c03, 0x0c60, 0x1c41, 0xedae, 0xfd8f, 0xcdec, 0xddcd, 0xad2a, 0xbd0b, 0x8d68, 0x9d49,
  0x7e97, 0x6eb6, 0x5ed5, 0x4ef4, 0x3e13, 0x2e32, 0x1e51, 0x0e70, 0xff9f, 0xefbe, 0xdfdd, 0xcffc, 0xbf1b, 0xaf3a, 0x9f59, 0x8f78,
  0x9188, 0x81a9, 0xb1ca, 0xa1eb, 0xd10c, 0xc12d, 0xf14e, 0xe16f, 0x1080, 0x00a1, 0x30c2, 0x20e3, 0x5004, 0x4025, 0x7046, 0x6067,
  0x83b9, 0x9398, 0xa3fb, 0xb3da, 0xc33d, 0xd31c, 0xe37f, 0xf35e, 0x02b1, 0x1290, 0x22f3, 0x32d2, 0x4235, 0x5214, 0x6277, 0x7256,
  0xb5ea, 0xa5cb, 0x95a8, 0x8589, 0xf56e, 0xe54f, 0xd52c, 0xc50d, 0x34e2, 0x24c3, 0x14a0, 0x0481, 0x7466, 0x6447, 0x5424, 0x4405,
  0xa7db, 0xb7fa, 0x8799, 0x97b8, 0xe75f, 0xf77e, 0xc71d, 0xd73c, 0x26d3, 0x36f2, 0x0691, 0x16b0, 0x6657, 0x7676, 0x4615, 0x5634,
  0xd94c, 0xc96d, 0xf90e, 0xe92f, 0x99c8, 0x89e9, 0xb98a, 0xa9ab, 0x5844, 0x4865, 0x7806, 0x6827, 0x18c0, 0x08e1, 0x3882, 0x28a3,
  0xcb7d, 0xdb5c, 0xeb3f, 0xfb1e, 0x8bf9, 0x9bd8, 0xabbb, 0xbb9a, 0x4a75, 0x5a54, 0x6a37, 0x7a16, 0x0af1, 0x1ad0, 0x2ab3, 0x3a92,
  0xfd2e, 0xed0f, 0xdd6c, 0xcd4d, 0xbdaa, 0xad8b, 0x9de8, 0x8dc9, 0x7c26, 0x6c07, 0x5c64, 0x4c45, 0x3ca2, 0x2c83, 0x1ce0, 0x0cc1,
  0xef1f, 0xff3e, 0xcf5d, 0xdf7c, 0xaf9b, 0xbfba, 0x8fd9, 0x9ff8, 0x6e17, 0x7e36, 0x4e55, 0x5e74, 0x2e93, 0x3eb2, 0x0ed1, 0x1ef0]

def crc16 (buf : Bytes) : BitVec 16 :=
  buf.foldl (fun crc byte => crc <<< 8 ^^^ crc16tab.getD ((crc >>> 8 ^^^ byte.toBitVec.setWidth 16) &&& 0x00FF).toNat 0) 0

-- The output for "123456789".
example : crc16 [0x31, 0x32, 0x33, 0x34, 0x35, 0x36, 0x37, 0x38, 0x39] = 0x31C3 := by decide +kernel

abbrev Slot := Fin 16384

def slotOf (buf : Bytes) : Slot := ⟨(crc16 buf &&& 0x3FFF).toNat % 16384, Nat.mod_lt _ (by decide)⟩

def hashTag (key : Bytes) : Option Bytes :=
  match key.dropWhile (· ≠ 0x7b) with
  | [] => none
  | _ :: rest =>
    let tag := rest.takeWhile (· ≠ 0x7d)
    if tag.length = rest.length ∨ tag = [] then none else some tag

def keyHashSlot (key : Bytes) : Slot := slotOf ((hashTag key).getD key)

-- The key of slots_to_keys: the slot in two bytes, then the key.
def slotBytes (slot : Slot) : Bytes := [UInt8.ofNat (slot / 256), UInt8.ofNat slot]

def indexed (key : Bytes) : Bytes := slotBytes (keyHashSlot key) ++ key

theorem slotBytes_inj (a b : Slot) (same : slotBytes a = slotBytes b) : a = b := by
  simp only [slotBytes, List.cons.injEq, and_true] at same
  have high := congrArg UInt8.toNat same.1
  have low := congrArg UInt8.toNat same.2
  simp only [UInt8.toNat_ofNat'] at high low
  have first := a.isLt
  have second := b.isLt
  exact Fin.ext (by omega)

theorem indexed_inj {a b : Bytes} (same : indexed a = indexed b) : a = b := by
  simp only [indexed, slotBytes, List.cons_append, List.nil_append, List.cons.injEq] at same
  exact same.2.2

scoped instance decidableMemKeys (key : Bytes) (keys : List Bytes) : Decidable (key ∈ keys) := inferInstance

-- other stands for hashes, sorted sets and module values.
inductive Value where
  | string (content : Bytes)
  | list (items : List Bytes)
  | set (members : SortedSet Bytes)
  | other (type : Nat) (content : Bytes)
  deriving DecidableEq

def Value.isList : Value → Bool
  | .list _ => true
  | _ => false

def Value.items : Value → List Bytes
  | .list items => items
  | _ => []

inductive Fault where
  | assertion
  deriving DecidableEq

abbrev ClientId := Nat

inductive Position where
  | head
  | tail
  deriving DecidableEq

inductive StoreOp where
  | inter
  | union
  | diff
  deriving DecidableEq

-- The commands with their parsed arguments. picks are the random choices of SPOP, output is what SORT
-- has to store, payload is what RESTORE has read from its argument.
inductive Command where
  | get (key : Bytes)
  | set (key value : Bytes) (nx xx : Bool) (ttl : Option Int)
  | getset (key value : Bytes)
  | setrange (key : Bytes) (offset : Int) (value : Bytes)
  | append (key value : Bytes)
  | mset (pairs : List (Bytes × Bytes)) (nx : Bool)
  | incrby (key : Bytes) (incr : Int)
  | incrbyfloat (key : Bytes) (sum : Option Bytes)
  | push (side : Position) (key : Bytes) (values : List Bytes)
  | pushx (side : Position) (key : Bytes) (values : List Bytes)
  | linsert (key : Bytes) (side : Position) (pivot value : Bytes)
  | lset (key : Bytes) (index : Int) (value : Bytes)
  | pop (side : Position) (key : Bytes)
  | ltrim (key : Bytes) (start stop : Int)
  | lrem (key : Bytes) (count : Int) (value : Bytes)
  | rpoplpush (src dst : Bytes)
  | bpop (side : Position) (keys : List Bytes) (timeout : Int)
  | brpoplpush (src dst : Bytes) (timeout : Int)
  | sadd (key first : Bytes) (members : List Bytes)
  | srem (key : Bytes) (members : List Bytes)
  | smove (src dst member : Bytes)
  | spop (key : Bytes) (pick : Nat)
  | spopCount (key : Bytes) (count : Int) (picks : List Nat)
  | sstore (op : StoreOp) (dst first : Bytes) (keys : List Bytes)
  | sortStore (key dst : Bytes) (output : List Bytes)
  | del (lazy : Bool) (keys : List Bytes)
  | rename (nx : Bool) (src dst : Bytes)
  | move (key : Bytes) (dbid : Int)
  | swapdb (id1 id2 : Int)
  | restore (key : Bytes) (ttl : Int) (payload : Option Value) (replace : Bool)
  | expire (key : Bytes) (relative : Bool) (time : Int)
  | persist (key : Bytes)
  | flushdb (async : Bool)
  | flushall (async : Bool)
  | select (id : Int)
  | watch (keys : List Bytes)
  | unwatch
  | multi
  | exec
  | discard
  deriving DecidableEq

inductive Reply where
  | ok
  | queued
  | error (text : String)
  | integer (value : Int)
  | bulk (value : Bytes)
  | nullBulk
  | multiBulk (items : List Bytes)
  | nullMultiBulk
  | arrayHeader (length : Nat)
  deriving DecidableEq

-- An entry of watched_keys. value is what the key held when WATCH was executed, and mark the number of
-- keys that had expired by then.
structure Watch where
  db : Nat
  key : Bytes
  value : Option Value
  mark : Nat
  deriving DecidableEq

-- What a client is blocked for. ticket counts the clients that blocked before it.
structure Bpop where
  keys : List Bytes
  target : Option Bytes
  side : Position
  timeout : Int
  ticket : Nat
  deriving DecidableEq

structure Client where
  db : Nat
  inMulti : Bool
  dirtyCas : Bool
  dirtyExec : Bool
  commands : List Command
  watchedKeys : List Watch
  bpop : Option Bpop
  replies : List Reply

structure Db where
  dict : AList fun _ : Bytes => Value
  expires : AList fun _ : Bytes => Int
  blockingKeys : AList fun _ : Bytes => List ClientId
  readyKeys : List Bytes
  watchedKeys : AList fun _ : Bytes => List ClientId

-- expired records the keys that expiration removed, lost the list elements it removed with them, tickets the
-- number of times a client has blocked, propagated the commands handed to the AOF and the slaves. rewritten,
-- also and prevent are what the running command asks call() to propagate.
-- slots_keys_count holds 64-bit unsigned integers, and there are fewer keys than that.
structure Server where
  clusterEnabled : Bool
  dbnum : Nat
  isSlave : Bool
  loading : Bool
  lazyExpire : Bool
  lazyServerDel : Bool
  now : Int
  dirty : Int
  db : Nat → Db
  client : ClientId → Client
  readyKeys : List (Nat × Bytes)
  slotsToKeys : SortedSet Bytes
  slotsKeysCount : Slot → Nat
  expired : List (Nat × Bytes)
  lost : List (Nat × Bytes)
  tickets : Nat
  propagated : List (Nat × Command)
  rewritten : Option Command
  also : List (Nat × Command)
  prevent : Bool

section

variable (s : Server)

def Server.modifyDb (j : Nat) (f : Db → Db) : Server := { s with db := Function.update s.db j (f (s.db j)) }

def Server.modifyClient (c : ClientId) (f : Client → Client) : Server :=
  { s with client := Function.update s.client c (f (s.client c)) }

def addReply (c : ClientId) (reply : Reply) : Server := s.modifyClient c fun client => { client with replies := client.replies ++ [reply] }

def lookupKey (j : Nat) (key : Bytes) : Option Value := (s.db j).dict.lookup key

def flagDirtyCas (c : ClientId) : Server := s.modifyClient c fun client => { client with dirtyCas := true }

def touchWatchedKey (j : Nat) (key : Bytes) : Server :=
  (((s.db j).watchedKeys.lookup key).getD []).foldl flagDirtyCas s

def signalModifiedKey (j : Nat) (key : Bytes) : Server := touchWatchedKey s j key

def signalListAsReady (j : Nat) (key : Bytes) : Server :=
  if key ∉ (s.db j).blockingKeys then s
  else if key ∈ (s.db j).readyKeys then s
  else { s.modifyDb j fun db => { db with readyKeys := db.readyKeys ++ [key] } with readyKeys := s.readyKeys ++ [(j, key)] }

def countDown (count : Nat) : Nat := if count = 0 then 2 ^ 64 - 1 else count - 1

def slotToKeyAdd (key : Bytes) : Server :=
  { s with
    slotsKeysCount := Function.update s.slotsKeysCount (keyHashSlot key) (s.slotsKeysCount (keyHashSlot key) + 1)
    slotsToKeys := s.slotsToKeys.insert (indexed key) }

def slotToKeyDel (key : Bytes) : Server :=
  { s with
    slotsKeysCount := Function.update s.slotsKeysCount (keyHashSlot key) (countDown (s.slotsKeysCount (keyHashSlot key)))
    slotsToKeys := s.slotsToKeys.erase (indexed key) }

def slotToKeyFlush : Server := { s with slotsKeysCount := fun _ => 0, slotsToKeys := SortedSet.empty }

def setValue (j : Nat) (key : Bytes) (val : Value) : Server := s.modifyDb j fun db => { db with dict := db.dict.insert key val }

def indexAdded (key : Bytes) : Server := if s.clusterEnabled then slotToKeyAdd s key else s

def indexDeleted (key : Bytes) : Server := if s.clusterEnabled then slotToKeyDel s key else s

def listAdded (j : Nat) (key : Bytes) (val : Value) : Server := if val.isList then signalListAsReady s j key else s

def dbAdd (j : Nat) (key : Bytes) (val : Value) : Except Fault Server :=
  if key ∈ (s.db j).dict then .error .assertion else .ok (indexAdded (listAdded (setValue s j key val) j key val) key)

def dbOverwrite (j : Nat) (key : Bytes) (val : Value) : Except Fault Server :=
  if key ∈ (s.db j).dict then .ok (setValue s j key val) else .error .assertion

def eraseKey (j : Nat) (key : Bytes) : Server :=
  s.modifyDb j fun db => { db with dict := db.dict.erase key, expires := db.expires.erase key }

-- dbSyncDelete frees the value at once, dbAsyncDelete maybe in the background.
def unlinkKey (j : Nat) (key : Bytes) : Server × Bool :=
  if key ∈ (s.db j).dict then (indexDeleted (eraseKey s j key) key, true) else (eraseKey s j key, false)

def dbSyncDelete (j : Nat) (key : Bytes) : Server × Bool := unlinkKey s j key

def dbAsyncDelete (j : Nat) (key : Bytes) : Server × Bool := unlinkKey s j key

def dbDelete (j : Nat) (key : Bytes) : Server × Bool :=
  if s.lazyServerDel then dbAsyncDelete s j key else dbSyncDelete s j key

def removeExpire (j : Nat) (key : Bytes) : Except Fault Server :=
  if key ∈ (s.db j).dict then .ok (s.modifyDb j fun db => { db with expires := db.expires.erase key }) else .error .assertion

def setExpire (j : Nat) (key : Bytes) (when : Int) : Except Fault Server :=
  if key ∈ (s.db j).dict then .ok (s.modifyDb j fun db => { db with expires := db.expires.insert key when })
  else .error .assertion

-- -1 if there is no expire.
def getExpire (j : Nat) (key : Bytes) : Except Fault Int :=
  match (s.db j).expires.lookup key with
  | none => .ok (-1)
  | some when => if key ∈ (s.db j).dict then .ok when else .error .assertion

def propagateExpire (j : Nat) (key : Bytes) : Server :=
  { s with
    expired := s.expired ++ [(j, key)]
    lost := s.lost ++ (((lookupKey s j key).map Value.items).getD []).map (j, ·)
    propagated := s.propagated ++ [(j, .del s.lazyExpire [key])] }

def deleteExpired (j : Nat) (key : Bytes) : Server × Bool :=
  let s := propagateExpire s j key
  if s.lazyExpire then dbAsyncDelete s j key else dbSyncDelete s j key

-- Whether the key is expired; a slave leaves it to its master to delete the key.
def expireAt (j : Nat) (key : Bytes) (when : Int) : Server × Bool :=
  if when < 0 ∨ s.loading then (s, false)
  else if s.isSlave then (s, decide (when < s.now))
  else if s.now ≤ when then (s, false)
  else deleteExpired s j key

def expireIfNeeded (j : Nat) (key : Bytes) : Except Fault (Server × Bool) := do
  let when ← getExpire s j key
  return expireAt s j key when

def lookupKeyWrite (j : Nat) (key : Bytes) : Except Fault (Server × Option Value) := do
  let checked ← expireIfNeeded s j key
  return (checked.1, lookupKey checked.1 j key)

-- The entry of the expires dictionary that the active cycle has picked.
def activeExpireCycleTryExpire (j : Nat) (key : Bytes) (now : Int) : Server :=
  match (s.db j).expires.lookup key with
  | none => s
  | some when => if when < now then (deleteExpired s j key).1 else s

def addOrOverwrite (j : Nat) (key : Bytes) (val : Value) (old : Option Value) : Except Fault Server :=
  match old with
  | none => dbAdd s j key val
  | some _ => dbOverwrite s j key val

def setKey (j : Nat) (key : Bytes) (val : Value) : Except Fault Server := do
  let found ← lookupKeyWrite s j key
  let written ← addOrOverwrite found.1 j key val found.2
  let persistent ← removeExpire written j key
  return signalModifiedKey persistent j key

def emptyOne (j : Nat) : Server := s.modifyDb j fun db => { db with dict := ∅, expires := ∅ }

def emptyAll : Server := { s with db := fun j => if j < s.dbnum then { s.db j with dict := ∅, expires := ∅ } else s.db j }

-- The database flushed, or all of them. Whether the memory is freed in the background makes no difference here.
inductive Flushed where
  | one (j : Nat)
  | all

def flushedTables (which : Flushed) : Server :=
  match which with
  | .one j => emptyOne s j
  | .all => emptyAll s

def emptyDb (which : Flushed) (_async : Bool) : Server :=
  if s.clusterEnabled then slotToKeyFlush (flushedTables s which) else flushedTables s which

def emptyDbRemoved (which : Flushed) : Nat :=
  match which with
  | .one j => (s.db j).dict.entries.length
  | .all => ((List.range s.dbnum).map fun j => (s.db j).dict.entries.length).sum

def touchedByFlush (which : Flushed) (w : Watch) : Bool :=
  (match which with
    | .one j => decide (w.db = j)
    | .all => true) && decide (w.key ∈ (s.db w.db).dict)

def touchWatchedKeysOnFlush (which : Flushed) : Server :=
  { s with client := fun c =>
      if (s.client c).watchedKeys.any (touchedByFlush s which) then { s.client c with dirtyCas := true } else s.client c }

def signalFlushedDb (which : Flushed) : Server := touchWatchedKeysOnFlush s which

-- A long passed for an int.
def toInt (id : Int) : Int := id.bmod (2 ^ 32)

def selectDb (id : Int) : Option Nat := if id < 0 ∨ (s.dbnum : Int) ≤ id then none else some id.toNat

def scanDatabaseForReadyLists (j : Nat) : Server :=
  (s.db j).blockingKeys.keys.foldl (fun s key => if ((lookupKey s j key).any Value.isList) then signalListAsReady s j key else s) s

def swapTables (id1 id2 : Nat) : Server :=
  { s with db := fun j =>
      if j = id1 then { s.db id1 with dict := (s.db id2).dict, expires := (s.db id2).expires }
      else if j = id2 then { s.db id2 with dict := (s.db id1).dict, expires := (s.db id1).expires }
      else s.db j }

def dbSwapDatabases (id1 id2 : Nat) : Server :=
  if id1 = id2 then s else scanDatabaseForReadyLists (scanDatabaseForReadyLists (swapTables s id1 id2) id1) id2

-- The keys of slots_to_keys from the two bytes of the slot on.
def seekSlot (slot : Slot) : Option Bytes := s.slotsToKeys.items.find? fun x => slotBytes slot ≤ x

def delKeysInSlotLoop (slot : Slot) : (fuel : Nat) → Server → Nat → Option (Server × Nat)
  | 0, _, _ => none
  | fuel + 1, s, deleted =>
    if s.slotsKeysCount slot = 0 then some (s, deleted)
    else delKeysInSlotLoop slot fuel (dbDelete s 0 (((seekSlot s slot).getD []).drop 2)).1 (deleted + 1)

def delKeysInSlot (slot : Slot) : Option (Server × Nat) := delKeysInSlotLoop slot (s.slotsKeysCount slot + 1) s 0

end

end RedisCore.Keyspace
