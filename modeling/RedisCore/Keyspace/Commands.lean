import RedisCore.Keyspace.State
import RedisCore.Util.LongLong

set_option autoImplicit false

namespace RedisCore.Keyspace

open Lib

def wrongType : Reply := .error "-WRONGTYPE Operation against a key holding the wrong kind of value"
def noKey : Reply := .error "-ERR no such key"
def outOfRange : Reply := .error "-ERR index out of range"
def notAnInteger : Reply := .error "-ERR value is not an integer or out of range"
def stringTooLong : Reply := .error "-ERR string exceeds maximum allowed size (512MB)"

-- What a command that has looked up its key does with it: only reply, or store a new value (no value
-- deletes the key).
inductive Edit where
  | reply (reply : Reply)
  | store (value : Option Value) (dirty : Int) (reply : Reply)

section

variable (s : Server) (c : ClientId)

def Server.addDirty (n : Int) : Server := { s with dirty := s.dirty + n }

def currentDb : Nat := (s.client c).db

def storeValue (j : Nat) (key : Bytes) (old new : Option Value) : Except Fault Server :=
  match old, new with
  | none, some val => dbAdd s j key val
  | some _, some val => dbOverwrite s j key val
  | _, none => .ok (dbDelete s j key).1

def applyEdit (j : Nat) (key : Bytes) (old : Option Value) (edit : Edit) : Except Fault Server :=
  match edit with
  | .reply reply => .ok (addReply s c reply)
  | .store new dirty reply => do
    let stored ← storeValue s j key old new
    return addReply ((signalModifiedKey stored j key).addDirty dirty) c reply

def editKey (key : Bytes) (edit : Option Value → Edit) : Except Fault Server := do
  let found ← lookupKeyWrite s (currentDb s c) key
  applyEdit found.1 c (currentDb s c) key found.2 (edit found.2)

-- lookupKeyRead: a slave reports an expired key as missing to commands that only read.
def lookupKeyRead (j : Nat) (key : Bytes) (readonly : Bool) : Except Fault (Server × Option Value) := do
  let checked ← expireIfNeeded s j key
  return (checked.1, if checked.2 && (!s.isSlave || readonly) then none else lookupKey checked.1 j key)

end

section strings

variable (s : Server) (c : ClientId)

def replyString (found : Option Value) : Reply :=
  match found with
  | none => .nullBulk
  | some (.string content) => .bulk content
  | some _ => wrongType

def getCommand (key : Bytes) : Except Fault Server := do
  let found ← lookupKeyRead s (currentDb s c) key true
  return addReply found.1 c (replyString found.2)

def setAborts (nx xx : Bool) (found : Option Value) : Bool := nx && found.isSome || xx && found.isNone

def setWithExpire (j : Nat) (key : Bytes) (ttl : Option Int) : Except Fault Server :=
  match ttl with
  | none => .ok s
  | some ttl => setExpire s j key (s.now + ttl)

def setFound (key value : Bytes) (nx xx : Bool) (ttl : Option Int) (found : Server × Option Value) : Except Fault Server :=
  if setAborts nx xx found.2 then .ok (addReply found.1 c .nullBulk)
  else do
    let written ← setKey found.1 (currentDb s c) key (.string value)
    let expiring ← setWithExpire (written.addDirty 1) (currentDb s c) key ttl
    return addReply expiring c .ok

-- NX and XX look the key up, a plain SET does not.
def setCommand (key value : Bytes) (nx xx : Bool) (ttl : Option Int) : Except Fault Server :=
  if ttl.any (· ≤ 0) then .ok (addReply s c (.error "-ERR invalid expire time in set"))
  else if nx || xx then do
    let found ← lookupKeyWrite s (currentDb s c) key
    setFound s c key value nx xx ttl found
  else setFound s c key value false false ttl (s, none)

def getsetFound (key value : Bytes) (found : Server × Option Value) : Except Fault Server :=
  if replyString found.2 = wrongType then .ok (addReply found.1 c wrongType)
  else do
    let written ← setKey (addReply found.1 c (replyString found.2)) (currentDb s c) key (.string value)
    return written.addDirty 1

def getsetCommand (key value : Bytes) : Except Fault Server := do
  let found ← lookupKeyRead s (currentDb s c) key false
  getsetFound s c key value found

def maxString : Int := 512 * 1024 * 1024

def overlay (old : Bytes) (offset : Nat) (value : Bytes) : Bytes :=
  old.take offset ++ List.replicate (offset - old.length) 0 ++ value ++ old.drop (offset + value.length)

def setrangeEdit (offset : Int) (value : Bytes) (found : Option Value) : Edit :=
  match found with
  | none =>
    if value = [] then .reply (.integer 0)
    else if maxString < offset + value.length then .reply stringTooLong
    else .store (some (.string (overlay [] offset.toNat value))) 1 (.integer (overlay [] offset.toNat value).length)
  | some (.string old) =>
    if value = [] then .reply (.integer old.length)
    else if maxString < offset + value.length then .reply stringTooLong
    else .store (some (.string (overlay old offset.toNat value))) 1 (.integer (overlay old offset.toNat value).length)
  | some _ => .reply wrongType

def setrangeCommand (key : Bytes) (offset : Int) (value : Bytes) : Except Fault Server :=
  if offset < 0 then .ok (addReply s c (.error "-ERR offset is out of range"))
  else editKey s c key (setrangeEdit offset value)

def appendEdit (value : Bytes) (found : Option Value) : Edit :=
  match found with
  | none => .store (some (.string value)) 1 (.integer value.length)
  | some (.string old) =>
    if maxString < old.length + value.length then .reply stringTooLong
    else .store (some (.string (old ++ value))) 1 (.integer (old ++ value).length)
  | some _ => .reply wrongType

def appendCommand (key value : Bytes) : Except Fault Server := editKey s c key (appendEdit value)

def addNumber (value incr : Int) : Edit :=
  if (incr < 0 ∧ value < 0 ∧ incr < -(2 ^ 63) - value) ∨ (0 < incr ∧ 0 < value ∧ 2 ^ 63 - 1 - value < incr) then
    .reply (.error "-ERR increment or decrement would overflow")
  else .store (some (.string (Util.llString (value + incr)))) 1 (.integer (value + incr))

def incrDecrEdit (incr : Int) (found : Option Value) : Edit :=
  match found with
  | none => addNumber 0 incr
  | some (.string content) =>
    match Util.string2ll content with
    | none => .reply notAnInteger
    | some value => addNumber value incr
  | some _ => .reply wrongType

def incrDecrCommand (key : Bytes) (incr : Int) : Except Fault Server := editKey s c key (incrDecrEdit incr)

-- sum is the new value, if both operands are numbers and their sum is one.
def incrbyfloatEdit (sum : Option Bytes) (found : Option Value) : Edit :=
  match found, sum with
  | none, some sum | some (.string _), some sum => .store (some (.string sum)) 1 (.bulk sum)
  | none, none | some (.string _), none => .reply (.error "-ERR value is not a valid float")
  | some _, _ => .reply wrongType

def incrbyfloatCommand (key : Bytes) (sum : Option Bytes) : Except Fault Server := do
  let edited ← editKey s c key (incrbyfloatEdit sum)
  return { edited with rewritten := sum.map fun sum => .set key sum false false none }

def countBusy (j : Nat) : Server → List (Bytes × Bytes) → Except Fault (Server × Bool)
  | s, [] => .ok (s, false)
  | s, pair :: rest => do
    let found ← lookupKeyWrite s j pair.1
    let others ← countBusy j found.1 rest
    return (others.1, found.2.isSome || others.2)

def msetAll (pairs : List (Bytes × Bytes)) (j : Nat) : Except Fault Server :=
  pairs.foldlM (fun s pair => setKey s j pair.1 (.string pair.2)) s

def msetWrite (pairs : List (Bytes × Bytes)) (reply : Reply) (j : Nat) : Except Fault Server := do
  let written ← msetAll s pairs j
  return addReply (written.addDirty pairs.length) c reply

def msetnxFound (pairs : List (Bytes × Bytes)) (j : Nat) (found : Server × Bool) : Except Fault Server :=
  if found.2 then .ok (addReply found.1 c (.integer 0)) else msetWrite found.1 c pairs (.integer 1) j

def msetGenericCommand (pairs : List (Bytes × Bytes)) (nx : Bool) : Except Fault Server :=
  if nx then do
    let found ← countBusy (currentDb s c) s pairs
    msetnxFound c pairs (currentDb s c) found
  else msetWrite s c pairs .ok (currentDb s c)

end strings

section lists

def pushOn (side : Position) (items : List Bytes) (value : Bytes) : List Bytes :=
  match side with
  | .head => value :: items
  | .tail => items ++ [value]

def popFrom (side : Position) (items : List Bytes) : Option (Bytes × List Bytes) :=
  match side with
  | .head => items.head?.map fun value => (value, items.tail)
  | .tail => items.getLast?.map fun value => (value, items.dropLast)

def listOrDelete (items : List Bytes) : Option Value := if items = [] then none else some (.list items)

def pushEdit (side : Position) (values : List Bytes) (found : Option Value) : Edit :=
  match found with
  | none =>
    if values = [] then .reply (.integer 0)
    else .store (some (.list (values.foldl (pushOn side) []))) values.length (.integer values.length)
  | some (.list items) =>
    if values = [] then .reply (.integer items.length)
    else .store (some (.list (values.foldl (pushOn side) items))) values.length
      (.integer (values.foldl (pushOn side) items).length)
  | some _ => .reply wrongType

def pushxEdit (side : Position) (values : List Bytes) (found : Option Value) : Edit :=
  match found with
  | none => .reply (.integer 0)
  | some _ => pushEdit side values found

def insertAt (side : Position) (pivot value : Bytes) (items : List Bytes) : List Bytes :=
  let index := items.idxOf pivot
  match side with
  | .head => items.insertIdx index value
  | .tail => items.insertIdx (index + 1) value

def linsertEdit (side : Position) (pivot value : Bytes) (found : Option Value) : Edit :=
  match found with
  | none => .reply (.integer 0)
  | some (.list items) =>
    if pivot ∈ items then .store (some (.list (insertAt side pivot value items))) 1 (.integer (items.length + 1))
    else .reply (.integer (-1))
  | some _ => .reply wrongType

def listIndex (length : Nat) (index : Int) : Option Nat :=
  let index := if index < 0 then length + index else index
  if index < 0 ∨ (length : Int) ≤ index then none else some index.toNat

def lsetEdit (index : Int) (value : Bytes) (found : Option Value) : Edit :=
  match found with
  | none => .reply noKey
  | some (.list items) =>
    match listIndex items.length index with
    | none => .reply outOfRange
    | some index => .store (some (.list (items.set index value))) 1 .ok
  | some _ => .reply wrongType

def popEdit (side : Position) (found : Option Value) : Edit :=
  match found with
  | none => .reply .nullBulk
  | some (.list items) =>
    match popFrom side items with
    | none => .reply .nullBulk
    | some (value, rest) => .store (listOrDelete rest) 1 (.bulk value)
  | some _ => .reply wrongType

def trimmed (start stop : Int) (items : List Bytes) : List Bytes :=
  let length : Int := items.length
  let start := max (if start < 0 then length + start else start) 0
  let stop := if stop < 0 then length + stop else stop
  if stop < start ∨ length ≤ start then [] else (items.take (min stop (length - 1) + 1).toNat).drop start.toNat

def ltrimEdit (start stop : Int) (found : Option Value) : Edit :=
  match found with
  | none => .reply .ok
  | some (.list items) => .store (listOrDelete (trimmed start stop items)) 1 .ok
  | some _ => .reply wrongType

def removeFirst (value : Bytes) : (count : Nat) → List Bytes → List Bytes
  | _, [] => []
  | count, item :: rest =>
    if item = value then if count = 1 then rest else removeFirst value (count - 1) rest
    else item :: removeFirst value count rest

def removed (count : Int) (value : Bytes) (items : List Bytes) : List Bytes :=
  if count < 0 then (removeFirst value count.natAbs items.reverse).reverse else removeFirst value count.toNat items

def lremEdit (count : Int) (value : Bytes) (found : Option Value) : Edit :=
  match found with
  | none => .reply (.integer 0)
  | some (.list items) =>
    let rest := removed count value items
    if rest.length = items.length then .reply (.integer 0)
    else .store (listOrDelete rest) (items.length - rest.length) (.integer (items.length - rest.length))
  | some _ => .reply wrongType

variable (s : Server) (c : ClientId)

def pushGenericCommand (side : Position) (key : Bytes) (values : List Bytes) : Except Fault Server :=
  editKey s c key (pushEdit side values)

def pushxGenericCommand (side : Position) (key : Bytes) (values : List Bytes) : Except Fault Server :=
  editKey s c key (pushxEdit side values)

def linsertCommand (key : Bytes) (side : Position) (pivot value : Bytes) : Except Fault Server :=
  editKey s c key (linsertEdit side pivot value)

def lsetCommand (key : Bytes) (index : Int) (value : Bytes) : Except Fault Server := editKey s c key (lsetEdit index value)

def popGenericCommand (side : Position) (key : Bytes) : Except Fault Server := editKey s c key (popEdit side)

def ltrimCommand (key : Bytes) (start stop : Int) : Except Fault Server := editKey s c key (ltrimEdit start stop)

def lremCommand (key : Bytes) (count : Int) (value : Bytes) : Except Fault Server := editKey s c key (lremEdit count value)

def rpoplpushHandlePush (j : Nat) (dstkey : Bytes) (dstobj : Option (List Bytes)) (value : Bytes) : Except Fault Server := do
  let stored ← storeValue s j dstkey (dstobj.map .list) (some (.list (value :: dstobj.getD [])))
  return addReply (signalModifiedKey stored j dstkey) c (.bulk value)

def asList (found : Option Value) : Option (Option (List Bytes)) :=
  match found with
  | none => some none
  | some (.list items) => some (some items)
  | some _ => none

-- What is left of the source is stored before the element is pushed, since both may be the same list.
def rpoplpushMove (j : Nat) (src dst : Bytes) (value : Bytes) (rest : List Bytes) (dobj : Option (List Bytes)) :
    Except Fault Server := do
  let popped ← dbOverwrite s j src (.list rest)
  let pushed ← rpoplpushHandlePush popped c j dst (if dst = src then some rest else dobj) value
  let left := if lookupKey pushed j src = some (.list []) then (dbDelete pushed j src).1 else pushed
  return (signalModifiedKey left j src).addDirty 1

def rpoplpushTo (j : Nat) (src dst : Bytes) (value : Bytes) (rest : List Bytes) (target : Server × Option Value) :
    Except Fault Server :=
  match asList target.2 with
  | none => .ok (addReply target.1 c wrongType)
  | some dobj => rpoplpushMove target.1 c j src dst value rest dobj

def rpoplpushFrom (j : Nat) (src dst : Bytes) (found : Server × Option Value) : Except Fault Server :=
  match found.2 with
  | none => .ok (addReply found.1 c .nullBulk)
  | some (.list items) =>
    match popFrom .tail items with
    | none => .ok (addReply found.1 c .nullBulk)
    | some (value, rest) => do
      let target ← lookupKeyWrite found.1 j dst
      rpoplpushTo c j src dst value rest target
  | some _ => .ok (addReply found.1 c wrongType)

def rpoplpushCommand (src dst : Bytes) : Except Fault Server := do
  let found ← lookupKeyWrite s (currentDb s c) src
  rpoplpushFrom c (currentDb s c) src dst found

end lists

section sets

def addAll (members : SortedSet Bytes) (values : List Bytes) : SortedSet Bytes := values.foldl (fun m v => m.insert v) members

def removeAll (members : SortedSet Bytes) (values : List Bytes) : SortedSet Bytes := values.foldl (fun m v => m.erase v) members

def setOrDelete (members : SortedSet Bytes) : Option Value := if members.items = [] then none else some (.set members)

def saddEdit (values : List Bytes) (found : Option Value) : Edit :=
  match found with
  | none => .store (some (.set (addAll .empty values))) (addAll .empty values).size (.integer (addAll .empty values).size)
  | some (.set members) =>
    let added := (addAll members values).size - members.size
    if added = 0 then .reply (.integer 0) else .store (some (.set (addAll members values))) added (.integer added)
  | some _ => .reply wrongType

def sremEdit (values : List Bytes) (found : Option Value) : Edit :=
  match found with
  | none => .reply (.integer 0)
  | some (.set members) =>
    let deleted := members.size - (removeAll members values).size
    if deleted = 0 then .reply (.integer 0) else .store (setOrDelete (removeAll members values)) deleted (.integer deleted)
  | some _ => .reply wrongType

def nth (members : SortedSet Bytes) (pick : Nat) : Bytes := members.items.getD (pick % members.size) []

def spopEdit (pick : Nat) (found : Option Value) : Edit :=
  match found with
  | none => .reply .nullBulk
  | some (.set members) => .store (setOrDelete (members.erase (nth members pick))) 1 (.bulk (nth members pick))
  | some _ => .reply wrongType

variable (s : Server) (c : ClientId)

def saddCommand (key first : Bytes) (members : List Bytes) : Except Fault Server := editKey s c key (saddEdit (first :: members))

def sremCommand (key : Bytes) (members : List Bytes) : Except Fault Server := editKey s c key (sremEdit members)

def asSet (found : Option Value) : Option (SortedSet Bytes) :=
  match found with
  | some (.set members) => some members
  | _ => none

def spopCommand (key : Bytes) (pick : Nat) : Except Fault Server := do
  let found ← lookupKeyWrite s (currentDb s c) key
  let edited ← applyEdit found.1 c (currentDb s c) key found.2 (spopEdit pick found.2)
  return { edited with rewritten := (asSet found.2).map fun members => .srem key [nth members pick] }

-- The elements that SPOP with a count removes, one random choice after the other.
def pickSome : (count : Nat) → List Nat → SortedSet Bytes → List Bytes
  | 0, _, _ => []
  | count + 1, picks, members =>
    let element := nth members (picks.headD 0)
    element :: pickSome count picks.tail (members.erase element)

def spopSome (j : Nat) (key : Bytes) (members : SortedSet Bytes) (count : Nat) (picks : List Nat) : Except Fault Server := do
  let popped := pickSome count picks members
  let stored ← dbOverwrite s j key (.set (removeAll members popped))
  return { addReply ((signalModifiedKey stored j key).addDirty (count + 1)) c (.multiBulk popped) with
    also := stored.also ++ popped.map fun element => (j, .srem key [element])
    prevent := true }

def spopAll (j : Nat) (key : Bytes) (members : SortedSet Bytes) (count : Nat) : Server :=
  let deleted := (dbDelete s j key).1
  { addReply ((signalModifiedKey deleted j key).addDirty (count + 1)) c (.multiBulk members.items) with
    rewritten := some (.del false [key]) }

def spopFound (j : Nat) (key : Bytes) (count : Nat) (picks : List Nat) (found : Server × Option Value) : Except Fault Server :=
  match found.2 with
  | none => .ok (addReply found.1 c (.multiBulk []))
  | some (.set members) =>
    if count = 0 then .ok (addReply found.1 c (.multiBulk []))
    else if members.size ≤ count then .ok (spopAll found.1 c j key members count)
    else spopSome found.1 c j key members count picks
  | some _ => .ok (addReply found.1 c wrongType)

def spopWithCountCommand (key : Bytes) (count : Int) (picks : List Nat) : Except Fault Server :=
  if count < 0 then .ok (addReply s c outOfRange)
  else do
    let found ← lookupKeyRead s (currentDb s c) key false
    spopFound c (currentDb s c) key count.toNat picks found

def smoveMove (j : Nat) (src dst member : Bytes) (source : SortedSet Bytes) (target : Option Value) : Except Fault Server := do
  let members := (asSet target).getD .empty
  let removed ← storeValue s j src (some (.set source)) (setOrDelete (source.erase member))
  let added ← storeValue removed j dst target (some (.set (members.insert member)))
  let signalled := signalModifiedKey (signalModifiedKey added j src) j dst
  return addReply (signalled.addDirty (if member ∈ members then 1 else 2)) c (.integer 1)

def isSetOrNone (found : Option Value) : Bool := found.isNone || (asSet found).isSome

def smoveFound (j : Nat) (src dst member : Bytes) (srcset dstset : Option Value) : Except Fault Server :=
  match srcset with
  | none => .ok (addReply s c (.integer 0))
  | some (.set source) =>
    if isSetOrNone dstset then
      if src = dst then .ok (addReply s c (.integer (if member ∈ source then 1 else 0)))
      else if member ∈ source then smoveMove s c j src dst member source dstset
      else .ok (addReply s c (.integer 0))
    else .ok (addReply s c wrongType)
  | some _ => .ok (addReply s c wrongType)

def smoveCommand (src dst member : Bytes) : Except Fault Server := do
  let first ← lookupKeyWrite s (currentDb s c) src
  let second ← lookupKeyWrite first.1 (currentDb s c) dst
  smoveFound second.1 c (currentDb s c) src dst member first.2 second.2

-- The sets read one after the other: an error reply for a wrong type, no set for a missing key.
def readSets (j : Nat) : Server → List Bytes → Except Fault (Server × Option (List (Option (SortedSet Bytes))))
  | s, [] => .ok (s, some [])
  | s, key :: rest => do
    let found ← lookupKeyWrite s j key
    if isSetOrNone found.2 then do
      let others ← readSets j found.1 rest
      return (others.1, others.2.map fun sets => asSet found.2 :: sets)
    else return (found.1, none)

def storeSet (j : Nat) (dst : Bytes) (result : SortedSet Bytes) : Except Fault Server := do
  let deleted := (dbDelete s j dst).1
  let stored ← (if result.items = [] then .ok deleted else dbAdd deleted j dst (.set result))
  return addReply ((signalModifiedKey stored j dst).addDirty 1) c (.integer result.size)

def keepIf (members : SortedSet Bytes) (p : Bytes → Bool) : SortedSet Bytes := removeAll members (members.items.filter fun x => !p x)

def unionAll (sets : List (Option (SortedSet Bytes))) : SortedSet Bytes :=
  sets.foldl (fun result set => addAll result ((set.map SortedSet.items).getD [])) .empty

def diffAll (first : Option (SortedSet Bytes)) (sets : List (Option (SortedSet Bytes))) : SortedSet Bytes :=
  keepIf (first.getD .empty) fun x => sets.all fun set => (set.map fun members => decide (x ∉ members)).getD true

def interAll (first : SortedSet Bytes) (sets : List (Option (SortedSet Bytes))) : SortedSet Bytes :=
  keepIf first fun x => sets.all fun set => (set.map fun members => decide (x ∈ members)).getD false

-- SINTERSTORE stops at the first key that does not exist.
def sinterMissing (j : Nat) (dst : Bytes) : Server :=
  let deleted := dbDelete s j dst
  if deleted.2 then addReply ((signalModifiedKey deleted.1 j dst).addDirty 1) c (.integer 0) else addReply deleted.1 c (.integer 0)

def sinterSets (j : Nat) : Server → List Bytes → Except Fault (Server × Option (Option (List (SortedSet Bytes))))
  | s, [] => .ok (s, some (some []))
  | s, key :: rest => do
    let found ← lookupKeyWrite s j key
    match found.2 with
    | none => return (found.1, some none)
    | some (.set members) => do
      let others ← sinterSets j found.1 rest
      return (others.1, others.2.map fun sets => sets.map fun sets => members :: sets)
    | some _ => return (found.1, none)

def sinterFound (j : Nat) (dst : Bytes) (read : Server × Option (Option (List (SortedSet Bytes)))) : Except Fault Server :=
  match read.2 with
  | none => .ok (addReply read.1 c wrongType)
  | some none => .ok (sinterMissing read.1 c j dst)
  | some (some []) => .ok read.1
  | some (some (first :: rest)) => storeSet read.1 c j dst (interAll first (rest.map some))

def sunionDiffFound (op : StoreOp) (j : Nat) (dst : Bytes) (read : Server × Option (List (Option (SortedSet Bytes)))) :
    Except Fault Server :=
  match read.2 with
  | none => .ok (addReply read.1 c wrongType)
  | some sets =>
    storeSet read.1 c j dst (if op = .union then unionAll sets else diffAll (sets.headD none) sets.tail)

def sstoreCommand (op : StoreOp) (dst first : Bytes) (keys : List Bytes) : Except Fault Server :=
  if op = .inter then do
    let read ← sinterSets (currentDb s c) s (first :: keys)
    sinterFound c (currentDb s c) dst read
  else do
    let read ← readSets (currentDb s c) s (first :: keys)
    sunionDiffFound c op (currentDb s c) dst read

end sets

end RedisCore.Keyspace
