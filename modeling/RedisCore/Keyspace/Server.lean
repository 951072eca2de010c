import RedisCore.Keyspace.Commands

set_option autoImplicit false

namespace RedisCore.Keyspace

open Lib

section generic

variable (s : Server) (c : ClientId)

def deleteLazily (lazy : Bool) (j : Nat) (key : Bytes) : Server × Bool :=
  if lazy then dbAsyncDelete s j key else dbSyncDelete s j key

def delOne (lazy : Bool) (j : Nat) (state : Server × Nat) (key : Bytes) : Except Fault (Server × Nat) := do
  let checked ← expireIfNeeded state.1 j key
  let deleted := deleteLazily checked.1 lazy j key
  return if deleted.2 then ((signalModifiedKey deleted.1 j key).addDirty 1, state.2 + 1) else (deleted.1, state.2)

def delGenericCommand (lazy : Bool) (keys : List Bytes) : Except Fault Server := do
  let result ← keys.foldlM (delOne lazy (currentDb s c)) (s, 0)
  return addReply result.1 c (.integer result.2)

def copyExpire (j : Nat) (key : Bytes) (expire : Int) : Except Fault Server :=
  if expire = -1 then .ok s else setExpire s j key expire

def renameMove (j : Nat) (nx : Bool) (src dst : Bytes) (o : Value) (expire : Int) : Except Fault Server := do
  let added ← dbAdd s j dst o
  let expiring ← copyExpire added j dst expire
  let deleted := (dbDelete expiring j src).1
  let signalled := signalModifiedKey (signalModifiedKey deleted j src) j dst
  return addReply (signalled.addDirty 1) c (if nx then .integer 1 else .ok)

def renameOnto (j : Nat) (nx : Bool) (src dst : Bytes) (o : Value) (expire : Int) (target : Server × Option Value) :
    Except Fault Server :=
  if target.2.isSome then
    if nx then .ok (addReply target.1 c (.integer 0)) else renameMove (dbDelete target.1 j dst).1 c j nx src dst o expire
  else renameMove target.1 c j nx src dst o expire

def renameFound (j : Nat) (nx : Bool) (src dst : Bytes) (found : Server × Option Value) : Except Fault Server :=
  match found.2 with
  | none => .ok (addReply found.1 c noKey)
  | some o =>
    if src = dst then .ok (addReply found.1 c (if nx then .integer 0 else .ok))
    else do
      let expire ← getExpire found.1 j src
      let target ← lookupKeyWrite found.1 j dst
      renameOnto c j nx src dst o expire target

def renameGenericCommand (nx : Bool) (src dst : Bytes) : Except Fault Server := do
  let found ← lookupKeyWrite s (currentDb s c) src
  renameFound c (currentDb s c) nx src dst found

def moveKey (src dst : Nat) (key : Bytes) (o : Value) (expire : Int) : Except Fault Server := do
  let added ← dbAdd s dst key o
  let expiring ← copyExpire added dst key expire
  return addReply ((dbDelete expiring src key).1.addDirty 1) c (.integer 1)

def moveFound (src dst : Nat) (key : Bytes) (found : Server × Option Value) : Except Fault Server :=
  match found.2 with
  | none => .ok (addReply found.1 c (.integer 0))
  | some o => do
    let expire ← getExpire found.1 src key
    let target ← lookupKeyWrite found.1 dst key
    if target.2.isSome then return addReply target.1 c (.integer 0) else moveKey target.1 c src dst key o expire

def moveTo (key : Bytes) (dst : Option Nat) : Except Fault Server :=
  match dst with
  | none => .ok (addReply s c outOfRange)
  | some dst =>
    if currentDb s c = dst then .ok (addReply s c (.error "-ERR source and destination objects are the same"))
    else do
      let found ← lookupKeyWrite s (currentDb s c) key
      moveFound c (currentDb s c) dst key found

def moveCommand (key : Bytes) (dbid : Int) : Except Fault Server :=
  if s.clusterEnabled then .ok (addReply s c (.error "-ERR MOVE is not allowed in cluster mode"))
  else moveTo s c key (if dbid < -2 ^ 31 ∨ 2 ^ 31 ≤ dbid then none else selectDb s dbid)

def swapdbCommand (id1 id2 : Int) : Server :=
  if s.clusterEnabled then addReply s c (.error "-ERR SWAPDB is not allowed in cluster mode")
  else
    match selectDb s (toInt id1), selectDb s (toInt id2) with
    | some id1, some id2 => addReply ((dbSwapDatabases s id1 id2).addDirty 1) c .ok
    | _, _ => addReply s c (.error "-ERR DB index is out of range")

def selectCommand (id : Int) : Server :=
  if s.clusterEnabled && decide (id ≠ 0) then addReply s c (.error "-ERR SELECT is not allowed in cluster mode")
  else
    match selectDb s (toInt id) with
    | none => addReply s c (.error "-ERR DB index is out of range")
    | some j => addReply (s.modifyClient c fun client => { client with db := j }) c .ok

def restoreObject (j : Nat) (key : Bytes) (ttl : Int) (obj : Value) (replace : Bool) : Except Fault Server := do
  let added ← dbAdd (if replace then (dbDelete s j key).1 else s) j key obj
  let expiring ← (if ttl = 0 then .ok added else setExpire added j key (s.now + ttl))
  return (addReply (signalModifiedKey expiring j key) c .ok).addDirty 1

def restorePayload (j : Nat) (key : Bytes) (ttl : Int) (payload : Option Value) (replace : Bool) : Except Fault Server :=
  if ttl < 0 then .ok (addReply s c (.error "-ERR Invalid TTL value, must be >= 0"))
  else
    match payload with
    | none => .ok (addReply s c (.error "-ERR Bad data format"))
    | some obj => restoreObject s c j key ttl obj replace

def restoreFound (j : Nat) (key : Bytes) (ttl : Int) (payload : Option Value) (found : Server × Option Value) : Except Fault Server :=
  if found.2.isSome then .ok (addReply found.1 c (.error "-BUSYKEY Target key name already exists."))
  else restorePayload found.1 c j key ttl payload false

def restoreCommand (key : Bytes) (ttl : Int) (payload : Option Value) (replace : Bool) : Except Fault Server :=
  if replace then restorePayload s c (currentDb s c) key ttl payload true
  else do
    let found ← lookupKeyWrite s (currentDb s c) key
    restoreFound c (currentDb s c) key ttl payload found

def expireTime (relative : Bool) (time : Int) : Int := if relative then s.now + time else time

-- A time in the past deletes the key, but on slaves and while loading.
def expireFound (j : Nat) (key : Bytes) (when : Int) (found : Server × Option Value) : Except Fault Server :=
  match found.2 with
  | none => .ok (addReply found.1 c (.integer 0))
  | some _ =>
    if when ≤ found.1.now ∧ found.1.loading = false ∧ found.1.isSlave = false then
      let deleted := deleteLazily found.1 found.1.lazyExpire j key
      if deleted.2 then
        .ok { addReply ((signalModifiedKey deleted.1 j key).addDirty 1) c (.integer 1) with
          rewritten := some (.del found.1.lazyExpire [key]) }
      else .error .assertion
    else do
      let expiring ← setExpire found.1 j key when
      return (signalModifiedKey (addReply expiring c (.integer 1)) j key).addDirty 1

def expireGenericCommand (key : Bytes) (relative : Bool) (time : Int) : Except Fault Server := do
  let found ← lookupKeyWrite s (currentDb s c) key
  expireFound c (currentDb s c) key (expireTime s relative time) found

def persistFound (j : Nat) (key : Bytes) (found : Server × Option Value) : Except Fault Server :=
  match found.2 with
  | none => .ok (addReply found.1 c (.integer 0))
  | some _ => do
    let persistent ← removeExpire found.1 j key
    return if key ∈ (found.1.db j).expires then addReply (persistent.addDirty 1) c (.integer 1) else addReply persistent c (.integer 0)

def persistCommand (key : Bytes) : Except Fault Server := do
  let found ← lookupKeyWrite s (currentDb s c) key
  persistFound c (currentDb s c) key found

def flush (which : Flushed) (async : Bool) (extra : Int) : Server :=
  addReply ((emptyDb (signalFlushedDb s which) which async).addDirty (emptyDbRemoved s which + extra)) c .ok

def flushdbCommand (async : Bool) : Server := flush s c (.one (currentDb s c)) async 0

def flushallCommand (async : Bool) : Server := flush s c .all async 1

def sortable (found : Option Value) : Bool :=
  match found with
  | some (.string _) => false
  | _ => true

-- With output what SORT has to store.
def sortStored (j : Nat) (dst : Bytes) (output : List Bytes) : Except Fault Server :=
  if output = [] then
    let deleted := dbDelete s j dst
    .ok (addReply (if deleted.2 then (signalModifiedKey deleted.1 j dst).addDirty 1 else deleted.1) c (.integer 0))
  else do
    let written ← setKey s j dst (.list output)
    return addReply (written.addDirty output.length) c (.integer output.length)

def sortStoreCommand (key dst : Bytes) (output : List Bytes) : Except Fault Server := do
  let found ← lookupKeyRead s (currentDb s c) key false
  if sortable found.2 then sortStored found.1 c (currentDb s c) dst output else return addReply found.1 c wrongType

end generic

section watching

variable (s : Server) (c : ClientId)

def isWatching (j : Nat) (key : Bytes) : Bool := (s.client c).watchedKeys.any fun w => w.db = j && w.key = key

def addWatcher (j : Nat) (key : Bytes) : Server :=
  s.modifyDb j fun db => { db with watchedKeys := db.watchedKeys.insert key ((db.watchedKeys.lookup key).getD [] ++ [c]) }

def watchForKey (j : Nat) (key : Bytes) : Server :=
  if isWatching s c j key then s
  else (addWatcher s c j key).modifyClient c fun client =>
    { client with watchedKeys := client.watchedKeys ++ [⟨j, key, lookupKey s j key, s.expired.length⟩] }

def removeWatcher (s : Server) (w : Watch) : Server :=
  s.modifyDb w.db fun db =>
    let clients := ((db.watchedKeys.lookup w.key).getD []).erase c
    { db with watchedKeys := if clients = [] then db.watchedKeys.erase w.key else db.watchedKeys.insert w.key clients }

def unwatchAllKeys : Server :=
  ((s.client c).watchedKeys.foldl (removeWatcher c) s).modifyClient c fun client => { client with watchedKeys := [] }

def discardTransaction : Server :=
  unwatchAllKeys (s.modifyClient c fun client =>
    { client with commands := [], inMulti := false, dirtyCas := false, dirtyExec := false }) c

def multiCommand : Server :=
  if (s.client c).inMulti then addReply s c (.error "-ERR MULTI calls can not be nested")
  else addReply (s.modifyClient c fun client => { client with inMulti := true }) c .ok

def discardCommand : Server :=
  if (s.client c).inMulti then addReply (discardTransaction s c) c .ok else addReply s c (.error "-ERR DISCARD without MULTI")

def watchCommand (keys : List Bytes) : Server :=
  if (s.client c).inMulti then addReply s c (.error "-ERR WATCH inside MULTI is not allowed")
  else addReply (keys.foldl (fun s key => watchForKey s c (currentDb s c) key) s) c .ok

def unwatchCommand : Server :=
  addReply ((unwatchAllKeys s c).modifyClient c fun client => { client with dirtyCas := false }) c .ok

end watching

section blocking

variable (s : Server) (c : ClientId)

def addBlocked (j : Nat) (s : Server) (key : Bytes) : Server :=
  s.modifyDb j fun db => { db with blockingKeys := db.blockingKeys.insert key ((db.blockingKeys.lookup key).getD [] ++ [c]) }

-- A key given twice counts once.
def blockForKeys (keys : List Bytes) (timeout : Int) (target : Option Bytes) (side : Position) : Server :=
  let queued := (keys.dedup.foldl (addBlocked c (currentDb s c)) s).modifyClient c fun client =>
    { client with bpop := some ⟨keys.dedup, target, side, timeout, s.tickets⟩ }
  { queued with tickets := s.tickets + 1 }

def removeBlocked (j : Nat) (s : Server) (key : Bytes) : Server :=
  s.modifyDb j fun db =>
    let clients := ((db.blockingKeys.lookup key).getD []).erase c
    { db with blockingKeys := if clients = [] then db.blockingKeys.erase key else db.blockingKeys.insert key clients }

def blockedKeys : List Bytes := ((s.client c).bpop.map Bpop.keys).getD []

def unblockClient : Server :=
  ((blockedKeys s c).foldl (removeBlocked c (currentDb s c)) s).modifyClient c fun client => { client with bpop := none }

def propagate (j : Nat) (command : Command) : Server := { s with propagated := s.propagated ++ [(j, command)] }

-- Whether the element was delivered. The client's database is the one of the key.
def serveClientBlockedOnList (j : Nat) (key : Bytes) (dstkey : Option Bytes) (value : Bytes) (side : Position) :
    Except Fault (Server × Bool) :=
  match dstkey with
  | none => .ok (addReply (propagate s j (.pop side key)) c (.multiBulk [key, value]), true)
  | some dst => do
    let found ← lookupKeyWrite s (currentDb s c) dst
    match asList found.2 with
    | none => return (addReply found.1 c wrongType, false)
    | some dobj => do
      let pushed ← rpoplpushHandlePush (propagate found.1 j (.pop .tail key)) c (currentDb s c) dst dobj value
      return (propagate pushed j (.push .head dst [value]), true)

def serveFirst (j : Nat) (key : Bytes) (receiver : ClientId) (bpop : Bpop) (value : Bytes) (rest : List Bytes) :
    Except Fault Server := do
  let popped ← dbOverwrite s j key (.list rest)
  let served ← serveClientBlockedOnList (unblockClient popped receiver) receiver j key bpop.target value bpop.side
  match lookupKey served.1 j key with
  | some (.list items) =>
    if served.2 then return served.1 else dbOverwrite served.1 j key (.list (pushOn bpop.side items value))
  | _ => .error .assertion

def serveClients (j : Nat) (key : Bytes) : (numclients : Nat) → Server → Except Fault Server
  | 0, s => .ok s
  | numclients + 1, s =>
    match (s.db j).blockingKeys.lookup key, lookupKey s j key with
    | some (receiver :: _), some (.list items) =>
      match (s.client receiver).bpop with
      | none => .error .assertion
      | some bpop =>
        match popFrom bpop.side items with
        | none => .ok s
        | some (value, rest) => do
          let served ← serveFirst s j key receiver bpop value rest
          serveClients j key numclients served
    | _, _ => .ok s

def forgetReady (j : Nat) (key : Bytes) : Server := s.modifyDb j fun db => { db with readyKeys := db.readyKeys.erase key }

def deleteIfEmpty (j : Nat) (key : Bytes) : Server :=
  if lookupKey s j key = some (.list []) then (dbDelete s j key).1 else s

def serveKey (s : Server) (ready : Nat × Bytes) : Except Fault Server := do
  let found ← lookupKeyWrite (forgetReady s ready.1 ready.2) ready.1 ready.2
  match found.2 with
  | some (.list _) => do
    let clients := ((found.1.db ready.1).blockingKeys.lookup ready.2).getD []
    let served ← serveClients ready.1 ready.2 clients.length found.1
    return deleteIfEmpty served ready.1 ready.2
  | _ => return found.1

-- Serving may make other keys ready. fuel bounds the rounds.
def handleClientsBlockedOnLists : (fuel : Nat) → Server → Except Fault (Option Server)
  | 0, _ => .ok none
  | fuel + 1, s =>
    if s.readyKeys = [] then .ok (some s)
    else do
      let served ← s.readyKeys.foldlM serveKey { s with readyKeys := [] }
      handleClientsBlockedOnLists fuel served

def blockingPopFrom (j : Nat) (side : Position) : Server → List Bytes → Except Fault (Server × Option (Except Reply (Bytes × List Bytes × Bytes)))
  | s, [] => .ok (s, none)
  | s, key :: rest => do
    let found ← lookupKeyWrite s j key
    match found.2 with
    | none => blockingPopFrom j side found.1 rest
    | some (.list items) =>
      match popFrom side items with
      | none => blockingPopFrom j side found.1 rest
      | some (value, left) => return (found.1, some (.ok (value, left, key)))
    | some _ => return (found.1, some (.error wrongType))

def blockingPopAt (j : Nat) (side : Position) (keys : List Bytes) (timeout : Int)
    (found : Server × Option (Except Reply (Bytes × List Bytes × Bytes))) : Except Fault Server :=
  match found.2 with
  | some (.error reply) => .ok (addReply found.1 c reply)
  | some (.ok (value, left, key)) => do
    let stored ← storeValue found.1 j key (some (.list [])) (listOrDelete left)
    return { addReply ((signalModifiedKey stored j key).addDirty 1) c (.multiBulk [key, value]) with
      rewritten := some (.pop side key) }
  | none =>
    if (found.1.client c).inMulti then .ok (addReply found.1 c .nullMultiBulk)
    else .ok (blockForKeys found.1 c keys timeout none side)

def blockingPopGenericCommand (side : Position) (keys : List Bytes) (timeout : Int) : Except Fault Server :=
  if timeout < 0 then .ok (addReply s c (.error "-ERR timeout is negative"))
  else do
    let found ← blockingPopFrom (currentDb s c) side s keys
    blockingPopAt c (currentDb s c) side keys timeout found

def brpoplpushFound (src dst : Bytes) (timeout : Int) (found : Server × Option Value) : Except Fault Server :=
  match found.2 with
  | none =>
    if (found.1.client c).inMulti then .ok (addReply found.1 c .nullBulk)
    else .ok (blockForKeys found.1 c [src] timeout (some dst) .tail)
  | some (.list items) => if items = [] then .error .assertion else rpoplpushCommand found.1 c src dst
  | some _ => .ok (addReply found.1 c wrongType)

def brpoplpushCommand (src dst : Bytes) (timeout : Int) : Except Fault Server :=
  if timeout < 0 then .ok (addReply s c (.error "-ERR timeout is negative"))
  else do
    let found ← lookupKeyWrite s (currentDb s c) src
    brpoplpushFound c src dst timeout found

end blocking

section calling

variable (s : Server) (c : ClientId)

def proc (command : Command) : Except Fault Server :=
  match command with
  | .get key => getCommand s c key
  | .set key value nx xx ttl => setCommand s c key value nx xx ttl
  | .getset key value => getsetCommand s c key value
  | .setrange key offset value => setrangeCommand s c key offset value
  | .append key value => appendCommand s c key value
  | .mset pairs nx => msetGenericCommand s c pairs nx
  | .incrby key incr => incrDecrCommand s c key incr
  | .incrbyfloat key sum => incrbyfloatCommand s c key sum
  | .push side key values => pushGenericCommand s c side key values
  | .pushx side key values => pushxGenericCommand s c side key values
  | .linsert key side pivot value => linsertCommand s c key side pivot value
  | .lset key index value => lsetCommand s c key index value
  | .pop side key => popGenericCommand s c side key
  | .ltrim key start stop => ltrimCommand s c key start stop
  | .lrem key count value => lremCommand s c key count value
  | .rpoplpush src dst => rpoplpushCommand s c src dst
  | .bpop side keys timeout => blockingPopGenericCommand s c side keys timeout
  | .brpoplpush src dst timeout => brpoplpushCommand s c src dst timeout
  | .sadd key first members => saddCommand s c key first members
  | .srem key members => sremCommand s c key members
  | .smove src dst member => smoveCommand s c src dst member
  | .spop key pick => spopCommand s c key pick
  | .spopCount key count picks => spopWithCountCommand s c key count picks
  | .sstore op dst first keys => sstoreCommand s c op dst first keys
  | .sortStore key dst output => sortStoreCommand s c key dst output
  | .del lazy keys => delGenericCommand s c lazy keys
  | .rename nx src dst => renameGenericCommand s c nx src dst
  | .move key dbid => moveCommand s c key dbid
  | .swapdb id1 id2 => .ok (swapdbCommand s c id1 id2)
  | .restore key ttl payload replace => restoreCommand s c key ttl payload replace
  | .expire key relative time => expireGenericCommand s c key relative time
  | .persist key => persistCommand s c key
  | .flushdb async => .ok (flushdbCommand s c async)
  | .flushall async => .ok (flushallCommand s c async)
  | .select id => .ok (selectCommand s c id)
  | .watch keys => .ok (watchCommand s c keys)
  | .unwatch => .ok (unwatchCommand s c)
  | .multi => .ok (multiCommand s c)
  | .exec => .ok s
  | .discard => .ok (discardCommand s c)

def propagateCall (before : Int) (command : Command) : Server :=
  let own := if !s.prevent && decide (before < s.dirty) then [(currentDb s c, s.rewritten.getD command)] else []
  { s with propagated := s.propagated ++ own ++ s.also, rewritten := none, also := [], prevent := false }

def call (command : Command) : Except Fault Server := do
  let done ← proc { s with rewritten := none, also := [], prevent := false } c command
  return propagateCall done c s.dirty command

def execRuns : Bool := (s.client c).inMulti && !(s.client c).dirtyCas && !(s.client c).dirtyExec

def isReadonly : Command → Bool
  | .get _ => true
  | _ => false

-- MULTI is propagated before the first command that may write.
def execOne (state : Server × Bool) (command : Command) : Except Fault (Server × Bool) := do
  let must := !state.2 && !isReadonly command
  let done ← call (if must then propagate state.1 (currentDb state.1 c) .multi else state.1) c command
  return (done, state.2 || must)

-- The call of EXEC itself compares dirty with its value at the start.
def execRun : Except Fault Server := do
  let commands := (s.client c).commands
  let done ← commands.foldlM (execOne c) (addReply (unwatchAllKeys s c) c (.arrayHeader commands.length), false)
  let discarded := discardTransaction done.1 c
  let counted := if done.2 then discarded.addDirty 1 else discarded
  return if s.dirty < counted.dirty then propagate counted (currentDb counted c) .exec else counted

def execCommand : Except Fault Server :=
  if (s.client c).inMulti then
    if execRuns s c then execRun s c
    else .ok (addReply (discardTransaction s c) c
      (if (s.client c).dirtyExec then .error "-EXECABORT Transaction discarded because of previous errors." else .nullMultiBulk))
  else .ok (addReply s c (.error "-ERR EXEC without MULTI"))

def queueMultiCommand (command : Command) : Server :=
  addReply (s.modifyClient c fun client => { client with commands := client.commands ++ [command] }) c .queued

def isControl : Command → Bool
  | .exec | .discard | .multi | .watch _ => true
  | _ => false

def runCommand (command : Command) : Except Fault Server :=
  if command = .exec then execCommand s c
  else if (s.client c).inMulti && !isControl command then .ok (queueMultiCommand s c command)
  else call s c command

-- The number of rounds that serving takes is bounded by the clients that it can unblock.
def blockedCount (j : Nat) : Nat := ((s.db j).blockingKeys.entries.map fun entry => entry.2.length).sum

def roundBound : Nat := ((List.range s.dbnum).map (blockedCount s)).sum + 2

def processCommand (command : Command) : Except Fault (Option Server) := do
  let done ← runCommand s c command
  handleClientsBlockedOnLists (roundBound done) done

-- expire: the active cycle picks a key. timeout and disconnect end the client's blocking.
inductive Event where
  | command (c : ClientId) (command : Command)
  | expire (j : Nat) (key : Bytes)
  | timeout (c : ClientId)
  | disconnect (c : ClientId)

def timeoutClient : Server := if (s.client c).bpop.isSome then addReply (unblockClient s c) c .nullMultiBulk else s

def freeClient : Server :=
  let s := if (s.client c).bpop.isSome then unblockClient s c else s
  (unwatchAllKeys s c).modifyClient c fun _ => ⟨0, false, false, false, [], [], none, []⟩

def step (now : Int) : Event → Except Fault (Option Server)
  | .command c command =>
    if (s.client c).bpop.isSome then .ok (some s) else processCommand { s with now := now } c command
  | .expire j key => .ok (some (if s.isSlave then s else activeExpireCycleTryExpire { s with now := now } j key now))
  | .timeout c => .ok (some (timeoutClient s c))
  | .disconnect c => .ok (some (freeClient s c))

end calling

end RedisCore.Keyspace
