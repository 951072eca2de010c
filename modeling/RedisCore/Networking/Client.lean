import RedisCore.Util.LongLong

set_option autoImplicit false

namespace RedisCore.Networking

open Util

def protoReplyChunkBytes : Nat := 16 * 1024
def netMaxWritesPerEvent : Nat := 1024 * 64
def objSharedBulkhdrLen : Nat := 32

-- A string object is an sds or a long.
inductive StringObject where
  | raw (s : Bytes)
  | int (v : Int64)

inductive ReplState where
  | none
  | waitBgsaveStart
  | waitBgsaveEnd
  | sendBulk
  | online
  deriving DecidableEq

structure Flags where
  lua : Bool
  module : Bool
  replyOff : Bool
  replySkip : Bool
  master : Bool
  masterForceReply : Bool
  slave : Bool
  closeAfterReply : Bool
  pendingWrite : Bool
  deriving DecidableEq

-- A node of the reply list and its address. A NULL value is the placeholder of a deferred length.
structure ReplyNode where
  addr : Nat
  value : Option Bytes
  deriving DecidableEq

-- buf holds the first bufpos bytes of the static buffer.
structure Client where
  fd : Int
  flags : Flags
  replstate : ReplState
  replPutOnlineOnAck : Bool
  buf : Bytes
  sentlen : Nat
  reply : List ReplyNode
  replyBytes : Int
  nextAddr : Nat
  deriving DecidableEq

inductive Fault where
  | nullDereference
  | useAfterFree
  | assertionFailed
  deriving DecidableEq

def createClient (fd : Int) (flags : Flags) : Client :=
  { fd := fd, flags := flags, replstate := .none, replPutOnlineOnAck := false, buf := [], sentlen := 0, reply := [],
    replyBytes := 0, nextAddr := 0 }

section

variable (c : Client)

def clientHasPendingReplies : Bool := !c.buf.isEmpty || !c.reply.isEmpty

def schedulesWrite : Bool :=
  !clientHasPendingReplies c && !c.flags.pendingWrite &&
    (decide (c.replstate = .none) || (decide (c.replstate = .online) && !c.replPutOnlineOnAck))

-- none is C_ERR: nothing may be appended.
def prepareClientToWrite : Option Client :=
  if c.flags.lua || c.flags.module then some c
  else if c.flags.replyOff || c.flags.replySkip then none
  else if c.flags.master && !c.flags.masterForceReply then none
  else if c.fd ≤ 0 then none
  else if schedulesWrite c then some { c with flags := { c.flags with pendingWrite := true } }
  else some c

-- none is C_ERR.
def addReplyToBuffer (s : Bytes) : Option Client :=
  if c.flags.closeAfterReply then some c
  else if c.reply ≠ [] then none
  else if protoReplyChunkBytes - c.buf.length < s.length then none
  else some { c with buf := c.buf ++ s }

def appendNode (s : Bytes) : Client :=
  { c with
    reply := c.reply ++ [⟨c.nextAddr, some s⟩]
    replyBytes := c.replyBytes + s.length
    nextAddr := c.nextAddr + 1 }

def growTail (s : Bytes) : Option ReplyNode :=
  match c.reply.getLast? with
  | some ⟨addr, some tail⟩ =>
    if tail.length + s.length ≤ protoReplyChunkBytes then some ⟨addr, some (tail ++ s)⟩ else none
  | _ => none

def addReplyToList (s : Bytes) : Client :=
  if c.flags.closeAfterReply then c
  else
    match growTail c s with
    | some node => { c with reply := c.reply.dropLast ++ [node], replyBytes := c.replyBytes + s.length }
    | none => appendNode c s

def addReplyObjectToList (s : Bytes) : Client := addReplyToList c s
def addReplySdsToList (s : Bytes) : Client := addReplyToList c s
def addReplyStringToList (s : Bytes) : Client := addReplyToList c s

def getDecodedObject : StringObject → Bytes
  | .raw s => s
  | .int v => ll2string 32 v.toInt

def addReplyObject (s : Bytes) : Client := (addReplyToBuffer c s).getD (addReplyObjectToList c s)

def addReply (obj : StringObject) : Client :=
  match prepareClientToWrite c with
  | none => c
  | some c =>
    match obj with
    | .raw s => addReplyObject c s
    | .int v =>
      if c.reply = [] ∧ 32 ≤ protoReplyChunkBytes - c.buf.length then
        (addReplyToBuffer c (ll2string 32 v.toInt)).getD (addReplyObject c (getDecodedObject (.int v)))
      else addReplyObject c (getDecodedObject (.int v))

def addReplySds (s : Bytes) : Client :=
  match prepareClientToWrite c with
  | none => c
  | some c => (addReplyToBuffer c s).getD (addReplySdsToList c s)

def addReplyString (s : Bytes) : Client :=
  match prepareClientToWrite c with
  | none => c
  | some c => (addReplyToBuffer c s).getD (addReplyStringToList c s)

end

def crlf : Bytes := [13, 10]
def header (mark : UInt8) (length : Int) : Bytes := mark :: llString length ++ crlf

def sharedCrlf : StringObject := .raw crlf
def sharedCzero : StringObject := .raw (header 58 0)
def sharedCone : StringObject := .raw (header 58 1)
def sharedNullbulk : StringObject := .raw (header 36 (-1))
def sharedMbulkhdr (j : Nat) : StringObject := .raw (header 42 j)
def sharedBulkhdr (j : Nat) : StringObject := .raw (header 36 j)

-- The conversion of a size_t to a long long.
def asLongLong (n : Nat) : Int := if n < 2 ^ 63 then n else n - 2 ^ 64

-- A C string ends at its first NUL.
def strlenPart (s : Bytes) : Bytes := s.takeWhile (· ≠ 0)

section

variable (c : Client)

def addReplyErrorLength (s : Bytes) : Client :=
  addReplyString (addReplyString (addReplyString c [45, 69, 82, 82, 32]) s) crlf

def addReplyError (err : Bytes) : Client := addReplyErrorLength c (strlenPart err)

-- s is the formatted text.
def addReplyErrorFormat (s : Bytes) : Client :=
  addReplyErrorLength c (s.map fun byte => if byte = 13 ∨ byte = 10 then 32 else byte)

def addReplyStatusLength (s : Bytes) : Client :=
  addReplyString (addReplyString (addReplyString c [43]) s) crlf

def addReplyStatus (status : Bytes) : Client := addReplyStatusLength c (strlenPart status)

def addReplyStatusFormat (s : Bytes) : Client := addReplyStatusLength c s

def addReplyLongLongWithPrefix (ll : Int) (mark : UInt8) : Client :=
  if mark = 42 ∧ ll < objSharedBulkhdrLen ∧ 0 ≤ ll then addReply c (sharedMbulkhdr ll.toNat)
  else if mark = 36 ∧ ll < objSharedBulkhdrLen ∧ 0 ≤ ll then addReply c (sharedBulkhdr ll.toNat)
  else addReplyString c (mark :: ll2string 127 ll ++ crlf)

def addReplyLongLong (ll : Int) : Client :=
  if ll = 0 then addReply c sharedCzero
  else if ll = 1 then addReply c sharedCone
  else addReplyLongLongWithPrefix c ll 58

def addReplyMultiBulkLen (length : Nat) : Client :=
  if length < objSharedBulkhdrLen then addReply c (sharedMbulkhdr length)
  else addReplyLongLongWithPrefix c (asLongLong length) 42

-- while((n = n/10) != 0) len++; a long has at most 19 digits.
def digitsLoop : (rounds : Nat) → Int → Nat → Nat
  | 0, _, len => len
  | rounds + 1, n, len => if n.tdiv 10 ≠ 0 then digitsLoop rounds (n.tdiv 10) (len + 1) else len

-- The least long is its own negation.
def negLong (n : Int) : Int := if n = -(2 ^ 63) then n else -n

def stringObjectLen : StringObject → Nat
  | .raw s => s.length
  | .int v => if v.toInt < 0 then digitsLoop 19 (negLong v.toInt) 2 else digitsLoop 19 v.toInt 1

def addReplyBulkLen (obj : StringObject) : Client :=
  if stringObjectLen obj < objSharedBulkhdrLen then addReply c (sharedBulkhdr (stringObjectLen obj))
  else addReplyLongLongWithPrefix c (asLongLong (stringObjectLen obj)) 36

def addReplyBulk (obj : StringObject) : Client :=
  addReply (addReply (addReplyBulkLen c obj) obj) sharedCrlf

def addReplyBulkCBuffer (p : Bytes) : Client :=
  addReply (addReplyString (addReplyLongLongWithPrefix c (asLongLong p.length) 36) p) sharedCrlf

def addReplyBulkSds (s : Bytes) : Client :=
  addReply (addReplySds (addReplyLongLongWithPrefix c (asLongLong s.length) 36) s) sharedCrlf

def addReplyBulkCString : Option Bytes → Client
  | none => addReply c sharedNullbulk
  | some s => addReplyBulkCBuffer c (strlenPart s)

def addReplyBulkLongLong (ll : Int) : Client := addReplyBulkCBuffer c (ll2string 64 ll)

end

-- A double by its sign if it is infinite, else by its "%.17g" text.
inductive DoubleText where
  | inf (positive : Bool)
  | finite (dbuf : Bytes)

def infText (positive : Bool) : Bytes := if positive then [105, 110, 102] else [45, 105, 110, 102]

def addReplyDouble (c : Client) : DoubleText → Client
  | .inf positive => addReplyBulkCString c (some (infText positive))
  | .finite dbuf => addReplyString c (36 :: llString dbuf.length ++ crlf ++ dbuf ++ crlf)

-- text is the human readable text of a long double.
def addReplyHumanLongDouble (c : Client) (text : Bytes) : Client := addReplyBulk c (.raw text)

-- The placeholder and its address, NULL if the client takes no replies.
def addDeferredMultiBulkLength (c : Client) : Client × Option Nat :=
  match prepareClientToWrite c with
  | none => (c, none)
  | some c => ({ c with reply := c.reply ++ [⟨c.nextAddr, none⟩], nextAddr := c.nextAddr + 1 }, some c.nextAddr)

-- The filled node takes the bytes of the next one unless that is a placeholder.
def glueNext (addr : Nat) (len : Bytes) : List ReplyNode → List ReplyNode
  | ⟨_, some next⟩ :: rest => ⟨addr, some (len ++ next)⟩ :: rest
  | rest => ⟨addr, some len⟩ :: rest

def fillNode (addr : Nat) (len : Bytes) : List ReplyNode → Option (List ReplyNode)
  | [] => none
  | node :: rest =>
    if node.addr = addr then some (glueNext addr len rest) else (fillNode addr len rest).map (node :: ·)

def setDeferredMultiBulkLength (c : Client) (node : Option Nat) (length : Int) : Except Fault Client :=
  match node with
  | none => .ok c
  | some addr =>
    match fillNode addr (header 42 length) c.reply with
    | none => .error .useAfterFree
    | some reply => .ok { c with reply := reply, replyBytes := c.replyBytes + (header 42 length).length }

inductive WriteResult where
  | accepted (n : Nat)
  | again
  | error

-- What write returns, and whether the memory in use is below maxmemory after it.
structure WriteInput where
  result : WriteResult
  memoryLeft : Bool

section

variable (c : Client)

-- With nothing in the static buffer, empty nodes at the head are dropped before the next write.
def skipEmptyNodes : Client :=
  if c.buf = [] then { c with reply := c.reply.dropWhile fun node => node.value = some [] } else c

def nextChunk : Except Fault Bytes :=
  if c.buf ≠ [] then .ok (c.buf.drop c.sentlen)
  else
    match c.reply with
    | ⟨_, some o⟩ :: _ => .ok (o.drop c.sentlen)
    | _ => .error .nullDereference

def removeHead (o : Bytes) (rest : List ReplyNode) : Except Fault Client :=
  if rest = [] ∧ c.replyBytes - o.length ≠ 0 then .error .assertionFailed
  else .ok { c with reply := rest, sentlen := 0, replyBytes := c.replyBytes - o.length }

def advance (nwritten : Nat) : Except Fault Client :=
  if c.buf ≠ [] then
    if c.sentlen + nwritten = c.buf.length then .ok { c with buf := [], sentlen := 0 }
    else .ok { c with sentlen := c.sentlen + nwritten }
  else
    match c.reply with
    | ⟨_, some o⟩ :: rest =>
      if c.sentlen + nwritten = o.length then removeHead c o rest else .ok { c with sentlen := c.sentlen + nwritten }
    | _ => .error .nullDereference

def takesBreak (totwritten : Nat) (memoryLeft : Bool) : Bool :=
  decide (netMaxWritesPerEvent < totwritten) && memoryLeft && !c.flags.slave

end

inductive LoopEnd where
  | stopped
  | failed
  deriving DecidableEq

-- The client, the bytes accepted by the socket and why the loop ended. When the list of results is
-- used up the socket takes no more.
def writeLoop : List WriteInput → Nat → Client → Except Fault (Client × Bytes × LoopEnd)
  | [], _, c =>
    if clientHasPendingReplies (skipEmptyNodes c) then
      (nextChunk (skipEmptyNodes c)).map fun _ => (skipEmptyNodes c, [], .stopped)
    else .ok (skipEmptyNodes c, [], .stopped)
  | input :: inputs, totwritten, c =>
    if clientHasPendingReplies (skipEmptyNodes c) then do
      let chunk ← nextChunk (skipEmptyNodes c)
      match input.result with
      | .error => .ok (skipEmptyNodes c, [], .failed)
      | .again => .ok (skipEmptyNodes c, [], .stopped)
      | .accepted n =>
        if min n chunk.length = 0 then .ok (skipEmptyNodes c, [], .stopped)
        else do
          let c ← advance (skipEmptyNodes c) (min n chunk.length)
          if takesBreak c (totwritten + min n chunk.length) input.memoryLeft then .ok (c, chunk.take n, .stopped)
          else do
            let (c, bytes, stop) ← writeLoop inputs (totwritten + min n chunk.length) c
            .ok (c, chunk.take n ++ bytes, stop)
    else .ok (skipEmptyNodes c, [], .stopped)

-- No client when it was freed.
def finishWrite (c : Client) : LoopEnd → Option Client
  | .failed => none
  | .stopped =>
    if clientHasPendingReplies c then some c
    else if c.flags.closeAfterReply then none
    else some { c with sentlen := 0 }

def writeToClient (c : Client) (inputs : List WriteInput) : Except Fault (Option Client × Bytes) := do
  let (c, bytes, stop) ← writeLoop inputs 0 c
  .ok (finishWrite c stop, bytes)

end RedisCore.Networking
