import RedisCore.Networking.Client

set_option autoImplicit false

namespace RedisCore.Networking

open Util

def protoIobufLen : Nat := 1024 * 16
def protoInlineMaxSize : Nat := 1024 * 64
def protoMbulkBigArg : Nat := 1024 * 32

structure Limits where
  protoMaxBulkLen : Nat
  bulkLenFits : protoMaxBulkLen < 2 ^ 63
  clientMaxQuerybufLen : Nat
  sdssplitargs : Bytes → Option (List Bytes)

inductive ReqType where
  | unknown
  | inline
  | multibulk
  deriving DecidableEq

-- A client blocked in a module command keeps its arguments.
inductive BlockType where
  | list
  | wait
  | module
  deriving DecidableEq

inductive ProtocolError where
  | tooBigInline
  | unbalancedQuotes
  | tooBigMbulkCount
  | invalidMultibulkLength
  | tooBigBulkCount
  | expectedDollar (got : UInt8)
  | invalidBulkLength
  deriving DecidableEq

def ascii (s : String) : Bytes := s.toUTF8.toList

def ProtocolError.text : ProtocolError → Bytes
  | .tooBigInline => ascii "Protocol error: too big inline request"
  | .unbalancedQuotes => ascii "Protocol error: unbalanced quotes in request"
  | .tooBigMbulkCount => ascii "Protocol error: too big mbulk count string"
  | .invalidMultibulkLength => ascii "Protocol error: invalid multibulk length"
  | .tooBigBulkCount => ascii "Protocol error: too big bulk count string"
  | .expectedDollar got => ascii "Protocol error: expected '$', got '" ++ [got] ++ ascii "'"
  | .invalidBulkLength => ascii "Protocol error: invalid bulk length"

-- The part of a client that reads requests. bulklen is none for -1.
structure Input where
  querybuf : Bytes
  reqtype : ReqType
  multibulklen : Nat
  bulklen : Option Nat
  argv : List Bytes
  blocked : Option BlockType
  closeAfterReply : Bool
  protocolError : Option ProtocolError
  deriving DecidableEq

def Input.empty : Input :=
  { querybuf := [], reqtype := .unknown, multibulklen := 0, bulklen := none, argv := [], blocked := none,
    closeAfterReply := false, protocolError := none }

def resetClient (c : Input) : Input :=
  { c with argv := [], reqtype := .unknown, multibulklen := 0, bulklen := none }

-- The search ends at a NUL byte, as in the sds terminator.
def strchr (ch : UInt8) : Bytes → Option Nat
  | [] => none
  | byte :: rest => if byte = ch then some 0 else if byte = 0 then none else (strchr ch rest).map (· + 1)

def setProtocolError (c : Input) (error : ProtocolError) (pos : Nat) : Input :=
  { c with closeAfterReply := true, protocolError := some error, querybuf := c.querybuf.drop pos }

def endsLine (querybuf : Bytes) (newline : Nat) : Nat × Nat :=
  if newline ≠ 0 ∧ querybuf.getD (newline - 1) 0 = 13 then (newline - 1, 2) else (newline, 1)

def splitInline (limits : Limits) (c : Input) (newline : Nat) : Input × Bool :=
  let (querylen, linefeedChars) := endsLine c.querybuf newline
  match limits.sdssplitargs (c.querybuf.take querylen) with
  | none => (setProtocolError c .unbalancedQuotes 0, false)
  | some argv => ({ c with querybuf := c.querybuf.drop (querylen + linefeedChars), argv := argv.filter (· ≠ []) }, true)

-- Whether a command is ready.
def processInlineBuffer (limits : Limits) (c : Input) : Input × Bool :=
  match strchr 10 c.querybuf with
  | none =>
    if protoInlineMaxSize < c.querybuf.length then (setProtocolError c .tooBigInline 0, false) else (c, false)
  | some newline => splitInline limits c newline

-- The conversion of a size_t to an int.
def asInt (n : Nat) : Int := if n % 2 ^ 32 < 2 ^ 31 then (n % 2 ^ 32 : Nat) else (n % 2 ^ 32 : Nat) - 2 ^ 32

inductive Line where
  | missing
  | incomplete
  | ended (newline : Nat)

-- A line from pos on and the index of its CR; the LF has to be there too.
def findLine (querybuf : Bytes) (pos : Nat) : Line :=
  match strchr 13 (querybuf.drop pos) with
  | none => .missing
  | some offset => if asInt querybuf.length - 2 < (pos + offset : Nat) then .incomplete else .ended (pos + offset)

inductive Count where
  | wait
  | error (error : ProtocolError)
  | empty (pos : Nat)
  | args (count pos : Nat)

def multibulkCount (querybuf : Bytes) : Count :=
  match findLine querybuf 0 with
  | .missing => if protoInlineMaxSize < querybuf.length then .error .tooBigMbulkCount else .wait
  | .incomplete => .wait
  | .ended newline =>
    match string2ll ((querybuf.take newline).drop 1) with
    | none => .error .invalidMultibulkLength
    | some ll =>
      if 1024 * 1024 < ll then .error .invalidMultibulkLength
      else if ll ≤ 0 then .empty (newline + 2)
      else .args ll.toNat (newline + 2)

inductive BulkLength where
  | wait
  | error (error : ProtocolError) (pos : Nat)
  | length (ll pos : Nat)

def bulkLength (limits : Limits) (querybuf : Bytes) (pos : Nat) : BulkLength :=
  match findLine querybuf pos with
  | .missing => if protoInlineMaxSize < querybuf.length then .error .tooBigBulkCount 0 else .wait
  | .incomplete => .wait
  | .ended newline =>
    if querybuf.getD pos 0 ≠ 36 then .error (.expectedDollar (querybuf.getD pos 0)) pos
    else
      match string2ll ((querybuf.take newline).drop (pos + 1)) with
      | none => .error .invalidBulkLength pos
      | some ll =>
        if ll < 0 ∨ limits.protoMaxBulkLen < ll then .error .invalidBulkLength pos
        else .length ll.toNat (newline + 2)

-- A big argument moves to the start of the buffer.
def setBulkLength (c : Input) (ll pos : Nat) : Input × Nat :=
  if protoMbulkBigArg ≤ ll then ({ c with querybuf := c.querybuf.drop pos, bulklen := some ll }, 0)
  else ({ c with bulklen := some ll }, pos)

-- A buffer that is exactly one big argument becomes the argument.
def takeArg (c : Input) (ll pos : Nat) : Input × Nat :=
  if pos = 0 ∧ protoMbulkBigArg ≤ ll ∧ c.querybuf.length = ll + 2 then
    ({ c with argv := c.argv ++ [c.querybuf.take ll], querybuf := [], bulklen := none }, 0)
  else ({ c with argv := c.argv ++ [(c.querybuf.drop pos).take ll], bulklen := none }, pos + (ll + 2))

inductive ArgHeader where
  | wait
  | error (error : ProtocolError) (pos : Nat)
  | known (c : Input) (ll pos : Nat)

def argHeader (limits : Limits) (c : Input) (pos : Nat) : ArgHeader :=
  match c.bulklen with
  | some ll => .known c ll pos
  | none =>
    match bulkLength limits c.querybuf pos with
    | .wait => .wait
    | .error error pos => .error error pos
    | .length ll next => .known (setBulkLength c ll next).1 ll (setBulkLength c ll next).2

-- The client, how much of the buffer was used, and false after a protocol error.
def readArgs (limits : Limits) : (multibulklen : Nat) → Input → (pos : Nat) → Input × Nat × Bool
  | 0, c, pos => ({ c with multibulklen := 0 }, pos, true)
  | n + 1, c, pos =>
    match argHeader limits c pos with
    | .wait => ({ c with multibulklen := n + 1 }, pos, true)
    | .error error pos => (setProtocolError { c with multibulklen := n + 1 } error pos, 0, false)
    | .known c ll pos =>
      if c.querybuf.length - pos < ll + 2 then ({ c with multibulklen := n + 1 }, pos, true)
      else readArgs limits n (takeArg c ll pos).1 (takeArg c ll pos).2

def trim (c : Input) (pos : Nat) : Input := { c with querybuf := c.querybuf.drop pos }

def finishArgs : Input × Nat × Bool → Input × Bool
  | (c, pos, true) => (trim c pos, decide (c.multibulklen = 0))
  | (c, _, false) => (c, false)

def processMultibulkBuffer (limits : Limits) (c : Input) : Input × Bool :=
  if c.multibulklen = 0 then
    match multibulkCount c.querybuf with
    | .wait => (c, false)
    | .error error => (setProtocolError c error 0, false)
    | .empty pos => (trim c pos, true)
    | .args count pos => finishArgs (readArgs limits count c pos)
  else finishArgs (readArgs limits c.multibulklen c 0)

def requestType (c : Input) : ReqType :=
  if c.reqtype = .unknown then (if c.querybuf.head? = some 42 then .multibulk else .inline) else c.reqtype

def parseRequest (limits : Limits) (c : Input) : Input × Bool :=
  if requestType c = .inline then processInlineBuffer limits { c with reqtype := requestType c }
  else processMultibulkBuffer limits { c with reqtype := requestType c }

section

variable {S : Type} (limits : Limits) (paused : Bool) (processCommand : S → Input → S × Input)

-- An empty request is dropped.
def handleRequest (s : S) (c : Input) : S × Input := if c.argv = [] then (s, resetClient c) else processCommand s c

-- One turn of the loop takes at least one byte, which bounds the turns.
def processLoop : (turns : Nat) → S → Input → S × Input
  | 0, s, c => (s, c)
  | turns + 1, s, c =>
    if c.querybuf = [] || paused || c.blocked.isSome || c.closeAfterReply then (s, c)
    else
      match parseRequest limits c with
      | (c, false) => (s, c)
      | (c, true) => processLoop turns (handleRequest processCommand s c).1 (handleRequest processCommand s c).2

def processInputBuffer (s : S) (c : Input) : S × Input :=
  processLoop limits paused processCommand (c.querybuf.length + 1) s c

end

-- In the middle of a big argument no more than the argument is read.
def readlen (c : Input) : Nat :=
  match c.bulklen with
  | some ll =>
    if c.reqtype = .multibulk ∧ c.multibulklen ≠ 0 ∧ protoMbulkBigArg ≤ ll then min (ll + 2 - c.querybuf.length) protoIobufLen
    else protoIobufLen
  | none => protoIobufLen

end RedisCore.Networking
