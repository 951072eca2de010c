import RedisCore.Lib.DoublyLinked
import RedisCore.Ziplist.Merge

set_option autoImplicit false
set_option linter.style.nameCheck false

namespace RedisCore.QuickList

open Ziplist DoublyLinked Function

-- compress gives none where lzf_compress returns 0.
structure Lzf where
  compress : Bytes → Option Bytes
  decompress : Bytes → Nat → Option Bytes
  lossless : ∀ data packed, compress data = some packed → decompress packed data.length = some data

inductive Encoding where
  | raw
  | lzf
  deriving DecidableEq, Repr

-- zl is the ziplist, or the compressed data when the encoding is lzf.
structure QuicklistNode where
  zl : Bytes
  sz : Nat
  count : Nat
  encoding : Encoding
  recompress : Bool
  deriving DecidableEq, Repr

-- Nodes are addresses; prev and next are kept apart from the other fields. The field exposed is
-- not in the source: it records that removing a node has left a set recompress flag on the head or
-- the tail, or on any node of a list too short to be compressed.
structure Quicklist where
  head : Option Nat
  tail : Option Nat
  count : Nat
  len : Nat
  fill : Int
  compress : Nat
  prev : Nat → Option Nat
  next : Nat → Option Nat
  node : Nat → Option QuicklistNode
  fresh : Nat
  exposed : Bool

-- compressed: LZF data is used as a ziplist. ziplist: a read leaves the ziplist. dangling: a byte is read through a
-- pointer into a block that has been given to realloc.
inductive Fault where
  | null
  | compressed
  | ziplist
  | dangling
  | stuck
  deriving DecidableEq, Repr

def ofZiplist {A : Type} : Option A → Except Fault A
  | none => .error .ziplist
  | some a => .ok a

def quicklistCreate : Quicklist where
  head := none
  tail := none
  count := 0
  len := 0
  fill := -2
  compress := 0
  prev := fun _ => none
  next := fun _ => none
  node := fun _ => none
  fresh := 0
  exposed := false

-- The bound 1 << 16 is stored in 16 bits.
def quicklistSetCompressDepth (ql : Quicklist) (compress : Int) : Quicklist :=
  let compress := if 65536 < compress then 65536 else if compress < 0 then 0 else compress
  { ql with compress := compress.toNat % 65536 }

-- The bound 1 << 15 is stored in a signed field of 16 bits.
def quicklistSetFill (ql : Quicklist) (fill : Int) : Quicklist :=
  let fill := if 32768 < fill then 32768 else if fill < -5 then -5 else fill
  { ql with fill := (fill + 32768) % 65536 - 32768 }

def quicklistNew (fill compress : Int) : Quicklist :=
  quicklistSetCompressDepth (quicklistSetFill quicklistCreate fill) compress

def Quicklist.get (ql : Quicklist) (n : Nat) : Except Fault QuicklistNode :=
  match ql.node n with
  | none => .error .null
  | some node => .ok node

def Quicklist.set (ql : Quicklist) (n : Nat) (node : QuicklistNode) : Quicklist :=
  { ql with node := update ql.node n (some node) }

def Quicklist.modify (ql : Quicklist) (n : Nat) (f : QuicklistNode → QuicklistNode) : Except Fault Quicklist := do
  let node ← ql.get n
  pure (ql.set n (f node))

def rawZl (node : QuicklistNode) : Except Fault Bytes :=
  match node.encoding with
  | .raw => .ok node.zl
  | .lzf => .error .compressed

-- Wrapping arithmetic of unsigned long and of the 16-bit count.
@[irreducible] def sub64 (a b : Nat) : Nat := if b ≤ a then a - b else a + 2 ^ 64 - b
@[irreducible] def add64 (a b : Nat) : Nat := if a + b < 2 ^ 64 then a + b else a + b - 2 ^ 64
@[irreducible] def sub16 (a b : Nat) : Nat := if b ≤ a then a - b else (a + 2 ^ 16 - b % 2 ^ 16) % 2 ^ 16
def uint32 (n : Int) : Nat := (n % 2 ^ 32).toNat

def minCompressBytes : Nat := 48
def minCompressImprove : Nat := 8
def sizeSafetyLimit : Nat := 8192
def optimizationLevel : List Nat := [4096, 8192, 16384, 32768, 65536]

def __quicklistCompressNode (lzf : Lzf) (node : QuicklistNode) : QuicklistNode :=
  if node.sz < minCompressBytes then node
  else
    match lzf.compress (node.zl.take node.sz) with
    | none => node
    | some packed =>
      if node.sz ≤ packed.length + minCompressImprove then node
      else { node with zl := packed, encoding := .lzf, recompress := false }

def quicklistCompressNode (lzf : Lzf) (node : QuicklistNode) : QuicklistNode :=
  if node.encoding = .raw then __quicklistCompressNode lzf node else node

def __quicklistDecompressNode (lzf : Lzf) (node : QuicklistNode) : QuicklistNode :=
  match lzf.decompress node.zl node.sz with
  | none => node
  | some zl => { node with zl := zl, encoding := .raw }

def quicklistDecompressNode (lzf : Lzf) (node : QuicklistNode) : QuicklistNode :=
  if node.encoding = .lzf then __quicklistDecompressNode lzf node else node

def quicklistDecompressNodeForUse (lzf : Lzf) (node : QuicklistNode) : QuicklistNode :=
  if node.encoding = .lzf then { __quicklistDecompressNode lzf node with recompress := true } else node

-- The macros on nodes skip a NULL pointer.
def onNode (ql : Quicklist) (n : Option Nat) (f : QuicklistNode → QuicklistNode) : Except Fault Quicklist :=
  match n with
  | none => .ok ql
  | some n => ql.modify n f

structure Reached where
  forward : Option Nat
  reverse : Option Nat
  inDepth : Bool

-- The loop over the compress depth; no Reached when the two pointers have met.
def compressWalk (lzf : Lzf) (node : Option Nat) :
    (rounds : Nat) → Quicklist → (forward reverse : Option Nat) → (inDepth : Bool) →
      Except Fault (Quicklist × Option Reached)
  | 0, ql, forward, reverse, inDepth => .ok (ql, some ⟨forward, reverse, inDepth⟩)
  | rounds + 1, ql, forward, reverse, inDepth => do
    let ql ← onNode ql forward (quicklistDecompressNode lzf)
    let ql ← onNode ql reverse (quicklistDecompressNode lzf)
    let inDepth := inDepth || decide (forward = node) || decide (reverse = node)
    if forward = reverse then pure (ql, none)
    else
      match forward, reverse with
      | some f, some r => compressWalk lzf node rounds ql (ql.next f) (ql.prev r) inDepth
      | _, _ => .error .null

-- depth > 2 after the loop means a compress depth of at least 2.
def compressBeyond (lzf : Lzf) (node : Option Nat) (ql : Quicklist) (reached : Reached) : Except Fault Quicklist := do
  let ql ← onNode ql (if reached.inDepth then none else node) (quicklistCompressNode lzf)
  let ql ← onNode ql (if 1 < ql.compress then reached.forward else none) (quicklistCompressNode lzf)
  onNode ql (if 1 < ql.compress then reached.reverse else none) (quicklistCompressNode lzf)

def __quicklistCompress (lzf : Lzf) (ql : Quicklist) (node : Option Nat) : Except Fault Quicklist :=
  if ql.compress = 0 ∨ ql.len < 2 * ql.compress then .ok ql
  else do
    match ← compressWalk lzf node ql.compress ql ql.head ql.tail false with
    | (ql, none) => pure ql
    | (ql, some reached) => compressBeyond lzf node ql reached

def quicklistCompress (lzf : Lzf) (ql : Quicklist) (n : Nat) : Except Fault Quicklist := do
  let node ← ql.get n
  if node.recompress then pure (ql.set n (quicklistCompressNode lzf node))
  else __quicklistCompress lzf ql (some n)

def quicklistRecompressOnly (lzf : Lzf) (ql : Quicklist) (n : Nat) : Except Fault Quicklist :=
  ql.modify n fun node => if node.recompress then quicklistCompressNode lzf node else node

-- The pointers of a new node are NULL.
def linkNode (ql : Quicklist) (old : Option Nat) (new : Nat) (after : Bool) : Quicklist :=
  match old, after with
  | none, true => { ql with tail := if ql.tail = none then some new else ql.tail }
  | none, false => { ql with head := if ql.head = none then some new else ql.head }
  | some old, true =>
    { ql with
      prev := (spliceBack ql.prev ql.next old new).1
      next := (spliceBack ql.prev ql.next old new).2
      tail := if ql.tail = some old then some new else ql.tail }
  | some old, false =>
    { ql with
      next := (spliceBack ql.next ql.prev old new).1
      prev := (spliceBack ql.next ql.prev old new).2
      head := if ql.head = some old then some new else ql.head }

def onlyNode (ql : Quicklist) (new : Nat) : Quicklist :=
  if ql.len = 0 then { ql with head := some new, tail := some new } else ql

def compressOld (lzf : Lzf) (ql : Quicklist) : Option Nat → Except Fault Quicklist
  | none => .ok ql
  | some old => quicklistCompress lzf ql old

def __quicklistInsertNode (lzf : Lzf) (ql : Quicklist) (old : Option Nat) (new : Nat) (after : Bool) :
    Except Fault Quicklist := do
  let ql ← compressOld lzf (onlyNode (linkNode ql old new after) new) old
  pure { ql with len := ql.len + 1 }

-- A new node gets the next address.
def Quicklist.alloc (ql : Quicklist) (node : QuicklistNode) : Quicklist :=
  { ql with
    prev := update ql.prev ql.fresh none
    next := update ql.next ql.fresh none
    node := update ql.node ql.fresh (some node)
    fresh := ql.fresh + 1 }

def flagged (ql : Quicklist) (n : Nat) : Bool := (ql.node n).any QuicklistNode.recompress

def walkIds (next : Nat → Option Nat) : Nat → Option Nat → List Nat
  | 0, _ => []
  | _ + 1, none => []
  | fuel + 1, some n => n :: walkIds next fuel (next n)

def chainIds (ql : Quicklist) : List Nat := walkIds ql.next ql.len ql.head

-- With these nodes only, no flag would stand on the head or the tail, or on any node if they are too few to be compressed.
def hides (ql : Quicklist) (ids : List Nat) : Bool :=
  (ids.head?.toList ++ ids.getLast?.toList ++ if ids.length < 2 * ql.compress then ids else []).all fun n => !flagged ql n

def unlinkNode (ql : Quicklist) (n : Nat) : Quicklist :=
  { ql with
    prev := (unlink ql.prev ql.next n).1
    next := (unlink ql.prev ql.next n).2
    tail := if ql.tail = some n then ql.prev n else ql.tail
    head := if ql.head = some n then ql.next n else ql.head }

def freeNode (ql : Quicklist) (n count : Nat) : Quicklist :=
  { ql with
    count := sub64 ql.count count
    node := update ql.node n none
    len := ql.len - 1 }

def __quicklistDelNode (lzf : Lzf) (ql : Quicklist) (n : Nat) : Except Fault Quicklist := do
  let ql ← __quicklistCompress lzf (unlinkNode ql n) none
  let node ← ql.get n
  let ql := freeNode ql n node.count
  pure { ql with exposed := ql.exposed || !hides ql (chainIds ql) }

def _quicklistNodeSizeMeetsOptimizationRequirement (sz : Nat) (fill : Int) : Bool :=
  if 0 ≤ fill then false
  else
    match optimizationLevel[(-fill - 1).toNat]? with
    | none => false
    | some level => decide (sz ≤ level)

def ziplistOverhead (sz : Nat) : Nat :=
  (if sz < 254 then 1 else 5) + (if sz < 64 then 1 else if sz < 16384 then 2 else 5)

def _quicklistNodeAllowInsert (node : QuicklistNode) (fill : Int) (sz : Nat) : Bool :=
  let newSz := (node.sz + sz + ziplistOverhead sz) % 2 ^ 32
  if _quicklistNodeSizeMeetsOptimizationRequirement newSz fill then true
  else if sizeSafetyLimit < newSz then false
  else decide ((node.count : Int) < fill)

def _quicklistNodeAllowMerge (a b : QuicklistNode) (fill : Int) : Bool :=
  let mergeSz := uint32 ((a.sz : Int) + b.sz - 11)
  if _quicklistNodeSizeMeetsOptimizationRequirement mergeSz fill then true
  else if sizeSafetyLimit < mergeSz then false
  else decide (((a.count + b.count : Nat) : Int) ≤ fill)

-- A NULL node allows nothing.
def allowsInsert (ql : Quicklist) (n : Option Nat) (sz : Nat) : Except Fault Bool :=
  match n with
  | none => .ok false
  | some n => do
    let node ← ql.get n
    pure (_quicklistNodeAllowInsert node ql.fill sz)

def allowsMerge (ql : Quicklist) (a b : Option Nat) : Except Fault Bool :=
  match a, b with
  | some a, some b => do
    let nodeA ← ql.get a
    let nodeB ← ql.get b
    pure (_quicklistNodeAllowMerge nodeA nodeB ql.fill)
  | _, _ => .ok false

def storeZl (node : QuicklistNode) (zl : Bytes) (count : Nat) : Except Fault QuicklistNode := do
  let sz ← ofZiplist (ziplistBytes zl)
  pure { node with zl := zl, sz := sz, count := count % 2 ^ 16 }

def quicklistCreateNode : QuicklistNode where
  zl := []
  sz := 0
  count := 0
  encoding := .raw
  recompress := false

-- A node of one entry; its count is raised here, which no step before the source's own count++ reads.
def singleNode (value : Bytes) (place : Where) : Except Fault QuicklistNode := do
  let zl ← ofZiplist (ziplistPush ziplistNew value place)
  storeZl quicklistCreateNode zl 1

def pushInside (ql : Quicklist) (n : Nat) (value : Bytes) (place : Where) : Except Fault Quicklist := do
  let node ← ql.get n
  let zl ← rawZl node
  let zl ← ofZiplist (ziplistPush zl value place)
  let node ← storeZl node zl (node.count + 1)
  pure (ql.set n node)

def insertSingle (lzf : Lzf) (ql : Quicklist) (old : Option Nat) (value : Bytes) (place : Where) (after : Bool) :
    Except Fault Quicklist := do
  let node ← singleNode value place
  __quicklistInsertNode lzf (ql.alloc node) old ql.fresh after

def pushEnd (lzf : Lzf) (ql : Quicklist) (room : Bool) (value : Bytes) : Where → Except Fault Quicklist
  | .head =>
    match room, ql.head with
    | true, some n => pushInside ql n value .head
    | _, _ => insertSingle lzf ql ql.head value .head false
  | .tail =>
    match room, ql.tail with
    | true, some n => pushInside ql n value .tail
    | _, _ => insertSingle lzf ql ql.tail value .tail true

def Quicklist.last (ql : Quicklist) : Where → Option Nat
  | .head => ql.head
  | .tail => ql.tail

def addCount (ql : Quicklist) (n : Nat) : Quicklist := { ql with count := add64 ql.count n }
def dropCount (ql : Quicklist) (n : Nat) : Quicklist := { ql with count := sub64 ql.count n }

-- quicklistPushHead and quicklistPushTail; the result says whether a node was added.
def quicklistPush (lzf : Lzf) (ql : Quicklist) (value : Bytes) (place : Where) :
    Except Fault (Quicklist × Bool) := do
  let room ← allowsInsert ql (ql.last place) value.length
  let pushed ← pushEnd lzf ql room value place
  pure (addCount pushed 1, decide (ql.last place ≠ pushed.last place))

def quicklistPushHead (lzf : Lzf) (ql : Quicklist) (value : Bytes) : Except Fault (Quicklist × Bool) :=
  quicklistPush lzf ql value .head

def quicklistPushTail (lzf : Lzf) (ql : Quicklist) (value : Bytes) : Except Fault (Quicklist × Bool) :=
  quicklistPush lzf ql value .tail

-- The second component says whether the node is gone.
def quicklistDelIndex (lzf : Lzf) (ql : Quicklist) (n p : Nat) : Except Fault (Quicklist × Bool) := do
  let node ← ql.get n
  let zl ← rawZl node
  let (zl, _) ← ofZiplist (ziplistDelete zl p)
  if sub16 node.count 1 = 0 then
    let ql ← __quicklistDelNode lzf (ql.set n { node with zl := zl, count := 0 }) n
    pure (dropCount ql 1, true)
  else
    let node ← storeZl node zl (sub16 node.count 1)
    pure (dropCount (ql.set n node) 1, false)

end RedisCore.QuickList
