import RedisCore.QuickList.Model

set_option autoImplicit false

namespace RedisCore.QuickList

open Ziplist

structure QuicklistEntry where
  node : Option Nat
  zi : Option Nat
  value : Option ZlValue
  offset : Int

-- ziplistGet leaves the value alone when the pointer is NULL.
def entryAt (zl : Bytes) : Option Nat → Except Fault (Option ZlValue)
  | none => .ok none
  | some p => do
    let value ← ofZiplist (ziplistGet (zl.drop p))
    pure (some value)

def openEntry (lzf : Lzf) (ql : Quicklist) (n : Nat) (offset : Int) : Except Fault (Quicklist × QuicklistEntry) := do
  let node ← ql.get n
  let zl ← rawZl (quicklistDecompressNodeForUse lzf node)
  let zi ← ofZiplist (ziplistIndex zl offset)
  let value ← entryAt zl zi
  pure (ql.set n (quicklistDecompressNodeForUse lzf node), ⟨some n, zi, value, offset⟩)

-- The node that holds the index, and the entries passed before it.
def indexWalk (ql : Quicklist) (link : Nat → Option Nat) (index : Nat) :
    (fuel : Nat) → Option Nat → (accum : Nat) → Except Fault (Option (Nat × Nat))
  | _, none, _ => .ok none
  | 0, some _, _ => .error .stuck
  | fuel + 1, some n, accum => do
    let node ← ql.get n
    if index < accum + node.count then pure (some (n, accum))
    else indexWalk ql link index fuel (link n) (accum + node.count)

def openFound (lzf : Lzf) (ql : Quicklist) (offset : Nat → Int) :
    Option (Nat × Nat) → Except Fault (Quicklist × Option QuicklistEntry)
  | none => .ok (ql, none)
  | some (n, accum) => do
    let (ql, entry) ← openEntry lzf ql n (offset accum)
    pure (ql, some entry)

def quicklistIndex (lzf : Lzf) (ql : Quicklist) (idx : Int) : Except Fault (Quicklist × Option QuicklistEntry) :=
  if 0 ≤ idx then
    if ql.count ≤ idx.toNat then .ok (ql, none)
    else do
      let found ← indexWalk ql ql.next idx.toNat ql.len ql.head 0
      openFound lzf ql (fun accum => idx - accum) found
  else if ql.count ≤ (-idx - 1).toNat then .ok (ql, none)
  else do
    let found ← indexWalk ql ql.prev (-idx - 1).toNat ql.len ql.tail 0
    openFound lzf ql (fun accum => idx + accum) found

def replaceEntry (lzf : Lzf) (ql : Quicklist) (value : Bytes) (n p : Nat) : Except Fault Quicklist := do
  let node ← ql.get n
  let zl ← rawZl node
  let (zl, p) ← ofZiplist (ziplistDelete zl p)
  let zl ← ofZiplist (ziplistInsert zl p value)
  let node ← storeZl node zl node.count
  quicklistCompress lzf (ql.set n node) n

def entryPointers (entry : QuicklistEntry) : Except Fault (Nat × Nat) :=
  match entry.node, entry.zi with
  | some n, some p => .ok (n, p)
  | _, _ => .error .null

def quicklistReplaceAtIndex (lzf : Lzf) (ql : Quicklist) (idx : Int) (value : Bytes) :
    Except Fault (Quicklist × Bool) := do
  match ← quicklistIndex lzf ql idx with
  | (ql, none) => pure (ql, false)
  | (ql, some entry) =>
    let (n, p) ← entryPointers entry
    let ql ← replaceEntry lzf ql value n p
    pure (ql, true)

-- The result is the node that lives on. The ziplist of the other one is freed.
def _quicklistZiplistMerge (lzf : Lzf) (ql : Quicklist) (a b : Nat) : Except Fault (Quicklist × Nat) := do
  let ql ← ql.modify a (quicklistDecompressNode lzf)
  let ql ← ql.modify b (quicklistDecompressNode lzf)
  let nodeA ← ql.get a
  let nodeB ← ql.get b
  let zlA ← rawZl nodeA
  let zlB ← rawZl nodeB
  let (zl, append) ← ofZiplist (ziplistMerge zlA zlB)
  let (zl, count) ← ofZiplist (ziplistLen zl)
  let kept ← storeZl (if append then nodeA else nodeB) zl count
  let keep := if append then a else b
  let nokeep := if append then b else a
  let dropped := { (if append then nodeB else nodeA) with zl := [], count := 0 }
  let ql ← __quicklistDelNode lzf ((ql.set keep kept).set nokeep dropped) nokeep
  let ql ← quicklistCompress lzf ql keep
  pure (ql, keep)

-- Without a merge the node to go on with is other.
def mergeIfAllowed (lzf : Lzf) (ql : Quicklist) (a b : Option Nat) (other : Nat) :
    Except Fault (Quicklist × Nat) := do
  let allowed ← allowsMerge ql a b
  match a, b, allowed with
  | some a, some b, true => _quicklistZiplistMerge lzf ql a b
  | _, _, _ => pure (ql, other)

def _quicklistMergeNodes (lzf : Lzf) (ql : Quicklist) (center : Nat) : Except Fault Quicklist := do
  let prev := ql.prev center
  let prevPrev := prev.bind ql.prev
  let next := ql.next center
  let nextNext := next.bind ql.next
  let (ql, _) ← mergeIfAllowed lzf ql prevPrev prev center
  let (ql, _) ← mergeIfAllowed lzf ql next nextNext center
  let (ql, target) ← mergeIfAllowed lzf ql (ql.prev center) (some center) center
  let (ql, _) ← mergeIfAllowed lzf ql (some target) (ql.next target) center
  pure ql

-- What ziplistDeleteRange leaves of a ziplist, with its entry count.
def cutZl (zl : Bytes) (start extent : Int) : Except Fault (Bytes × Nat) := do
  let zl ← ofZiplist (ziplistDeleteRange zl start (uint32 extent))
  ofZiplist (ziplistLen zl)

-- The node as it stays, and the node split off, which takes value at its near end.
def _quicklistSplitNode (node : QuicklistNode) (offset : Int) (after : Bool) :
    Except Fault (QuicklistNode × QuicklistNode) := do
  let zl ← rawZl node
  let copy := zl.take node.sz
  let (origZl, origCount) ← cutZl zl (if after then offset + 1 else 0) (if after then -1 else offset)
  let node ← storeZl node origZl origCount
  let (newZl, newCount) ← cutZl copy (if after then 0 else offset) (if after then offset + 1 else -1)
  let newNode ← storeZl quicklistCreateNode newZl newCount
  pure (node, newNode)

def pushNode (node : QuicklistNode) (value : Bytes) (place : Where) : Except Fault QuicklistNode := do
  let zl ← ofZiplist (ziplistPush node.zl value place)
  storeZl node zl (node.count + 1)

def insertZl (zl : Bytes) (p : Nat) (value : Bytes) : (after : Bool) → Option Bytes
  | false => ziplistInsert zl p value
  | true => do
    match ← ziplistNext zl p with
    | none => ziplistPush zl value .tail
    | some q => ziplistInsert zl q value

def insertInside (lzf : Lzf) (ql : Quicklist) (n p : Nat) (value : Bytes) (after : Bool) : Except Fault Quicklist := do
  let node ← ql.get n
  let node := quicklistDecompressNodeForUse lzf node
  let zl ← rawZl node
  let zl ← ofZiplist (insertZl zl p value after)
  let node ← storeZl node zl (node.count + 1)
  quicklistRecompressOnly lzf (ql.set n node) n

def insertNeighbour (lzf : Lzf) (ql : Quicklist) (n : Nat) (value : Bytes) (place : Where) : Except Fault Quicklist := do
  let ql ← ql.modify n (quicklistDecompressNodeForUse lzf)
  let ql ← pushInside ql n value place
  quicklistRecompressOnly lzf ql n

def insertSplit (lzf : Lzf) (ql : Quicklist) (n : Nat) (offset : Int) (value : Bytes) (after : Bool) :
    Except Fault Quicklist := do
  let node ← ql.get n
  let (node, newNode) ← _quicklistSplitNode (quicklistDecompressNodeForUse lzf node) offset after
  let newNode ← pushNode newNode value (if after then .head else .tail)
  let ql ← __quicklistInsertNode lzf ((ql.set n node).alloc newNode) (some n) ql.fresh after
  _quicklistMergeNodes lzf ql n

-- At an end of a full node: the neighbour takes the entry, or a new node does when it is full too.
def insertBeside (lzf : Lzf) (ql : Quicklist) (n : Nat) (neighbour : Option Nat) (offset : Int) (value : Bytes)
    (place : Where) (after : Bool) : Except Fault Quicklist := do
  let room ← allowsInsert ql neighbour value.length
  match neighbour with
  | none => insertSplit lzf ql n offset value after
  | some m =>
    if room then insertNeighbour lzf ql m value place
    else insertSingle lzf ql (some n) value .head after

-- The test for the last entry compares the offset with the count, which it never reaches.
def insertFull (lzf : Lzf) (ql : Quicklist) (n count : Nat) (offset : Int) (value : Bytes) (after : Bool) :
    Except Fault Quicklist :=
  if after = true ∧ offset = count then insertBeside lzf ql n (ql.next n) offset value .head after
  else if after = false ∧ offset = 0 then insertBeside lzf ql n (ql.prev n) offset value .tail after
  else insertSplit lzf ql n offset value after

def insertAt (lzf : Lzf) (ql : Quicklist) (n p : Nat) (offset : Int) (value : Bytes) (after : Bool) :
    Except Fault Quicklist := do
  let node ← ql.get n
  if _quicklistNodeAllowInsert node ql.fill value.length then insertInside lzf ql n p value after
  else insertFull lzf ql n node.count offset value after

-- Without a node the entry becomes a node of its own, whose sz stays 0.
def insertAlone (lzf : Lzf) (ql : Quicklist) (value : Bytes) (after : Bool) : Except Fault Quicklist := do
  let node ← singleNode value .head
  __quicklistInsertNode lzf (ql.alloc { node with sz := 0 }) none ql.fresh after

def _quicklistInsert (lzf : Lzf) (ql : Quicklist) (entry : QuicklistEntry) (value : Bytes) (after : Bool) :
    Except Fault Quicklist := do
  match entry.node with
  | none =>
    let ql ← insertAlone lzf ql value after
    pure (addCount ql 1)
  | some _ =>
    let (n, p) ← entryPointers entry
    let ql ← insertAt lzf ql n p entry.offset value after
    pure (addCount ql 1)

-- How many entries of a node go, and whether that is all of them.
def delCount (count : Nat) (offset : Int) (extent : Nat) : Nat × Bool :=
  if offset = 0 ∧ count ≤ extent then (count, true)
  else if 0 ≤ offset ∧ count ≤ extent then ((count - offset).toNat, false)
  else if offset < 0 then (min (-offset).toNat extent, false)
  else (extent, false)

def delPart (lzf : Lzf) (ql : Quicklist) (n : Nat) (offset : Int) (del : Nat) : Except Fault Quicklist := do
  let node ← ql.get n
  let node := quicklistDecompressNodeForUse lzf node
  let zl ← rawZl node
  let zl ← ofZiplist (ziplistDeleteRange zl offset (del % 2 ^ 32))
  let node ← storeZl node zl (sub16 node.count del)
  let ql := dropCount (ql.set n node) del
  if node.count = 0 then __quicklistDelNode lzf ql n else quicklistRecompressOnly lzf ql n

def delFrom (lzf : Lzf) (ql : Quicklist) (n : Nat) (offset : Int) (del : Nat) (entire : Bool) : Except Fault Quicklist :=
  if entire then __quicklistDelNode lzf ql n else delPart lzf ql n offset del

def delRangeLoop (lzf : Lzf) :
    (fuel : Nat) → Quicklist → Option Nat → (offset : Int) → (extent : Nat) → Except Fault Quicklist
  | _, ql, _, _, 0 => .ok ql
  | 0, _, _, _, _ + 1 => .error .stuck
  | _ + 1, _, none, _, _ + 1 => .error .null
  | fuel + 1, ql, some n, offset, extent + 1 => do
    let node ← ql.get n
    let del := delCount node.count offset (extent + 1)
    let rest ← delFrom lzf ql n offset del.1 del.2
    delRangeLoop lzf fuel rest (ql.next n) 0 (extent + 1 - del.1)

-- The subtraction count - start is one of unsigned long.
def delExtent (ql : Quicklist) (start : Int) (count : Nat) : Nat :=
  if 0 ≤ start then
    if sub64 ql.count start.toNat < count then sub64 ql.count start.toNat else count
  else if (-start).toNat < count then (-start).toNat
  else count

def quicklistDelRange (lzf : Lzf) (ql : Quicklist) (start count : Int) : Except Fault (Quicklist × Bool) :=
  if count ≤ 0 then .ok (ql, false)
  else do
    let extent := delExtent ql start count.toNat
    match ← quicklistIndex lzf ql start with
    | (ql, none) => pure (ql, false)
    | (ql, some entry) =>
      let ql ← delRangeLoop lzf ql.len ql entry.node entry.offset extent
      pure (ql, true)

-- The direction is named after the end where the iterator starts.
structure QuicklistIter where
  current : Option Nat
  zi : Option Nat
  offset : Int
  direction : Where

def startOffset : Where → Int
  | .head => 0
  | .tail => -1

def quicklistGetIterator (ql : Quicklist) (direction : Where) : QuicklistIter :=
  ⟨ql.last direction, none, startOffset direction, direction⟩

def Quicklist.follow (ql : Quicklist) : Where → Nat → Option Nat
  | .head => ql.next
  | .tail => ql.prev

def nextPointer (lzf : Lzf) (ql : Quicklist) (iter : QuicklistIter) (n : Nat) :
    Except Fault (Quicklist × QuicklistIter) := do
  let node ← ql.get n
  match iter.zi, iter.direction with
  | none, _ =>
    let zl ← rawZl (quicklistDecompressNodeForUse lzf node)
    let zi ← ofZiplist (ziplistIndex zl iter.offset)
    pure (ql.set n (quicklistDecompressNodeForUse lzf node), { iter with zi := zi })
  | some p, .head =>
    let zl ← rawZl node
    let zi ← ofZiplist (ziplistNext zl p)
    pure (ql, { iter with zi := zi, offset := iter.offset + 1 })
  | some p, .tail =>
    let zl ← rawZl node
    let zi ← ofZiplist (ziplistPrev zl p)
    pure (ql, { iter with zi := zi, offset := iter.offset - 1 })

def quicklistNext (lzf : Lzf) : (fuel : Nat) → Quicklist → QuicklistIter →
    Except Fault (Quicklist × QuicklistIter × Option QuicklistEntry)
  | 0, _, _ => .error .stuck
  | fuel + 1, ql, iter =>
    match iter.current with
    | none => .ok (ql, iter, none)
    | some n => do
      let (ql, iter) ← nextPointer lzf ql iter n
      match iter.zi with
      | some p =>
        let node ← ql.get n
        let zl ← rawZl node
        let value ← ofZiplist (ziplistGet (zl.drop p))
        pure (ql, iter, some ⟨some n, some p, some value, iter.offset⟩)
      | none =>
        let ql ← quicklistCompress lzf ql n
        quicklistNext lzf fuel ql
          { iter with current := ql.follow iter.direction n, offset := startOffset iter.direction, zi := none }

def quicklistDelEntry (lzf : Lzf) (ql : Quicklist) (iter : QuicklistIter) (entry : QuicklistEntry) :
    Except Fault (Quicklist × QuicklistIter) := do
  let (n, p) ← entryPointers entry
  let (rest, gone) ← quicklistDelIndex lzf ql n p
  pure (rest, if gone then
      { iter with zi := none, current := ql.follow iter.direction n, offset := startOffset iter.direction }
    else { iter with zi := none })

def quicklistReleaseIterator (lzf : Lzf) (ql : Quicklist) (iter : QuicklistIter) : Except Fault Quicklist :=
  compressOld lzf ql iter.current

def dupNode (node : QuicklistNode) : QuicklistNode :=
  { node with zl := if node.encoding = .raw then node.zl.take node.sz else node.zl, recompress := false }

def dupLoop (lzf : Lzf) (orig : Quicklist) : (fuel : Nat) → Option Nat → (copy : Quicklist) → Except Fault Quicklist
  | _, none, copy => .ok copy
  | 0, some _, _ => .error .stuck
  | fuel + 1, some n, copy => do
    let node ← orig.get n
    let copy ← __quicklistInsertNode lzf (addCount (copy.alloc (dupNode node)) node.count) copy.tail copy.fresh true
    dupLoop lzf orig fuel (orig.next n) copy

def quicklistDup (lzf : Lzf) (orig : Quicklist) : Except Fault Quicklist :=
  dupLoop lzf orig orig.len orig.head (quicklistNew orig.fill orig.compress)

def tailEntry (ql : Quicklist) (t : Nat) : Except Fault (Nat × ZlValue) := do
  let node ← ql.get t
  let zl ← rawZl node
  match ← ofZiplist (ziplistIndex zl (-1)) with
  | none => .error .null
  | some p =>
    let value ← ofZiplist (ziplistGet (zl.drop p))
    pure (p, value)

-- The string is pushed from where it stands in the tail's ziplist, which is resized first if it takes the entry.
def readsMoved (ql : Quicklist) (t : Nat) : ZlValue → Except Fault Bool
  | .str value => do
    let room ← allowsInsert ql ql.head value.length
    pure (decide (ql.head = some t) && room && decide (value ≠ []))
  | .int _ => .ok false

-- With a single node the push has moved the entry.
def rotatePointer (ql : Quicklist) (t p : Nat) : Except Fault Nat :=
  if ql.len = 1 then do
    let (p, _) ← tailEntry ql t
    pure p
  else .ok p

def rotateTail (lzf : Lzf) (ql : Quicklist) (t : Nat) : Except Fault Quicklist := do
  let (p, value) ← tailEntry ql t
  if ← readsMoved ql t value then .error .dangling
  else
    let (ql, _) ← quicklistPushHead lzf ql value.toBytes
    match ql.tail with
    | none => .error .null
    | some t =>
      let p ← rotatePointer ql t p
      let (ql, _) ← quicklistDelIndex lzf ql t p
      pure ql

def quicklistRotate (lzf : Lzf) (ql : Quicklist) : Except Fault Quicklist :=
  if ql.count ≤ 1 then .ok ql
  else
    match ql.tail with
    | none => .error .null
    | some t => rotateTail lzf ql t

def popNode (lzf : Lzf) (ql : Quicklist) (n : Nat) (pos : Int) : Except Fault (Quicklist × Option ZlValue) := do
  let node ← ql.get n
  let zl ← rawZl node
  match ← ofZiplist (ziplistIndex zl pos) with
  | none => pure (ql, none)
  | some p =>
    let value ← ofZiplist (ziplistGet (zl.drop p))
    let (ql, _) ← quicklistDelIndex lzf ql n p
    pure (ql, some value)

def quicklistPopCustom (lzf : Lzf) (ql : Quicklist) (place : Where) : Except Fault (Quicklist × Option ZlValue) :=
  if ql.count = 0 then .ok (ql, none)
  else
    match ql.last place with
    | none => .ok (ql, none)
    | some n => popNode lzf ql n (startOffset place)

end RedisCore.QuickList
