import RedisCore.Lib.Packed
import RedisCore.Lib.LittleEndian
import RedisCore.Lib.SortedSet
import RedisCore.Lib.Simulation

set_option autoImplicit false

namespace RedisCore.IntSet

open LittleEndian

-- contents holds the bytes that are allocated behind the two header fields.
structure Intset where
  encoding : Nat
  length : Nat
  contents : Bytes

def intsetEncInt16 : Nat := 2

def intsetEncInt32 : Nat := 4

def intsetEncInt64 : Nat := 8

def intsetValueEncoding (v : Int) : Nat :=
  if v < -2147483648 ∨ 2147483647 < v then intsetEncInt64
  else if v < -32768 ∨ 32767 < v then intsetEncInt32
  else intsetEncInt16

def slotSize (enc : Nat) : Nat :=
  if enc = intsetEncInt64 then 8 else if enc = intsetEncInt32 then 4 else 2

-- A read or a write outside of the allocated bytes is undefined.
def intsetGetEncoded (is : Intset) (pos enc : Nat) : Option Int :=
  (Buffer.read is.contents (pos * slotSize enc) (slotSize enc)).map decodeInt

def getAt (is : Intset) (pos : Nat) : Option Int := intsetGetEncoded is pos is.encoding

def intsetSet (is : Intset) (pos : Nat) (value : Int) : Option Intset :=
  (Buffer.write is.contents (pos * slotSize is.encoding) (encodeInt (slotSize is.encoding) value)).map
    fun contents => { is with contents }

def intsetNew : Intset := ⟨intsetEncInt16, 0, []⟩

-- size is a uint32_t.
def intsetResize (is : Intset) (len : Nat) : Intset :=
  { is with contents := Buffer.realloc 0 is.contents (len * is.encoding % 2 ^ 32) }

-- Returns min, mid and cur.
def searchLoop (is : Intset) (value : Int) : (fuel : Nat) → (min max mid cur : Int) → Option (Int × Int × Int)
  | 0, _, _, _, _ => none
  | fuel + 1, min, max, mid, cur =>
    if min ≤ max then do
      let mid := (min % 2 ^ 32 + max % 2 ^ 32) % 2 ^ 32 / 2
      let cur ← getAt is mid.toNat
      if cur < value then searchLoop is value fuel (mid + 1) max mid cur
      else if value < cur then searchLoop is value fuel min (mid - 1) mid cur
      else pure (min, mid, cur)
    else some (min, mid, cur)

def intsetSearch (is : Intset) (value : Int) : Option (Bool × Nat) :=
  if is.length = 0 then some (false, 0)
  else do
    if (← getAt is (is.length - 1)) < value then pure (false, is.length)
    else if value < (← getAt is 0) then pure (false, 0)
    else
      let max := ((is.length : Int) - 1).bmod (2 ^ 32)
      let (min, mid, cur) ← searchLoop is value (is.length + 1) 0 max (-1) (-1)
      if value = cur then pure (true, mid.toNat) else pure (false, min.toNat)

-- From the last value to the first, so that no value is overwritten before it is read.
def upgradeLoop (curenc prepend : Nat) : (length : Nat) → Intset → Option Intset
  | 0, is => some is
  | length + 1, is => do
    let value ← intsetGetEncoded is length curenc
    let is ← intsetSet is (length + prepend) value
    upgradeLoop curenc prepend length is

def intsetUpgradeAndAdd (is : Intset) (value : Int) : Option Intset := do
  let curenc := is.encoding
  let prepend := if value < 0 then 1 else 0
  let is := intsetResize { is with encoding := intsetValueEncoding value } (is.length + 1)
  let is ← upgradeLoop curenc prepend is.length is
  let is ← if prepend ≠ 0 then intsetSet is 0 value else intsetSet is is.length value
  pure { is with length := is.length + 1 }

-- bytes is a uint32_t.
def intsetMoveTail (is : Intset) (src dst : Nat) : Option Intset :=
  let bytes := (is.length - src) * slotSize is.encoding % 2 ^ 32
  (Buffer.move is.contents (dst * slotSize is.encoding) (src * slotSize is.encoding) bytes).map fun contents => { is with contents }

def intsetAdd (is : Intset) (value : Int) : Option (Intset × Bool) :=
  if is.encoding < intsetValueEncoding value then do
    let is ← intsetUpgradeAndAdd is value
    pure (is, true)
  else do
    let (found, pos) ← intsetSearch is value
    if found then pure (is, false)
    else
      let is := intsetResize is (is.length + 1)
      let is ← if pos < is.length then intsetMoveTail is pos (pos + 1) else pure is
      let is ← intsetSet is pos value
      pure ({ is with length := is.length + 1 }, true)

def intsetRemove (is : Intset) (value : Int) : Option (Intset × Bool) :=
  if intsetValueEncoding value ≤ is.encoding then do
    let (found, pos) ← intsetSearch is value
    if found then
      let len := is.length
      let is ← if pos < len - 1 then intsetMoveTail is (pos + 1) pos else pure is
      pure ({ intsetResize is (len - 1) with length := len - 1 }, true)
    else pure (is, false)
  else some (is, false)

def intsetFind (is : Intset) (value : Int) : Option Bool :=
  if intsetValueEncoding value ≤ is.encoding then (intsetSearch is value).map Prod.fst else some false

def intsetGet (is : Intset) (pos : Nat) : Option (Option Int) :=
  if pos < is.length then (getAt is pos).map some else some none

def intsetLen (is : Intset) : Nat := is.length

-- The product of two uint32_t is added to a size_t.
def intsetBlobLen (is : Intset) : Nat := 8 + is.length * is.encoding % 2 ^ 32

inductive Op where
  | add (value : Int64)
  | remove (value : Int64)
  deriving DecidableEq

-- The result of an operation is the success flag; an access outside of the allocation ends the run.
def step (is : Intset) (op : Op) : Except Unit (Intset × Bool) :=
  let result := match op with
    | .add value => intsetAdd is value.toInt
    | .remove value => intsetRemove is value.toInt
  result.elim (.error ()) .ok

def specStep (set : Lib.SortedSet Int) : Op → Lib.SortedSet Int × Bool
  | .add value => (set.insert value.toInt, decide (value.toInt ∉ set))
  | .remove value => (set.erase value.toInt, decide (value.toInt ∈ set))

end RedisCore.IntSet
