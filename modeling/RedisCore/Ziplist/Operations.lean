import RedisCore.Lib.Buffer
import RedisCore.Ziplist.Encoding

set_option autoImplicit false
set_option linter.style.nameCheck false

namespace RedisCore.Ziplist

open Buffer

def ziplistHeaderSize : Nat := 10

def ziplistBytes (zl : Bytes) : Option Nat := (read zl 0 4).map LittleEndian.decode
def ziplistTailOffset (zl : Bytes) : Option Nat := (read zl 4 4).map LittleEndian.decode
def ziplistLength (zl : Bytes) : Option Nat := (read zl 8 2).map LittleEndian.decode

def setZiplistBytes (zl : Bytes) (bytes : Nat) : Option Bytes :=
  write zl 0 (LittleEndian.encode 4 bytes)
def setZiplistTailOffset (zl : Bytes) (offset : Int) : Option Bytes :=
  write zl 4 (LittleEndian.encodeInt 4 offset)
def setZiplistLength (zl : Bytes) (length : Int) : Option Bytes :=
  write zl 8 (LittleEndian.encodeInt 2 length)

def ziplistIncrLength (zl : Bytes) (incr : Int) : Option Bytes := do
  let length ← ziplistLength zl
  if length < 65535 then setZiplistLength zl (length + incr) else pure zl

def ziplistNew : Bytes :=
  LittleEndian.encode 4 (ziplistHeaderSize + 1) ++
    (LittleEndian.encode 4 ziplistHeaderSize ++ (LittleEndian.encode 2 0 ++ [zipEnd]))

def ziplistResize (zl : Bytes) (len : Nat) : Option Bytes := do
  let zl ← setZiplistBytes (realloc 0 zl len) len
  write zl (len - 1) [zipEnd]

-- The offsets np of the grown entry and of the tail decide whether the tail moved.
def cascadeTail (zl : Bytes) (np extra : Nat) : Option Bytes := do
  let tail ← ziplistTailOffset zl
  if tail ≠ np then setZiplistTailOffset zl (tail + extra) else pure zl

def cascadeGrow (zl : Bytes) (curlen np extra rawlen prevrawlensize : Nat) : Option Bytes := do
  let zl ← ziplistResize zl (curlen + extra)
  let zl ← cascadeTail zl np extra
  let zl ← move zl (np + (prevrawlensize + extra)) (np + prevrawlensize)
    (curlen - np - prevrawlensize - 1)
  write zl np (zipStorePrevEntryLength rawlen)

def cascadeLoop : (fuel : Nat) → Bytes → (curlen p : Nat) → Option Bytes
  | 0, _, _, _ => none
  | fuel + 1, zl, curlen, p => do
    if (← zl[p]?) = zipEnd then pure zl
    else
      let cur ← zipEntry (zl.drop p)
      let rawlen := cur.headersize + cur.len
      let rawlensize := zipPrevEntryLengthSize rawlen
      if (← zl[p + rawlen]?) = zipEnd then pure zl
      else
        let next ← zipEntry (zl.drop (p + rawlen))
        if next.prevrawlen = rawlen then pure zl
        else if next.prevrawlensize < rawlensize then
          let extra := rawlensize - next.prevrawlensize
          let zl ← cascadeGrow zl curlen (p + rawlen) extra rawlen next.prevrawlensize
          cascadeLoop fuel zl (curlen + extra) (p + rawlen)
        else if rawlensize < next.prevrawlensize then
          write zl (p + rawlen) (zipStorePrevEntryLengthLarge rawlen)
        else write zl (p + rawlen) (zipStorePrevEntryLength rawlen)

-- Every round moves p past an entry, so the length of the buffer bounds the rounds.
def __ziplistCascadeUpdate (zl : Bytes) (p : Nat) : Option Bytes := do
  let curlen ← ziplistBytes zl
  cascadeLoop zl.length zl curlen p

-- When nextdiff is not 0 the raw length of the entry at p has changed.
def cascadeIfChanged (zl : Bytes) (p : Nat) (nextdiff : Int) : Option Bytes :=
  if nextdiff ≠ 0 then __ziplistCascadeUpdate zl p else some zl

def deleteSkip (zl : Bytes) : (num p deleted : Nat) → Option (Nat × Nat)
  | 0, p, deleted => some (p, deleted)
  | num + 1, p, deleted => do
    if (← zl[p]?) = zipEnd then pure (p, deleted)
    else
      let rawlen ← zipRawEntryLength (zl.drop p)
      deleteSkip zl num (p + rawlen) (deleted + 1)

-- tail += nextdiff unless the entry at p is the last one.
def adjustTail (zl : Bytes) (p : Nat) (nextdiff : Int) : Option Bytes := do
  let entry ← zipEntry (zl.drop p)
  if (← zl[p + entry.headersize + entry.len]?) ≠ zipEnd then
    let tail ← ziplistTailOffset zl
    setZiplistTailOffset zl (tail + nextdiff)
  else pure zl

def deleteMove (zl : Bytes) (start p totlen prevrawlen : Nat) : Option (Bytes × Int) := do
  let nextdiff ← zipPrevLenByteDiff (zl.drop p) prevrawlen
  let p := ((p : Int) - nextdiff).toNat
  let zl ← write zl p (zipStorePrevEntryLength prevrawlen)
  let tail ← ziplistTailOffset zl
  let zl ← setZiplistTailOffset zl ((tail : Int) - totlen)
  let zl ← adjustTail zl p nextdiff
  let zl ← move zl start p ((← ziplistBytes zl) - p - 1)
  pure (zl, nextdiff)

def __ziplistDelete (zl : Bytes) (start num : Nat) : Option Bytes := do
  let first ← zipEntry (zl.drop start)
  let (p, deleted) ← deleteSkip zl num start 0
  let totlen := p - start
  if 0 < totlen then
    let (zl, nextdiff) ←
      if (← zl[p]?) ≠ zipEnd then deleteMove zl start p totlen first.prevrawlen
      else do
        let zl ← setZiplistTailOffset zl ((start : Int) - first.prevrawlen)
        pure (zl, 0)
    let zl ← ziplistResize zl (((← ziplistBytes zl) : Int) - totlen + nextdiff).toNat
    let zl ← ziplistIncrLength zl (-deleted)
    cascadeIfChanged zl start nextdiff
  else pure zl

def insertPrevlen (zl : Bytes) (p : Nat) : Option Nat := do
  if (← zl[p]?) ≠ zipEnd then
    let (_, prevlen) ← zipDecodePrevlen (zl.drop p)
    pure prevlen
  else
    let ptail ← ziplistTailOffset zl
    if (← zl[ptail]?) ≠ zipEnd then zipRawEntryLength (zl.drop ptail) else pure 0

def insertEncoding (s : Bytes) : UInt8 := ((zipTryEncoding s).map Prod.snd).getD 0

def insertPayloadSize (s : Bytes) : Option Nat :=
  match zipTryEncoding s with
  | some (_, encoding) => zipIntSize encoding
  | none => some s.length

def insertReqlen (prevlen : Nat) (s : Bytes) : Option Nat := do
  let payload ← insertPayloadSize s
  pure (payload + zipPrevEntryLengthSize prevlen +
    (zipStoreEntryEncoding (insertEncoding s) s.length).length)

-- nextdiff and forcelarge
def insertNextdiff (zl : Bytes) (p reqlen : Nat) : Option (Int × Bool) := do
  if (← zl[p]?) ≠ zipEnd then
    let nextdiff ← zipPrevLenByteDiff (zl.drop p) reqlen
    pure (if nextdiff = -4 ∧ reqlen < 4 then (0, true) else (nextdiff, false))
  else pure (0, false)

def insertShift (zl : Bytes) (curlen p reqlen : Nat) (nextdiff : Int) (forcelarge : Bool) :
    Option Bytes := do
  if (← zl[p]?) ≠ zipEnd then
    let zl ← move zl (p + reqlen) ((p : Int) - nextdiff).toNat
      (((curlen : Int) - p - 1 + nextdiff).toNat)
    let zl ← write zl (p + reqlen)
      (if forcelarge then zipStorePrevEntryLengthLarge reqlen else zipStorePrevEntryLength reqlen)
    let tail ← ziplistTailOffset zl
    let zl ← setZiplistTailOffset zl (tail + reqlen)
    adjustTail zl (p + reqlen) nextdiff
  else setZiplistTailOffset zl p

def insertPayload (s : Bytes) : Option Bytes :=
  match zipTryEncoding s with
  | some (value, encoding) => zipSaveInteger value encoding
  | none => some s

def insertWrite (zl : Bytes) (p prevlen : Nat) (s : Bytes) : Option Bytes := do
  let zl ← write zl p (zipStorePrevEntryLength prevlen)
  let p := p + (zipStorePrevEntryLength prevlen).length
  let header := zipStoreEntryEncoding (insertEncoding s) s.length
  let zl ← write zl p header
  write zl (p + header.length) (← insertPayload s)

def __ziplistInsert (zl : Bytes) (p : Nat) (s : Bytes) : Option Bytes := do
  let curlen ← ziplistBytes zl
  let prevlen ← insertPrevlen zl p
  let reqlen ← insertReqlen prevlen s
  let (nextdiff, forcelarge) ← insertNextdiff zl p reqlen
  let zl ← ziplistResize zl ((curlen : Int) + reqlen + nextdiff).toNat
  let zl ← insertShift zl curlen p reqlen nextdiff forcelarge
  let zl ← cascadeIfChanged zl (p + reqlen) nextdiff
  let zl ← insertWrite zl p prevlen s
  ziplistIncrLength zl 1

inductive Where where
  | head
  | tail
  deriving DecidableEq, Repr

def ziplistPush (zl : Bytes) (s : Bytes) (position : Where) : Option Bytes := do
  let p ← match position with
    | .head => some ziplistHeaderSize
    | .tail => (ziplistBytes zl).map (· - 1)
  __ziplistInsert zl p s

def ziplistInsert (zl : Bytes) (p : Nat) (s : Bytes) : Option Bytes := __ziplistInsert zl p s

-- The second component is the updated *p.
def ziplistDelete (zl : Bytes) (p : Nat) : Option (Bytes × Nat) := do
  let zl ← __ziplistDelete zl p 1
  pure (zl, p)

def indexForward (zl : Bytes) : (index p : Nat) → Option (Option Nat)
  | 0, p => do if (← zl[p]?) = zipEnd then pure none else pure (some p)
  | index + 1, p => do
    if (← zl[p]?) = zipEnd then pure none
    else
      let rawlen ← zipRawEntryLength (zl.drop p)
      indexForward zl index (p + rawlen)

def indexBackward (zl : Bytes) : (index p : Nat) → Option (Option Nat)
  | 0, p => pure (some p)
  | index + 1, p => do
    let (_, prevlen) ← zipDecodePrevlen (zl.drop p)
    if 0 < prevlen then indexBackward zl index (p - prevlen) else pure none

-- The outer option is a read past the buffer, the inner one the source's NULL.
def ziplistIndex (zl : Bytes) (index : Int) : Option (Option Nat) := do
  if index < 0 then
    let p ← ziplistTailOffset zl
    if (← zl[p]?) = zipEnd then pure none else indexBackward zl (-index - 1).toNat p
  else indexForward zl index.toNat ziplistHeaderSize

def ziplistNext (zl : Bytes) (p : Nat) : Option (Option Nat) := do
  if (← zl[p]?) = zipEnd then pure none
  else
    let rawlen ← zipRawEntryLength (zl.drop p)
    if (← zl[p + rawlen]?) = zipEnd then pure none else pure (some (p + rawlen))

def ziplistPrev (zl : Bytes) (p : Nat) : Option (Option Nat) := do
  if (← zl[p]?) = zipEnd then
    let tail ← ziplistTailOffset zl
    if (← zl[tail]?) = zipEnd then pure none else pure (some tail)
  else if p = ziplistHeaderSize then pure none
  else
    let (_, prevlen) ← zipDecodePrevlen (zl.drop p)
    if 0 < prevlen then pure (some (p - prevlen)) else none

def countEntries (zl : Bytes) : (fuel p : Nat) → Option Nat
  | 0, _ => none
  | fuel + 1, p => do
    if (← zl[p]?) = zipEnd then pure 0
    else
      let rawlen ← zipRawEntryLength (zl.drop p)
      let rest ← countEntries zl fuel (p + rawlen)
      pure (rest + 1)

-- A saturated count is recomputed, and stored again once it fits.
def ziplistLen (zl : Bytes) : Option (Bytes × Nat) := do
  let length ← ziplistLength zl
  if length < 65535 then pure (zl, length)
  else
    let len ← countEntries zl zl.length ziplistHeaderSize
    let zl ← if len < 65535 then setZiplistLength zl len else pure zl
    pure (zl, len)

def ziplistDeleteRange (zl : Bytes) (index : Int) (num : Nat) : Option Bytes := do
  match ← ziplistIndex zl index with
  | none => pure zl
  | some p => __ziplistDelete zl p num

end RedisCore.Ziplist
