import RedisCore.Util.LongLong

set_option autoImplicit false

namespace RedisCore.Ziplist

open Util

def zipEnd : UInt8 := 255
def zipBigPrevlen : Nat := 254

def zipStrMask : UInt8 := 0xc0
def zipStr06B : UInt8 := 0x00
def zipStr14B : UInt8 := 0x40
def zipStr32B : UInt8 := 0x80
def zipInt16B : UInt8 := 0xc0
def zipInt32B : UInt8 := 0xd0
def zipInt64B : UInt8 := 0xe0
def zipInt24B : UInt8 := 0xf0
def zipInt8B : UInt8 := 0xfe
def zipIntImmMask : UInt8 := 0x0f
def zipIntImmMin : UInt8 := 0xf1
def zipIntImmMax : UInt8 := 0xfd

def zipIsStr (encoding : UInt8) : Bool := (encoding &&& zipStrMask) < zipStrMask

-- none is the source's panic.
def zipIntSize (encoding : UInt8) : Option Nat :=
  if encoding = zipInt8B then some 1
  else if encoding = zipInt16B then some 2
  else if encoding = zipInt24B then some 3
  else if encoding = zipInt32B then some 4
  else if encoding = zipInt64B then some 8
  else if zipIntImmMin ≤ encoding ∧ encoding ≤ zipIntImmMax then some 0
  else none

def zipStoreEntryEncoding (encoding : UInt8) (rawlen : Nat) : Bytes :=
  if zipIsStr encoding then
    if rawlen ≤ 0x3f then [zipStr06B ||| UInt8.ofNat rawlen]
    else if rawlen ≤ 0x3fff then
      [zipStr14B ||| UInt8.ofNat (rawlen / 256 % 64), UInt8.ofNat rawlen]
    else
      [zipStr32B, UInt8.ofNat (rawlen / 16777216), UInt8.ofNat (rawlen / 65536),
        UInt8.ofNat (rawlen / 256), UInt8.ofNat rawlen]
  else [encoding]

-- A pointer is the list of the bytes from it on; a read past the end is none.
def zipDecodeLength (p : Bytes) : Option (UInt8 × Nat × Nat) :=
  match p with
  | [] => none
  | first :: rest =>
    let encoding := if first < zipStrMask then first &&& zipStrMask else first
    if encoding < zipStrMask then
      if encoding = zipStr06B then some (encoding, 1, first.toNat % 64)
      else if encoding = zipStr14B then
        match rest with
        | second :: _ => some (encoding, 2, first.toNat % 64 * 256 + second.toNat)
        | _ => none
      else if encoding = zipStr32B then
        match rest with
        | b1 :: b2 :: b3 :: b4 :: _ =>
          some (encoding, 5,
            b1.toNat * 16777216 + b2.toNat * 65536 + b3.toNat * 256 + b4.toNat)
        | _ => none
      else none
    else (zipIntSize encoding).map fun len => (encoding, 1, len)

def zipStorePrevEntryLengthLarge (len : Nat) : Bytes :=
  UInt8.ofNat zipBigPrevlen :: LittleEndian.encode 4 len

def zipStorePrevEntryLength (len : Nat) : Bytes :=
  if len < zipBigPrevlen then [UInt8.ofNat len] else zipStorePrevEntryLengthLarge len

-- zipStorePrevEntryLength(NULL, len)
def zipPrevEntryLengthSize (len : Nat) : Nat := if len < zipBigPrevlen then 1 else 5

def zipDecodePrevlensize (p : Bytes) : Option Nat :=
  match p with
  | [] => none
  | first :: _ => some (if first.toNat < zipBigPrevlen then 1 else 5)

def zipDecodePrevlen (p : Bytes) : Option (Nat × Nat) :=
  match p with
  | [] => none
  | first :: rest =>
    if first.toNat < zipBigPrevlen then some (1, first.toNat)
    else if rest.length < 4 then none
    else some (5, LittleEndian.decode (rest.take 4))

def zipPrevLenByteDiff (p : Bytes) (len : Nat) : Option Int := do
  let prevlensize ← zipDecodePrevlensize p
  pure ((zipPrevEntryLengthSize len : Int) - prevlensize)

def zipRawEntryLength (p : Bytes) : Option Nat := do
  let prevlensize ← zipDecodePrevlensize p
  let (_, lensize, len) ← zipDecodeLength (p.drop prevlensize)
  pure (prevlensize + lensize + len)

def zipIntEncoding (value : Int) : UInt8 :=
  if 0 ≤ value ∧ value ≤ 12 then zipIntImmMin + UInt8.ofNat value.toNat
  else if -128 ≤ value ∧ value ≤ 127 then zipInt8B
  else if -32768 ≤ value ∧ value ≤ 32767 then zipInt16B
  else if -8388608 ≤ value ∧ value ≤ 8388607 then zipInt24B
  else if -2147483648 ≤ value ∧ value ≤ 2147483647 then zipInt32B
  else zipInt64B

def zipTryEncoding (entry : Bytes) : Option (Int × UInt8) :=
  if 32 ≤ entry.length ∨ entry.length = 0 then none
  else (string2ll entry).map fun value => (value, zipIntEncoding value)

def zipSaveInteger (value : Int) (encoding : UInt8) : Option Bytes :=
  if encoding = zipInt8B then some (LittleEndian.encodeInt 1 value)
  else if encoding = zipInt16B then some (LittleEndian.encodeInt 2 value)
  else if encoding = zipInt24B then some ((LittleEndian.encodeInt 4 (value * 256)).drop 1)
  else if encoding = zipInt32B then some (LittleEndian.encodeInt 4 value)
  else if encoding = zipInt64B then some (LittleEndian.encodeInt 8 value)
  else if zipIntImmMin ≤ encoding ∧ encoding ≤ zipIntImmMax then some []
  else none

def loadBytes (width : Nat) (p : Bytes) : Option Int :=
  if p.length < width then none else some (LittleEndian.decodeInt (p.take width))

def zipLoadInteger (p : Bytes) (encoding : UInt8) : Option Int :=
  if encoding = zipInt8B then loadBytes 1 p
  else if encoding = zipInt16B then loadBytes 2 p
  else if encoding = zipInt32B then loadBytes 4 p
  else if encoding = zipInt24B then (loadBytes 4 (0 :: p)).map (· / 256)
  else if encoding = zipInt64B then loadBytes 8 p
  else if zipIntImmMin ≤ encoding ∧ encoding ≤ zipIntImmMax then
    some ((encoding &&& zipIntImmMask).toNat - 1)
  else none

structure ZlEntry where
  prevrawlensize : Nat
  prevrawlen : Nat
  lensize : Nat
  len : Nat
  headersize : Nat
  encoding : UInt8
  deriving DecidableEq, Repr

def zipEntry (p : Bytes) : Option ZlEntry := do
  let (prevrawlensize, prevrawlen) ← zipDecodePrevlen p
  let (encoding, lensize, len) ← zipDecodeLength (p.drop prevrawlensize)
  pure { prevrawlensize, prevrawlen, lensize, len, headersize := prevrawlensize + lensize, encoding }

inductive ZlValue where
  | str (bytes : Bytes)
  | int (value : Int)
  deriving DecidableEq, Repr

-- The caller's view of an entry as a string: integers are printed back with ll2string.
def ZlValue.toBytes : ZlValue → Bytes
  | .str bytes => bytes
  | .int value => ll2string 32 value

def ziplistGet (p : Bytes) : Option ZlValue := do
  if p.head? = some zipEnd then none
  else
    let entry ← zipEntry p
    let data := p.drop entry.headersize
    if zipIsStr entry.encoding then
      if data.length < entry.len then none else some (.str (data.take entry.len))
    else (zipLoadInteger data entry.encoding).map .int

def ziplistCompare (p s : Bytes) : Option Bool :=
  if p.head? = some zipEnd then some false
  else do
    let entry ← zipEntry p
    let data := p.drop entry.headersize
    if zipIsStr entry.encoding then
      if entry.len = s.length then
        if data.length < entry.len then none else pure (decide (data.take entry.len = s))
      else pure false
    else
      match zipTryEncoding s with
      | some (sval, _) => (zipLoadInteger data entry.encoding).map fun zval => decide (zval = sval)
      | none => pure false

end RedisCore.Ziplist
