import RedisCore.Util.Canonical

set_option autoImplicit false

namespace RedisCore.Strings

open Util List

-- A string object holds a long or an sds.
inductive StringObj
  | int (v : BitVec 64)
  | sds (s : Bytes)
  deriving DecidableEq

inductive Robj
  | string (o : StringObj)
  | other
  deriving DecidableEq

inductive Reply
  | ok
  | nil
  | error (text : String)
  | longLong (n : Int)
  | colon (o : StringObj)
  deriving DecidableEq

def notInteger : Reply := .error "value is not an integer or out of range"

def wrongType : Reply := .error "WRONGTYPE Operation against a key holding the wrong kind of value"

-- getDecodedObject
def StringObj.text : StringObj → Bytes
  | .int v => ll2string 32 v.toInt
  | .sds s => s

def sdigits10 (v : Int) : Nat := if v < 0 then digits10 2 v.natAbs + 1 else digits10 2 v.natAbs

def stringObjectLen : StringObj → Nat
  | .int v => sdigits10 v.toInt
  | .sds s => s.length

def tryObjectEncoding (s : Bytes) : StringObj :=
  if s.length ≤ 20 then
    match string2ll s with
    | some v => .int (BitVec.ofInt 64 v)
    | none => .sds s
  else .sds s

@[simp] theorem text_sds (s : Bytes) : (StringObj.sds s).text = s := rfl

theorem isInt64_toInt (v : BitVec 64) : IsInt64 v.toInt := ⟨v.le_toInt, v.toInt_lt⟩

theorem toInt_ofInt {v : Int} (range : IsInt64 v) : (BitVec.ofInt 64 v).toInt = v :=
  BitVec.toInt_ofInt_eq_self (by decide) range.1 range.2

theorem text_int (v : BitVec 64) : (StringObj.int v).text = llString v.toInt :=
  ll2string_eq_llString 32 (isInt64_toInt v) (by decide)

theorem stringObjectLen_eq (o : StringObj) : stringObjectLen o = o.text.length := by
  cases o with
  | sds s => rfl
  | int v =>
    rw [text_int, Word.length_llString (isInt64_toInt v), stringObjectLen, sdigits10]
    split <;> rfl

theorem text_tryObjectEncoding (s : Bytes) : (tryObjectEncoding s).text = s := by
  unfold tryObjectEncoding
  split
  next =>
    split
    next v parsed =>
      obtain ⟨range, rfl⟩ := string2ll_sound parsed
      rw [text_int, toInt_ofInt range]
    next => rfl
  next => rfl

def maxLength : Nat := 512 * 1024 * 1024

def checkStringLength (size : BitVec 64) : Bool := size.toInt ≤ maxLength

def tooLong : Reply := .error "string exceeds maximum allowed size (512MB)"

-- malloc refuses 2^63 bytes and more, and zmalloc then aborts.
def sdsnewlen (len : Nat) : Option Bytes := if len < 2 ^ 63 then some (replicate len 0) else none

def sdsgrowzero (s : Bytes) (len : Nat) : Option Bytes :=
  if len ≤ s.length then some s
  else if len < 2 ^ 63 then some (s ++ replicate (len - s.length) 0) else none

def memcpyAt (s : Bytes) (offset : Nat) (value : Bytes) : Bytes :=
  s.take offset ++ value ++ s.drop (offset + value.length)

-- The reply and what the key then holds; none when the server aborts.
def setrangeCommand (o : Option Robj) (arg value : Bytes) : Option (Reply × Option Robj) :=
  match string2ll arg with
  | none => some (notInteger, o)
  | some offset =>
    if offset < 0 then some (.error "offset is out of range", o)
    else
      let size := BitVec.ofInt 64 (offset + value.length)
      let write (s : Bytes) := do
        let s ← sdsgrowzero s size.toNat
        let s := memcpyAt s offset.toNat value
        some (Reply.longLong s.length, some (Robj.string (.sds s)))
      match o with
      | none =>
        if value = [] then some (.longLong 0, o)
        else if checkStringLength size then sdsnewlen size.toNat >>= write
        else some (tooLong, o)
      | some .other => some (wrongType, o)
      | some (.string old) =>
        if value = [] then some (.longLong (stringObjectLen old), o)
        else if checkStringLength size then write old.text
        else some (tooLong, o)

def appendCommand (o : Option Robj) (append : Bytes) : Reply × Option Robj :=
  match o with
  | none =>
    let new := tryObjectEncoding append
    (.longLong (stringObjectLen new), some (.string new))
  | some .other => (wrongType, o)
  | some (.string old) =>
    if checkStringLength (BitVec.ofNat 64 (stringObjectLen old + append.length)) then
      let s := old.text ++ append
      (.longLong s.length, some (.string (.sds s)))
    else (tooLong, o)

theorem checkStringLength_eq {n : Nat} (below : n < 2 ^ 63) :
    checkStringLength (BitVec.ofNat 64 n) = decide (n ≤ maxLength) := by
  have value : (BitVec.ofNat 64 n).toInt = n := by
    rw [BitVec.toInt_ofNat', Int.bmod_eq_of_le (by omega) (by omega)]
  rw [checkStringLength, value]
  simp

/-- The value written at the offset of a string, which is extended with zeros as far as needed. -/
structure Overwritten (s : Bytes) (offset : Nat) (value t : Bytes) : Prop where
  length : t.length = max s.length (offset + value.length)
  bytes : ∀ i, t.getD i 0 = if offset ≤ i ∧ i < offset + value.length then value.getD (i - offset) 0 else s.getD i 0

theorem overwritten_grown (s : Bytes) (offset : Nat) (value : Bytes) :
    Overwritten s offset value (memcpyAt (s ++ replicate (offset + value.length - s.length) 0) offset value) := by
  constructor
  · simp [memcpyAt]
    omega
  · intro i
    have extended : (s ++ replicate (offset + value.length - s.length) 0).getD i 0 = s.getD i 0 := by
      simp only [getD_eq_getElem?_getD, getElem?_append, getElem?_replicate]
      grind
    have long : offset + value.length ≤ (s ++ replicate (offset + value.length - s.length) 0).length := by
      simp
      omega
    rw [← extended, memcpyAt]
    generalize s ++ replicate (offset + value.length - s.length) 0 = t at long
    simp only [getD_eq_getElem?_getD, append_assoc, getElem?_append, length_take, getElem?_take, getElem?_drop,
      Nat.min_eq_left (show offset ≤ t.length by omega)]
    split_ifs <;> grind

theorem sdsgrowzero_eq {s : Bytes} {len : Nat} (below : len < 2 ^ 63) :
    sdsgrowzero s len = some (s ++ replicate (len - s.length) 0) := by
  unfold sdsgrowzero
  split
  next long => simp [Nat.sub_eq_zero_of_le long]
  next => rfl

-- A missing key reads as the empty string.
def textOf (o : Option StringObj) : Bytes := (o.map StringObj.text).getD []

def SetrangeExact (o : Option StringObj) (arg value : Bytes) : Prop :=
  (∃ text, setrangeCommand (o.map .string) arg value = some (.error text, o.map .string)) ∨
  ∃ (offset : Nat) (new : Option StringObj), string2ll arg = some (offset : Int) ∧
    setrangeCommand (o.map .string) arg value = some (.longLong (textOf new).length, new.map .string) ∧
    Overwritten (textOf o) offset value (textOf new) ∧ (textOf new).length ≤ maxLength

def AppendExact (o : Option StringObj) (value : Bytes) : Prop :=
  (∃ text, appendCommand (o.map .string) value = (.error text, o.map .string)) ∨
  ∃ new, appendCommand (o.map .string) value = (.longLong new.text.length, some (.string new)) ∧
    new.text = textOf o ++ value ∧ new.text.length ≤ maxLength

-- Nothing is written of an empty value, and otherwise offset and length are added without wrapping. An old string
-- above the limit is only accepted where the new part ends above it too.
def SetrangeFits (o : Option StringObj) (value : Bytes) (offset : Nat) : Prop :=
  if value = [] then offset ≤ (textOf o).length ∧ (textOf o).length ≤ maxLength
  else offset + value.length < 2 ^ 63 ∧ (offset + value.length ≤ maxLength → (textOf o).length ≤ maxLength)

theorem map_string_inj {a b : Option StringObj} (same : a.map Robj.string = b.map Robj.string) : a = b :=
  Option.map_injective (fun _ _ equal => Robj.string.inj equal) same

section

variable {o : Option StringObj} {arg value : Bytes} {offset : Nat} (parsed : string2ll arg = some (offset : Int))

include parsed

theorem setrange_nothing : setrangeCommand (o.map .string) arg [] = some (.longLong (textOf o).length, o.map .string) := by
  cases o <;> simp [setrangeCommand, parsed, textOf, stringObjectLen_eq]

theorem setrange_empty_iff : SetrangeExact o arg [] ↔ offset ≤ (textOf o).length ∧ (textOf o).length ≤ maxLength := by
  unfold SetrangeExact
  rw [setrange_nothing parsed]
  constructor
  · rintro (⟨text, refused⟩ | ⟨place, new, same, result, written, within⟩)
    · simp at refused
    · obtain rfl : o = new := map_string_inj (Prod.mk.inj (Option.some.inj result)).2
      obtain rfl : offset = place := by simpa [parsed] using same
      have length := written.length
      simp only [List.length_nil] at length
      exact ⟨by omega, within⟩
  · rintro ⟨inside, within⟩
    refine .inr ⟨offset, o, parsed, rfl, ⟨by simpa using inside, fun i => ?_⟩, within⟩
    rw [if_neg (by simp only [List.length_nil]; omega)]

variable (some_value : value ≠ [])

include some_value

theorem setrange_wraps (wraps : 2 ^ 63 ≤ offset + value.length) (memory : (textOf o).length + value.length < 2 ^ 63)
    (range : offset < 2 ^ 63) : setrangeCommand (o.map .string) arg value = none := by
  have size : (BitVec.ofNat 64 (offset + value.length)).toNat = offset + value.length := by
    rw [BitVec.toNat_ofNat, Nat.mod_eq_of_lt (by omega)]
  have passes : checkStringLength (BitVec.ofNat 64 (offset + value.length)) = true := by
    rw [checkStringLength, BitVec.toInt_eq_toNat_cond, size]
    refine decide_eq_true ?_
    unfold maxLength
    split <;> omega
  have refused : sdsnewlen (offset + value.length) = none := if_neg (by omega)
  have aborts : sdsgrowzero (textOf o) (offset + value.length) = none := by
    rw [sdsgrowzero, if_neg (by omega), if_neg (by omega)]
  unfold setrangeCommand
  simp only [parsed, if_neg (Int.not_lt.mpr (Int.natCast_nonneg offset)), if_neg some_value, ← Int.natCast_add,
    BitVec.ofInt_natCast, passes, size]
  cases o with
  | none => simp [refused]
  | some old =>
    rw [show textOf (some old) = old.text from rfl] at aborts
    simp [aborts]

theorem setrange_written (below : offset + value.length < 2 ^ 63) :
    setrangeCommand (o.map .string) arg value =
      if offset + value.length ≤ maxLength then
        let t := memcpyAt (textOf o ++ replicate (offset + value.length - (textOf o).length) 0) offset value
        some (.longLong t.length, some (.string (.sds t)))
      else some (tooLong, o.map .string) := by
  have made : sdsnewlen (offset + value.length) = some (replicate (offset + value.length) 0) := if_pos below
  unfold setrangeCommand
  simp only [parsed, if_neg (Int.not_lt.mpr (Int.natCast_nonneg offset)), if_neg some_value, Int.toNat_natCast,
    ← Int.natCast_add, BitVec.ofInt_natCast, BitVec.toNat_ofNat, checkStringLength_eq below,
    Nat.mod_eq_of_lt (show offset + value.length < 2 ^ 64 by omega)]
  cases o <;> simp [made, sdsgrowzero_eq below, textOf]

theorem setrange_iff (memory : (textOf o).length + value.length < 2 ^ 63) (range : offset < 2 ^ 63) :
    SetrangeExact o arg value ↔
      offset + value.length < 2 ^ 63 ∧ (offset + value.length ≤ maxLength → (textOf o).length ≤ maxLength) := by
  by_cases below : offset + value.length < 2 ^ 63
  · have grown := overwritten_grown (textOf o) offset value
    unfold SetrangeExact
    rw [setrange_written parsed some_value below]
    by_cases within : offset + value.length ≤ maxLength
    · simp only [below, within, true_and, forall_const]
      constructor
      · rintro (⟨text, refused⟩ | ⟨place, new, same, result, written, within⟩)
        · simp at refused
        · exact (le_max_left _ _).trans (written.length.symm.trans_le within)
      · intro old_small
        exact .inr ⟨offset, some (.sds _), parsed, rfl, grown, grown.length.trans_le (max_le old_small within)⟩
    · rw [if_neg within]
      exact iff_of_true (.inl ⟨_, rfl⟩) ⟨below, fun inside => absurd inside within⟩
  · unfold SetrangeExact
    rw [setrange_wraps parsed some_value (Nat.not_lt.mp below) memory range]
    exact iff_of_false (by simp) fun fits => below fits.1

end

theorem append_iff {o : Option StringObj} {value : Bytes} (memory : (textOf o).length + value.length < 2 ^ 63) :
    AppendExact o value ↔ (o = none → value.length ≤ maxLength) := by
  cases o with
  | none =>
    have stored : appendCommand none value =
        (.longLong (tryObjectEncoding value).text.length, some (.string (tryObjectEncoding value))) := by
      simp [appendCommand, stringObjectLen_eq]
    simp [AppendExact, textOf, stored, text_tryObjectEncoding]
  | some old =>
    simp only [AppendExact, textOf, Option.map_some, Option.getD_some, appendCommand, stringObjectLen_eq] at memory ⊢
    rw [checkStringLength_eq memory]
    refine iff_of_true ?_ (by simp)
    by_cases within : old.text.length + value.length ≤ maxLength
    · exact .inr ⟨.sds (old.text ++ value), by simp [within], rfl, by simpa using within⟩
    · exact .inl ⟨_, by simp [within]; rfl⟩

theorem string_size_limit (o : Option StringObj) (arg value : Bytes) (memory : (textOf o).length + value.length < 2 ^ 63) :
    (SetrangeExact o arg value ↔ ∀ offset : Nat, string2ll arg = some (offset : Int) → SetrangeFits o value offset) ∧
      (AppendExact o value ↔ (o = none → value.length ≤ maxLength)) := by
  refine ⟨?_, append_iff memory⟩
  by_cases accepted : ∃ offset : Nat, string2ll arg = some (offset : Int)
  · obtain ⟨offset, parsed⟩ := accepted
    have range : offset < 2 ^ 63 := by
      have := (string2ll_sound parsed).1.2
      omega
    have only : (∀ place : Nat, string2ll arg = some (place : Int) → SetrangeFits o value place) ↔ SetrangeFits o value offset := by
      simp [parsed]
    rw [only]
    unfold SetrangeFits
    split
    next empty => exact empty ▸ setrange_empty_iff parsed
    next some_value => exact setrange_iff parsed some_value memory range
  · refine iff_of_true (.inl ?_) fun offset parsed => absurd ⟨offset, parsed⟩ accepted
    unfold setrangeCommand
    cases parsed : string2ll arg with
    | none => exact ⟨_, rfl⟩
    | some place =>
      refine ⟨_, if_pos (Int.not_le.mp fun positive => accepted ⟨place.toNat, ?_⟩)⟩
      rw [parsed, Int.toNat_of_nonneg positive]

theorem string_size_limit_twelve : SetrangeExact (some (.int 12)) [51] [120] ∧ SetrangeExact (some (.sds [97, 98, 99])) [49] [] ∧
    AppendExact (some (.int 12)) [120] := by
  have twelve := string_size_limit (some (.int 12)) [51] [120] (by decide +kernel)
  have letters := string_size_limit (some (.sds [97, 98, 99])) [49] [] (by decide +kernel)
  have third : string2ll [51] = some 3 := by decide +kernel
  have first : string2ll [49] = some 1 := by decide +kernel
  refine ⟨twelve.1.mpr fun offset parsed => ?_, letters.1.mpr fun offset parsed => ?_, twelve.2.mpr (by simp)⟩
  · obtain rfl : offset = 3 := Int.natCast_inj.mp (Option.some.inj (parsed.symm.trans third))
    exact ⟨by decide, fun _ => by decide +kernel⟩
  · obtain rfl : offset = 1 := Int.natCast_inj.mp (Option.some.inj (parsed.symm.trans first))
    exact ⟨by decide, by decide⟩

-- Offset 9223372036854775807 and one byte.
theorem setrange_aborts :
    setrangeCommand none [57, 50, 50, 51, 51, 55, 50, 48, 51, 54, 56, 53, 52, 55, 55, 53, 56, 48, 55] [120] = none := by
  decide +kernel

end RedisCore.Strings
