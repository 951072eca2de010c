import Mathlib.Data.BitVec
import RedisCore.Lib.LittleEndian

set_option autoImplicit false

namespace RedisCore.Bitops

variable {p : Bytes} {offset : Nat} {undef : BitVec 64}

def setUnsignedBitfield (p : Bytes) (offset : Nat) : Nat → BitVec 64 → Bytes
  | 0, _ => p
  | j + 1, value =>
    let bitval : BitVec 64 := if value &&& 1#64 <<< j ≠ 0 then 1 else 0
    let byte := offset >>> 3
    let bit := 7 - (offset &&& 7)
    let byteval := (p.getD byte 0).toBitVec.setWidth 64
    let byteval := byteval &&& ~~~(1#64 <<< bit)
    let byteval := byteval ||| bitval <<< bit
    setUnsignedBitfield (p.set byte ⟨byteval.setWidth 8⟩) (offset + 1) j value

def setSignedBitfield (p : Bytes) (offset bits : Nat) (value : BitVec 64) : Bytes :=
  setUnsignedBitfield p offset bits value

def getUnsignedBitfieldLoop (p : Bytes) (offset : Nat) : Nat → BitVec 64 → BitVec 64
  | 0, value => value
  | j + 1, value =>
    let byteval := (p.getD (offset >>> 3) 0).toBitVec.setWidth 64
    let bitval := byteval >>> (7 - (offset &&& 7)) &&& 1#64
    getUnsignedBitfieldLoop p (offset + 1) j (value <<< 1 ||| bitval)

def getUnsignedBitfield (p : Bytes) (offset bits : Nat) : BitVec 64 :=
  getUnsignedBitfieldLoop p offset bits 0

-- A shift by the width or more is undefined: undef is what the machine makes of it.
def shiftLeft (undef x : BitVec 64) (count : Nat) : BitVec 64 :=
  if count < 64 then x <<< count else undef

def getSignedBitfield (undef : BitVec 64) (p : Bytes) (offset bits : Nat) : BitVec 64 :=
  let value := getUnsignedBitfield p offset bits
  if value &&& 1#64 <<< (bits - 1) ≠ 0 then value ||| shiftLeft undef (-1#64) bits else value

structure FieldType where
  sign : Bool
  bits : Nat
  positive : 1 ≤ bits
  within : bits ≤ if sign then 64 else 63

-- lookupStringForBitCommand: the string reaches the last bit to be written.
def growTo (p : Bytes) (maxbit : Nat) : Bytes :=
  p ++ List.replicate (maxbit / 8 + 1 - p.length) 0

def FieldType.write (t : FieldType) (p : Bytes) (offset : Nat) (value : BitVec 64) : Bytes :=
  let p := growTo p (offset + t.bits - 1)
  if t.sign then setSignedBitfield p offset t.bits value else setUnsignedBitfield p offset t.bits value

def FieldType.read (undef : BitVec 64) (t : FieldType) (p : Bytes) (offset : Nat) : Int :=
  if t.sign then (getSignedBitfield undef p offset t.bits).toInt else (getUnsignedBitfield p offset t.bits).toNat

-- BITFIELD GET: up to nine bytes from the field's first one, in a zeroed buffer.
def bitfieldGet (undef : BitVec 64) (t : FieldType) (src : Bytes) (offset : Nat) : Int :=
  let byte := offset >>> 3
  let copied := (src.drop byte).take 9
  t.read undef (copied ++ List.replicate (9 - copied.length) 0) (offset - byte * 8)

-- Bit i of the string extended with zeros, the most significant bit of a byte first.
def bitAt (p : Bytes) (i : Nat) : Bool := (p.getD (i / 8) 0).toBitVec.getLsbD (7 - i % 8)

def fieldBits (p : Bytes) (offset bits : Nat) : BitVec bits :=
  BitVec.ofFnBE fun i => bitAt p (offset + i)

def FieldType.value (t : FieldType) (x : BitVec t.bits) : Int := if t.sign then x.toInt else x.toNat

-- Sign extension shifts by 64 where an i64 is negative, which leaves -1 alone.
def FieldType.Extends (t : FieldType) (x : BitVec t.bits) : Prop :=
  t.sign = true → t.bits = 64 → x.msb = false ∨ x = BitVec.allOnes t.bits

theorem and_seven (n : Nat) : n &&& 7 = n % 8 := Nat.and_two_pow_sub_one_eq_mod n 3

theorem shiftRight_three (n : Nat) : n >>> 3 = n / 8 := Nat.shiftRight_eq_div_pow n 3

theorem and_one_shiftLeft_ne_zero (x : BitVec 64) {i : Nat} (within : i < 64) :
    x &&& 1#64 <<< i ≠ 0 ↔ x.getLsbD i = true := by
  rw [← BitVec.twoPow_eq, BitVec.and_twoPow]
  have nonzero : BitVec.twoPow 64 i ≠ 0 := by
    intro zero
    have bit : (BitVec.twoPow 64 i).getLsbD i = true := by simp [within]
    simp [zero] at bit
  split <;> simp_all

theorem getLsbD_written (b : BitVec 8) (value : BitVec 64) {j bit k : Nat} (within : j < 64) (small : k < 8) :
    (((b.setWidth 64 &&& ~~~(1#64 <<< bit)) |||
      (if value &&& 1#64 <<< j ≠ 0 then (1 : BitVec 64) else 0) <<< bit).setWidth 8).getLsbD k =
      if k = bit then value.getLsbD j else b.getLsbD k := by
  have one : (1#64 <<< bit).getLsbD k = decide (bit = k) := by
    rw [← BitVec.twoPow_eq, BitVec.getLsbD_twoPow]
    by_cases same : bit = k
    · simp [same]
      omega
    · simp [same]
  have wide : k < 64 := by omega
  simp only [and_one_shiftLeft_ne_zero value within, BitVec.getLsbD_setWidth, BitVec.getLsbD_or,
    BitVec.getLsbD_and, BitVec.getLsbD_not, one, small, wide, decide_true, Bool.true_and]
  by_cases same : bit = k
  · subst same
    cases value.getLsbD j <;> simp [one, small]
  · cases value.getLsbD j <;> simp [same, one, Ne.symm same]

theorem getLsbD_shifted (b : BitVec 8) (value : BitVec 64) {bit k : Nat} (within : k < 64) (small : bit < 8) :
    (value <<< 1 ||| b.setWidth 64 >>> bit &&& 1#64).getLsbD k =
      if k = 0 then b.getLsbD bit else value.getLsbD (k - 1) := by
  have wide : bit < 64 := by omega
  cases k with
  | zero => simp [wide]
  | succ k => simp [within, BitVec.getLsbD_eq_getElem (show k < 64 by omega)]

theorem bitAt_growTo (p : Bytes) (maxbit i : Nat) : bitAt (growTo p maxbit) i = bitAt p i := by
  unfold bitAt growTo
  congr 2
  by_cases inside : i / 8 < p.length
  · simp [List.getD, List.getElem?_append_left inside]
  · simp [List.getD, List.getElem?_append_right (Nat.le_of_not_lt inside), List.getElem?_replicate,
      List.getElem?_eq_none (Nat.le_of_not_lt inside)]
    split <;> rfl

theorem bitAt_set {byte : Nat} (inside : byte < p.length) (b : UInt8) (i : Nat) :
    bitAt (p.set byte b) i = if i / 8 = byte then b.toBitVec.getLsbD (7 - i % 8) else bitAt p i := by
  unfold bitAt
  split
  next same => simp [List.getD, ← same, List.getElem?_set_self (same ▸ inside)]
  next other => simp [List.getD, List.getElem?_set_ne (Ne.symm other)]

theorem setUnsignedBitfield_bits (j : Nat) (value : BitVec 64) (p : Bytes) (offset : Nat) (width : j ≤ 64)
    (inside : offset + j ≤ 8 * p.length) (i : Nat) :
    bitAt (setUnsignedBitfield p offset j value) i =
      if offset ≤ i ∧ i < offset + j then value.getLsbD (offset + j - 1 - i) else bitAt p i := by
  induction j generalizing p offset with
  | zero => rw [setUnsignedBitfield, if_neg (by omega)]
  | succ j ih =>
    simp only [setUnsignedBitfield, and_seven, shiftRight_three]
    rw [ih _ _ (by omega) (by simp; omega), bitAt_set (by omega), getLsbD_written _ _ (by omega) (by omega)]
    by_cases later : offset + 1 ≤ i ∧ i < offset + 1 + j
    · rw [if_pos later, if_pos (by omega)]
      congr 1
      omega
    · rw [if_neg later]
      by_cases first : i = offset
      · subst first
        simp
      · have outside : ¬(offset ≤ i ∧ i < offset + (j + 1)) := by omega
        rw [if_neg outside]
        split
        next same => rw [if_neg (by omega), bitAt, same]
        next => rfl

theorem getUnsignedBitfieldLoop_bits (p : Bytes) (j : Nat) (offset : Nat) (value : BitVec 64) (i : Nat)
    (within : i < 64) :
    (getUnsignedBitfieldLoop p offset j value).getLsbD i =
      if i < j then bitAt p (offset + j - 1 - i) else value.getLsbD (i - j) := by
  induction j generalizing offset value with
  | zero => simp [getUnsignedBitfieldLoop]
  | succ j ih =>
    simp only [getUnsignedBitfieldLoop, and_seven, shiftRight_three]
    rw [ih, getLsbD_shifted _ _ (by omega) (by omega)]
    by_cases later : i < j
    · rw [if_pos later, if_pos (by omega), show offset + 1 + j = offset + (j + 1) by omega]
    · rw [if_neg later]
      by_cases here : i = j
      · subst here
        simp [bitAt]
      · rw [if_neg (by omega), if_neg (by omega), Nat.sub_sub]

theorem getUnsignedBitfield_eq {bits : Nat} :
    getUnsignedBitfield p offset bits = (fieldBits p offset bits).setWidth 64 := by
  apply BitVec.eq_of_getLsbD_eq
  intro i within
  rw [getUnsignedBitfield, getUnsignedBitfieldLoop_bits p bits offset 0 i within, BitVec.getLsbD_setWidth, fieldBits,
    BitVec.getLsbD_ofFnBE]
  by_cases inside : i < bits
  · simp [inside, within, Fin.rev]
    congr 1
    omega
  · simp [inside]

theorem getSignedBitfield_eq {bits : Nat} (positive : 1 ≤ bits) (width : bits ≤ 64) :
    getSignedBitfield undef p offset bits = if (fieldBits p offset bits).msb
      then (fieldBits p offset bits).setWidth 64 ||| shiftLeft undef (-1#64) bits else (fieldBits p offset bits).setWidth 64 := by
  simp only [getSignedBitfield, getUnsignedBitfield_eq,
    and_one_shiftLeft_ne_zero _ (show bits - 1 < 64 by omega), BitVec.getLsbD_setWidth]
  rw [BitVec.msb_eq_getLsbD_last, decide_eq_true (by omega), Bool.true_and]

theorem getSignedBitfield_short {bits : Nat} (positive : 1 ≤ bits) (short : bits < 64) :
    getSignedBitfield undef p offset bits = (fieldBits p offset bits).signExtend 64 := by
  rw [getSignedBitfield_eq positive (by omega)]
  split
  next negative =>
    apply BitVec.eq_of_getLsbD_eq
    intro i within
    have below : i - bits < 64 := by omega
    rw [shiftLeft, if_pos short, BitVec.neg_one_eq_allOnes, BitVec.getLsbD_signExtend, BitVec.getLsbD_or,
      BitVec.getLsbD_shiftLeft, BitVec.getLsbD_allOnes, negative]
    by_cases inside : i < bits <;> simp [within, inside, below]
  next positive => rw [BitVec.signExtend_eq_setWidth_of_msb_false (by simpa using positive)]

theorem or_undef_iff (x : BitVec 64) :
    (∀ undef, (if x.msb then x ||| undef else x) = x) ↔ x.msb = false ∨ x = BitVec.allOnes 64 := by
  constructor
  · intro same
    cases sign : x.msb with
    | false => exact .inl rfl
    | true =>
      have ones := same (BitVec.allOnes 64)
      rw [if_pos sign, BitVec.or_allOnes] at ones
      exact .inr ones.symm
  · rintro (positive | ones) undef
    · rw [if_neg (by simp [positive])]
    · rw [ones, BitVec.allOnes_or, ite_self]

theorem FieldType.read_iff (t : FieldType) (p : Bytes) (offset : Nat) :
    (∀ undef, t.read undef p offset = t.value (fieldBits p offset t.bits)) ↔ t.Extends (fieldBits p offset t.bits) := by
  obtain ⟨sign, bits, positive, within⟩ := t
  simp only [read, value, Extends]
  cases sign with
  | false =>
    have width : bits ≤ 63 := within
    simp [getUnsignedBitfield_eq, BitVec.toNat_setWidth_of_le (show bits ≤ 64 by omega)]
  | true =>
    have width : bits ≤ 64 := within
    obtain short | rfl := Nat.lt_or_eq_of_le width
    · simp [getSignedBitfield_short positive short, BitVec.toInt_signExtend_of_le width, short.ne]
    · simp only [reduceIte, getSignedBitfield_eq positive width, BitVec.setWidth_eq, shiftLeft, lt_irrefl, BitVec.toInt_inj,
        or_undef_iff, forall_const]

theorem FieldType.read_congr {q : Bytes} {origin : Nat} (t : FieldType) (undef : BitVec 64)
    (same : ∀ i < t.bits, bitAt p (offset + i) = bitAt q (origin + i)) :
    t.read undef p offset = t.read undef q origin := by
  have fields : fieldBits p offset t.bits = fieldBits q origin t.bits := by
    unfold fieldBits
    congr 1
    funext i
    exact same i i.isLt
  simp only [read, getSignedBitfield, getUnsignedBitfield_eq, fields]

theorem FieldType.width (t : FieldType) : t.bits ≤ 64 := by
  have := t.within
  split at this <;> omega

theorem FieldType.bitAt_write (t : FieldType) (p : Bytes) (offset : Nat) (value : BitVec 64) (i : Nat) :
    bitAt (t.write p offset value) i =
      if offset ≤ i ∧ i < offset + t.bits then value.getLsbD (offset + t.bits - 1 - i) else bitAt p i := by
  have positive := t.positive
  have inside : offset + t.bits ≤ 8 * (growTo p (offset + t.bits - 1)).length := by
    simp [growTo]
    omega
  simp only [write, setSignedBitfield, ite_self]
  rw [setUnsignedBitfield_bits _ _ _ _ t.width inside, bitAt_growTo]

theorem FieldType.fieldBits_write (t : FieldType) (p : Bytes) (offset : Nat) (value : BitVec 64) :
    fieldBits (t.write p offset value) offset t.bits = value.setWidth t.bits := by
  apply BitVec.eq_of_getLsbD_eq
  intro i within
  rw [fieldBits, BitVec.getLsbD_ofFnBE, dif_pos within, BitVec.getLsbD_setWidth, t.bitAt_write,
    if_pos (by simp [Fin.rev]; omega), decide_eq_true within, Bool.true_and]
  congr 1
  simp [Fin.rev]
  omega

theorem bitAt_window {src : Bytes} {byte i : Nat} (small : i < 72) :
    bitAt ((src.drop byte).take 9 ++ List.replicate (9 - ((src.drop byte).take 9).length) 0) i = bitAt src (8 * byte + i) := by
  unfold bitAt
  rw [show (8 * byte + i) / 8 = byte + i / 8 by omega, show (8 * byte + i) % 8 = i % 8 by omega]
  congr 2
  by_cases inside : byte + i / 8 < src.length
  · rw [List.getD_append _ _ _ _ (by simp; omega)]
    simp [List.getD, List.getElem?_take_of_lt (show i / 8 < 9 by omega)]
  · rw [List.getD_append_right _ _ _ _ (by simp; omega)]
    simp [List.getD, List.getElem?_eq_none (Nat.le_of_not_lt inside), List.getElem?_replicate]
    split <;> rfl

theorem bitfieldGet_read (undef : BitVec 64) (t : FieldType) (src : Bytes) (offset : Nat) :
    bitfieldGet undef t src offset = t.read undef src offset := by
  rw [bitfieldGet]
  apply t.read_congr
  intro i within
  have width := t.width
  rw [shiftRight_three, bitAt_window (by omega)]
  congr 1
  omega

/-- Whatever the machine makes of the shift by 64: a field reads back and a GET shows the string, but for a negative i64
other than -1, and a write leaves every other field alone. -/
theorem bitfield_read_back (t : FieldType) (p : Bytes) (offset : Nat) :
    (∀ v, (∀ undef, t.read undef (t.write p offset v) offset = t.value (v.setWidth t.bits)) ↔ t.Extends (v.setWidth t.bits)) ∧
    (∀ undef v (other : FieldType) (place : Nat), place + other.bits ≤ offset ∨ offset + t.bits ≤ place →
      other.read undef (t.write p offset v) place = other.read undef p place) ∧
    ((∀ undef, bitfieldGet undef t p offset = t.value (fieldBits p offset t.bits)) ↔ t.Extends (fieldBits p offset t.bits)) := by
  refine ⟨?_, ?_, ?_⟩
  · intro v
    have same := t.read_iff (t.write p offset v) offset
    rwa [t.fieldBits_write] at same
  · intro undef v other place disjoint
    apply other.read_congr
    intro i within
    rw [t.bitAt_write, if_neg (by omega)]
  · simp only [bitfieldGet_read, t.read_iff]

-- -3 as i5 at offset 6 between two fields, and -1 as i64, where the shift gives 7.
theorem bitfield_read_back_small :
    let t : FieldType := ⟨true, 5, by decide, by decide⟩
    let wide : FieldType := ⟨true, 64, by decide, by decide⟩
    let beside : FieldType := ⟨false, 4, by decide, by decide⟩
    t.read 7 (t.write [255, 3] 6 (-3)) 6 = -3 ∧ wide.read 7 (wide.write [] 3 (-1)) 3 = -1 ∧
      beside.read 7 (t.write [255, 3] 6 (-3)) 2 = 15 ∧ beside.read 7 (t.write [255, 3] 6 (-3)) 11 = 1 := by
  intro t wide beside
  have back := bitfield_read_back t [255, 3] 6
  have short := (back.1 (-3)).mpr fun _ full => absurd full (by decide)
  have ones := ((bitfield_read_back wide [] 3).1 (-1)).mpr fun _ _ => .inr (by decide)
  exact ⟨(short 7).trans (by decide), (ones 7).trans (by decide),
    back.2.1 7 (-3) beside 2 (by decide), back.2.1 7 (-3) beside 11 (by decide)⟩

theorem bitfield_i64_read :
    let t : FieldType := ⟨true, 64, by decide, by decide⟩
    t.read (-1) (t.write [] 0 (-2)) 0 = -1 ∧ t.value ((-2 : BitVec 64).setWidth t.bits) = -2 := by
  decide +kernel

end RedisCore.Bitops
