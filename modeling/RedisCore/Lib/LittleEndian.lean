import Mathlib

set_option autoImplicit false

namespace RedisCore

abbrev Bytes := List UInt8

namespace LittleEndian

def encode : (width : Nat) → Nat → Bytes
  | 0, _ => []
  | width + 1, n => UInt8.ofNat n :: encode width (n / 256)

def decode : Bytes → Nat
  | [] => 0
  | byte :: rest => byte.toNat + 256 * decode rest

@[simp] theorem length_encode (width n : Nat) : (encode width n).length = width := by
  induction width generalizing n with
  | zero => rfl
  | succ width ih => simp [encode, ih]

theorem decode_encode (width n : Nat) : decode (encode width n) = n % 256 ^ width := by
  induction width generalizing n with
  | zero => simp [encode, decode, Nat.mod_one]
  | succ width ih =>
    have step : n % (256 * 256 ^ width) = n % 256 + 256 * (n / 256 % 256 ^ width) := Nat.mod_mul
    rw [pow_succ' 256 width, step]
    simp only [encode, decode, ih, UInt8.toNat_ofNat']

theorem decode_encode_of_lt {width n : Nat} (bound : n < 256 ^ width) :
    decode (encode width n) = n := by
  rw [decode_encode, Nat.mod_eq_of_lt bound]

theorem decode_lt (bytes : Bytes) : decode bytes < 256 ^ bytes.length := by
  induction bytes with
  | nil => simp [decode]
  | cons byte rest ih =>
    have small := byte.toNat_lt
    simp only [decode, List.length_cons, Nat.pow_succ]
    omega

theorem encode_decode (bytes : Bytes) : encode bytes.length (decode bytes) = bytes := by
  induction bytes with
  | nil => rfl
  | cons byte rest ih =>
    have small := byte.toNat_lt
    have quotient : (byte.toNat + 256 * decode rest) / 256 = decode rest := by omega
    simp only [List.length_cons, encode, decode, quotient, ih, List.cons.injEq, and_true]
    apply UInt8.toNat_inj.mp
    simp only [UInt8.toNat_ofNat']
    omega

-- Two's complement: the signed types of the source are read back with a balanced remainder.
def encodeInt (width : Nat) (value : Int) : Bytes :=
  encode width (value % 256 ^ width).toNat

def decodeInt (bytes : Bytes) : Int :=
  Int.bmod (decode bytes) (256 ^ bytes.length)

@[simp] theorem length_encodeInt (width : Nat) (value : Int) :
    (encodeInt width value).length = width := by
  simp [encodeInt]

theorem encode_mod (width n : Nat) : encode width (n % 256 ^ width) = encode width n := by
  have back := encode_decode (encode width n)
  rwa [length_encode, decode_encode] at back

theorem encodeInt_natCast (width n : Nat) : encodeInt width (n : Int) = encode width n := by
  have cast : ((n : Int) % 256 ^ width).toNat = n % 256 ^ width := by
    have whole : (n : Int) % 256 ^ width = ((n % 256 ^ width : Nat) : Int) := by push_cast; rfl
    rw [whole, Int.toNat_natCast]
  rw [encodeInt, cast, encode_mod]

theorem encodeInt_congr {width : Nat} {value value' : Int} (same : value % 256 ^ width = value' % 256 ^ width) :
    encodeInt width value = encodeInt width value' := by
  rw [encodeInt, same, encodeInt]

theorem decodeInt_encodeInt (width : Nat) (value : Int) :
    decodeInt (encodeInt width value) = Int.bmod value (256 ^ width) := by
  have positive : (0 : Int) < 256 ^ width := by positivity
  have nonneg := Int.emod_nonneg value (ne_of_gt positive)
  have below := Int.emod_lt_of_pos value positive
  have bound : (value % 256 ^ width).toNat < 256 ^ width := by
    zify
    rw [Int.toNat_of_nonneg nonneg]
    exact below
  rw [decodeInt, length_encodeInt, encodeInt, decode_encode_of_lt bound,
    Int.toNat_of_nonneg nonneg]
  exact_mod_cast Int.emod_bmod value (256 ^ width)

end LittleEndian

end RedisCore
