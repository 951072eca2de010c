import RedisCore.Util.LongLong

set_option autoImplicit false

namespace RedisCore.Util

open List

def notAnOffset : String := "bit offset is not an integer or out of range"

def getBitOffsetFromArgument (p : Bytes) (hash : Bool) (bits : Int) : Except String Nat :=
  let usehash := p.head? = some 35 ∧ hash = true ∧ 0 < bits
  match string2ll (if usehash then p.tail else p) with
  | none => .error notAnOffset
  | some loffset =>
    let loffset := if usehash then toLongLong (loffset * bits) else loffset
    if loffset < 0 ∨ 512 * 1024 * 1024 ≤ loffset.toNat / 8 then .error notAnOffset else .ok loffset.toNat

-- The value, none where there are no digits, and what is left of buf. A value out of range is replaced by the nearest
-- long long. Blanks and a plus sign, which may come first, are none that memtoll passes.
def strtoll (buf : Bytes) : Option Int × Bytes :=
  let negative := buf.head? = some 45
  let text := if negative then buf.tail else buf
  let digits := text.takeWhile isDigit
  if digits = [] then (none, buf)
  else
    let val : Int := if negative then -(decValue 0 digits : Int) else decValue 0 digits
    (some (max (-(2 ^ 63)) (min val (2 ^ 63 - 1))), text.dropWhile isDigit)

def lower (c : UInt8) : UInt8 := if 65 ≤ c.toNat ∧ c.toNat ≤ 90 then c + 32 else c

-- The comparisons with b, k, kb, m, mb, g and gb without regard to case.
def unitMultiplier (u : Bytes) : Option Int :=
  match u.map lower with
  | [] | [98] => some 1
  | [107] => some 1000
  | [107, 98] => some 1024
  | [109] => some (1000 * 1000)
  | [109, 98] => some (1024 * 1024)
  | [103] => some (1000 * 1000 * 1000)
  | [103, 98] => some (1024 * 1024 * 1024)
  | _ => none

def signLength (p : Bytes) : Nat := if p.head? = some 45 then 1 else 0

def digitsOf (p : Bytes) : Bytes := (p.drop (signLength p)).takeWhile isDigit

-- The number of bytes before the unit.
def numberLength (p : Bytes) : Nat := signLength p + (digitsOf p).length

-- p is a C string without its terminator; none sets the error flag. digits is an unsigned int. Whether strtoll sets errno
-- to EINVAL where there are no digits is up to the C library.
def memtoll (einval : Bool) (p : Bytes) : Option Int := do
  let mul ← unitMultiplier (p.drop (numberLength p))
  let digits := numberLength p % 2 ^ 32
  if 128 ≤ digits then none
  else
    let (val, endptr) := strtoll (p.take digits)
    if val = none ∧ einval = true ∨ endptr ≠ [] then none else pure (toLongLong (val.getD 0 * mul))

def numberOf (p : Bytes) : Int := if p.head? = some 45 then -(decValue 0 (digitsOf p) : Int) else decValue 0 (digitsOf p)

-- The exact number of bytes.
def amount (p : Bytes) : Option Int := (unitMultiplier (p.drop (numberLength p))).map (numberOf p * ·)

-- What is copied to buf.
def copied (p : Bytes) : Bytes := p.take (numberLength p % 2 ^ 32)

def OffsetExact (text : Bytes) (bits : Int) : Prop :=
  ∀ offset, getBitOffsetFromArgument (35 :: text) true bits = .ok offset →
    ∃ n ∈ string2ll text, (offset : Int) = n * bits ∧ offset < 2 ^ 32

def BytesExact (einval : Bool) (p : Bytes) : Prop := memtoll einval p = none ∨ memtoll einval p = amount p

/-- A product out of range is refused unless it wraps to an offset, and an amount unless a value for it is computed. -/
structure ScaledExact (einval : Bool) : Prop where
  offset : ∀ text bits, 1 ≤ bits → bits ≤ 64 →
    (OffsetExact text bits ↔ ∀ n ∈ string2ll text, IsInt64 (n * bits) ∨ 2 ^ 32 ≤ n * bits % 2 ^ 64)
  bytes : ∀ p, BytesExact einval p ↔ ∀ mul, unitMultiplier (p.drop (numberLength p)) = some mul → numberLength p % 2 ^ 32 < 128 →
    digitsOf (copied p) ≠ [] ∨ copied p = [] ∧ einval = false → IsInt64 (numberOf p * mul) ∧ numberOf (copied p) = numberOf p

theorem offset_iff {text : Bytes} {bits : Int} (positive : 1 ≤ bits) :
    OffsetExact text bits ↔ ∀ n ∈ string2ll text, IsInt64 (n * bits) ∨ 2 ^ 32 ≤ n * bits % 2 ^ 64 := by
  have usehash : 0 < bits := by omega
  simp only [OffsetExact, getBitOffsetFromArgument, head?_cons, usehash, and_self, if_true, tail_cons]
  cases string2ll text with
  | none => simp
  | some n =>
    have wraps : toLongLong (n * bits) = (n * bits) % 2 ^ 64 ∨ toLongLong (n * bits) = n * bits % 2 ^ 64 - 2 ^ 64 := by
      rw [toLongLong, Int.bmod]
      split <;> simp
    have range := isInt64_toLongLong (n * bits)
    simp only [Option.mem_some_iff, forall_eq', exists_eq_left']
    constructor
    · intro exact_
      by_contra misses
      rw [not_or, Int.not_le, ← toLongLong_eq_iff] at misses
      have accepted := exact_ (toLongLong (n * bits)).toNat (if_neg (by have := range.1; omega))
      have := range.1
      omega
    · intro fits offset accepted
      split_ifs at accepted with refused
      cases Except.ok.inj accepted
      rw [← toLongLong_eq_iff] at fits
      omega

theorem take_numberLength (p : Bytes) :
    p.take (numberLength p) = if p.head? = some 45 then 45 :: digitsOf p else digitsOf p := by
  have digits (q : Bytes) : q.take (q.takeWhile isDigit).length = q.takeWhile isDigit :=
    (prefix_iff_eq_take.mp ( takeWhile_prefix _)).symm
  unfold numberLength digitsOf signLength
  split
  next minus =>
    obtain ⟨rest, rfl⟩ := head?_eq_some_iff.mp minus
    rw [Nat.add_comm, take_succ_cons, drop_succ_cons, drop_zero, digits]
  next => rw [Nat.zero_add, drop_zero, digits]

theorem strtoll_number (p : Bytes) (some_digit : digitsOf p ≠ []) :
    strtoll (p.take (numberLength p)) = (some (max (-(2 ^ 63)) (min (numberOf p) (2 ^ 63 - 1))), []) := by
  have all : ∀ byte ∈ digitsOf p, isDigit byte = true := fun _ => mem_takeWhile_imp
  have taken : (digitsOf p).takeWhile isDigit = digitsOf p := takeWhile_eq_self_iff.mpr all
  have dropped : (digitsOf p).dropWhile isDigit = [] := dropWhile_eq_nil_iff.mpr all
  rw [take_numberLength, numberOf]
  split
  next minus => simp only [strtoll, head?_cons, if_true, tail_cons, taken, some_digit, if_false, dropped]
  next =>
    have unsigned : (digitsOf p).head? ≠ some 45 := fun minus => absurd (all 45 (mem_of_mem_head? minus)) (by decide)
    simp only [strtoll, unsigned, if_false, taken, some_digit, dropped]

theorem unitMultiplier_pos {u : Bytes} {mul : Int} (unit : unitMultiplier u = some mul) : 1 ≤ mul := by
  unfold unitMultiplier at unit
  split at unit
  all_goals cases unit
  all_goals decide

theorem isInt64_of_mul {n mul : Int} (positive : 1 ≤ mul) (fits : IsInt64 (n * mul)) : IsInt64 n := by
  obtain ⟨low, high⟩ := fits
  constructor <;> nlinarith

theorem digits_take {q : Bytes} (digits : ∀ byte ∈ q, isDigit byte = true) (k : Nat) : (q.take k).takeWhile isDigit = q.take k :=
  takeWhile_eq_self_iff.mpr fun byte inside => digits byte (mem_of_mem_take inside)

theorem copied_eq (p : Bytes) (some_byte : copied p ≠ []) :
    ((copied p).head? = some 45 ↔ p.head? = some 45) ∧
    digitsOf (copied p) = (digitsOf p).take (numberLength p % 2 ^ 32 - signLength p) ∧
    copied p = if p.head? = some 45 then 45 :: digitsOf (copied p) else digitsOf (copied p) := by
  have all : ∀ byte ∈ digitsOf p, isDigit byte = true := fun _ => mem_takeWhile_imp
  have inside : numberLength p % 2 ^ 32 ≤ numberLength p := Nat.mod_le _ _
  have text : copied p = (p.take (numberLength p)).take (numberLength p % 2 ^ 32) := by
    rw [take_take, Nat.min_eq_left inside, copied]
  rw [take_numberLength] at text
  obtain ⟨k, here⟩ : ∃ k, numberLength p % 2 ^ 32 = k + 1 :=
    Nat.exists_eq_add_one_of_ne_zero fun zero => some_byte (by rw [copied, zero, take_zero])
  rw [here] at text ⊢
  by_cases minus : p.head? = some 45
  · rw [if_pos minus, take_succ_cons] at text
    have digits : digitsOf (copied p) = (digitsOf p).take k := by
      rw [text, digitsOf, signLength, head?_cons, if_pos rfl, drop_one, tail_cons, digits_take all]
    rw [digits, text]
    simp [minus, signLength]
  · rw [if_neg minus] at text
    have unsigned : ((digitsOf p).take (k + 1)).head? ≠ some 45 :=
      fun sign => absurd (all 45 (mem_of_mem_take (mem_of_mem_head? sign))) (by decide)
    have digits : digitsOf (copied p) = (digitsOf p).take (k + 1) := by
      rw [text, digitsOf, signLength, if_neg unsigned, drop_zero, digits_take all]
    rw [digits, text]
    simp [minus, unsigned, signLength]

theorem decValue_ge (v : Nat) (s : Bytes) : v * 10 ^ s.length ≤ decValue v s := by
  induction s generalizing v with
  | nil => simp [decValue]
  | cons byte rest ih =>
    calc v * 10 ^ (rest.length + 1) = v * 10 * 10 ^ rest.length := by ring
      _ ≤ (v * 10 + digit byte) * 10 ^ rest.length := Nat.mul_le_mul_right _ (Nat.le_add_right _ _)
      _ ≤ decValue v (byte :: rest) := ih _

-- Nineteen digits behind one that is not 0 are too many for a long long.
theorem digits_left {p : Bytes} {k : Nat} (nonzero : decValue 0 ((digitsOf p).take k) ≠ 0) (more : k + 19 ≤ (digitsOf p).length) :
    2 ^ 63 < decValue 0 (digitsOf p) := by
  have split := decValue_ge (decValue 0 ((digitsOf p).take k)) ((digitsOf p).drop k)
  have whole : decValue (decValue 0 ((digitsOf p).take k)) ((digitsOf p).drop k) = decValue 0 (digitsOf p) := by
    rw [decValue, decValue, decValue, ← foldl_append, take_append_drop]
  have power : 10 ^ 19 ≤ 10 ^ ((digitsOf p).drop k).length := Nat.pow_le_pow_right (by decide) (by rw [length_drop]; omega)
  have := Nat.mul_le_mul (Nat.one_le_iff_ne_zero.mpr nonzero) power
  omega

theorem copied_value {p : Bytes} {mul : Int} (positive : 1 ≤ mul) (short : numberLength p % 2 ^ 32 < 128)
    (some_digit : digitsOf (copied p) ≠ []) (fits : IsInt64 (numberOf p * mul)) :
    numberOf (copied p) = numberOf p ∨ numberOf (copied p) = 0 := by
  obtain ⟨sign, digits, -⟩ := copied_eq p fun empty => some_digit (by rw [empty]; rfl)
  have length : numberLength p = signLength p + (digitsOf p).length := rfl
  have one : signLength p ≤ 1 := by unfold signLength; split <;> decide
  by_cases whole : numberLength p < 2 ^ 32
  · left
    rw [Nat.mod_eq_of_lt whole, length, Nat.add_sub_cancel_left, take_length] at digits
    simp only [numberOf, sign, digits]
  · right
    by_contra nonzero
    have value : decValue 0 (digitsOf (copied p)) ≠ 0 := by
      intro zero
      simp [numberOf, zero] at nonzero
    rw [digits] at value
    have large := digits_left value (by omega)
    have out : ¬IsInt64 (numberOf p) := by
      unfold numberOf IsInt64
      split <;> omega
    exact out (isInt64_of_mul positive fits)

theorem memtoll_iff (einval : Bool) (p : Bytes) : BytesExact einval p ↔
    ∀ mul, unitMultiplier (p.drop (numberLength p)) = some mul → numberLength p % 2 ^ 32 < 128 →
      digitsOf (copied p) ≠ [] ∨ copied p = [] ∧ einval = false → IsInt64 (numberOf p * mul) ∧ numberOf (copied p) = numberOf p := by
  have step : memtoll einval p = (unitMultiplier (p.drop (numberLength p))).bind fun mul =>
      if 128 ≤ numberLength p % 2 ^ 32 then none
      else if (strtoll (copied p)).1 = none ∧ einval = true ∨ (strtoll (copied p)).2 ≠ [] then none
      else some (toLongLong ((strtoll (copied p)).1.getD 0 * mul)) := rfl
  rw [BytesExact, step, amount]
  cases unit : unitMultiplier (p.drop (numberLength p)) with
  | none => simp
  | some mul =>
    have positive := unitMultiplier_pos unit
    simp only [Option.bind_some, Option.map_some, Option.some.injEq, forall_eq']
    by_cases long : 128 ≤ numberLength p % 2 ^ 32
    · simp only [if_pos long, Nat.not_lt.mpr long, true_or, IsEmpty.forall_iff]
    rw [if_neg long]
    have zero_iff : numberOf p * mul = 0 ↔ numberOf p = 0 := by rw [mul_eq_zero, or_iff_left (by omega)]
    by_cases empty : copied p = []
    · have nothing : strtoll [] = (none, []) := rfl
      have zero : numberOf [] = 0 := rfl
      have digits : digitsOf [] = [] := rfl
      have wrapped : toLongLong 0 = 0 := rfl
      have range : IsInt64 0 := by decide
      cases einval <;> simp only [empty, nothing, zero, digits] <;> grind
    obtain ⟨sign, -, text⟩ := copied_eq p empty
    by_cases no_digit : digitsOf (copied p) = []
    · have minus : copied p = [45] := by
        rw [no_digit] at text
        split at text
        · exact text
        · exact absurd text empty
      have nothing : strtoll [45] = (none, [45]) := rfl
      have none_of : digitsOf [45] = [] := rfl
      simp [minus, nothing, none_of]
    · have value := strtoll_number (copied p) no_digit
      rw [take_numberLength, if_congr sign rfl rfl, ← text] at value
      simp only [value, no_digit, empty, ne_eq, not_true_eq_false, not_false_eq_true, reduceCtorEq, false_and, or_self, if_false,
        Option.getD_some, false_or, Option.some.injEq, or_false, forall_const, Nat.lt_of_not_le long]
      constructor
      · intro same
        have fits : IsInt64 (numberOf p * mul) := same ▸ isInt64_toLongLong _
        refine ⟨fits, (copied_value positive (Nat.lt_of_not_le long) no_digit fits).elim id fun zero => ?_⟩
        have clamped : max (-(2 ^ 63)) (min 0 (2 ^ 63 - 1)) = (0 : Int) := by decide
        rw [zero, clamped, zero_mul] at same
        rw [zero, zero_iff.mp same.symm]
      · rintro ⟨fits, same⟩
        have inside := isInt64_of_mul positive fits
        rw [same, min_eq_left (by have := inside.2; omega), max_eq_right inside.1, toLongLong_eq fits]

theorem scaled_arguments_exact (einval : Bool) : ScaledExact einval where
  offset := fun _ _ positive _ => offset_iff positive
  bytes := memtoll_iff einval

-- #3 with 16 bits, 2kb, and a one in front of 200 zeros, which is refused before the product.
theorem scaled_arguments_exact_small : getBitOffsetFromArgument (35 :: llString 3) true 16 = .ok 48 ∧
    memtoll true (llString 2 ++ [107, 98]) = some 2048 ∧ memtoll true (49 :: replicate 200 48) = none ∧
      OffsetExact (llString 3) 16 ∧ BytesExact true (llString 2 ++ [107, 98]) ∧ BytesExact true (49 :: replicate 200 48) :=
  ⟨by decide +kernel, by decide +kernel, by decide +kernel,
    ((scaled_arguments_exact true).offset (llString 3) 16 (by decide) (by decide)).mpr (by decide +kernel),
    ((scaled_arguments_exact true).bytes (llString 2 ++ [107, 98])).mpr (by
      intro mul unit
      cases unit.symm.trans (show unitMultiplier _ = some 1024 by decide +kernel)
      decide +kernel),
    ((scaled_arguments_exact true).bytes (49 :: replicate 200 48)).mpr fun _ _ short => absurd short (by decide +kernel)⟩

-- #1152921504606846976 with 16 bits, 10000000000g, and 2^63 without a unit.
theorem scaled_arguments_wrap : string2ll (llString (2 ^ 60)) = some (2 ^ 60) ∧
    getBitOffsetFromArgument (35 :: llString (2 ^ 60)) true 16 = .ok 0 ∧
      amount (llString (10 ^ 10) ++ [103]) = some (10 ^ 19) ∧
        memtoll false (llString (10 ^ 10) ++ [103]) = some (10 ^ 19 - 2 ^ 64) ∧
          amount (llString (2 ^ 63)) = some (2 ^ 63) ∧ memtoll false (llString (2 ^ 63)) = some (2 ^ 63 - 1) := by
  decide +kernel

end RedisCore.Util
