import RedisCore.Lib.Buffer
import RedisCore.Util.LongLong

set_option autoImplicit false

namespace RedisCore.Util.Word

open Buffer List

-- Unsigned 64-bit arithmetic; none is a result that would wrap.
def fit (n : Nat) : Option Nat := if n ≤ ullongMax then some n else none

def string2llLoop : Nat → Bytes → Option (Option (Nat × Bytes))
  | v, [] => some (some (v, []))
  | v, p :: rest =>
    if isDigit p then
      if ullongMax / 10 < v then some none
      else do
        let v ← fit (v * 10)
        if ullongMax - digit p < v then some none
        else
          let v ← fit (v + digit p)
          string2llLoop v rest
    else some (some (v, p :: rest))

def string2ll (s : Bytes) : Option (Option Int) :=
  if s = [] then some none
  else if s = [48] then some (some 0)
  else
    let negative := s.head? = some 45
    match if negative then s.tail else s with
    | [] => some none
    | p :: rest =>
      if 49 ≤ p ∧ p ≤ 57 then
        (string2llLoop (digit p) rest).map fun
          | some (v, []) =>
            if negative then
              if llongMax + 1 < v then none else some (-(v : Int))
            else if llongMax < v then none else some (v : Int)
          | _ => none
      else if p = 48 ∧ s.length = 1 then some (some 0)
      else some none

theorem string2llLoop_eq (v : Nat) (s : Bytes) (bound : v ≤ ullongMax) :
    string2llLoop v s = some (Util.string2llLoop v s) := by
  induction s generalizing v with
  | nil => rfl
  | cons p rest ih =>
    rw [string2llLoop, Util.string2llLoop]
    by_cases is_digit : isDigit p = true
    · have small := digit_lt is_digit
      rw [if_pos is_digit, if_pos is_digit]
      by_cases first : ullongMax / 10 < v
      · rw [if_pos first, if_pos first]
      have product : fit (v * 10) = some (v * 10) := if_pos (by omega)
      rw [if_neg first, if_neg first, product]
      simp only [some_bind]
      by_cases second : ullongMax - digit p < v * 10
      · rw [if_pos second, if_pos second]
      have within : v * 10 + digit p ≤ ullongMax := by
        have large : 10 ≤ ullongMax := by decide
        omega
      have sum : fit (v * 10 + digit p) = some (v * 10 + digit p) := if_pos within
      rw [if_neg second, if_neg second, sum, some_bind]
      exact ih _ within
    · rw [if_neg is_digit, if_neg is_digit]

theorem string2ll_eq (s : Bytes) : string2ll s = some (Util.string2ll s) := by
  have large : 256 ≤ ullongMax := by decide
  unfold string2ll Util.string2ll
  by_cases empty : s = []
  · rw [if_pos empty, if_pos empty]
  by_cases zero : s = [48]
  · rw [if_neg empty, if_neg empty, if_pos zero, if_pos zero]
  rw [if_neg empty, if_neg empty, if_neg zero, if_neg zero]
  dsimp only
  cases (if s.head? = some 45 then s.tail else s) with
  | nil => rfl
  | cons p rest =>
    have bound : digit p ≤ ullongMax := by
      have byte := UInt8.toNat_lt p
      rw [digit]
      omega
    dsimp only
    rw [string2llLoop_eq (digit p) rest bound, Option.map_some]
    split_ifs <;> rfl

-- next is a uint32_t.
def back (next k : Nat) : Nat := if k ≤ next then next - k else next + 2 ^ 32 - k

-- Two digits at next - 1 and next; none is a write outside the buffer.
def putPair (dst : Bytes) (next k : Nat) : Option Bytes := do
  let dst ← write dst next [UInt8.ofNat (48 + k % 10)]
  write dst (back next 1) [UInt8.ofNat (48 + k / 10)]

def ll2stringLoop : (rounds value : Nat) → Bytes → Nat → Option Bytes
  | 0, _, dst, _ => some dst
  | rounds + 1, value, dst, next =>
    if 100 ≤ value then do
      let dst ← putPair dst next (value % 100)
      ll2stringLoop rounds (value / 100) dst (back next 2)
    else if value < 10 then write dst next [UInt8.ofNat (48 + value)]
    else putPair dst next value

-- The length, or 0 if the buffer dst is too short, and the buffer.
def ll2string (dst : Bytes) (svalue : Int) : Option (Nat × Bytes) :=
  let value := svalue.natAbs
  let negative : Nat := if svalue < 0 then 1 else 0
  let length := digits10 2 value + negative
  if dst.length ≤ length then some (0, dst)
  else do
    let dst ← write dst length [0]
    let dst ← ll2stringLoop 10 value dst (back length 1)
    let dst ← if svalue < 0 then write dst 0 [45] else some dst
    pure (length, dst)

theorem length_decimal (k n : Nat) (low : 10 ^ k ≤ n) (high : n < 10 ^ (k + 1)) : (decimal n).length = k + 1 := by
  have positive : n ≠ 0 := by
    have power : 0 < 10 ^ k := by positivity
    omega
  rw [decimal, if_neg positive, length_map, length_reverse, Nat.length_digits 10 n (by norm_num) positive,
    Nat.log_eq_of_pow_le_of_lt_pow low high]

theorem length_decimal_digit (n : Nat) (small : n < 10) : (decimal n).length = 1 := by
  rcases Nat.eq_zero_or_pos n with zero | positive
  · subst zero
    rfl
  · exact length_decimal 0 n positive small

theorem length_decimal_div (n : Nat) (large : 1000000000000 ≤ n) :
    (decimal n).length = 12 + (decimal (n / 1000000000000)).length := by
  have quotient : n / 1000000000000 ≠ 0 := by omega
  have low := Nat.pow_log_le_self 10 quotient
  have high := Nat.lt_pow_succ_log_self (by norm_num : 1 < 10) (n / 1000000000000)
  generalize Nat.log 10 (n / 1000000000000) = k at low high
  rw [length_decimal k _ low high, length_decimal (k + 12) n]
  · omega
  · rw [pow_add]
    omega
  · rw [show k + 12 + 1 = k + 1 + 12 by omega, pow_add]
    omega

theorem digits10_decimal (rounds v : Nat) (bound : v < 1000000000000 ^ rounds) (some_round : 0 < rounds) :
    digits10 rounds v = (decimal v).length := by
  induction rounds generalizing v with
  | zero => omega
  | succ rounds ih =>
    have exact (k : Nat) (low : 10 ^ k ≤ v) (high : v < 10 ^ (k + 1)) := length_decimal k v low high
    rw [digits10]
    split_ifs
    · rw [length_decimal_digit v (by omega)]
    · rw [exact 1 (by omega) (by omega)]
    · rw [exact 2 (by omega) (by omega)]
    · rw [exact 3 (by omega) (by omega)]
    · rw [exact 5 (by omega) (by omega)]
    · rw [exact 4 (by omega) (by omega)]
    · rw [exact 7 (by omega) (by omega)]
    · rw [exact 6 (by omega) (by omega)]
    · rw [exact 9 (by omega) (by omega)]
    · rw [exact 8 (by omega) (by omega)]
    · rw [exact 11 (by omega) (by omega)]
    · rw [exact 10 (by omega) (by omega)]
    next large _ =>
      have positive : 0 < rounds := by
        rcases Nat.eq_zero_or_pos rounds with zero | positive
        · subst zero
          omega
        · exact positive
      have inner : v / 1000000000000 < 1000000000000 ^ rounds := by
        rw [pow_succ] at bound
        exact Nat.div_lt_of_lt_mul (by rw [Nat.mul_comm]; exact bound)
      rw [ih _ inner positive, length_decimal_div v (by omega)]

theorem putPair_eq (dst front rest : Bytes) (a b : UInt8) (next k : Nat) (shape : dst = front ++ (a :: b :: rest))
    (at_last : next = front.length + 1) : putPair dst next k = some (front ++ (digitPair k ++ rest)) := by
  have last := write_append (front ++ [a]) [b] [UInt8.ofNat (48 + k % 10)] rest next (by simp [at_last]) rfl
  have before : back next 1 = front.length := by simp [back, at_last]
  have first := write_append front [a] [UInt8.ofNat (48 + k / 10)] (UInt8.ofNat (48 + k % 10) :: rest) (back next 1)
    before rfl
  simp only [append_assoc, cons_append, nil_append] at last first
  rw [putPair, shape, last]
  simp only [some_bind, first]
  rfl

theorem split_last_two {gap : Bytes} {length : Nat} (enough : gap.length = length + 2) :
    ∃ start a b, gap = start ++ [a, b] ∧ start.length = length := by
  obtain ⟨a, b, pair⟩ := length_eq_two.mp (show (gap.drop length).length = 2 by simp [enough])
  exact ⟨gap.take length, a, b, by rw [← pair, take_append_drop], by simp [enough]⟩

-- The gap before rest has room for the digits of value and no more.
theorem ll2stringLoop_eq (rounds value next : Nat) (front gap rest : Bytes) (bound : value < 100 ^ rounds)
    (some_round : 0 < rounds) (room : gap.length = (decimal value).length)
    (at_last : next + 1 = front.length + gap.length) :
    ll2stringLoop rounds value (front ++ (gap ++ rest)) next = some (front ++ (decimal value ++ rest)) := by
  induction rounds generalizing value next gap rest with
  | zero => omega
  | succ rounds ih =>
    rw [ll2stringLoop]
    split_ifs with large small
    · have inner : value / 100 < 100 ^ rounds := by
        rw [pow_succ] at bound
        exact Nat.div_lt_of_lt_mul (by rw [Nat.mul_comm]; exact bound)
      have positive : 0 < rounds := by
        rcases Nat.eq_zero_or_pos rounds with zero | positive
        · subst zero
          omega
        · exact positive
      have halves := congrArg List.length (decimal_split large)
      rw [length_append] at halves
      obtain ⟨start, a, b, rfl, length_start⟩ := split_last_two (by rw [room, halves]; rfl)
      rw [length_append] at at_last
      simp only [length_cons, length_nil] at at_last
      have some_digit : 0 < (decimal (value / 100)).length := by
        obtain ⟨byte, digits, text, _⟩ := decimal_cons (value / 100) (by omega)
        simp [text]
      have pair := putPair_eq (front ++ (start ++ [a, b] ++ rest)) (front ++ start) rest a b next (value % 100) (by simp)
        (by rw [length_append]; omega)
      have digits := ih (value / 100) (back next 2) start (digitPair (value % 100) ++ rest) inner positive length_start
        (by rw [back, if_pos (by omega)]; omega)
      rw [append_assoc] at pair
      simp only [pair, some_bind, digits, decimal_split large, append_assoc]
    · rw [length_decimal_digit value small] at room
      obtain ⟨a, rfl⟩ := length_eq_one_iff.mp room
      have single : decimal value = [UInt8.ofNat (48 + value)] := by
        rcases Nat.eq_zero_or_pos value with zero | positive
        · subst zero
          rfl
        · have nonzero : value ≠ 0 := by omega
          rw [decimal, if_neg nonzero, Nat.digits_of_lt 10 value nonzero small]
          rfl
      rw [single]
      exact write_append front [a] _ rest next (by simpa using at_last) rfl
    · rw [length_decimal 1 value (by omega) (by omega)] at room
      obtain ⟨a, b, rfl⟩ := length_eq_two.mp room
      rw [← digitPair_eq (by omega) (by omega)]
      exact putPair_eq _ front rest a b next value (by simp) (by simpa using at_last)

theorem length_llString {v : Int} (range : IsInt64 v) :
    (llString v).length = digits10 2 v.natAbs + (if v < 0 then 1 else 0) := by
  have bound : v.natAbs < 1000000000000 ^ 2 := by
    have lower := range.1
    have upper := range.2
    omega
  rw [digits10_decimal 2 v.natAbs bound (by norm_num), llString, length_append]
  split_ifs <;> simp [Nat.add_comm]

theorem length_llString_le {v : Int} (range : IsInt64 v) : 0 < (llString v).length ∧ (llString v).length ≤ 20 := by
  obtain ⟨lower, upper⟩ := range
  by_cases zero : v = 0
  · subst zero
    decide
  have some_digit := length_decimal (Nat.log 10 v.natAbs) v.natAbs (Nat.pow_log_le_self 10 (by omega))
    (Nat.lt_pow_succ_log_self (by norm_num) v.natAbs)
  have digits : Nat.log 10 v.natAbs < 19 := Nat.log_lt_of_lt_pow (by omega) (by omega)
  rw [llString, length_append, some_digit]
  split_ifs <;> simp <;> omega

theorem ll2string_short (dst : Bytes) {v : Int} (range : IsInt64 v) (short : dst.length ≤ (llString v).length) :
    ll2string dst v = some (0, dst) := by
  rw [length_llString range] at short
  exact if_pos short

theorem ll2string_fits {dst : Bytes} {v : Int} (range : IsInt64 v) (room : (llString v).length < dst.length) :
    ll2string dst v = some ((llString v).length, llString v ++ 0 :: dst.drop ((llString v).length + 1)) := by
  have length := length_llString range
  have positive := (length_llString_le range).1
  have digits : v.natAbs < 100 ^ 10 := by
    have lower := range.1
    have upper := range.2
    omega
  obtain ⟨text, rest, shape, length_text⟩ : ∃ text rest, dst = text ++ rest ∧ text.length = (llString v).length :=
    ⟨dst.take (llString v).length, _, (take_append_drop _ _).symm, by simp; omega⟩
  obtain ⟨last, rest, rfl⟩ : ∃ last others, rest = last :: others := by
    refine exists_cons_of_ne_nil fun none => ?_
    rw [shape, none, append_nil] at room
    omega
  have tail : dst.drop ((llString v).length + 1) = rest := by
    rw [shape, ← length_text, ← drop_drop, drop_left]
    rfl
  have terminated := write_append text [last] [0] rest (llString v).length length_text.symm rfl
  have at_last : back (llString v).length 1 + 1 = (llString v).length := by
    rw [back, if_pos (Nat.one_le_iff_ne_zero.mpr (by omega))]
    omega
  simp only [cons_append, nil_append] at terminated
  simp only [ll2string, ← length, if_neg (Nat.not_le.mpr room), tail]
  rw [shape, terminated]
  by_cases negative : v < 0
  · have sign : llString v = 45 :: decimal v.natAbs := by rw [llString, if_pos negative]; rfl
    obtain ⟨first, gap, rfl⟩ : ∃ first gap, text = first :: gap :=
      exists_cons_of_ne_nil fun none => by simp [none] at length_text; omega
    rw [sign, length_cons, length_cons] at length_text
    have filled := ll2stringLoop_eq 10 v.natAbs (back (llString v).length 1) [first] gap (0 :: rest) digits (by norm_num)
      (by omega) (by rw [at_last, sign]; simp; omega)
    have signed := write_append [] [first] [45] (decimal v.natAbs ++ 0 :: rest) 0 rfl rfl
    simp only [cons_append, nil_append] at filled signed
    simp only [some_bind, cons_append, filled, if_pos negative, signed]
    rw [sign]
    rfl
  · have plain : llString v = decimal v.natAbs := by rw [llString, if_neg negative]; rfl
    have filled := ll2stringLoop_eq 10 v.natAbs (back (llString v).length 1) [] text (0 :: rest) digits (by norm_num)
      (by rw [length_text, plain]) (by rw [at_last, length_text]; simp)
    simp only [nil_append] at filled
    simp only [some_bind, filled, if_neg negative]
    rw [plain]
    rfl

-- What ll2string leaves in the buffer: its length and the bytes before the terminator.
theorem string2ll_iff_ll2string (v : Int) (range : IsInt64 v) :
    (∀ dst : Bytes, 21 ≤ dst.length → ∃ length out, ll2string dst v = some (length, out) ∧ 0 < length) ∧
      ∀ dst length out, ll2string dst v = some (length, out) → 0 < length →
        out[length]? = some 0 ∧ ∀ s, ∃ result, string2ll s = some result ∧ (∀ w, result = some w → IsInt64 w) ∧
          (result = some v ↔ s = out.take length) := by
  obtain ⟨positive, within⟩ := length_llString_le range
  refine ⟨fun dst room => ⟨_, _, ll2string_fits range (by omega), positive⟩, fun dst length out written some_length => ?_⟩
  have room : (llString v).length < dst.length := by
    by_contra short
    rw [ll2string_short dst range (by omega)] at written
    cases written
    omega
  rw [ll2string_fits range room] at written
  obtain ⟨rfl, rfl⟩ := Prod.mk.inj (Option.some.inj written)
  refine ⟨by simp, fun s => ⟨_, string2ll_eq s, fun w parsed => (string2ll_sound parsed).1, ?_⟩⟩
  rw [take_left]
  constructor
  · intro parsed
    exact (string2ll_sound parsed).2
  · rintro rfl
    exact string2ll_complete range

theorem string2ll_iff_ll2string_min : ∃ out, ll2string (List.replicate 21 0) (-9223372036854775808) = some (20, out) ∧
    ∀ s, ∃ result, string2ll s = some result ∧ (∀ w, result = some w → IsInt64 w) ∧
      (result = some (-9223372036854775808) ↔ s = out.take 20) := by
  have written : ll2string (List.replicate 21 0) (-9223372036854775808) =
      some (20, [45, 57, 50, 50, 51, 51, 55, 50, 48, 51, 54, 56, 53, 52, 55, 55, 53, 56, 48, 56, 0]) := by decide +kernel
  have both := (string2ll_iff_ll2string (-9223372036854775808) (by decide)).2 _ _ _ written (by norm_num)
  exact ⟨_, written, both.2⟩

end RedisCore.Util.Word
