import Mathlib

set_option autoImplicit false

namespace RedisCore.ReverseBits

variable {w : Nat}

-- The order in which a cursor that counts from its high bits visits the words.
def rank (v : BitVec w) : Nat := v.reverse.toNat

def lowMask (w bits : Nat) : BitVec w := BitVec.ofNat w (2 ^ bits - 1)

def advance (mask v : BitVec w) : BitVec w := ((v ||| ~~~mask).reverse + 1).reverse

theorem rank_lt (v : BitVec w) : rank v < 2 ^ w := v.reverse.isLt

theorem testBit_rank (v : BitVec w) (i : Nat) :
    (rank v).testBit i = (decide (i < w) && v.getLsbD (w - 1 - i)) := by
  rw [rank, BitVec.testBit_toNat, BitVec.getLsbD_reverse, BitVec.getMsbD_eq_getLsbD]

theorem rank_eq_zero (v : BitVec w) : rank v = 0 ↔ v = 0 := by
  constructor
  · intro zero
    have reversed : v.reverse = 0 := BitVec.eq_of_toNat_eq (by rw [← rank, zero]; rfl)
    rw [← BitVec.reverse_reverse_eq (x := v), reversed]
    exact BitVec.eq_of_getLsbD_eq fun i _ => by simp [BitVec.getLsbD_reverse]
  · rintro rfl
    exact Nat.eq_of_testBit_eq fun i => by simp [testBit_rank]

theorem testBit_rank_div (v : BitVec w) {bits : Nat} (j : Nat) (fits : bits ≤ w) :
    (rank v / 2 ^ (w - bits)).testBit j = (decide (j < bits) && v.getLsbD (bits - 1 - j)) := by
  rw [← Nat.testBit_add, testBit_rank]
  by_cases inside : j < bits
  · rw [show w - 1 - (j + (w - bits)) = bits - 1 - j by omega]
    simp [inside, show j + (w - bits) < w by omega]
  · simp [inside, show ¬j + (w - bits) < w by omega]

theorem rank_div_eq {h v : BitVec w} {bits : Nat} (fits : bits ≤ w)
    (same : rank h / 2 ^ (w - bits) = rank v / 2 ^ (w - bits)) :
    h.toNat % 2 ^ bits = v.toNat % 2 ^ bits := by
  refine Nat.eq_of_testBit_eq fun i => ?_
  rw [Nat.testBit_mod_two_pow, Nat.testBit_mod_two_pow]
  by_cases inside : i < bits
  · have at_bit := congrArg (fun n => Nat.testBit n (bits - 1 - i)) same
    simp only [testBit_rank_div _ _ fits, show bits - 1 - i < bits by omega,
      show bits - 1 - (bits - 1 - i) = i by omega, decide_true, Bool.true_and] at at_bit
    rw [BitVec.testBit_toNat, BitVec.testBit_toNat, at_bit]
  · simp [inside]

theorem getLsbD_lowMask (bits i : Nat) : (lowMask w bits).getLsbD i = (decide (i < w) && decide (i < bits)) := by
  rw [lowMask, BitVec.getLsbD_ofNat, Nat.testBit_two_pow_sub_one]

theorem rank_or_not_lowMask (v : BitVec w) {bits : Nat} (fits : bits ≤ w) :
    rank (v ||| ~~~lowMask w bits) = 2 ^ (w - bits) * (rank v / 2 ^ (w - bits)) + (2 ^ (w - bits) - 1) := by
  have small : 2 ^ (w - bits) - 1 < 2 ^ (w - bits) := Nat.sub_lt (by positivity) (by omega)
  refine Nat.eq_of_testBit_eq fun i => ?_
  rw [testBit_rank, Nat.testBit_two_pow_mul_add _ small, Nat.testBit_two_pow_sub_one, BitVec.getLsbD_or,
    BitVec.getLsbD_not, getLsbD_lowMask]
  by_cases high : i < w - bits
  · simp [high, show i < w by omega, show w - 1 - i < w by omega, show ¬w - 1 - i < bits by omega]
  · rw [if_neg high, testBit_rank_div v _ fits]
    by_cases inside : i < w
    · simp [inside, show w - 1 - i < w by omega, show w - 1 - i < bits by omega,
        show i - (w - bits) < bits by omega, show bits - 1 - (i - (w - bits)) = w - 1 - i by omega]
    · simp [inside, show ¬i - (w - bits) < bits by omega]

theorem rank_advance (v : BitVec w) (bits : Nat) (fits : bits ≤ w) (wide : 0 < w) :
    rank (advance (lowMask w bits) v) =
      2 ^ (w - bits) * (rank v / 2 ^ (w - bits) + 1) % 2 ^ w := by
  have ones := rank_or_not_lowMask v fits
  have positive : 0 < 2 ^ (w - bits) := by positivity
  have one : (1 : BitVec w).toNat = 1 := by
    rw [BitVec.ofNat_eq_ofNat, BitVec.toNat_ofNat, Nat.mod_eq_of_lt (Nat.one_lt_two_pow (by omega))]
  rw [rank, advance, BitVec.reverse_reverse_eq, BitVec.toNat_add, one, ← rank, ones, Nat.mul_add]
  congr 1
  omega

theorem and_xor_eq_zero (v : BitVec w) {low high : Nat} (le : low ≤ high) (fits : high ≤ w) :
    v &&& (lowMask w low ^^^ lowMask w high) = 0 ↔
      rank v % 2 ^ (w - low) / 2 ^ (w - high) = 0 := by
  have bit (j : Nat) : (rank v % 2 ^ (w - low) / 2 ^ (w - high)).testBit j =
      (decide (j < high - low) && v.getLsbD (high - 1 - j)) := by
    rw [← Nat.testBit_add, Nat.testBit_mod_two_pow, testBit_rank]
    by_cases inside : j < high - low
    · simp [inside, show j + (w - high) < w - low by omega, show j + (w - high) < w by omega,
        show w - 1 - (j + (w - high)) = high - 1 - j by omega]
    · simp [inside, show ¬j + (w - high) < w - low by omega]
  constructor
  · intro clear
    refine Nat.eq_of_testBit_eq fun j => ?_
    rw [bit, Nat.zero_testBit]
    by_cases inside : j < high - low
    · have at_bit := congrArg (fun x => BitVec.getLsbD x (high - 1 - j)) clear
      rw [BitVec.getLsbD_and, BitVec.getLsbD_xor, getLsbD_lowMask, getLsbD_lowMask] at at_bit
      simpa [inside, show high - 1 - j < w by omega, show ¬high - 1 - j < low by omega,
        show high - 1 - j < high by omega] using at_bit
    · simp [inside]
  · intro zero
    refine BitVec.eq_of_getLsbD_eq fun i inside => ?_
    rw [BitVec.getLsbD_and, BitVec.getLsbD_xor, getLsbD_lowMask, getLsbD_lowMask]
    by_cases between : low ≤ i ∧ i < high
    · have at_bit := bit (high - 1 - i)
      rw [zero, Nat.zero_testBit, show high - 1 - (high - 1 - i) = i by omega] at at_bit
      have clear : v.getLsbD i = false := by
        simpa [show high - 1 - i < high - low by omega] using at_bit.symm
      simp [clear]
    · by_cases below : i < low
      · simp [inside, below, show i < high by omega]
      · simp [inside, below, show ¬i < high by omega]

end RedisCore.ReverseBits
