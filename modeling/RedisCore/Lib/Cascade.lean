import Mathlib

set_option autoImplicit false

namespace RedisCore.Lib.Cascade

open Finset

variable {Id : Type} [Fintype Id] [LinearOrder Id]

/-- Each `b k` counts what `k` does in answer to the greater ones, of which each gives `c` causes and one more for each thing
it does itself. The least one of an upper set at most doubles the sum over the others. -/
theorem sum_upper {b : Id → Nat} {c : Nat} (cause : ∀ k, b k ≤ ∑ j ∈ Finset.univ.filter (k < ·), (c + b j)) {s : Finset Id}
    (upper : ∀ i ∈ s, ∀ j, i < j → j ∈ s) : ∑ j ∈ s, (c + b j) + c ≤ c * 2 ^ s.card := by
  induction s using induction_on_min with
  | empty => simp
  | insert least s below ih =>
    have fresh : least ∉ s := fun inside => lt_irrefl _ (below least inside)
    have rest : ∀ i ∈ s, ∀ j, i < j → j ∈ s := by
      intro i inside j later
      obtain same | member := mem_insert.mp (upper i (mem_insert_of_mem inside) j later)
      · exact absurd (same ▸ later) (lt_asymm (below i inside))
      · exact member
    have above : Finset.univ.filter (least < ·) = s := by
      ext j
      simp only [mem_filter, mem_univ, true_and]
      refine ⟨fun later => ?_, below j⟩
      obtain same | member := mem_insert.mp (upper least (mem_insert_self _ _) j later)
      · exact absurd later (same ▸ lt_irrefl _)
      · exact member
    have first := cause least
    rw [above] at first
    have bound := ih rest
    rw [sum_insert fresh, card_insert_of_notMem fresh, pow_succ, ← mul_assoc]
    omega

theorem total_lt (b : Id → Nat) {c : Nat} (positive : 0 < c)
    (cause : ∀ k, b k ≤ ∑ j ∈ Finset.univ.filter (k < ·), (c + b j)) : ∑ j, b j < c * 2 ^ Fintype.card Id := by
  have all := sum_upper cause fun _ _ j _ => mem_univ j
  have part : ∑ j, b j ≤ ∑ j, (c + b j) := sum_le_sum fun j _ => Nat.le_add_left _ _
  rw [card_univ] at all
  omega

end RedisCore.Lib.Cascade
