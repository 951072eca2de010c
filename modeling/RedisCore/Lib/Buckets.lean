import Mathlib

set_option autoImplicit false

namespace RedisCore.Buckets

open Function Multiset Finset

variable {α : Type}

def chained (n : Nat) (table : Nat → List α) : Multiset α :=
  ∑ i ∈ Finset.range n, (table i : Multiset α)

theorem mem_chained (n : Nat) (table : Nat → List α) (a : α) :
    a ∈ chained n table ↔ ∃ i < n, a ∈ table i := by
  simp [chained, mem_sum]

@[simp] theorem chained_zero (table : Nat → List α) : chained 0 table = 0 := rfl

theorem chained_empty (n : Nat) : chained n (fun _ => ([] : List α)) = 0 := by
  simp [chained]

section

variable {n i : Nat} (table : Nat → List α)

theorem chained_update (chain : List α) (within : i < n) :
    chained n (update table i chain) + (table i : Multiset α) =
      chained n table + (chain : Multiset α) := by
  have member : i ∈ Finset.range n := Finset.mem_range.mpr within
  have others : ∑ j ∈ (Finset.range n).erase i, (update table i chain j : Multiset α) =
      ∑ j ∈ (Finset.range n).erase i, (table j : Multiset α) :=
    sum_congr rfl fun j inside => by
      rw [update_of_ne (ne_of_mem_erase inside)]
  rw [chained, chained, ← add_sum_erase _ _ member, ← add_sum_erase _ _ member, others,
    update_self]
  abel

theorem chained_push (a : α) (within : i < n) :
    chained n (update table i (a :: table i)) = a ::ₘ chained n table := by
  have step := chained_update table (a :: table i) within
  rw [← cons_coe, ← singleton_add a (table i : Multiset α), ← add_assoc] at step
  rw [add_right_cancel step, add_comm, singleton_add]

theorem chained_clear (within : i < n) :
    chained n table = (table i : Multiset α) + chained n (update table i []) := by
  have step := chained_update table [] within
  rw [coe_nil, add_zero] at step
  rw [← step, add_comm]

end

theorem chained_eq_zero (n : Nat) (table : Nat → List α) :
    chained n table = 0 ↔ ∀ i < n, table i = [] := by
  simp [chained, Finset.sum_eq_zero_iff]

end RedisCore.Buckets
