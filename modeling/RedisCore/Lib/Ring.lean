import RedisCore.Lib.Buffer

set_option autoImplicit false

namespace RedisCore.Lib.Ring

open Buffer List

variable {A : Type}

/-- What was written to the cells of `buffer`, one after the other and from the first again after the last, is there as
far as it has not been overwritten. -/
def Holds (buffer written : List A) : Prop :=
  ∀ i, i < written.length → written.length ≤ i + buffer.length → buffer[i % buffer.length]? = written[i]?

theorem holds_nil (buffer : List A) : Holds buffer [] := fun _ inside => absurd inside (Nat.not_lt_zero _)

theorem getElem?_write {buffer bytes result : List A} (offset i : Nat) (stored : write buffer offset bytes = some result) :
    result[i]? = if offset ≤ i ∧ i < offset + bytes.length then bytes[i - offset]? else buffer[i]? := by
  unfold write at stored
  split at stored
  next within =>
    cases stored
    have front : (buffer.take offset).length = offset := by simp; omega
    by_cases before : i < offset
    · rw [if_neg (by omega), getElem?_append_left (by omega), getElem?_take_of_lt before]
    · rw [getElem?_append_right (by omega), front]
      by_cases inside : i < offset + bytes.length
      · rw [if_pos (by omega), getElem?_append_left (by omega)]
      · rw [if_neg (by omega), getElem?_append_right (by omega), getElem?_drop]
        congr 1
        omega
  next => cases stored

-- A cell that still counts is not one of those after the last one written.
theorem mod_apart {n total i count : Nat} (positive : 0 < n) (before : i < total)
    (kept : total + count ≤ i + n) : ¬(total % n ≤ i % n ∧ i % n < total % n + count) := by
  have split_total := Nat.div_add_mod total n
  have split_i := Nat.div_add_mod i n
  have low := Nat.mod_lt total positive
  have high := Nat.mod_lt i positive
  generalize total % n = t at *
  generalize i % n = k at *
  rintro ⟨above, below⟩
  -- Either both are in one round, or i is one round behind.
  rcases Nat.lt_trichotomy (i / n) (total / n) with less | same | more
  · have next : n * (i / n) + n ≤ n * (total / n) := by
      rw [← Nat.mul_succ]
      exact Nat.mul_le_mul_left n less
    omega
  · rw [same] at split_i
    omega
  · have next : n * (total / n) + n ≤ n * (i / n) := by
      rw [← Nat.mul_succ]
      exact Nat.mul_le_mul_left n more
    omega

theorem Holds.write {buffer written bytes result : List A} (holds : Holds buffer written) (positive : 0 < buffer.length)
    (stored : Buffer.write buffer (written.length % buffer.length) bytes = some result) : Holds result (written ++ bytes) := by
  have length := length_write stored
  have room : written.length % buffer.length + bytes.length ≤ buffer.length := by
    unfold Buffer.write at stored
    split at stored
    next within => exact within
    next => cases stored
  intro i inside kept
  rw [length_append] at inside kept
  rw [length] at kept ⊢
  rw [getElem?_write _ _ stored]
  by_cases before : i < written.length
  · rw [if_neg (mod_apart positive before kept), getElem?_append_left before]
    exact holds i before (by omega)
  · obtain ⟨k, rfl⟩ := Nat.exists_eq_add_of_le (not_lt.mp before)
    have place : (written.length + k) % buffer.length = written.length % buffer.length + k := by
      rw [← Nat.mod_add_mod, Nat.mod_eq_of_lt (by omega)]
    rw [place, if_pos (by omega), getElem?_append_right (by omega)]
    congr 1
    omega

theorem Holds.read {buffer written : List A} (start length : Nat) (holds : Holds buffer written)
    (inside : start + length ≤ written.length) (kept : written.length ≤ start + buffer.length)
    (room : start % buffer.length + length ≤ buffer.length) :
    Buffer.read buffer (start % buffer.length) length = some ((written.drop start).take length) := by
  rw [Buffer.read, if_pos room]
  congr 1
  apply ext_getElem?
  intro k
  by_cases within : k < length
  · have place : (start + k) % buffer.length = start % buffer.length + k := by
      rw [← Nat.mod_add_mod, Nat.mod_eq_of_lt (by omega)]
    rw [getElem?_take_of_lt within, getElem?_take_of_lt within, getElem?_drop, getElem?_drop, ← place]
    exact holds (start + k) (by omega) (by omega)
  · rw [getElem?_take_eq_none (by omega), getElem?_take_eq_none (by omega)]

end RedisCore.Lib.Ring
