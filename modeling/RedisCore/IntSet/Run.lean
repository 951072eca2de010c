import RedisCore.IntSet.Ops

set_option autoImplicit false

namespace RedisCore.IntSet

open LittleEndian Packed Lib Simulation List

section

variable {is : Intset} {set : SortedSet Int} (represents : Represents is set.items) {value : Int} (low : -2 ^ 63 ≤ value)
  (high : value < 2 ^ 63)

include represents low high

theorem absent_of_wider (wider : is.encoding < intsetValueEncoding value) : value ∉ set := by
  intro member
  have outside := outside_narrow represents.encoding low high wider (represents.fits value member)
  split_ifs at outside <;> exact lt_irrefl value outside

theorem intsetAdd_ok (room : value ∈ set ∨ (set.items.length + 1) * max is.encoding (intsetValueEncoding value) < 2 ^ 32) :
    ∃ is', intsetAdd is value = some (is', decide (value ∉ set)) ∧ Represents is' (set.insert value).items := by
  rw [intsetAdd]
  by_cases wider : is.encoding < intsetValueEncoding value
  · have absent := absent_of_wider represents low high wider
    have fits := room.resolve_left absent
    rw [max_eq_right wider.le] at fits
    obtain ⟨is', upgraded, represents'⟩ := intsetUpgradeAndAdd_ok represents low high wider fits
    have outside := fun v member => outside_narrow represents.encoding low high wider (represents.fits v member)
    refine ⟨is', by simp [wider, upgraded, absent], ?_⟩
    split_ifs at represents' outside
    · rw [set.items_insert [] set.items rfl (by simp) (fun v member => (outside v member).le) absent]
      exact represents'
    · rw [set.items_insert set.items [] (by simp) outside (by simp) absent]
      exact represents'
  · rw [if_neg wider]
    obtain ⟨front, rest, shape, below, above, searched⟩ := intsetSearch_ok represents set.increasing value
    by_cases present : value ∈ set
    · have inside : value ∈ set.items := present
      refine ⟨is, by simp [searched, inside, present], ?_⟩
      rw [SortedSet.insert, dif_pos inside]
      exact represents
    · have outside : value ∉ set.items := present
      have fits := room.resolve_left present
      rw [max_eq_left (not_lt.mp wider)] at fits
      obtain ⟨is₁, is₂, moved, written, represents'⟩ := add_between represents shape
        ((represents.encoding.fits_iff low high).mpr (not_lt.mp wider)) fits
      rw [set.items_insert front rest shape below above present]
      refine ⟨_, ?_, represents'⟩
      have length : (intsetResize is (is.length + 1)).length = is.length := rfl
      split_ifs at moved with inside
      · simp [searched, outside, present, length, inside, moved, written]
      · cases moved
        simp [searched, outside, present, length, inside, written]

theorem intsetRemove_ok : ∃ is', intsetRemove is value = some (is', decide (value ∈ set)) ∧ Represents is' (set.erase value).items := by
  rw [intsetRemove]
  by_cases narrow : intsetValueEncoding value ≤ is.encoding
  · obtain ⟨front, rest, shape, below, above, searched⟩ := intsetSearch_ok represents set.increasing value
    by_cases present : value ∈ set
    · obtain ⟨others, rfl⟩ : ∃ others, rest = value :: others := by
        have inside : value ∈ set.items := present
        have increasing := set.increasing
        rw [shape] at inside increasing
        have behind := (mem_append.mp inside).resolve_left fun before => lt_irrefl value (below value before)
        obtain _ | ⟨v, others⟩ := rest
        · cases behind
        · have smaller := (pairwise_cons.mp (pairwise_append.mp increasing).2.1).1 value
          have first := (mem_cons.mp behind).resolve_right fun later => not_lt_of_ge (above v mem_cons_self) (smaller later)
          exact ⟨others, by rw [first]⟩
      obtain ⟨is₁, moved, represents'⟩ := remove_between represents shape
      have inside : value ∈ set.items := present
      rw [set.items_erase shape below]
      refine ⟨_, ?_, represents'⟩
      split_ifs at moved with middle
      · simp [narrow, searched, inside, present, middle, moved]
      · cases moved
        simp [narrow, searched, inside, present, middle]
    · have outside : value ∉ set.items := present
      refine ⟨is, by simp [narrow, searched, outside, present], ?_⟩
      rw [set.erase_of_notMem present]
      exact represents
  · have absent := absent_of_wider represents low high (not_le.mp narrow)
    refine ⟨is, by simp [narrow, absent], ?_⟩
    rw [set.erase_of_notMem absent]
    exact represents

theorem intsetFind_ok : intsetFind is value = some (decide (value ∈ set)) := by
  rw [intsetFind]
  by_cases narrow : intsetValueEncoding value ≤ is.encoding
  · obtain ⟨_, _, _, _, _, searched⟩ := intsetSearch_ok represents set.increasing value
    rw [if_pos narrow, searched]
    rfl
  · rw [if_neg narrow, decide_eq_false (absent_of_wider represents low high (not_le.mp narrow))]

end

theorem Represents.intsetGet {is : Intset} {values : List Int} (represents : Represents is values) (pos : Nat) :
    intsetGet is pos = some values[pos]? := by
  rw [IntSet.intsetGet, represents.length]
  by_cases within : pos < values.length
  · rw [if_pos within, represents.getElem pos within, getElem?_eq_getElem within]
    rfl
  · rw [if_neg within, getElem?_eq_none (not_lt.mp within)]

/-- The set that the bytes are supposed to be. -/
structure Exact (is : Intset) (set : SortedSet Int) : Prop where
  increasing : ∀ i j, i < j → j < is.length → ∃ a b, getAt is i = some a ∧ getAt is j = some b ∧ a < b
  encoding : ∀ v ∈ set, intsetValueEncoding v ≤ is.encoding
  found : ∀ v : Int64, intsetFind is v.toInt = some (decide (v.toInt ∈ set))
  listed : ∀ pos, IntSet.intsetGet is pos = some set.items[pos]?
  length : intsetLen is = set.size
  bytes : is.contents.length = is.length * is.encoding
  blob : intsetBlobLen is = 8 + is.contents.length

theorem Represents.exact {is : Intset} {set : SortedSet Int} (represents : Represents is set.items) : Exact is set where
  increasing := by
    intro i j less within
    rw [represents.length] at within
    exact ⟨_, _, represents.getElem i (by omega), represents.getElem j within,
      pairwise_iff_getElem.mp set.increasing i j (by omega) within less⟩
  encoding := by
    intro v member
    have fits := represents.fits v member
    have in_range : Fits 8 v := fits.mono represents.encoding.le_eight
    exact (represents.encoding.fits_iff in_range.1 in_range.2).mp fits
  found := fun v => intsetFind_ok represents v.le_toInt v.toInt_lt
  listed := represents.intsetGet
  length := represents.length
  bytes := by rw [represents.contents, length_cells, represents.length]
  blob := by
    rw [intsetBlobLen, represents.contents, length_cells, represents.length, Nat.mod_eq_of_lt represents.room]

-- The bytes of the enlarged set can be counted in a uint32_t.
def roomy (is : Intset) : Op → Bool
  | .add value => decide (intsetFind is value.toInt = some true) ||
      decide ((is.length + 1) * max is.encoding (intsetValueEncoding value.toInt) < 2 ^ 32)
  | .remove _ => true

theorem step_ok {is : Intset} {set : SortedSet Int} {op : Op} (represents : Represents is set.items) (room : roomy is op = true) :
    ∃ is', step is op = .ok (is', (specStep set op).2) ∧ Represents is' (specStep set op).1.items := by
  cases op with
  | add value =>
    simp only [roomy, Bool.or_eq_true, decide_eq_true_eq, intsetFind_ok represents value.le_toInt value.toInt_lt,
      Option.some.injEq, represents.length] at room
    obtain ⟨is', added, represents'⟩ := intsetAdd_ok represents value.le_toInt value.toInt_lt room
    exact ⟨is', by rw [step, added]; rfl, represents'⟩
  | remove value =>
    obtain ⟨is', removed, represents'⟩ := intsetRemove_ok represents value.le_toInt value.toInt_lt
    exact ⟨is', by rw [step, removed]; rfl, represents'⟩

theorem represents_new : Represents intsetNew (SortedSet.empty : SortedSet Int).items :=
  ⟨.int16, rfl, rfl, by simp [SortedSet.empty], by simp [SortedSet.empty]⟩

theorem intset_is_sorted_set (ops : List Op) (room : Guarded step roomy (fun _ => true) ops intsetNew = true) :
    ∃ is, runOut step ops intsetNew = .ok (is, (specOut specStep ops SortedSet.empty).2) ∧
      Exact is (specOut specStep ops SortedSet.empty).1 := by
  obtain ⟨is, ran, represents, _⟩ := runOut_guarded step specStep (fun is set => Represents is set.items) roomy (fun _ => true)
    (fun is set op related _ before => step_ok related before) ops intsetNew SortedSet.empty represents_new rfl room
  exact ⟨is, ran, represents.exact⟩

def fewOps : List Op := [.add 5, .add (-40000), .add 5, .add 9000000000, .remove 5, .remove 6]

theorem intset_few_ops : ∃ is, runOut step fewOps intsetNew = .ok (is, [true, true, false, true, true, false]) ∧
    Exact is (specOut specStep fewOps SortedSet.empty).1 := by
  have expected : (specOut specStep fewOps SortedSet.empty).2 = [true, true, false, true, true, false] := by decide +kernel
  obtain ⟨is, ran, exact_set⟩ := intset_is_sorted_set fewOps (by decide +kernel)
  exact ⟨is, expected ▸ ran, exact_set⟩

def wideAdds (n : Nat) : List Op := (List.range n).map fun k : Nat => .add (Int64.ofInt (2 ^ 32 + (k : Int)))

theorem wideAdds_run (n : Nat) (few : n < 2 ^ 29) : ∃ is outs, ∃ set : SortedSet Int,
    runOut step (wideAdds n) intsetNew = .ok (is, outs) ∧ Represents is set.items ∧ set.items.length = n ∧
      ∀ v, v ∈ set ↔ ∃ k < n, v = 2 ^ 32 + (k : Int) := by
  induction n with
  | zero => exact ⟨intsetNew, [], .empty, rfl, represents_new, rfl, by simp⟩
  | succ n ih =>
    obtain ⟨is, outs, set, ran, represents, size, members⟩ := ih (by omega)
    have value : (Int64.ofInt (2 ^ 32 + (n : Int))).toInt = 2 ^ 32 + n := Int64.toInt_ofInt_of_le (by omega) (by omega)
    have absent : (2 ^ 32 + (n : Int)) ∉ set := by
      rw [members]
      rintro ⟨k, less, same⟩
      omega
    have room : roomy is (.add (Int64.ofInt (2 ^ 32 + n))) = true := by
      have most : max is.encoding (intsetValueEncoding (Int64.ofInt (2 ^ 32 + (n : Int))).toInt) ≤ 8 :=
        max_le represents.encoding.le_eight (encoding_value _).le_eight
      rw [roomy, Bool.or_eq_true, decide_eq_true_eq, decide_eq_true_eq, represents.length, size]
      exact .inr (lt_of_le_of_lt (Nat.mul_le_mul_left _ most) (by omega))
    obtain ⟨is', added, represents'⟩ := step_ok represents room
    have listed : wideAdds (n + 1) = wideAdds n ++ [.add (Int64.ofInt (2 ^ 32 + n))] := by
      rw [wideAdds, wideAdds, range_succ, map_append]
      rfl
    refine ⟨is', _, _, by rw [listed]; exact runOut_concat ran added, represents', ?_, ?_⟩
    · rw [specStep, value]
      exact (set.size_insert absent).trans (congrArg (· + 1) size)
    · intro v
      rw [specStep, value, SortedSet.mem_insert, members]
      constructor
      · rintro (rfl | ⟨k, less, same⟩)
        · exact ⟨n, by omega, rfl⟩
        · exact ⟨k, by omega, same⟩
      · rintro ⟨k, less, same⟩
        rcases Nat.lt_succ_iff_lt_or_eq.mp less with before | rfl
        · exact .inr ⟨k, before, same⟩
        · exact .inl same

-- With 2^29 values of eight bytes the size passed to zrealloc wraps to zero.
theorem resize_wraps : ∃ ops : List Op, ops.length = 2 ^ 29 ∧ runOut step ops intsetNew = .error () := by
  obtain ⟨n, last⟩ : ∃ n, n + 1 = 2 ^ 29 := ⟨2 ^ 29 - 1, by norm_num⟩
  obtain ⟨is, outs, set, ran, represents, size, members⟩ := wideAdds_run n (by omega)
  refine ⟨wideAdds n ++ [.add (Int64.ofInt (2 ^ 32 + (n : Int)))], by simp [wideAdds, last], runOut_concat_error ran ?_⟩
  have value : (Int64.ofInt (2 ^ 32 + (n : Int))).toInt = 2 ^ 32 + n := Int64.toInt_ofInt_of_le (by omega) (by omega)
  have needed : ∀ m : Int, 2 ^ 32 ≤ m → intsetValueEncoding m = 8 := by
    intro m large
    rw [intsetValueEncoding, if_pos (by omega)]
    rfl
  have eight : is.encoding = 8 := by
    have stored := represents.exact.encoding (2 ^ 32) ((members _).mpr ⟨0, by omega, by simp⟩)
    rw [needed _ le_rfl] at stored
    exact le_antisymm represents.encoding.le_eight stored
  have greater : ∀ v ∈ set.items, v < 2 ^ 32 + (n : Int) := by
    intro v member
    obtain ⟨k, less, rfl⟩ := (members v).mp member
    omega
  have searched : intsetSearch is (2 ^ 32 + n) = some (false, n) := by
    obtain ⟨front, rest, shape, _, above, searched⟩ := intsetSearch_ok represents set.increasing (2 ^ 32 + n)
    have absent : (2 ^ 32 + (n : Int)) ∉ set.items := fun member => lt_irrefl _ (greater _ member)
    obtain rfl : rest = [] := eq_nil_iff_forall_not_mem.mpr fun v member =>
      absurd (greater v (by rw [shape]; simp [member])) (not_lt_of_ge (above v member))
    rw [searched, decide_eq_false absent, ← size, shape, append_nil]
  have wrapped : intsetResize is (n + 1) = { is with contents := [] } := by
    rw [intsetResize, last, eight]
    simp [Buffer.realloc]
  have outside : intsetSet { is with contents := [] } n (2 ^ 32 + n) = none := by
    rw [intsetSet, represents.encoding.slotSize, Buffer.write, if_neg (by simp [eight]), Option.map_none]
  have length : is.length = n := represents.length.trans size
  have needs := needed (2 ^ 32 + n) (by omega)
  rw [eight, length] at outside
  rw [step, value]
  generalize 2 ^ 32 + (n : Int) = added at *
  simp [intsetAdd, needs, eight, searched, wrapped, length, outside]

end RedisCore.IntSet
