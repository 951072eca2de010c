import RedisCore.IntSet.Model

set_option autoImplicit false

namespace RedisCore.IntSet

open LittleEndian Packed List

variable {enc : Nat} {v : Int}

def Fits (enc : Nat) (v : Int) : Prop := -(2 ^ (8 * enc - 1) : Int) ≤ v ∧ v < 2 ^ (8 * enc - 1)

inductive Encoding : Nat → Prop where
  | int16 : Encoding 2
  | int32 : Encoding 4
  | int64 : Encoding 8

/-- The bytes of the set are its values in order, each in a cell that is wide enough, and their number fits the size variables. -/
structure Represents (is : Intset) (values : List Int) : Prop where
  encoding : Encoding is.encoding
  length : is.length = values.length
  contents : is.contents = pack (encodeInt is.encoding) values
  fits : ∀ v ∈ values, Fits is.encoding v
  room : values.length * is.encoding < 2 ^ 32

theorem Encoding.slotSize (encoding : Encoding enc) : slotSize enc = enc := by
  cases encoding <;> rfl

theorem Encoding.le_eight (encoding : Encoding enc) : enc ≤ 8 := by
  cases encoding <;> decide

theorem length_cells (enc : Nat) (values : List Int) : (pack (encodeInt enc) values).length = values.length * enc :=
  length_pack _ _ (length_encodeInt _)

theorem encoding_value (v : Int) : Encoding (intsetValueEncoding v) := by
  unfold intsetValueEncoding
  split
  · exact .int64
  · split
    · exact .int32
    · exact .int16

theorem Encoding.fits_iff (encoding : Encoding enc) (low : -2 ^ 63 ≤ v) (high : v < 2 ^ 63) :
    Fits enc v ↔ intsetValueEncoding v ≤ enc := by
  unfold intsetValueEncoding Fits intsetEncInt64 intsetEncInt32 intsetEncInt16
  cases encoding <;> norm_num <;> split_ifs <;> omega

theorem Fits.mono {enc' : Nat} (fits : Fits enc v) (le : enc ≤ enc') : Fits enc' v := by
  have power : (2 : Int) ^ (8 * enc - 1) ≤ 2 ^ (8 * enc' - 1) := by
    apply pow_le_pow_right₀ (by norm_num)
    omega
  exact ⟨by linarith [fits.1], by linarith [fits.2]⟩

theorem Encoding.decode (encoding : Encoding enc) (fits : Fits enc v) : decodeInt (encodeInt enc v) = v := by
  rw [decodeInt_encodeInt]
  unfold Fits at fits
  cases encoding <;> (norm_num at fits ⊢; exact Int.bmod_eq_of_le (by omega) (by omega))

section

variable {is : Intset} {values : List Int} (represents : Represents is values)

include represents

theorem Represents.few : values.length < 2 ^ 31 := by
  have room := represents.room
  have encoding := represents.encoding
  generalize is.encoding = enc at *
  cases encoding <;> omega

theorem Represents.at (front rest : List Int) (v : Int) (shape : values = front ++ v :: rest) : getAt is front.length = some v := by
  have found := read_cell (encodeInt is.encoding) (length_encodeInt _) front rest v []
  rw [append_nil, ← shape, ← represents.contents] at found
  rw [getAt, intsetGetEncoded, represents.encoding.slotSize, found, Option.map_some,
    represents.encoding.decode (represents.fits v (by rw [shape]; simp))]

theorem Represents.getElem (pos : Nat) (within : pos < values.length) : getAt is pos = some values[pos] := by
  have found := represents.at (values.take pos) (values.drop (pos + 1)) values[pos] (by simp)
  rwa [length_take_of_le (by omega)] at found

variable (sorted : values.Pairwise (· < ·)) (value : Int)

include sorted

-- The interval of candidates is lo to hi - 1; below it all values are smaller, from hi on all are greater.
theorem searchLoop_ok (fuel lo hi : Nat) (mid cur : Int) (ordered : lo ≤ hi) (within : hi ≤ values.length)
    (below : ∀ i (h : i < values.length), i < lo → values[i] < value) (above : ∀ i (h : i < values.length), hi ≤ i → value < values[i])
    (started : lo < hi ∨ cur ≠ value) (enough : hi - lo < fuel) :
    ∃ min mid' cur', searchLoop is value fuel lo ((hi : Int) - 1) mid cur = some (min, mid', cur') ∧
      (cur' = value ∧ (∃ h : mid'.toNat < values.length, values[mid'.toNat] = value) ∨
        cur' ≠ value ∧ min.toNat ≤ values.length ∧ (∀ i (h : i < values.length), i < min.toNat → values[i] < value) ∧
          ∀ i (h : i < values.length), min.toNat ≤ i → value < values[i]) := by
  have few := represents.few
  induction fuel generalizing lo hi mid cur with
  | zero => omega
  | succ fuel ih =>
    rw [searchLoop]
    by_cases some_left : lo < hi
    · have middle : ((lo : Int) % 2 ^ 32 + ((hi : Int) - 1) % 2 ^ 32) % 2 ^ 32 / 2 = ((lo + (hi - 1)) / 2 : Nat) := by omega
      have inside : (lo + (hi - 1)) / 2 < values.length := by omega
      have read := represents.getElem ((lo + (hi - 1)) / 2) inside
      have increasing := pairwise_iff_getElem.mp sorted
      rw [if_pos (by omega), middle]
      simp only [Int.toNat_natCast, read, some_bind]
      generalize at_m : (lo + (hi - 1)) / 2 = m at *
      by_cases smaller : values[m] < value
      · rw [if_pos smaller]
        refine ih (m + 1) hi m values[m] (by omega) within (fun i h less => ?_) above (.inr smaller.ne) (by omega)
        rcases Nat.lt_succ_iff_lt_or_eq.mp less with before | rfl
        · exact (increasing i m h inside before).trans smaller
        · exact smaller
      · rw [if_neg smaller]
        by_cases greater : value < values[m]
        · rw [if_pos greater]
          refine ih lo m m values[m] (by omega) (by omega) below (fun i h least => ?_) (.inr greater.ne') (by omega)
          rcases Nat.eq_or_lt_of_le least with rfl | behind
          · exact greater
          · exact greater.trans (increasing m i inside h behind)
        · rw [if_neg greater]
          exact ⟨lo, m, values[m], rfl, .inl ⟨by omega, by simpa using inside, by simp; omega⟩⟩
    · obtain rfl : lo = hi := by omega
      rw [if_neg (by omega)]
      refine ⟨lo, mid, cur, rfl, .inr ⟨started.resolve_left some_left, by simpa using within, ?_, ?_⟩⟩
      · simpa using below
      · simpa using above

omit represents sorted in
theorem split_at (k : Nat) (below : ∀ i (h : i < values.length), i < k → values[i] < value)
    (above : ∀ i (h : i < values.length), k ≤ i → value ≤ values[i]) :
    (∀ v ∈ values.take k, v < value) ∧ ∀ v ∈ values.drop k, value ≤ v := by
  constructor
  · intro v member
    obtain ⟨i, bound, rfl⟩ := mem_take_iff_getElem.mp member
    exact below i (by omega) (by omega)
  · intro v member
    obtain ⟨i, bound, rfl⟩ := mem_drop_iff_getElem.mp member
    exact above (k + i) (by omega) (by omega)

/-- The search finds the place where the values stop being smaller. -/
theorem intsetSearch_ok : ∃ front rest, values = front ++ rest ∧ (∀ v ∈ front, v < value) ∧ (∀ v ∈ rest, value ≤ v) ∧
    intsetSearch is value = some (decide (value ∈ values), front.length) := by
  have few := represents.few
  rw [intsetSearch, represents.length]
  cases values using List.reverseRecOn with
  | nil => exact ⟨[], [], rfl, by simp, by simp, by simp⟩
  | append_singleton init last =>
    have at_last := represents.at init [] last rfl
    obtain ⟨first, others, starts⟩ := exists_cons_of_ne_nil (append_ne_nil_of_right_ne_nil init (cons_ne_nil last []))
    have at_first := represents.at [] others first starts
    have smallest : ∀ v ∈ init ++ [last], first ≤ v := by
      rw [starts] at sorted ⊢
      exact forall_mem_cons.mpr ⟨le_rfl, fun v behind => ((pairwise_cons.mp sorted).1 v behind).le⟩
    have greatest : ∀ v ∈ init ++ [last], v ≤ last :=
      forall_mem_append.mpr ⟨fun v before => ((pairwise_append.mp sorted).2.2 v before last (by simp)).le, by simp⟩
    have pred : (init ++ [last]).length - 1 = init.length := by simp
    rw [if_neg (by simp), pred, at_last]
    simp only [some_bind]
    by_cases beyond : last < value
    · have absent : value ∉ init ++ [last] := fun member => absurd (greatest value member) (not_le_of_gt beyond)
      refine ⟨init ++ [last], [], by simp, fun v member => (greatest v member).trans_lt beyond, by simp, ?_⟩
      rw [if_pos beyond, decide_eq_false absent]
      rfl
    · rw [if_neg beyond, length_nil] at *
      rw [at_first]
      simp only [some_bind]
      by_cases before : value < first
      · have absent : value ∉ init ++ [last] := fun member => absurd (smallest value member) (not_le_of_gt before)
        refine ⟨[], init ++ [last], rfl, by simp, fun v member => before.le.trans (smallest v member), ?_⟩
        rw [if_pos before, decide_eq_false absent]
        rfl
      · rw [if_neg before]
        generalize init ++ [last] = values at *
        have max : ((values.length : Int) - 1).bmod (2 ^ 32) = (values.length : Int) - 1 := Int.bmod_eq_of_le (by omega) (by omega)
        obtain ⟨min, mid, cur, ran, outcome⟩ := searchLoop_ok represents sorted value (values.length + 1) 0 values.length (-1) (-1)
          (by omega) le_rfl (by omega) (by omega) (.inl (by rw [starts]; simp)) (by omega)
        rw [Nat.cast_zero] at ran
        rw [max, ran]
        rcases outcome with ⟨rfl, inside, found⟩ | ⟨differ, most, below, above⟩
        · have increasing := pairwise_iff_getElem.mp sorted
          have parts := @split_at values cur mid.toNat (fun i h less => found ▸ increasing i _ h inside less) fun i h least => by
            rcases Nat.eq_or_lt_of_le least with rfl | behind
            · exact found.ge
            · exact found ▸ (increasing _ i inside h behind).le
          have present : cur ∈ values := found ▸ getElem_mem inside
          refine ⟨_, _, (take_append_drop mid.toNat values).symm, parts.1, parts.2, ?_⟩
          simp [present, length_take_of_le inside.le]
        · have parts := @split_at values value min.toNat below fun i h least => (above i h least).le
          have absent : value ∉ values := by
            intro member
            obtain ⟨i, h, same⟩ := getElem_of_mem member
            rcases Nat.lt_or_ge i min.toNat with less | least
            · exact (below i h less).ne same
            · exact (above i h least).ne' same
          refine ⟨_, _, (take_append_drop min.toNat values).symm, parts.1, parts.2, ?_⟩
          simp [absent, differ.symm, length_take_of_le most]

end

end RedisCore.IntSet
