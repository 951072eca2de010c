import RedisCore.IntSet.Search

set_option autoImplicit false

namespace RedisCore.IntSet

open LittleEndian Packed List

section

variable {is : Intset} {values : List Int}

theorem intsetSet_ok (is : Intset) (encoding : Encoding is.encoding) (front old rest : Bytes) (pos : Nat) (value : Int)
    (contents : is.contents = front ++ (old ++ rest)) (at_front : pos * is.encoding = front.length) (same : old.length = is.encoding) :
    intsetSet is pos value = some { is with contents := front ++ (encodeInt is.encoding value ++ rest) } := by
  rw [intsetSet, encoding.slotSize, contents,
    Buffer.write_append front old (encodeInt is.encoding value) rest _ at_front (by rw [length_encodeInt, same]), Option.map_some]

/-- While the values are widened the first ones still have the old width, at the start of the bytes that are not yet rewritten. -/
structure Widening (curenc prepend : Nat) (values : List Int) (spare : Bytes) (k : Nat) (is : Intset) (front : Bytes) : Prop where
  contents : is.contents = front ++ (pack (encodeInt is.encoding) (values.drop k) ++ spare)
  length : front.length = (k + prepend) * is.encoding
  narrow : pack (encodeInt curenc) (values.take k) <+: front

theorem Widening.step {curenc prepend k : Nat} {spare front : Bytes} (narrow : Encoding curenc) (wide : Encoding is.encoding)
    (less : curenc ≤ is.encoding) (within : k < values.length) (fits : ∀ v ∈ values, Fits curenc v)
    (widening : Widening curenc prepend values spare (k + 1) is front) :
    ∃ is' front', intsetGetEncoded is k curenc = some values[k] ∧ intsetSet is (k + prepend) values[k] = some is' ∧
      is'.encoding = is.encoding ∧ is'.length = is.length ∧ Widening curenc prepend values spare k is' front' := by
  obtain ⟨behind, shape⟩ := widening.narrow
  have taken : values.take (k + 1) = values.take k ++ [values[k]] := take_succ_eq_append_getElem within
  have short : (values.take k).length = k := length_take_of_le within.le
  have read : intsetGetEncoded is k curenc = some values[k] := by
    have cell := read_cell (encodeInt curenc) (length_encodeInt _) (values.take k) [] values[k]
      (behind ++ (pack (encodeInt is.encoding) (values.drop (k + 1)) ++ spare))
    rw [← taken, ← append_assoc, shape, ← widening.contents, short] at cell
    rw [intsetGetEncoded, narrow.slotSize, cell, Option.map_some, narrow.decode (fits _ (getElem_mem within))]
  have length := widening.length
  rw [show k + 1 + prepend = k + prepend + 1 by omega, Nat.succ_mul] at length
  have written := intsetSet_ok _ wide (front.take ((k + prepend) * is.encoding)) (front.drop ((k + prepend) * is.encoding))
    (pack (encodeInt is.encoding) (values.drop (k + 1)) ++ spare) (k + prepend) values[k]
    (by rw [widening.contents, ← append_assoc (front.take _), take_append_drop]) (by rw [length_take_of_le (by omega)])
    (by rw [length_drop]; omega)
  refine ⟨_, front.take ((k + prepend) * is.encoding), read, written, rfl, rfl, ?_, ?_, ?_⟩
  · rw [drop_eq_getElem_cons within, pack_cons, append_assoc]
  · rw [length_take_of_le (by omega)]
  · -- The cell that was written begins behind the values that are still narrow.
    rw [taken, pack_append, append_assoc] at shape
    rw [prefix_take_iff, length_cells, short]
    refine ⟨⟨_, shape⟩, ?_⟩
    exact Nat.mul_le_mul (Nat.le_add_right k prepend) less

theorem upgradeLoop_ok {curenc prepend : Nat} {spare : Bytes} (narrow : Encoding curenc) (fits : ∀ v ∈ values, Fits curenc v) {k : Nat}
    (is : Intset) (front : Bytes) (wide : Encoding is.encoding) (less : curenc ≤ is.encoding) (within : k ≤ values.length)
    (widening : Widening curenc prepend values spare k is front) :
    ∃ is' front', upgradeLoop curenc prepend k is = some is' ∧ is'.encoding = is.encoding ∧ is'.length = is.length ∧
      Widening curenc prepend values spare 0 is' front' := by
  induction k generalizing is front with
  | zero => exact ⟨is, front, rfl, rfl, rfl, widening⟩
  | succ k ih =>
    obtain ⟨is₁, front₁, read, written, encoding, length, widening₁⟩ := widening.step narrow wide less within fits
    obtain ⟨is', front', ran, encoding', length', widening'⟩ := ih is₁ front₁ (encoding ▸ wide) (encoding ▸ less) (by omega) widening₁
    refine ⟨is', front', ?_, encoding'.trans encoding, length'.trans length, widening'⟩
    simp only [upgradeLoop, read, written, some_bind, ran]

theorem intsetResize_grow (is : Intset) (len : Nat) (room : len * is.encoding < 2 ^ 32) (larger : is.contents.length ≤ len * is.encoding) :
    ∃ spare : Bytes, spare.length = len * is.encoding - is.contents.length ∧
      intsetResize is len = { is with contents := is.contents ++ spare } := by
  refine ⟨List.replicate (len * is.encoding - is.contents.length) 0, length_replicate, ?_⟩
  rw [intsetResize, Nat.mod_eq_of_lt room, ← Buffer.realloc_grow, Nat.add_sub_cancel' larger]

/-- A value that needs a wider encoding is outside of the range of the narrower ones. -/
theorem outside_narrow {curenc : Nat} (narrow : Encoding curenc) {value : Int} (low : -2 ^ 63 ≤ value) (high : value < 2 ^ 63)
    (wider : curenc < intsetValueEncoding value) {v : Int} (fits : Fits curenc v) : if value < 0 then value < v else v < value := by
  have misses := mt (narrow.fits_iff low high).mp (not_le_of_gt wider)
  unfold Fits at fits misses
  have positive : (0 : Int) < 2 ^ (8 * curenc - 1) := by positivity
  split_ifs <;> omega

theorem intsetUpgradeAndAdd_ok (represents : Represents is values) {value : Int} (low : -2 ^ 63 ≤ value) (high : value < 2 ^ 63)
    (wider : is.encoding < intsetValueEncoding value) (room : (values.length + 1) * intsetValueEncoding value < 2 ^ 32) :
    ∃ is', intsetUpgradeAndAdd is value = some is' ∧
      Represents is' (if value < 0 then value :: values else values ++ [value]) := by
  obtain ⟨enc, len, contents⟩ := is
  obtain ⟨encoding, length, bytes, fits, _⟩ := represents
  simp only at encoding length bytes fits wider
  subst length bytes
  have wide := encoding_value value
  have value_fits := (wide.fits_iff low high).mpr le_rfl
  have still_fit : ∀ v ∈ values, Fits (intsetValueEncoding value) v := fun v member => (fits v member).mono wider.le
  have size := length_cells enc values
  rw [intsetUpgradeAndAdd]
  generalize intsetValueEncoding value = newenc at *
  obtain ⟨extra, extra_length, resized⟩ := intsetResize_grow ⟨newenc, values.length, pack (encodeInt enc) values⟩ (values.length + 1) room
    (by rw [size]; exact Nat.mul_le_mul (Nat.le_succ _) wider.le)
  have total : (pack (encodeInt enc) values ++ extra).length = (values.length + 1) * newenc := by
    have narrower : values.length * enc ≤ (values.length + 1) * newenc := Nat.mul_le_mul (Nat.le_succ _) wider.le
    simp only [size] at extra_length
    rw [length_append, extra_length, size, Nat.add_sub_cancel' narrower]
  have widened (prepend : Nat) (one : prepend ≤ 1) : ∃ is' front spare,
      upgradeLoop enc prepend values.length ⟨newenc, values.length, pack (encodeInt enc) values ++ extra⟩ = some is' ∧
        is'.encoding = newenc ∧ is'.length = values.length ∧ is'.contents = front ++ (pack (encodeInt newenc) values ++ spare) ∧
        front.length = prepend * newenc ∧ spare.length = (1 - prepend) * newenc := by
    have narrower : values.length * enc ≤ (values.length + prepend) * newenc := Nat.mul_le_mul (Nat.le_add_right _ _) wider.le
    have most : (values.length + prepend) * newenc ≤ (values.length + 1) * newenc := Nat.mul_le_mul_right _ (by omega)
    have start : Widening enc prepend values ((pack (encodeInt enc) values ++ extra).drop ((values.length + prepend) * newenc))
        values.length ⟨newenc, values.length, pack (encodeInt enc) values ++ extra⟩
        ((pack (encodeInt enc) values ++ extra).take ((values.length + prepend) * newenc)) := by
      constructor
      · rw [drop_length, pack_nil, nil_append, take_append_drop]
      · rw [length_take_of_le (total ▸ most)]
      · rw [take_length, prefix_take_iff, size]
        exact ⟨prefix_append _ _, narrower⟩
    obtain ⟨is', front, ran, encoding', length', widening⟩ := upgradeLoop_ok encoding fits _ _ wide wider.le le_rfl start
    simp only at encoding' length'
    have contents' := widening.contents
    have front_length := widening.length
    rw [encoding', drop_zero] at contents'
    rw [encoding', Nat.zero_add] at front_length
    refine ⟨is', front, _, ran, encoding', length', contents', front_length, ?_⟩
    rw [length_drop, total, ← Nat.sub_mul]
    congr 1
    omega
  simp only [resized]
  by_cases negative : value < 0
  · obtain ⟨is', front, spare, ran, rfl, length', contents', front_length, spare_length⟩ := widened 1 le_rfl
    obtain rfl : spare = [] := length_eq_zero_iff.mp (by rw [spare_length]; simp)
    have written := intsetSet_ok _ wide [] front _ 0 value contents' (by simp) (by rw [front_length, Nat.one_mul])
    refine ⟨{ is' with length := values.length + 1, contents := pack (encodeInt is'.encoding) (value :: values) }, ?_, ?_⟩
    · simp [negative, ran, written, length']
    · rw [if_pos negative]
      refine ⟨wide, rfl, rfl, ?_, room⟩
      exact forall_mem_cons.mpr ⟨value_fits, still_fit⟩
  · obtain ⟨is', front, spare, ran, rfl, length', contents', front_length, spare_length⟩ := widened 0 (Nat.zero_le 1)
    obtain rfl : front = [] := length_eq_zero_iff.mp (by rw [front_length]; simp)
    rw [nil_append, ← append_nil spare] at contents'
    have written := intsetSet_ok _ wide (pack (encodeInt is'.encoding) values) spare [] is'.length value contents'
      (by rw [length_cells, length']) (by rw [spare_length]; simp)
    rw [length'] at written
    refine ⟨{ is' with length := values.length + 1, contents := pack (encodeInt is'.encoding) (values ++ [value]) }, ?_, ?_⟩
    · simp [negative, ran, written, length']
    · rw [if_neg negative]
      refine ⟨wide, by simp, rfl, ?_, by simpa using room⟩
      exact forall_mem_append.mpr ⟨still_fit, forall_mem_singleton.mpr value_fits⟩

theorem moveTail_up (is : Intset) (encoding : Encoding is.encoding) (front rest : List Int) (spare : Bytes) (few : rest.length * is.encoding < 2 ^ 32)
    (contents : is.contents = pack (encodeInt is.encoding) (front ++ rest) ++ spare) (length : is.length = front.length + rest.length)
    (one : spare.length = is.encoding) : ∃ gap : Bytes, gap.length = is.encoding ∧ intsetMoveTail is front.length (front.length + 1) =
      some { is with contents := pack (encodeInt is.encoding) front ++ (gap ++ pack (encodeInt is.encoding) rest) } := by
  obtain ⟨gap, gap_length, moved⟩ := move_up (pack (encodeInt is.encoding) front) (pack (encodeInt is.encoding) rest) spare
  rw [length_cells, length_cells, one, ← Nat.succ_mul] at moved
  refine ⟨gap, gap_length.trans one, ?_⟩
  rw [intsetMoveTail, encoding.slotSize, length, Nat.add_sub_cancel_left, Nat.mod_eq_of_lt few, contents, pack_append, append_assoc,
    moved, Option.map_some]

theorem moveTail_down {is : Intset} (encoding : Encoding is.encoding) {front rest : List Int} (v : Int) (few : rest.length * is.encoding < 2 ^ 32)
    (contents : is.contents = pack (encodeInt is.encoding) (front ++ v :: rest)) (length : is.length = front.length + 1 + rest.length) :
    ∃ left : Bytes, left.length = is.encoding ∧ intsetMoveTail is (front.length + 1) front.length =
      some { is with contents := pack (encodeInt is.encoding) (front ++ rest) ++ left } := by
  obtain ⟨left, left_length, moved⟩ := move_down (pack (encodeInt is.encoding) front) (encodeInt is.encoding v)
    (pack (encodeInt is.encoding) rest)
  rw [length_cells, length_cells, length_encodeInt, ← Nat.succ_mul] at moved
  refine ⟨left, left_length.trans (length_encodeInt _ v), ?_⟩
  rw [intsetMoveTail, encoding.slotSize, length, Nat.add_sub_cancel_left, Nat.mod_eq_of_lt few, contents, pack_append, pack_cons, moved,
    Option.map_some, pack_append, append_assoc]

/-- An absent value is stored between the smaller and the greater ones. -/
theorem add_between (represents : Represents is values) {front rest : List Int} (shape : values = front ++ rest) {value : Int}
    (fits : Fits is.encoding value) (room : (values.length + 1) * is.encoding < 2 ^ 32) :
    ∃ is₁ is₂, (if front.length < is.length then intsetMoveTail (intsetResize is (is.length + 1)) front.length (front.length + 1)
        else some (intsetResize is (is.length + 1))) = some is₁ ∧
      intsetSet is₁ front.length value = some is₂ ∧
      Represents { is₂ with length := is₂.length + 1 } (front ++ value :: rest) := by
  have encoding := represents.encoding
  have length := represents.length
  have contents := represents.contents
  have stored : ∀ v ∈ front ++ value :: rest, Fits is.encoding v := by
    have old := represents.fits
    rw [shape, forall_mem_append] at old
    exact forall_mem_append.mpr ⟨old.1, forall_mem_cons.mpr ⟨fits, old.2⟩⟩
  obtain ⟨spare, spare_length, resized⟩ := intsetResize_grow is (is.length + 1) (by rw [length]; exact room)
    (by rw [contents, length_cells, length]; exact Nat.mul_le_mul_right _ (Nat.le_succ _))
  rw [contents, length_cells, length, Nat.succ_mul, Nat.add_sub_cancel_left] at spare_length
  rw [resized]
  have total : values.length = front.length + rest.length := by rw [shape, length_append]
  have room' : (front ++ value :: rest).length * is.encoding < 2 ^ 32 := by
    rw [length_append, length_cons, ← Nat.add_assoc, ← total]
    exact room
  have few : rest.length * is.encoding < 2 ^ 32 := lt_of_le_of_lt (Nat.mul_le_mul_right _ (by omega)) represents.room
  by_cases inside : front.length < is.length
  · obtain ⟨gap, gap_length, moved⟩ := moveTail_up { is with contents := is.contents ++ spare } encoding front rest spare few
      (by rw [contents, shape]) (length.trans total) spare_length
    rw [if_pos inside]
    have written := intsetSet_ok { is with contents := pack (encodeInt is.encoding) front ++ (gap ++ pack (encodeInt is.encoding) rest) }
      encoding _ gap _ front.length value rfl (length_cells _ front).symm gap_length
    refine ⟨_, _, moved, written, encoding, ?_, ?_, stored, room'⟩
    · simp [length, total]
      omega
    · rw [pack_append, pack_cons]
  · obtain rfl : rest = [] := length_eq_zero_iff.mp (by omega)
    rw [if_neg inside]
    have written := intsetSet_ok { is with contents := is.contents ++ spare } encoding (pack (encodeInt is.encoding) front) spare []
      front.length value (by rw [contents, shape, append_nil, append_nil]) (length_cells _ front).symm spare_length
    refine ⟨_, _, rfl, written, encoding, ?_, ?_, stored, room'⟩
    · simp [length, total]
    · rw [pack_append, pack_cons, pack_nil]

/-- The values behind a removed one take its place. -/
theorem remove_between (represents : Represents is values) {front rest : List Int} {v : Int} (shape : values = front ++ v :: rest) :
    ∃ is₁, (if front.length < is.length - 1 then intsetMoveTail is (front.length + 1) front.length else some is) = some is₁ ∧
      Represents { intsetResize is₁ (is.length - 1) with length := is.length - 1 } (front ++ rest) := by
  have encoding := represents.encoding
  have contents := represents.contents
  have total : is.length = front.length + 1 + rest.length := by
    rw [represents.length, shape, length_append, length_cons]
    omega
  have left : (front ++ rest).length = is.length - 1 := by
    rw [length_append]
    omega
  have smaller : (front ++ rest).length * is.encoding < 2 ^ 32 :=
    lt_of_le_of_lt (Nat.mul_le_mul_right _ (by rw [left, ← represents.length]; omega)) represents.room
  have few : rest.length * is.encoding < 2 ^ 32 := lt_of_le_of_lt (Nat.mul_le_mul_right _ (by simp)) smaller
  have shrunk (behind : Bytes) : Represents { intsetResize { is with contents := pack (encodeInt is.encoding) (front ++ rest) ++ behind }
      (is.length - 1) with length := is.length - 1 } (front ++ rest) := by
    refine ⟨encoding, left.symm, ?_, fun w member => represents.fits w ?_, smaller⟩
    · rw [← left, intsetResize]
      simp only
      rw [Nat.mod_eq_of_lt smaller, ← length_cells, Buffer.realloc_shrink]
    · rw [shape]
      exact ((List.Sublist.refl front).append (sublist_cons_self v rest)).subset member
  by_cases inside : front.length < is.length - 1
  · obtain ⟨behind, _, moved⟩ := moveTail_down encoding v few (by rw [contents, shape]) total
    rw [if_pos inside]
    exact ⟨_, moved, shrunk behind⟩
  · obtain rfl : rest = [] := length_eq_zero_iff.mp (by omega)
    rw [if_neg inside]
    refine ⟨is, rfl, ?_⟩
    have last := shrunk (encodeInt is.encoding v)
    rw [append_nil] at last ⊢
    have same : { is with contents := pack (encodeInt is.encoding) front ++ encodeInt is.encoding v } = is := by
      rw [shape, pack_append, pack_cons, pack_nil, append_nil] at contents
      rw [← contents]
    rwa [same] at last

end

end RedisCore.IntSet
