import RedisCore.Dict.Refinement
import RedisCore.Lib.ReverseBits

set_option autoImplicit false

namespace RedisCore.HashTable

open ReverseBits Buckets List

def revLoop : (rounds s : Nat) → (mask v : BitVec 64) → BitVec 64
  | 0, _, _, v => v
  | rounds + 1, s, mask, v =>
    let s := s >>> 1
    if 0 < s then
      let mask := mask ^^^ (mask <<< s)
      revLoop rounds s mask (((v >>> s) &&& mask) ||| ((v <<< s) &&& ~~~mask))
    else v

-- s runs through 32, 16, 8, 4, 2, 1 and stops at 0.
def rev (v : BitVec 64) : BitVec 64 := revLoop 7 64 (~~~0) v

def increment (mask v : BitVec 64) : BitVec 64 := rev (rev (v ||| ~~~mask) + 1)

section

variable {K V : Type}

-- The fuel is the size of the larger table, whose buckets the loop visits at most once.
def scanLoop (t1 : Dictht K V) (m0 m1 : BitVec 64) :
    (fuel : Nat) → (v : BitVec 64) → Except Stop (List (DictEntry K V) × BitVec 64)
  | 0, _ => .error .fault
  | fuel + 1, v => do
    let here ← t1.bucket (t1.index v)
    let v := increment m1 v
    if v &&& (m0 ^^^ m1) ≠ 0 then
      let (rest, v) ← scanLoop t1 m0 m1 fuel v
      pure (here ++ rest, v)
    else pure (here, v)

def scanBoth (t0 t1 : Dictht K V) (v : BitVec 64) : Except Stop (List (DictEntry K V) × BitVec 64) := do
  let here ← t0.bucket (t0.index v)
  let (rest, v) ← scanLoop t1 t0.sizemask t1.sizemask t1.size v
  pure (here ++ rest, v)

-- Returns the entries passed to fn, in order, and the next cursor; bucketfn is NULL.
def dictScan (d : Dict K V) (v : BitVec 64) : Except Stop (List (DictEntry K V) × BitVec 64) :=
  if d.ht0.used + d.ht1.used = 0 then .ok ([], 0)
  else if !dictIsRehashing d then do
    let here ← d.ht0.bucket (d.ht0.index v)
    pure (here, increment d.ht0.sizemask v)
  else if d.ht1.size < d.ht0.size then scanBoth d.ht1 d.ht0 v
  else scanBoth d.ht0 d.ht1 v

end

def swapBits (s : Nat) (mask v : BitVec 64) : BitVec 64 := ((v >>> s) &&& mask) ||| ((v <<< s) &&& ~~~mask)

def swapSource (s : Nat) (mask : BitVec 64) (i : Nat) : Nat := if mask.getLsbD i then i + s else i - s

-- The swap moves every bit inside the word.
def Swaps (s : Nat) (mask : BitVec 64) : Prop :=
  ∀ i < 64, (mask.getLsbD i = false → s ≤ i) ∧ swapSource s mask i < 64

instance (s : Nat) (mask : BitVec 64) : Decidable (Swaps s mask) :=
  inferInstanceAs (Decidable (∀ i < 64, (mask.getLsbD i = false → s ≤ i) ∧ swapSource s mask i < 64))

theorem getLsbD_swapBits {s : Nat} (mask v : BitVec 64) {i : Nat} (swaps : Swaps s mask) (inside : i < 64) :
    (swapBits s mask v).getLsbD i = v.getLsbD (swapSource s mask i) := by
  rw [swapBits, swapSource, BitVec.getLsbD_or, BitVec.getLsbD_and, BitVec.getLsbD_and,
    BitVec.getLsbD_ushiftRight, BitVec.getLsbD_shiftLeft, BitVec.getLsbD_not, Nat.add_comm s i]
  cases bit : mask.getLsbD i with
  | true => simp
  | false => simp [inside, (swaps i inside).1 bit]

theorem rev_eq_swaps (v : BitVec 64) : rev v = swapBits 1 0x5555555555555555#64 (swapBits 2 0x3333333333333333#64
      (swapBits 4 0x0f0f0f0f0f0f0f0f#64 (swapBits 8 0x00ff00ff00ff00ff#64
        (swapBits 16 0x0000ffff0000ffff#64 (swapBits 32 0x00000000ffffffff#64 v))))) := rfl

theorem rev_eq_reverse (v : BitVec 64) : rev v = v.reverse := by
  have swaps1 : Swaps 1 0x5555555555555555#64 := by decide +kernel
  have swaps2 : Swaps 2 0x3333333333333333#64 := by decide +kernel
  have swaps4 : Swaps 4 0x0f0f0f0f0f0f0f0f#64 := by decide +kernel
  have swaps8 : Swaps 8 0x00ff00ff00ff00ff#64 := by decide +kernel
  have swaps16 : Swaps 16 0x0000ffff0000ffff#64 := by decide +kernel
  have swaps32 : Swaps 32 0x00000000ffffffff#64 := by decide +kernel
  have total : ∀ i < 64, swapSource 32 0x00000000ffffffff#64 (swapSource 16 0x0000ffff0000ffff#64
      (swapSource 8 0x00ff00ff00ff00ff#64 (swapSource 4 0x0f0f0f0f0f0f0f0f#64
        (swapSource 2 0x3333333333333333#64 (swapSource 1 0x5555555555555555#64 i))))) = 63 - i := by
    decide +kernel
  refine BitVec.eq_of_getLsbD_eq fun i inside => ?_
  have in1 := (swaps1 i inside).2
  have in2 := (swaps2 _ in1).2
  have in4 := (swaps4 _ in2).2
  have in8 := (swaps8 _ in4).2
  have in16 := (swaps16 _ in8).2
  rw [rev_eq_swaps, getLsbD_swapBits _ _ swaps1 inside, getLsbD_swapBits _ _ swaps2 in1,
    getLsbD_swapBits _ _ swaps4 in2, getLsbD_swapBits _ _ swaps8 in4,
    getLsbD_swapBits _ _ swaps16 in8, getLsbD_swapBits _ _ swaps32 in16, total i inside,
    BitVec.getLsbD_reverse, BitVec.getMsbD_eq_getLsbD]
  simp [inside]

theorem increment_eq_advance (mask v : BitVec 64) : increment mask v = advance mask v := by
  rw [increment, rev_eq_reverse, rev_eq_reverse, advance]

variable {K V : Type} (type : DictType K)

theorem TableOk.bits {t : Dictht K V} (ok : TableOk type t) (allocated : t.size ≠ 0) :
    ∃ bits ≤ 60, t.size = 2 ^ bits ∧ t.sizemask = lowMask 64 bits := by
  rcases ok.size with empty | ⟨bits, _, small, size⟩
  · exact absurd empty allocated
  · exact ⟨bits, small, size, by rw [ok.sizemask, size, lowMask]⟩

theorem mem_bucket {t : Dictht K V} (ok : TableOk type t) {bits : Nat} (small : bits ≤ 60)
    (size : t.size = 2 ^ bits) {v : BitVec 64} {he : DictEntry K V} (member : he ∈ t.contents)
    (near : rank (type.hashFunction he.key) / 2 ^ (64 - bits) = rank v / 2 ^ (64 - bits)) :
    he ∈ t.table (t.index v) := by
  obtain ⟨i, inside, chained_at⟩ := (mem_chained _ _ _).mp member
  have home := ok.placed i inside he chained_at
  have same := rank_div_eq (by omega) near
  rw [index_eq_mod _ small size ok.sizemask, same,
    ← index_eq_mod v small size ok.sizemask] at home
  rw [home]
  exact chained_at

theorem block_of_between {r s block : Nat} (after : r ≤ s) (before : s < block * (r / block + 1)) :
    s / block = r / block := by
  have low := Nat.div_le_div_right (c := block) after
  have high : s / block < r / block + 1 := Nat.div_lt_of_lt_mul before
  omega

theorem rank_increment (v : BitVec 64) {high : Nat} (small : high ≤ 60) : rank (increment (lowMask 64 high) v) =
      2 ^ (64 - high) * (rank v / 2 ^ (64 - high) + 1) % 2 ^ 64 := by
  rw [increment_eq_advance, rank_advance v high (by omega) (by omega)]

theorem loop_goes_on {v : BitVec 64} {low high block : Nat} (le : low ≤ high) (small : high ≤ 60)
    (at_block : rank v = 2 ^ (64 - high) * block % 2 ^ 64) :
    v &&& (lowMask 64 low ^^^ lowMask 64 high) = 0 ↔ block % 2 ^ (high - low) = 0 := by
  have positive : 0 < 2 ^ (64 - high) := by positivity
  have split_low : 2 ^ (64 - low) = 2 ^ (64 - high) * 2 ^ (high - low) := by
    rw [← pow_add]
    congr 1
    omega
  have divides : 2 ^ (64 - low) ∣ 2 ^ 64 := pow_dvd_pow 2 (by omega)
  rw [and_xor_eq_zero v le (by omega), at_block, Nat.mod_mod_of_dvd _ divides, split_low,
    Nat.mul_mod_mul_left, Nat.mul_div_cancel_left _ positive]

-- The loop starts inside a block of the smaller table and stops at the next one.
theorem scanLoop_ok {t1 : Dictht K V} (ok : TableOk type t1) {low high fuel last : Nat} (v : BitVec 64)
    (le : low ≤ high) (small : high ≤ 60) (size : t1.size = 2 ^ high)
    (inside : rank v / 2 ^ (64 - high) < 2 ^ (high - low) * (last + 1))
    (base : 2 ^ (high - low) * last ≤ rank v / 2 ^ (64 - high)) (within : last + 1 ≤ 2 ^ low)
    (enough : 2 ^ (high - low) * (last + 1) ≤ rank v / 2 ^ (64 - high) + fuel) :
    ∃ emitted v', scanLoop t1 (lowMask 64 low) (lowMask 64 high) fuel v = .ok (emitted, v') ∧
      rank v' = 2 ^ (64 - low) * (last + 1) % 2 ^ 64 ∧
      ∀ he ∈ t1.contents, rank v ≤ rank (type.hashFunction he.key) →
        rank (type.hashFunction he.key) < 2 ^ (64 - low) * (last + 1) → he ∈ emitted := by
  have split_low : 2 ^ (64 - low) * (last + 1) = 2 ^ (64 - high) * (2 ^ (high - low) * (last + 1)) := by
    rw [← Nat.mul_assoc, ← pow_add]
    congr 2
    omega
  have allocated : t1.size ≠ 0 := by rw [size]; positivity
  have read := ok.bucket_eq type (ok.index_lt type v allocated)
  induction fuel generalizing v with
  | zero => omega
  | succ fuel ih =>
    let block := rank v / 2 ^ (64 - high)
    have stepped := rank_increment v small
    have goes_on := loop_goes_on le small stepped
    have here (he : DictEntry K V) (member : he ∈ t1.contents) (after : rank v ≤ rank (type.hashFunction he.key))
        (before : rank (type.hashFunction he.key) < 2 ^ (64 - high) * (block + 1)) :
        he ∈ t1.table (t1.index v) :=
      mem_bucket type ok small size member (block_of_between after before)
    simp only [scanLoop, read, ok_bind, pure_ok]
    by_cases reached : block + 1 = 2 ^ (high - low) * (last + 1)
    · have stops : increment (lowMask 64 high) v &&& (lowMask 64 low ^^^ lowMask 64 high) = 0 :=
        goes_on.mpr (by rw [reached, Nat.mul_mod_right])
      simp only [stops, ne_eq, not_true_eq_false, if_false]
      refine ⟨_, _, rfl, by rw [stepped, split_low]; exact congrArg (2 ^ (64 - high) * · % 2 ^ 64) reached, ?_⟩
      intro he member after before
      refine here he member after ?_
      rw [reached, ← split_low]
      exact before
    · have short : block + 1 < 2 ^ (high - low) * (last + 1) := by omega
      have goes : ¬increment (lowMask 64 high) v &&& (lowMask 64 low ^^^ lowMask 64 high) = 0 := by
        rw [goes_on]
        intro multiple
        have between := Nat.div_add_mod (block + 1) (2 ^ (high - low))
        rw [multiple, Nat.add_zero] at between
        have above : last < (block + 1) / 2 ^ (high - low) :=
          Nat.lt_of_mul_lt_mul_left (a := 2 ^ (high - low)) (by omega)
        have below : (block + 1) / 2 ^ (high - low) < last + 1 := Nat.div_lt_of_lt_mul short
        omega
      have bound : 2 ^ (64 - high) * (block + 1) < 2 ^ 64 := by
        have most : 2 ^ (high - low) * (last + 1) ≤ 2 ^ (high - low) * 2 ^ low := Nat.mul_le_mul_left _ within
        rw [← pow_add, show high - low + low = high by omega] at most
        calc 2 ^ (64 - high) * (block + 1) < 2 ^ (64 - high) * 2 ^ high :=
              Nat.mul_lt_mul_of_pos_left (by omega) (by positivity)
          _ = 2 ^ 64 := by rw [← pow_add]; congr 1; omega
      rw [Nat.mod_eq_of_lt bound] at stepped
      have next_block : rank (increment (lowMask 64 high) v) / 2 ^ (64 - high) = block + 1 := by
        rw [stepped, Nat.mul_div_cancel_left _ (by positivity)]
      obtain ⟨emitted, v', ran, final, covers⟩ := ih (increment (lowMask 64 high) v)
        (by rw [next_block]; exact short) (by rw [next_block]; omega) (by rw [next_block]; omega)
        (ok.bucket_eq type (ok.index_lt type _ allocated))
      simp only [ne_eq, goes, not_false_eq_true, if_true, ran]
      refine ⟨_, v', rfl, final, ?_⟩
      intro he member after before
      by_cases close : rank (type.hashFunction he.key) < 2 ^ (64 - high) * (block + 1)
      · exact List.mem_append.mpr (Or.inl (here he member after close))
      · exact List.mem_append.mpr (Or.inr (covers he member (by rw [stepped]; omega) before))

theorem block_le {r bits : Nat} (small : bits ≤ 60) (bound : r < 2 ^ 64) :
    r / 2 ^ (64 - bits) + 1 ≤ 2 ^ bits := by
  have split_bits : 2 ^ 64 = 2 ^ (64 - bits) * 2 ^ bits := by
    rw [← pow_add]
    congr 1
    omega
  rw [split_bits] at bound
  exact Nat.div_lt_of_lt_mul bound

structure Covers (contents : Multiset (DictEntry K V)) (v v' : BitVec 64)
    (emitted : List (DictEntry K V)) (stop : Nat) : Prop where
  after : rank v < stop
  most : stop ≤ 2 ^ 64
  cursor : rank v' = stop % 2 ^ 64
  emits : ∀ he ∈ contents, rank v ≤ rank (type.hashFunction he.key) →
    rank (type.hashFunction he.key) < stop → he ∈ emitted

theorem stop_le (v : BitVec 64) {bits : Nat} (small : bits ≤ 60) :
    2 ^ (64 - bits) * (rank v / 2 ^ (64 - bits) + 1) ≤ 2 ^ 64 := by
  calc 2 ^ (64 - bits) * (rank v / 2 ^ (64 - bits) + 1) ≤ 2 ^ (64 - bits) * 2 ^ bits :=
        Nat.mul_le_mul_left _ (block_le small (rank_lt v))
    _ = 2 ^ 64 := by rw [← pow_add]; congr 1; omega

theorem scanBoth_ok {t0 t1 : Dictht K V} (ok0 : TableOk type t0) (ok1 : TableOk type t1)
    (allocated0 : t0.size ≠ 0) (allocated1 : t1.size ≠ 0) (le : t0.size ≤ t1.size) (v : BitVec 64) :
    ∃ emitted v' stop, scanBoth t0 t1 v = .ok (emitted, v') ∧
      Covers type (t0.contents + t1.contents) v v' emitted stop := by
  obtain ⟨low, low_small, size0, mask0⟩ := ok0.bits type allocated0
  obtain ⟨high, high_small, size1, mask1⟩ := ok1.bits type allocated1
  have low_le : low ≤ high := by
    rw [size0, size1] at le
    exact (Nat.pow_le_pow_iff_right (by omega)).mp le
  let last := rank v / 2 ^ (64 - low)
  have nested : rank v / 2 ^ (64 - high) / 2 ^ (high - low) = last := by
    rw [Nat.div_div_eq_div_mul, ← pow_add, show 64 - high + (high - low) = 64 - low by omega]
  have inside : rank v / 2 ^ (64 - high) < 2 ^ (high - low) * (last + 1) := by
    rw [← nested]
    exact Nat.lt_mul_div_succ _ (by positivity)
  have base : 2 ^ (high - low) * last ≤ rank v / 2 ^ (64 - high) := by
    rw [← nested]
    exact Nat.mul_div_le _ _
  have within : last + 1 ≤ 2 ^ low := block_le low_small (rank_lt v)
  have enough : 2 ^ (high - low) * (last + 1) ≤ rank v / 2 ^ (64 - high) + t1.size := by
    have most : 2 ^ (high - low) * (last + 1) ≤ 2 ^ (high - low) * 2 ^ low := Nat.mul_le_mul_left _ within
    rw [← pow_add, show high - low + low = high by omega] at most
    omega
  obtain ⟨emitted, v', ran, cursor, covers⟩ :=
    scanLoop_ok type ok1 v low_le high_small size1 inside base within enough
  refine ⟨t0.table (t0.index v) ++ emitted, v', 2 ^ (64 - low) * (last + 1), ?_, ?_, stop_le v low_small, cursor, ?_⟩
  · simp only [scanBoth, mask0, mask1, ran, ok0.bucket_eq type (ok0.index_lt type v allocated0), ok_bind, pure_ok]
  · exact Nat.lt_mul_div_succ _ (by positivity)
  · intro he member after before
    rcases Multiset.mem_add.mp member with in0 | in1
    · exact List.mem_append.mpr (Or.inl (mem_bucket type ok0 low_small size0 in0 (block_of_between after before)))
    · exact List.mem_append.mpr (Or.inr (covers he in1 after before))

theorem dictScan_ok {d : Dict K V} (valid : Valid type d) (v : BitVec 64) :
    ∃ emitted v' stop, dictScan d v = .ok (emitted, v') ∧ Covers type d.contents v v' emitted stop := by
  unfold dictScan
  split
  next empty =>
    refine ⟨[], 0, 2 ^ 64, rfl, rank_lt v, le_rfl, (rank_eq_zero _).mpr rfl, ?_⟩
    intro he member
    rw [used_eq valid] at empty
    rw [Multiset.card_eq_zero.mp empty] at member
    exact absurd member (Multiset.notMem_zero he)
  next nonempty =>
    have allocated := valid.allocated nonempty
    split
    next resting =>
      have idle : d.rehashidx = none := by simpa [dictIsRehashing] using resting
      obtain ⟨bits, small, size, mask⟩ := valid.first.bits type allocated
      refine ⟨d.ht0.table (d.ht0.index v), _, 2 ^ (64 - bits) * (rank v / 2 ^ (64 - bits) + 1), ?_,
        Nat.lt_mul_div_succ _ (by positivity), stop_le v small, rank_increment v small, ?_⟩
      · rw [valid.first.bucket_eq type (valid.first.index_lt type v allocated), mask]
        rfl
      · intro he member after before
        rw [Dict.contents, valid.idle idle, contents_of_unallocated (_dictReset : Dictht K V) rfl, add_zero] at member
        exact mem_bucket type valid.first small size member (block_of_between after before)
    next rehashing =>
      obtain ⟨idx, some_idx⟩ : ∃ idx, d.rehashidx = some idx := by
        exact Option.ne_none_iff_exists'.mp (by simpa [dictIsRehashing] using rehashing)
      have moving := valid.busy idx some_idx
      split
      next larger =>
        rw [Dict.contents, add_comm]
        exact scanBoth_ok type moving.second moving.first moving.allocated1 moving.allocated0 (by omega) v
      next =>
        exact scanBoth_ok type moving.first moving.second moving.allocated0 moving.allocated1 (by omega) v

def statesAfter : List (Op K V) → Dict K V → Except Stop (List (Dict K V))
  | [], _ => .ok []
  | op :: ops, d => do
    let (d, _) ← step type d op
    let rest ← statesAfter ops d
    pure (d :: rest)

structure ScanResult (K V : Type) where
  emitted : List (DictEntry K V)
  states : List (Dict K V)
  finished : Bool

-- Feeds each cursor to the next call, with a list of operations run between two calls,
-- until a call returns 0 or no further operations are given.
def scanRun : List (List (Op K V)) → Dict K V → BitVec 64 → Except Stop (ScanResult K V)
  | [], d, v => do
    let (here, v) ← dictScan d v
    pure { emitted := here, states := [d], finished := v == 0 }
  | ops :: rounds, d, v => do
    let (here, v) ← dictScan d v
    if v = 0 then pure { emitted := here, states := [d], finished := true }
    else
      let between ← statesAfter type ops d
      let rest ← scanRun rounds (between.getLast?.getD d) v
      pure { emitted := here ++ rest.emitted, states := d :: between ++ rest.states,
             finished := rest.finished }

def Present (d : Dict K V) (key : K) : Prop := ∃ he ∈ d.contents, type.keyCompare key he.key = true

theorem exists_map {d : Dict K V} (valid : Valid type d) : ∃ m, Represents type d m := by
  classical
  refine ⟨fun key => if found : ∃ he ∈ d.contents, type.keyCompare key he.key = true
    then some found.choose else none, valid, ?_⟩
  intro key he
  dsimp only
  split
  next found =>
    obtain ⟨member, same⟩ := found.choose_spec
    constructor
    · rintro ⟨rfl⟩
      exact ⟨member, same⟩
    · rintro ⟨other, equal⟩
      refine congrArg some (Multiset.inj_on_of_nodup_map valid.distinct _ member _ other ?_)
      exact (keyClass_eq type _ _).mpr (compare_of_compare type same equal)
  next missing =>
    constructor
    · intro impossible
      exact absurd impossible (by simp)
    · intro present
      exact absurd ⟨he, present⟩ missing

theorem step_valid {d : Dict K V} (op : Op K V) (valid : Valid type d)
    (sizes : ∀ size, op = .expand size → size ≤ 2 ^ 60) :
    step type d op = .error .oom ∨ ∃ d' out, step type d op = .ok (d', out) ∧ Valid type d' := by
  obtain ⟨m, related⟩ := exists_map type valid
  rcases step_simulates type related sizes with stopped | ⟨d', stepped, related'⟩
  · exact Or.inl stopped
  · exact Or.inr ⟨d', _, stepped, related'.valid⟩

theorem statesAfter_valid {ops : List (Op K V)} (d : Dict K V) (valid : Valid type d)
    (sizes : ∀ size, Op.expand size ∈ ops → size ≤ 2 ^ 60) :
    statesAfter type ops d = .error .oom ∨
      ∃ states, statesAfter type ops d = .ok states ∧ Valid type (states.getLast?.getD d) := by
  induction ops generalizing d with
  | nil => exact Or.inr ⟨[], rfl, valid⟩
  | cons op ops ih =>
    rcases step_valid type op valid (fun size same => sizes size (same ▸ mem_cons_self)) with
      stopped | ⟨d', out, stepped, valid'⟩
    · exact Or.inl (by simp [statesAfter, stopped])
    · rcases ih d' valid' (fun size member => sizes size (mem_cons_of_mem _ member)) with
        stopped | ⟨states, ran, last⟩
      · exact Or.inl (by simp [statesAfter, stepped, stopped])
      · refine Or.inr ⟨d' :: states, by simp [statesAfter, stepped, ran], ?_⟩
        rw [getLast?_cons]
        exact last

theorem scanRun_covers {rounds : List (List (Op K V))} (d : Dict K V) (v : BitVec 64)
    (valid : Valid type d) (sizes : ∀ ops ∈ rounds, ∀ size, Op.expand size ∈ ops → size ≤ 2 ^ 60) :
    scanRun type rounds d v = .error .oom ∨
      ∃ result, scanRun type rounds d v = .ok result ∧
        (result.finished = true → ∀ key, rank v ≤ rank (type.hashFunction key) →
          (∀ state ∈ result.states, Present type state key) →
          ∃ he ∈ result.emitted, type.keyCompare key he.key = true) := by
  induction rounds generalizing d v with
  | nil =>
    obtain ⟨here, v', stop, scanned, covers⟩ := dictScan_ok type valid v
    refine Or.inr ⟨_, by simp [scanRun, scanned]; rfl, ?_⟩
    intro finished key after present
    have zero : v' = 0 := by simpa using finished
    obtain ⟨he, member, same⟩ := present d mem_cons_self
    refine ⟨he, covers.emits he member (type.hash_eq key he.key same ▸ after) ?_, same⟩
    have cursor := covers.cursor
    have most := covers.most
    have positive := covers.after
    rw [(rank_eq_zero v').mpr zero] at cursor
    have below := rank_lt (type.hashFunction he.key)
    omega
  | cons ops rounds ih =>
    obtain ⟨here, v', stop, scanned, covers⟩ := dictScan_ok type valid v
    have cursor := covers.cursor
    have most := covers.most
    have positive := covers.after
    by_cases zero : v' = 0
    · subst zero
      refine Or.inr ⟨{ emitted := here, states := [d], finished := true }, by
        simp [scanRun, scanned], ?_⟩
      intro _ key after present
      obtain ⟨he, member, same⟩ := present d mem_cons_self
      refine ⟨he, covers.emits he member (type.hash_eq key he.key same ▸ after) ?_, same⟩
      rw [(rank_eq_zero _).mpr rfl] at cursor
      have below := rank_lt (type.hashFunction he.key)
      omega
    · have nonzero : rank v' ≠ 0 := fun none => zero ((rank_eq_zero v').mp none)
      have stop_eq : rank v' = stop := by
        rcases Nat.lt_or_ge stop (2 ^ 64) with small | large
        · rw [cursor, Nat.mod_eq_of_lt small]
        · rw [show stop = 2 ^ 64 by omega, Nat.mod_self] at cursor
          exact absurd cursor nonzero
      have unfolded : scanRun type (ops :: rounds) d v = (statesAfter type ops d).bind fun between =>
          (scanRun type rounds (between.getLast?.getD d) v').bind fun rest =>
            .ok { emitted := here ++ rest.emitted, states := d :: between ++ rest.states,
                  finished := rest.finished } := by
        simp only [scanRun, scanned, ok_bind]
        rw [if_neg zero]
        rfl
      rcases statesAfter_valid type d valid (sizes ops mem_cons_self) with
        stopped | ⟨between, ran, last⟩
      · exact Or.inl (by rw [unfolded, stopped]; rfl)
      · rcases ih (between.getLast?.getD d) v' last (fun other member => sizes other (mem_cons_of_mem _ member)) with
          stopped | ⟨rest, continued, covered⟩
        · exact Or.inl (by rw [unfolded, ran, Except.bind, stopped]; rfl)
        · refine Or.inr ⟨_, by rw [unfolded, ran, Except.bind, continued, Except.bind], ?_⟩
          intro finished key after present
          by_cases passed : rank (type.hashFunction key) < stop
          · obtain ⟨he, member, same⟩ := present d (by simp)
            refine ⟨he, mem_append.mpr (Or.inl ?_), same⟩
            exact covers.emits he member (type.hash_eq key he.key same ▸ after)
              (type.hash_eq key he.key same ▸ passed)
          · obtain ⟨he, member, same⟩ := covered finished key (by omega)
              (fun state inside => present state (by simp [inside]))
            exact ⟨he, mem_append.mpr (Or.inr member), same⟩

theorem scan_covers_persistent_keys (d : Dict K V) (rounds : List (List (Op K V))) (valid : Valid type d)
    (sizes : ∀ ops ∈ rounds, ∀ size, Op.expand size ∈ ops → size ≤ 2 ^ 60) :
    scanRun type rounds d 0 = .error .oom ∨
      ∃ result, scanRun type rounds d 0 = .ok result ∧
        (result.finished = true → ∀ key, (∀ state ∈ result.states, Present type state key) →
          ∃ he ∈ result.emitted, type.keyCompare key he.key = true) := by
  rcases scanRun_covers type d 0 valid sizes with stopped | ⟨result, ran, covered⟩
  · exact Or.inl stopped
  · refine Or.inr ⟨result, ran, fun finished key present => covered finished key ?_ present⟩
    rw [(rank_eq_zero _).mpr rfl]
    exact Nat.zero_le _

def oneKey : Dict Bool Nat :=
  match step boolType dictCreate (.add true 1) with
  | .ok (d, _) => d
  | .error _ => dictCreate

theorem valid_oneKey : Valid boolType oneKey := by
  rcases step_valid boolType (.add true 1) (valid_create boolType) (by simp) with
    stopped | ⟨d, out, stepped, valid⟩
  · exact absurd stopped (by intro same; cases same)
  · rw [oneKey, stepped]
    exact valid

def growingScan : List (List (Op Bool Nat)) := [[.expand 8], [.rehash 1], [], [], []]

theorem scan_covers_persistent_keys_growing : ∃ result,
    scanRun boolType growingScan oneKey 0 = .ok result ∧ result.finished = true ∧
      ((∀ state ∈ result.states, Present boolType state true) →
        ∃ he ∈ result.emitted, boolType.keyCompare true he.key = true) := by
  have ends : (scanRun boolType growingScan oneKey 0).map ScanResult.finished = .ok true := rfl
  rcases scan_covers_persistent_keys boolType oneKey growingScan valid_oneKey (by simp [growingScan]) with
    stopped | ⟨result, ran, covered⟩
  · rw [stopped] at ends
    cases ends
  · rw [ran] at ends
    have finished : result.finished = true := Except.ok.inj ends
    exact ⟨result, ran, finished, covered finished true⟩

theorem scan_after_overflow : ∃ d, run boolType [.add true (1 : Nat)] = .ok (d, [.status true]) ∧
    scanRun boolType [[.expand (2 ^ 61)]] d 0 = .error .fault :=
  ⟨_, rfl, rfl⟩

end RedisCore.HashTable
