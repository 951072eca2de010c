import Mathlib

set_option autoImplicit false

namespace RedisCore.Evict

variable {memFreed : Nat}

inductive Policy
  | volatileLru | volatileLfu | volatileTtl | volatileRandom
  | allkeysLru | allkeysLfu | allkeysRandom | noEviction
  deriving DecidableEq

structure Config where
  maxmemory : Nat
  policy : Policy
  lazyEviction : Bool
  paused : Bool

-- What one iteration sees: the key chosen, zmalloc_used_memory before and after its deletion and at the end of the
-- iteration, and the size of the buffers that are not counted.
structure Round (Key : Type) where
  victim : Option Key
  before : BitVec 64
  after : BitVec 64
  used : BitVec 64
  overhead : BitVec 64

inductive Reply
  | ok | err
  deriving DecidableEq

structure Outcome (Key : Type) where
  result : Option Reply
  evicted : List (Round Key)
  foundUnder : Bool

variable {Key : Type}

def counted (used overhead : BitVec 64) : Nat :=
  if overhead.toNat < used.toNat then used.toNat - overhead.toNat else 0

def Round.delta (r : Round Key) : Int := r.before.toNat - r.after.toNat

def evictLoop (cfg : Config) (memTofree : Nat) : Nat → List (Round Key) → Outcome Key
  | memFreed, [] => ⟨if memFreed < memTofree then none else some .ok, [], false⟩
  | memFreed, r :: rounds =>
    if memFreed < memTofree then
      -- keys_freed is declared in the body of the loop
      let keysFreed := 0
      if r.victim.isSome then
        let memFreed := ((memFreed + r.delta) % 2 ^ 64).toNat
        let keysFreed := keysFreed + 1
        let under := cfg.lazyEviction && keysFreed % 16 == 0 && counted r.used r.overhead ≤ cfg.maxmemory
        let next := evictLoop cfg memTofree (if under then memTofree else memFreed) rounds
        ⟨next.result, r :: next.evicted, under || next.foundUnder⟩
      else ⟨some .err, [], false⟩
    else ⟨some .ok, [], false⟩

def freeMemoryIfNeeded (cfg : Config) (memReported overhead : BitVec 64) (rounds : List (Round Key)) : Outcome Key :=
  if cfg.paused then ⟨some .ok, [], false⟩
  else if memReported.toNat ≤ cfg.maxmemory then ⟨some .ok, [], false⟩
  else
    let memUsed := counted memReported overhead
    if memUsed ≤ cfg.maxmemory then ⟨some .ok, [], false⟩
    else
      let memTofree := memUsed - cfg.maxmemory
      if cfg.policy = .noEviction then ⟨some .err, [], false⟩ else evictLoop cfg memTofree 0 rounds

variable {rounds : List (Round Key)}

section
variable {cfg : Config} {memTofree : Nat}

theorem evictLoop_cons {r : Round Key} (more : memFreed < memTofree)
    (found : r.victim.isSome) :
    evictLoop cfg memTofree memFreed (r :: rounds) =
      let next := evictLoop cfg memTofree ((memFreed + r.delta) % 2 ^ 64).toNat rounds
      ⟨next.result, r :: next.evicted, next.foundUnder⟩ := by
  simp [evictLoop, more, found]

theorem evictLoop_none {r : Round Key} (more : memFreed < memTofree) (none_left : ¬r.victim.isSome) :
    evictLoop cfg memTofree memFreed (r :: rounds) = ⟨some .err, [], false⟩ := by
  simp [evictLoop, more, none_left]

theorem evictLoop_stop (done : ¬memFreed < memTofree) :
    evictLoop cfg memTofree memFreed rounds = ⟨some .ok, [], false⟩ := by
  cases rounds <;> simp [evictLoop, done]

end

theorem freeMemoryIfNeeded_cases {cfg : Config} (memReported overhead : BitVec 64) (rounds : List (Round Key))
    (active : cfg.paused = false) :
    counted memReported overhead ≤ cfg.maxmemory ∧
      freeMemoryIfNeeded cfg memReported overhead rounds = ⟨some .ok, [], false⟩ ∨
    cfg.maxmemory < counted memReported overhead ∧
      (cfg.policy = .noEviction ∧ freeMemoryIfNeeded cfg memReported overhead rounds = ⟨some .err, [], false⟩ ∨
      cfg.policy ≠ .noEviction ∧ freeMemoryIfNeeded cfg memReported overhead rounds =
        evictLoop cfg (counted memReported overhead - cfg.maxmemory) 0 rounds) := by
  by_cases under : counted memReported overhead ≤ cfg.maxmemory
  · exact .inl ⟨under, by simp [freeMemoryIfNeeded, under]⟩
  · have above : ¬memReported.toNat ≤ cfg.maxmemory := by
      unfold counted at under
      split at under <;> omega
    refine .inr ⟨by omega, ?_⟩
    by_cases forbids : cfg.policy = .noEviction
    · exact .inl ⟨forbids, by simp [freeMemoryIfNeeded, active, under, above, forbids]⟩
    · exact .inr ⟨forbids, by simp [freeMemoryIfNeeded, active, under, above, forbids]⟩

def decrease (rounds : List (Round Key)) : Int := (rounds.map Round.delta).sum

-- When the decreases seen so far, as a size_t, are the amount to free or more, their sum is not negative.
def Gained (memTofree : Nat) : Int → List (Round Key) → Prop
  | _, [] => True
  | total, r :: rounds => r.victim.isSome →
    if (total + r.delta) % 2 ^ 64 < memTofree then Gained memTofree (total + r.delta) rounds else 0 ≤ total + r.delta

theorem evictLoop_ok_iff (cfg : Config) (rounds : List (Round Key)) {memTofree : Nat} (total : Int) (more : total % 2 ^ 64 < memTofree) :
    let out := evictLoop cfg memTofree (total % 2 ^ 64).toNat rounds
    (out.result = some .ok → (memTofree : Int) ≤ total + decrease out.evicted ∨ out.foundUnder = true) ↔
      Gained memTofree total rounds := by
  have less : (total % 2 ^ 64).toNat < memTofree := by omega
  induction rounds generalizing total with
  | nil => simp only [evictLoop, less, reduceIte, Gained, reduceCtorEq, false_imp_iff]
  | cons r rounds ih =>
    by_cases found : r.victim.isSome
    · have freed : ((total % 2 ^ 64).toNat + r.delta) % 2 ^ 64 = (total + r.delta) % 2 ^ 64 := by
        rw [Int.toNat_of_nonneg (by omega), Int.emod_add_emod]
      simp only [evictLoop_cons less found, freed, Gained, found, forall_const, decrease, List.map_cons, List.sum_cons,
        ← add_assoc] at ih ⊢
      split
      next again => exact ih _ again (by omega)
      next reached =>
        rw [evictLoop_stop (by omega)]
        simp only [List.map_nil, List.sum_nil, Bool.false_eq_true, or_false, forall_const, add_zero]
        omega
    · rw [evictLoop_none less found]
      simp [Gained, found]

/-- C_OK means what it should for exactly the decreases whose total does not wrap to the amount to free. -/
theorem success_when_freed (cfg : Config) (memReported overhead : BitVec 64) (rounds : List (Round Key))
    (active : cfg.paused = false) :
    let out := freeMemoryIfNeeded cfg memReported overhead rounds
    (out.result = some .ok → counted memReported overhead ≤ cfg.maxmemory ∨
      (counted memReported overhead - cfg.maxmemory : Int) ≤ decrease out.evicted ∨ out.foundUnder = true) ↔
    (counted memReported overhead ≤ cfg.maxmemory ∨ cfg.policy = .noEviction ∨
      Gained (counted memReported overhead - cfg.maxmemory) 0 rounds) := by
  obtain ⟨under, -⟩ | ⟨above, ⟨forbids, failed⟩ | ⟨allows, looped⟩⟩ := freeMemoryIfNeeded_cases memReported overhead rounds active
  · simp [under]
  · simp [failed, forbids]
  · have loop := evictLoop_ok_iff cfg rounds 0
      (show (0 : Int) % 2 ^ 64 < (counted memReported overhead - cfg.maxmemory : Nat) by omega)
    simp only [Int.zero_emod, Int.toNat_zero, zero_add, Int.ofNat_sub above.le] at loop
    simp only [looped, allows, false_or, ← loop, above.not_ge]

-- Queueing the value for the lazyfree thread allocates eight bytes and nothing is released yet.
def queued : List (Round Nat) := [⟨some 1, 200, 208, 208, 0⟩]

theorem success_after_growth :
    let out := freeMemoryIfNeeded ⟨100, .allkeysLru, true, false⟩ 200 0 queued
    out.result = some .ok ∧ out.foundUnder = false ∧ decrease out.evicted = -8 := by
  decide +kernel

-- The second deletion allocates what the first one released in part.
theorem success_after_two :
    let rounds : List (Round Nat) := [⟨some 1, 200, 130, 130, 0⟩, ⟨some 2, 130, 138, 138, 0⟩, ⟨some 3, 138, 100, 100, 0⟩]
    let out := freeMemoryIfNeeded ⟨100, .allkeysLru, true, false⟩ 200 0 rounds
    out.result = some .ok ∧ (out.result = some .ok → counted 200 0 ≤ 100 ∨
      (counted 200 0 - (100 : Nat) : Int) ≤ decrease out.evicted ∨ out.foundUnder = true) :=
  ⟨by decide +kernel, (success_when_freed ⟨100, .allkeysLru, true, false⟩ 200 0 _ rfl).mpr (.inr (.inr (by simp [Gained, Round.delta, counted])))⟩

-- Memory is only released, by the deletions and between them.
def Releasing : Nat → List (Round Key) → Prop
  | _, [] => True
  | used, r :: rounds => r.before.toNat ≤ used ∧ r.after.toNat ≤ r.before.toNat ∧ Releasing r.after.toNat rounds

instance decidableReleasing : (used : Nat) → (rounds : List (Round Key)) → Decidable (Releasing used rounds)
  | _, [] => isTrue trivial
  | _, r :: rounds =>
    have := decidableReleasing r.after.toNat rounds
    inferInstanceAs (Decidable (_ ∧ _ ∧ _))

-- The rounds that begin before the counted memory is at the limit or below.
def beforeDrop (cfg : Config) (rounds : List (Round Key)) : List (Round Key) :=
  rounds.takeWhile fun r => cfg.maxmemory < counted r.before r.overhead

section
variable {cfg : Config} {memTofree : Nat}

theorem evictLoop_evicted (memFreed : Nat) : (evictLoop cfg memTofree memFreed rounds).evicted <+: rounds := by
  induction rounds generalizing memFreed with
  | nil => simp [evictLoop]
  | cons r rounds ih =>
    by_cases more : memFreed < memTofree
    · by_cases found : r.victim.isSome
      · rw [evictLoop_cons more found]
        exact List.cons_prefix_cons.mpr ⟨rfl, ih _⟩
      · simp [evictLoop_none more found]
    · simp [evictLoop_stop more]

theorem length_beforeDrop {front : List (Round Key)} (first : front <+: rounds) :
    (beforeDrop cfg front).length = min front.length (beforeDrop cfg rounds).length := by
  obtain ⟨rest, rfl⟩ := first
  unfold beforeDrop
  rw [List.takeWhile_append]
  split
  next all => rw [all, List.length_append, Nat.min_eq_left (Nat.le_add_right _ _)]
  next => rw [Nat.min_eq_right ( List.takeWhile_prefix _).length_le]

theorem decrease_nonneg {used : Nat} (releasing : Releasing used rounds) (k : Nat) : 0 ≤ decrease (rounds.take k) := by
  induction rounds generalizing used k with
  | nil => simp [decrease]
  | cons r rounds ih =>
    cases k with
    | zero => simp [decrease]
    | succ k =>
      obtain ⟨-, after, rest⟩ := releasing
      have := ih rest k
      simp only [decrease, Round.delta, List.take_succ_cons, List.map_cons, List.sum_cons] at this ⊢
      omega

-- memFreed stays below the memory reported, so it does not wrap, and the loop goes on until the decreases are the amount.
theorem evictLoop_length (cfg : Config) (memTofree memFreed used k : Nat) (range : memFreed + used < 2 ^ 64) (releasing : Releasing used rounds) :
    k < (evictLoop cfg memTofree memFreed rounds).evicted.length ↔
      k < rounds.length ∧ (∀ r ∈ rounds.take (k + 1), r.victim.isSome) ∧ memFreed + decrease (rounds.take k) < memTofree := by
  induction rounds generalizing memFreed used k with
  | nil => simp [evictLoop]
  | cons r rounds ih =>
    have gain := decrease_nonneg releasing k
    by_cases more : memFreed < memTofree
    · by_cases found : r.victim.isSome
      · obtain ⟨before, after, rest⟩ := releasing
        have freed : ((memFreed + r.delta) % 2 ^ 64).toNat = memFreed + (r.before.toNat - r.after.toNat) := by
          unfold Round.delta
          omega
        rw [evictLoop_cons more found, freed]
        cases k with
        | zero => simp [found, decrease, more]
        | succ k =>
          have next := ih (memFreed + (r.before.toNat - r.after.toNat)) r.after.toNat k (by omega) rest
          simp only [List.length_cons, Nat.add_lt_add_iff_right, next, List.take_succ_cons, List.forall_mem_cons, found,
            true_and, decrease, List.map_cons, List.sum_cons, Round.delta]
          refine and_congr_right fun _ => and_congr_right fun _ => ?_
          omega
      · simp [evictLoop_none more found, found]
    · rw [evictLoop_stop more]
      simp only [List.length_nil, Nat.not_lt_zero, false_iff]
      omega

end

/-- At most 16 keys are evicted after the drop exactly if, where there are 17, the deletions before the last are seen to
release the amount to free. -/
theorem stops_after_drop (cfg : Config) (memReported overhead : BitVec 64) (rounds : List (Round Key))
    (active : cfg.paused = false) (releasing : Releasing memReported.toNat rounds) :
    let evicted := (freeMemoryIfNeeded cfg memReported overhead rounds).evicted
    let before := (beforeDrop cfg rounds).length
    evicted.length - (beforeDrop cfg evicted).length ≤ 16 ↔
      counted memReported overhead ≤ cfg.maxmemory ∨ cfg.policy = .noEviction ∨
        (before + 16 < rounds.length → (∀ r ∈ rounds.take (before + 17), r.victim.isSome) →
          (counted memReported overhead - cfg.maxmemory : Int) ≤ decrease (rounds.take (before + 16))) := by
  obtain ⟨under, quiet⟩ | ⟨above, ⟨forbids, quiet⟩ | ⟨allows, looped⟩⟩ := freeMemoryIfNeeded_cases memReported overhead rounds active
  · simp [quiet, under]
  · simp [quiet, forbids]
  · have length := evictLoop_length cfg (counted memReported overhead - cfg.maxmemory) 0
      memReported.toNat ((beforeDrop cfg rounds).length + 16) (by omega) releasing
    simp only [looped, allows, false_or, above.not_ge]
    rw [length_beforeDrop (evictLoop_evicted 0), show ∀ n b : Nat, n - min n b ≤ 16 ↔ ¬b + 16 < n by omega, length]
    simp only [not_and, not_lt, Nat.cast_zero, zero_add, Int.ofNat_sub above.le]

def slowRound (k : Nat) (used : BitVec 64) : Round Nat := ⟨some k, used, used - 1, used - 1, 0⟩

-- The second deletion after the drop completes the amount.
theorem stops_after_slow_release :
    let rounds := [slowRound 0 105, slowRound 1 104, slowRound 2 103, slowRound 3 90, slowRound 4 89]
    let evicted := (freeMemoryIfNeeded ⟨100, .allkeysLru, true, false⟩ 105 0 rounds).evicted
    evicted.length = 5 ∧ evicted.length - (beforeDrop ⟨100, .allkeysLru, true, false⟩ evicted).length ≤ 16 :=
  ⟨by decide +kernel,
    (stops_after_drop ⟨100, .allkeysLru, true, false⟩ 105 0 _ rfl (by decide +kernel)).mpr (.inr (.inr (by decide +kernel)))⟩

theorem seventeen_after_drop :
    let rounds := slowRound 0 200 :: (List.range 17).map fun k => slowRound (k + 1) (50 - BitVec.ofNat 64 k)
    let out := freeMemoryIfNeeded ⟨100, .allkeysLru, true, false⟩ 200 0 rounds
    Releasing 200 rounds ∧ out.evicted.length - (beforeDrop ⟨100, .allkeysLru, true, false⟩ out.evicted).length = 17 ∧
      out.result = none := by
  decide +kernel

end RedisCore.Evict
