import RedisCore.Dict.Table

set_option autoImplicit false

namespace RedisCore.HashTable

open Buckets Function

variable {K V : Type} (type : DictType K)
variable {t : Dictht K V}

def Dictht.contents (t : Dictht K V) : Multiset (DictEntry K V) := chained t.size t.table

structure TableOk (t : Dictht K V) : Prop where
  slots : t.slots = t.size
  size : t.size = 0 ∨ ∃ bits, 2 ≤ bits ∧ bits ≤ 60 ∧ t.size = 2 ^ bits
  sizemask : t.sizemask = BitVec.ofNat 64 (t.size - 1)
  placed : ∀ i < t.size, ∀ he ∈ t.table i, t.index (type.hashFunction he.key) = i
  used : t.used = Multiset.card t.contents

theorem tableOk_reset : TableOk type (_dictReset : Dictht K V) where
  slots := rfl
  size := Or.inl rfl
  sizemask := rfl
  placed := fun i within => absurd within (Nat.not_lt_zero i)
  used := rfl

theorem index_eq_mod {bits : Nat} (hash : BitVec 64) (small : bits ≤ 60)
    (size : t.size = 2 ^ bits) (sizemask : t.sizemask = BitVec.ofNat 64 (t.size - 1)) :
    t.index hash = hash.toNat % 2 ^ bits := by
  have bound : 2 ^ bits < 2 ^ 64 := Nat.pow_lt_pow_right (by omega) (by omega)
  rw [Dictht.index, sizemask, size, BitVec.toNat_and, BitVec.toNat_ofNat,
    Nat.mod_eq_of_lt (by omega), Nat.and_two_pow_sub_one_eq_mod]

theorem TableOk.index_lt (ok : TableOk type t) (hash : BitVec 64)
    (allocated : t.size ≠ 0) : t.index hash < t.size := by
  rcases ok.size with empty | ⟨bits, _, small, size⟩
  · exact absurd empty allocated
  · rw [index_eq_mod hash small size ok.sizemask, size]
    exact Nat.mod_lt _ (by positivity)

theorem TableOk.bucket_eq (ok : TableOk type t) {i : Nat} (within : i < t.size) :
    t.bucket i = .ok (t.table i) := by
  rw [Dictht.bucket, if_pos (by rw [ok.slots]; exact within)]

theorem TableOk.setBucket_eq {t : Dictht K V} (ok : TableOk type t) {i : Nat}
    (chain : List (DictEntry K V)) (within : i < t.size) :
    t.setBucket i chain = .ok { t with table := Function.update t.table i chain } := by
  rw [Dictht.setBucket, if_pos (by rw [ok.slots]; exact within)]

theorem TableOk.update (t : Dictht K V) (ok : TableOk type t) (i used : Nat)
    (chain : List (DictEntry K V)) (within : i < t.size)
    (placed : ∀ he ∈ chain, t.index (type.hashFunction he.key) = i)
    (count : used + (t.table i).length = t.used + chain.length) :
    TableOk type { t with table := Function.update t.table i chain, used := used } where
  slots := ok.slots
  size := ok.size
  sizemask := ok.sizemask
  placed := by
    intro j inside he member
    dsimp only at member inside
    by_cases same : j = i
    · subst same
      rw [update_self] at member
      exact placed he member
    · rw [update_of_ne same] at member
      exact ok.placed j inside he member
  used := by
    have step := congrArg Multiset.card (chained_update t.table chain within)
    have before := ok.used
    simp only [Multiset.card_add, Multiset.coe_card, Dictht.contents] at step before ⊢
    omega

theorem TableOk.push (ok : TableOk type t) (he : DictEntry K V) (allocated : t.size ≠ 0) :
    let i := t.index (type.hashFunction he.key)
    let t' := { t with table := Function.update t.table i (he :: t.table i), used := t.used + 1 }
    TableOk type t' ∧ t'.contents = he ::ₘ t.contents := by
  have within := ok.index_lt type (type.hashFunction he.key) allocated
  refine ⟨ok.update type t _ _ _ within ?_ (by simp; omega), chained_push _ _ within⟩
  intro entry member
  rcases List.mem_cons.mp member with rfl | old
  · rfl
  · exact ok.placed _ within entry old

theorem moveChain_ok (chain : List (DictEntry K V)) (ht0 ht1 : Dictht K V) (ok : TableOk type ht1)
    (allocated : ht1.size ≠ 0) :
    ∃ ht1', moveChain type chain ht0 ht1 =
        .ok ({ ht0 with used := ht0.used - chain.length }, ht1') ∧
      TableOk type ht1' ∧ ht1'.size = ht1.size ∧ ht1'.contents = chain + ht1.contents := by
  induction chain generalizing ht0 ht1 with
  | nil => exact ⟨ht1, rfl, ok, rfl, by simp⟩
  | cons de chain ih =>
    have within := ok.index_lt type (type.hashFunction de.key) allocated
    obtain ⟨pushed, contents⟩ := ok.push type de allocated
    obtain ⟨final, moved, final_ok, size, moved_contents⟩ :=
      ih { ht0 with used := ht0.used - 1 } _ pushed allocated
    refine ⟨final, ?_, final_ok, size, ?_⟩
    · rw [moveChain, ok.bucket_eq type within]
      simp only [bind, Except.bind]
      rw [ok.setBucket_eq type _ within]
      simp only [moved, List.length_cons]
      rw [show ht0.used - (chain.length + 1) = ht0.used - 1 - chain.length by omega]
    · rw [moved_contents, contents, ← Multiset.cons_coe, Multiset.add_cons, Multiset.cons_add]

theorem skipEmpty_ok (left idx ahead : Nat) (emptyVisits : BitVec 32)
    (below : ∀ i < idx, t.table i = []) (after : idx ≤ ahead) (filled : t.table ahead ≠ [])
    (enough : ahead < idx + left) :
    (∃ idx', skipEmpty t left idx emptyVisits = .ok (.exhausted idx') ∧ ∀ i < idx', t.table i = []) ∨
      ∃ idx' visits', skipEmpty t left idx emptyVisits = .ok (.found idx' visits') ∧
        (∀ i < idx', t.table i = []) ∧ idx' ≤ ahead := by
  induction left generalizing idx emptyVisits with
  | zero => omega
  | succ left ih =>
    rw [skipEmpty]
    by_cases empty : t.table idx = []
    · have further : ∀ i < idx + 1, t.table i = [] := by
        intro i inside
        rcases Nat.lt_succ_iff_lt_or_eq.mp inside with lower | same
        · exact below i lower
        · rw [same, empty]
      have distinct : idx ≠ ahead := by rintro rfl; exact filled empty
      rw [if_neg (not_not.mpr empty)]
      split
      next => exact Or.inl ⟨idx + 1, rfl, further⟩
      next => exact ih (idx + 1) (emptyVisits - 1) further (by omega) (by omega)
    · rw [if_pos empty]
      exact Or.inr ⟨idx, emptyVisits, rfl, below, after⟩

theorem exists_filled (ok : TableOk type t) (some_used : t.used ≠ 0) :
    ∃ ahead < t.size, t.table ahead ≠ [] := by
  by_contra nothing
  push Not at nothing
  have empty := (chained_eq_zero t.size t.table).mpr nothing
  rw [ok.used, Dictht.contents, empty] at some_used
  exact some_used rfl

-- The state of the two tables between two rounds of the rehashing loop.
structure Moving (ht0 ht1 : Dictht K V) (idx : Nat) : Prop where
  first : TableOk type ht0
  second : TableOk type ht1
  allocated0 : ht0.size ≠ 0
  allocated1 : ht1.size ≠ 0
  below : ∀ i < idx, ht0.table i = []

structure Rehashed (d d' : Dict K V) (total : Multiset (DictEntry K V)) : Prop where
  first : TableOk type d'.ht0
  allocated : d'.ht0.size ≠ 0
  idle : d'.rehashidx = none → d'.ht1 = _dictReset
  busy : ∀ idx, d'.rehashidx = some idx → Moving type d'.ht0 d'.ht1 idx
  contents : d'.ht0.contents + d'.ht1.contents = total
  iterators : d'.iterators = d.iterators
  canResize : d'.canResize = d.canResize

theorem rehashFinish_ok (d : Dict K V) {ht0 ht1 : Dictht K V} {idx : Nat} (moving : Moving type ht0 ht1 idx) :
    Rehashed type d (rehashFinish d ht0 ht1 idx).1 (ht0.contents + ht1.contents) := by
  unfold rehashFinish
  split
  next done =>
    have empty : ht0.contents = 0 := Multiset.card_eq_zero.mp (moving.first.used ▸ done)
    exact { first := moving.second, allocated := moving.allocated1, idle := fun _ => rfl,
            busy := fun _ some => absurd some (by simp), iterators := rfl, canResize := rfl,
            contents := by rw [empty]; simp [_dictReset, Dictht.contents] }
  next =>
    exact { first := moving.first, allocated := moving.allocated0, idle := fun none => absurd none (by simp),
            busy := fun _ same => Option.some.inj same ▸ moving, iterators := rfl, canResize := rfl,
            contents := rfl }

theorem rehashLoop_ok (d : Dict K V) (n : Nat) (ht0 ht1 : Dictht K V) (idx : Nat)
    (emptyVisits : BitVec 32) (moving : Moving type ht0 ht1 idx) :
    ∃ d' more, rehashLoop type d n ht0 ht1 idx emptyVisits = .ok (d', more) ∧
      Rehashed type d d' (ht0.contents + ht1.contents) := by
  induction n generalizing ht0 ht1 idx emptyVisits with
  | zero => exact ⟨_, _, rfl, rehashFinish_ok type d moving⟩
  | succ n ih =>
    rw [rehashLoop]
    by_cases done : ht0.used = 0
    · rw [if_pos done]
      exact ⟨_, _, rfl, rehashFinish_ok type d moving⟩
    · obtain ⟨ahead, within, filled⟩ := exists_filled type moving.first done
      have after : idx ≤ ahead := by
        by_contra passed
        exact filled (moving.below ahead (by omega))
      rw [if_neg done, if_neg (by omega)]
      rcases skipEmpty_ok (ht0.slots - idx) idx ahead emptyVisits moving.below after filled
        (by rw [moving.first.slots]; omega) with ⟨idx', skipped, below⟩ | ⟨idx', visits', skipped, below, before⟩
      · simp only [skipped, bind, Except.bind]
        exact ⟨_, _, rfl, { first := moving.first, allocated := moving.allocated0,
                            idle := fun none => absurd none (by simp),
                            busy := fun _ same => Option.some.inj same ▸ { moving with below := below },
                            iterators := rfl, canResize := rfl, contents := rfl }⟩
      · have inside : idx' < ht0.size := by omega
        obtain ⟨ht1', moved, ok1, size1, contents1⟩ :=
          moveChain_ok type (ht0.table idx') ht0 ht1 moving.second moving.allocated1
        have used := moving.first.used
        have split_contents := chained_clear ht0.table inside
        have cleared : TableOk type { ht0 with
            table := Function.update ht0.table idx' []
            used := ht0.used - (ht0.table idx').length } := by
          refine moving.first.update type ht0 idx' _ [] inside (by simp) ?_
          have cards := congrArg Multiset.card split_contents
          simp only [Dictht.contents, Multiset.card_add, Multiset.coe_card] at used cards
          simp only [List.length_nil]
          omega
        have next : Moving type { ht0 with
            table := Function.update ht0.table idx' []
            used := ht0.used - (ht0.table idx').length } ht1' (idx' + 1) := by
          refine { first := cleared, second := ok1, allocated0 := moving.allocated0,
                   allocated1 := by rw [size1]; exact moving.allocated1, below := ?_ }
          intro i lower
          change Function.update ht0.table idx' [] i = []
          rcases Nat.lt_succ_iff_lt_or_eq.mp lower with smaller | same
          · rw [update_of_ne (by omega)]
            exact below i smaller
          · rw [same, update_self]
        obtain ⟨d', more, rest, rehashed⟩ := ih _ _ _ visits' next
        refine ⟨d', more, ?_, ?_⟩
        · simp only [skipped, bind, Except.bind, moved]
          rw [Dictht.setBucket, if_pos (by rw [moving.first.slots]; exact inside)]
          exact rest
        · have total : ht0.contents + ht1.contents =
              chained ht0.size (Function.update ht0.table idx' []) + ht1'.contents := by
            rw [contents1, Dictht.contents, split_contents]
            abel
          rw [total]
          exact rehashed

variable {d : Dict K V}

def DictType.setoid : Setoid K where
  r := fun a b => type.keyCompare a b = true
  iseqv := ⟨type.keyCompare_refl, fun {a b} => type.keyCompare_symm a b,
    fun {a b c} => type.keyCompare_trans a b c⟩

def DictType.keyClass (key : K) : Quotient type.setoid := Quotient.mk type.setoid key

theorem keyClass_eq (a b : K) : type.keyClass a = type.keyClass b ↔ type.keyCompare a b = true :=
  ⟨fun same => Quotient.exact same, fun same => Quotient.sound same⟩

def Dict.contents (d : Dict K V) : Multiset (DictEntry K V) := d.ht0.contents + d.ht1.contents

structure Valid (d : Dict K V) : Prop where
  first : TableOk type d.ht0
  idle : d.rehashidx = none → d.ht1 = _dictReset
  busy : ∀ idx, d.rehashidx = some idx → Moving type d.ht0 d.ht1 idx
  distinct : (d.contents.map fun he => type.keyClass he.key).Nodup
  room : 24 * Multiset.card d.contents < 2 ^ 63

theorem valid_create : Valid type (dictCreate : Dict K V) where
  first := tableOk_reset type
  idle := fun _ => rfl
  busy := fun _ some => absurd some (by simp [dictCreate])
  distinct := by simp [Dict.contents, dictCreate, _dictReset, Dictht.contents]
  room := by simp [Dict.contents, dictCreate, _dictReset, Dictht.contents]

theorem Valid.second (valid : Valid type d) : TableOk type d.ht1 := by
  cases rehashing : d.rehashidx with
  | none => rw [valid.idle rehashing]; exact tableOk_reset type
  | some idx => exact (valid.busy idx rehashing).second

theorem Valid.table (d : Dict K V) (valid : Valid type d) (second : Bool) : TableOk type (d.ht second) := by
  cases second with
  | false => exact valid.first
  | true => exact valid.second type

structure Preserves (d d' : Dict K V) : Prop where
  valid : Valid type d'
  contents : d'.contents = d.contents
  allocated : d.ht0.size ≠ 0 → d'.ht0.size ≠ 0
  canResize : d'.canResize = d.canResize

theorem Preserves.refl (valid : Valid type d) : Preserves type d d :=
  ⟨valid, rfl, id, rfl⟩

theorem Preserves.trans {a b c : Dict K V} (ab : Preserves type a b) (bc : Preserves type b c) :
    Preserves type a c :=
  ⟨bc.valid, bc.contents.trans ab.contents, fun there => bc.allocated (ab.allocated there),
    bc.canResize.trans ab.canResize⟩

theorem dictRehash_ok (n : BitVec 32) (valid : Valid type d) :
    ∃ d' more, dictRehash type d n = .ok (d', more) ∧ Preserves type d d' := by
  unfold dictRehash
  split
  next => exact ⟨d, false, rfl, Preserves.refl type valid⟩
  next idx rehashing =>
    obtain ⟨d', more, ran, rehashed⟩ :=
      rehashLoop_ok type d n.toNat d.ht0 d.ht1 idx (n * 10) (valid.busy idx rehashing)
    have contents : d'.contents = d.contents := rehashed.contents
    exact ⟨d', more, ran,
      { valid := { first := rehashed.first, idle := rehashed.idle, busy := rehashed.busy,
                   distinct := contents ▸ valid.distinct, room := contents ▸ valid.room },
        contents := contents, allocated := fun _ => rehashed.allocated,
        canResize := rehashed.canResize }⟩

theorem rehashStepIfRehashing_ok (valid : Valid type d) :
    ∃ d', rehashStepIfRehashing type d = .ok d' ∧ Preserves type d d' := by
  unfold rehashStepIfRehashing _dictRehashStep
  split
  next =>
    split
    next =>
      obtain ⟨d', more, ran, preserves⟩ := dictRehash_ok type 1 valid
      exact ⟨d', by rw [ran]; rfl, preserves⟩
    next => exact ⟨d, rfl, Preserves.refl type valid⟩
  next => exact ⟨d, rfl, Preserves.refl type valid⟩

theorem nextPowerLoop_spec (size rounds bits : Nat) (enough : size ≤ 2 ^ (bits + rounds)) (low : 2 ≤ bits) :
    ∃ final, nextPowerLoop size rounds (2 ^ bits) = 2 ^ final ∧ bits ≤ final ∧ size ≤ 2 ^ final ∧
      (final = bits ∨ 2 ^ final < 2 * size) := by
  induction rounds generalizing bits with
  | zero => exact ⟨bits, rfl, le_rfl, enough, Or.inl rfl⟩
  | succ rounds ih =>
    rw [nextPowerLoop]
    split
    next reached => exact ⟨bits, rfl, le_rfl, reached, Or.inl rfl⟩
    next short =>
      obtain ⟨final, value, above, covers, least⟩ :=
        ih (bits + 1) (by rw [show bits + 1 + rounds = bits + (rounds + 1) by omega]; exact enough) (by omega)
      refine ⟨final, by rw [← pow_succ, value], by omega, covers, Or.inr ?_⟩
      rcases least with same | small
      · rw [same, pow_succ]
        omega
      · exact small

theorem dictNextPower_spec (size : Nat) (small : size ≤ 2 ^ 60) :
    ∃ bits, _dictNextPower size = 2 ^ bits ∧ 2 ≤ bits ∧ bits ≤ 60 ∧ size ≤ 2 ^ bits := by
  have below : ¬longMax ≤ size := by
    simp only [longMax]
    omega
  obtain ⟨bits, value, low, covers, least⟩ :=
    nextPowerLoop_spec size 62 2 (le_trans small (Nat.pow_le_pow_right (by omega) (by omega))) le_rfl
  refine ⟨bits, ?_, low, ?_, covers⟩
  · rw [_dictNextPower, if_neg below, show dictHtInitialSize = 2 ^ 2 by rfl, value]
  · rcases least with same | tight
    · omega
    · have : 2 ^ bits < 2 ^ 61 := by omega
      have := (Nat.pow_lt_pow_iff_right (show 1 < 2 by omega)).mp this
      omega

theorem newTable_ok {bits : Nat} (low : 2 ≤ bits) (small : bits ≤ 60) :
    TableOk type (newTable (2 ^ bits) : Dictht K V) where
  slots := by
    have bound : 2 ^ bits ≤ 2 ^ 60 := Nat.pow_le_pow_right (by omega) small
    simp only [newTable]
    rw [Nat.mod_eq_of_lt (by omega), Nat.mul_div_cancel _ (by omega)]
  size := Or.inr ⟨bits, low, small, rfl⟩
  sizemask := rfl
  placed := fun _ _ _ member => absurd member (by simp [newTable])
  used := by simp [newTable, Dictht.contents, chained_empty]

theorem contents_newTable (realsize : Nat) : (newTable realsize : Dictht K V).contents = 0 :=
  chained_empty realsize

theorem contents_of_unallocated (t : Dictht K V) (empty : t.size = 0) : t.contents = 0 := by
  rw [Dictht.contents, empty, chained_zero]

variable {type}

theorem dictExpand_ok (size : Nat) (valid : Valid type d) (small : size ≤ 2 ^ 60) :
    Preserves type d (dictExpand d size).1 ∧
      ((dictExpand d size).2 = true → (dictExpand d size).1.ht0.size ≠ 0) := by
  obtain ⟨bits, value, low, bits_small, _⟩ := dictNextPower_spec size small
  have filled : (2 : Nat) ^ bits ≠ 0 := by positivity
  unfold dictExpand
  rw [value]
  dsimp only
  split
  next => exact ⟨Preserves.refl type valid, fun ok => absurd ok (by simp)⟩
  next idle =>
    have resting : d.rehashidx = none := by
      simp only [dictIsRehashing, not_or, Bool.not_eq_true, Option.isSome_eq_false_iff,
        Option.isNone_iff_eq_none] at idle
      exact idle.1
    have second := valid.idle resting
    split
    next => exact ⟨Preserves.refl type valid, fun ok => absurd ok (by simp)⟩
    next =>
      split
      next empty =>
        have nothing := contents_of_unallocated d.ht0 empty
        have contents : ({ d with ht0 := newTable (2 ^ bits) } : Dict K V).contents = d.contents := by
          simp only [Dict.contents, nothing, contents_newTable]
        refine ⟨⟨⟨newTable_ok type low bits_small, fun _ => second, ?_, contents ▸ valid.distinct,
          contents ▸ valid.room⟩, contents, fun _ => filled, rfl⟩, fun _ => filled⟩
        intro idx rehashing
        rw [resting] at rehashing
        exact absurd rehashing (by simp)
      next allocated =>
        have contents : ({ d with ht1 := newTable (2 ^ bits), rehashidx := some 0 } : Dict K V).contents =
            d.contents := by
          simp only [Dict.contents, second, contents_newTable]
          rw [contents_of_unallocated (_dictReset : Dictht K V) rfl]
        refine ⟨⟨⟨valid.first, fun none => absurd none (by simp), ?_, contents ▸ valid.distinct,
          contents ▸ valid.room⟩, contents, fun _ => allocated, rfl⟩, fun _ => allocated⟩
        intro idx rehashing
        cases rehashing
        exact { first := valid.first, second := newTable_ok type low bits_small,
                allocated0 := allocated, allocated1 := filled,
                below := fun i lower => absurd lower (Nat.not_lt_zero i) }

section

variable {d : Dict K V} (valid : Valid type d)

include valid

theorem used_eq :
    d.ht0.used + d.ht1.used = Multiset.card d.contents := by
  rw [valid.first.used, (valid.second type).used, Dict.contents, Multiset.card_add]

theorem Valid.allocated (nonempty : ¬d.ht0.used + d.ht1.used = 0) :
    d.ht0.size ≠ 0 := by
  intro empty
  cases rehashing : d.rehashidx with
  | none =>
    rw [valid.idle rehashing, valid.first.used, contents_of_unallocated _ empty] at nonempty
    exact nonempty rfl
  | some idx => exact (valid.busy idx rehashing).allocated0 empty

theorem dictResize_ok : Preserves type d (dictResize d).1 := by
  unfold dictResize
  split
  next => exact Preserves.refl type valid
  next =>
    refine (dictExpand_ok _ valid ?_).1
    have upper := Int.bmod_lt (x := d.ht0.used) (m := 2 ^ 32) (by omega)
    by_cases low : (d.ht0.used : Int).bmod (2 ^ 32) < dictHtInitialSize
    · rw [if_pos low]
      simp [dictHtInitialSize]
    · rw [if_neg low]
      omega

theorem dictExpandIfNeeded_ok :
    ∃ d', _dictExpandIfNeeded d = (d', true) ∧ Preserves type d d' ∧ d'.ht0.size ≠ 0 := by
  unfold _dictExpandIfNeeded
  split
  next rehashing =>
    obtain ⟨idx, some_idx⟩ := Option.isSome_iff_exists.mp rehashing
    exact ⟨d, rfl, Preserves.refl type valid, (valid.busy idx some_idx).allocated0⟩
  next resting =>
    split
    next empty =>
      have result : dictExpand d dictHtInitialSize = ((dictExpand d dictHtInitialSize).1, true) := by
        refine Prod.ext rfl ?_
        have nothing : d.ht0.used = 0 := by
          rw [valid.first.used, contents_of_unallocated d.ht0 empty, Multiset.card_zero]
        have four : _dictNextPower dictHtInitialSize = 4 := by decide
        simp [dictExpand, four, resting, nothing, empty]
      obtain ⟨preserves, allocated⟩ := dictExpand_ok dictHtInitialSize valid (by decide)
      exact ⟨_, result, preserves, allocated (by rw [result])⟩
    next allocated =>
      split
      next full =>
        have room := valid.room
        rw [← used_eq valid] at room
        have double : d.ht0.used * 2 % 2 ^ 64 = d.ht0.used * 2 := Nat.mod_eq_of_lt (by omega)
        rw [double]
        obtain ⟨bits, value, _, _, covers⟩ := dictNextPower_spec (d.ht0.used * 2) (by omega)
        have result : dictExpand d (d.ht0.used * 2) = ((dictExpand d (d.ht0.used * 2)).1, true) := by
          refine Prod.ext rfl ?_
          have grows : ¬2 ^ bits = d.ht0.size := by omega
          have fits : ¬d.ht0.used * 2 < d.ht0.used := by omega
          simp [dictExpand, value, resting, grows, fits, allocated]
        obtain ⟨preserves, _⟩ := dictExpand_ok (d.ht0.used * 2) valid (by omega)
        exact ⟨_, result, preserves, preserves.allocated allocated⟩
      next => exact ⟨d, rfl, Preserves.refl type valid, allocated⟩

end

end RedisCore.HashTable
