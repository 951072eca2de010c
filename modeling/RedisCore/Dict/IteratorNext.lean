import RedisCore.Dict.IteratorMoves

set_option autoImplicit false

namespace RedisCore.HashTable

open Buckets List

section

variable {K V : Type}

-- In bucket k of a table or behind it; the second table comes after the first.
def From (d : Dict K V) (second : Bool) (k : Nat) (x : DictEntry K V) : Prop :=
  (∃ j, k ≤ j ∧ j < (d.ht second).size ∧ x ∈ (d.ht second).table j) ∨ second = false ∧ ∃ j < d.ht1.size, x ∈ d.ht1.table j

def bucketsLeft (d : Dict K V) (second : Bool) (k : Nat) : Nat :=
  ((d.ht second).size - k) + if second then 0 else d.ht1.size + 1

/-- Where the iterator is between two steps: in bucket i, with rest still to come. -/
structure Standing (d : Dict K V) (iter : DictIterator K) (i : Nat) (passed rest : List (DictEntry K V)) : Prop where
  index : iter.index = i
  within : i < (d.ht iter.table).size
  active : iter.table = true → dictIsRehashing d = true
  chain : (d.ht iter.table).table i = passed ++ rest
  entry : iter.entry ≠ none
  next : iter.nextEntry = nextOf rest

def Ahead (d : Dict K V) (iter : DictIterator K) (i : Nat) (rest : List (DictEntry K V)) (x : DictEntry K V) : Prop :=
  x ∈ rest ∨ From d iter.table (i + 1) x

def Arrives (d : Dict K V) (before : DictEntry K V → Prop) (iter : DictIterator K) (found : Option (DictEntry K V)) : Prop :=
  (found = none ∧ 0 ≤ iter.index ∧ ∀ x, ¬before x) ∨ ∃ he i passed rest, found = some he ∧ Standing d iter i (passed ++ [he]) rest ∧
    ∀ x, before x ↔ x = he ∨ Ahead d iter i rest x

theorem from_zero (d : Dict K V) (x : DictEntry K V) : From d false 0 x ↔ x ∈ d.contents := by
  rw [Dict.contents, Multiset.mem_add, Dictht.contents, Dictht.contents, mem_chained, mem_chained]
  simp [From, Dict.ht]

theorem from_succ {d : Dict K V} {second : Bool} {k : Nat} (x : DictEntry K V) (within : k < (d.ht second).size) :
    From d second k x ↔ x ∈ (d.ht second).table k ∨ From d second (k + 1) x := by
  constructor
  · rintro (⟨j, least, inside, member⟩ | other)
    · rcases Nat.eq_or_lt_of_le least with rfl | behind
      · exact .inl member
      · exact .inr (.inl ⟨j, behind, inside, member⟩)
    · exact .inr (.inr other)
  · rintro (member | ⟨j, behind, inside, member⟩ | other)
    · exact .inl ⟨k, le_rfl, within, member⟩
    · exact .inl ⟨j, by omega, inside, member⟩
    · exact .inr other

theorem from_second {d : Dict K V} {k : Nat} (x : DictEntry K V) (past : (d.ht false).size ≤ k) :
    From d false k x ↔ From d true 0 x := by
  constructor
  · rintro (⟨j, least, inside, _⟩ | ⟨_, j, inside, member⟩)
    · omega
    · exact .inl ⟨j, Nat.zero_le j, inside, member⟩
  · rintro (⟨j, _, inside, member⟩ | ⟨impossible, _⟩)
    · exact .inr ⟨rfl, j, inside, member⟩
    · cases impossible

theorem from_mem {d : Dict K V} {second : Bool} {k : Nat} {x : DictEntry K V} (inside : From d second k x) : x ∈ d.contents := by
  rw [← from_zero]
  rcases inside with ⟨j, _, inside, member⟩ | ⟨_, other⟩
  · cases second with
    | false => exact .inl ⟨j, Nat.zero_le j, inside, member⟩
    | true => exact .inr ⟨rfl, j, inside, member⟩
  · exact .inr ⟨rfl, other⟩

end

section

variable {K V : Type} {type : DictType K} {d : Dict K V} (valid : Valid type d)

include valid

theorem nextBucket_ok {iter : DictIterator K} {k : Nat} (at_k : iter.index + 1 = k)
    (active : iter.table = true → dictIsRehashing d = true) :
    (nextBucket d iter = none ∧ ∀ x, ¬From d iter.table k x) ∨
    ∃ (s : Bool) (i : Nat), nextBucket d iter = some { iter with table := s, index := (i : Int) } ∧ i < (d.ht s).size ∧
      (s = true → dictIsRehashing d = true) ∧ (∀ x, From d iter.table k x ↔ x ∈ (d.ht s).table i ∨ From d s (i + 1) x) ∧
      bucketsLeft d s (i + 1) < bucketsLeft d iter.table k := by
  unfold nextBucket
  rw [at_k]
  by_cases past : (d.ht iter.table).size ≤ k
  · rw [if_pos (by exact_mod_cast past)]
    by_cases switches : dictIsRehashing d ∧ iter.table = false
    · obtain ⟨rehashing, first⟩ := switches
      obtain ⟨idx, some_idx⟩ := Option.isSome_iff_exists.mp rehashing
      have within : 0 < (d.ht true).size := Nat.pos_of_ne_zero (valid.busy idx some_idx).allocated1
      refine .inr ⟨true, 0, by simp [rehashing, first], within, fun _ => rehashing, fun x => ?_, ?_⟩
      · rw [first] at past ⊢
        rw [from_second x past, from_succ x within]
      · have size : (d.ht true).size = d.ht1.size := rfl
        simp only [bucketsLeft, first, size, if_true, Bool.false_eq_true, if_false]
        omega
    · rw [if_neg switches]
      refine .inl ⟨rfl, ?_⟩
      rintro x (⟨j, least, inside, _⟩ | ⟨first, j, inside, member⟩)
      · omega
      · have resting : d.rehashidx = none := by
          cases idx : d.rehashidx with
          | none => rfl
          | some i => exact absurd ⟨by simp [dictIsRehashing, idx], first⟩ switches
        rw [valid.idle resting] at inside
        exact absurd inside (Nat.not_lt_zero j)
  · rw [if_neg (by exact_mod_cast past)]
    refine .inr ⟨iter.table, k, rfl, not_le.mp past, active, fun x => from_succ x (not_le.mp past), ?_⟩
    unfold bucketsLeft
    omega

theorem nextLoop_ok (fuel : Nat) (iter : DictIterator K) (k : Nat) (at_k : iter.index + 1 = k) (empty : iter.entry = none)
    (active : iter.table = true → dictIsRehashing d = true) (enough : bucketsLeft d iter.table k < fuel) :
    ∃ iter' found, nextLoop type d fuel iter = .ok (iter', found) ∧ Arrives d (From d iter.table k) iter' found := by
  induction fuel generalizing iter k with
  | zero => omega
  | succ fuel ih =>
    rw [nextLoop]
    simp only [empty]
    rcases nextBucket_ok valid at_k active with ⟨stops, nothing⟩ | ⟨s, i, goes, within, active', splits, fewer⟩
    · rw [stops]
      exact ⟨_, none, rfl, .inl ⟨rfl, by simp [at_k], nothing⟩⟩
    · have read := (valid.table type d s).bucket_eq type within
      simp only [goes, Int.toNat_natCast, read, ok_bind]
      cases chain : (d.ht s).table i with
      | nil =>
        obtain ⟨iter', found, ran, arrives⟩ := ih ⟨s, i, none, iter.nextEntry⟩ (i + 1) (by simp) rfl active' (by simp only; omega)
        refine ⟨iter', found, ran, ?_⟩
        have same : From d iter.table k = From d s (i + 1) := by
          funext x
          rw [splits, chain]
          simp
        rwa [same]
      | cons he rest =>
        refine ⟨_, _, rfl, .inr ⟨he, i, [], rest, rfl, ⟨rfl, within, active', chain, by simp, rfl⟩, fun x => ?_⟩⟩
        rw [splits, chain, mem_cons, Ahead, or_assoc]

theorem chain_nodup {s : Bool} {i : Nat} (within : i < (d.ht s).size) : (((d.ht s).table i).map fun he => type.keyClass he.key).Nodup := by
  have distinct := valid.distinct
  rw [contents_ht d s, Dictht.contents, chained_clear _ within, add_assoc, Multiset.map_add] at distinct
  exact Multiset.coe_nodup.mp (Multiset.nodup_add.mp distinct).1

theorem place_unique (s t : Bool) (i j : Nat) (x y : DictEntry K V) (within : i < (d.ht s).size) (inside : j < (d.ht t).size)
    (at_x : x ∈ (d.ht s).table i) (at_y : y ∈ (d.ht t).table j) (same : type.keyCompare x.key y.key = true) : s = t ∧ i = j := by
  by_cases tables : s = t
  · subst tables
    have home_x := (valid.table type d s).placed i within x at_x
    have home_y := (valid.table type d s).placed j inside y at_y
    rw [type.hash_eq x.key y.key same] at home_x
    exact ⟨rfl, home_x.symm.trans home_y⟩
  · obtain rfl : t = !s := by cases s <;> cases t <;> simp_all
    have distinct := valid.distinct
    rw [contents_ht d s, Multiset.map_add] at distinct
    have disjoint := (Multiset.nodup_add.mp distinct).2.2
    refine absurd ?_ (Multiset.disjoint_left.mp disjoint (Multiset.mem_map_of_mem _ ((mem_chained _ _ x).mpr ⟨i, within, at_x⟩)))
    rw [(keyClass_eq type x.key y.key).mpr same]
    exact Multiset.mem_map_of_mem _ ((mem_chained _ _ y).mpr ⟨j, inside, at_y⟩)

theorem follow_ok {iter : DictIterator K} {i : Nat} {passed rest : List (DictEntry K V)} {he : DictEntry K V}
    (standing : Standing d iter i passed (he :: rest)) : follow type (passed ++ he :: rest) he.key = .ok (he, nextOf rest) := by
  have distinct := chain_nodup valid standing.within
  rw [standing.chain, map_append] at distinct
  have apart := (nodup_append.mp distinct).2.2
  have skipped : ((passed ++ he :: rest).dropWhile fun x => !type.keyCompare he.key x.key) = he :: rest := by
    rw [dropWhile_append_of_pos]
    · simp [type.keyCompare_refl]
    · intro x member
      rw [Bool.not_eq_true', ← Bool.not_eq_true]
      intro same
      exact apart _ (mem_map_of_mem member) _ (mem_map_of_mem mem_cons_self) ((keyClass_eq type _ _).mpr
        (type.keyCompare_symm _ _ same))
  rw [follow, skipped]

theorem dictNext_standing {iter : DictIterator K} {i : Nat} {passed rest : List (DictEntry K V)} (standing : Standing d iter i passed rest) :
    ∃ iter' found, dictNext type d iter = .ok (d, iter', found) ∧ Arrives d (Ahead d iter i rest) iter' found := by
  have counted : ¬(iter.entry.isNone ∧ iter.index = -1 ∧ iter.table = false) := by
    rw [standing.index]
    rintro ⟨_, impossible, _⟩
    omega
  obtain ⟨key, entry⟩ := Option.ne_none_iff_exists'.mp standing.entry
  have within := standing.within
  rw [dictNext]
  simp only [if_neg counted]
  cases rest with
  | nil =>
    have next := standing.next
    have enough : bucketsLeft d iter.table (i + 1) < d.ht0.size + d.ht1.size + 1 := by
      unfold bucketsLeft
      cases table : iter.table with
      | false =>
        rw [table] at within
        have size : (d.ht false).size = d.ht0.size := rfl
        simp only [size] at within ⊢
        simp only [Bool.false_eq_true, if_false]
        omega
      | true =>
        have size : (d.ht true).size = d.ht1.size := rfl
        simp only [size, if_true]
        omega
    obtain ⟨iter', found, ran, arrives⟩ := nextLoop_ok valid (d.ht0.size + d.ht1.size + 1) { iter with entry := none } (i + 1)
      (by simp [standing.index]) rfl standing.active enough
    have loop : nextLoop type d (d.ht0.size + d.ht1.size + 2) iter = .ok (iter', found) := by
      rw [nextLoop]
      simp only [next, nextOf, head?_nil, Option.map_none] at ran
      simp only [entry, next, nextOf, head?_nil, Option.map_none]
      exact ran
    have same : Ahead d iter i [] = From d iter.table (i + 1) := by
      funext x
      simp [Ahead]
    refine ⟨iter', found, by rw [loop]; rfl, ?_⟩
    rw [same]
    exact arrives
  | cons he rest =>
    have next := standing.next
    have read := (valid.table type d iter.table).bucket_eq type within
    have followed := follow_ok valid standing
    have loop : nextLoop type d (d.ht0.size + d.ht1.size + 2) iter =
        .ok ({ iter with entry := some he.key, nextEntry := nextOf rest }, some he) := by
      rw [nextLoop]
      simp only [entry, next, nextOf, head?_cons, Option.map_some, standing.index, Int.toNat_natCast, read, standing.chain, ok_bind, followed]
      rfl
    refine ⟨_, _, by rw [loop]; rfl, .inr ⟨he, i, passed, rest, rfl, ?_, fun x => ?_⟩⟩
    · exact ⟨standing.index, within, standing.active, by rw [standing.chain]; simp, by simp, rfl⟩
    · rw [Ahead, mem_cons, or_assoc]
      rfl

theorem dictNext_first : ∃ iter found, dictNext type d dictGetSafeIterator = .ok ({ d with iterators := d.iterators + 1 }, iter, found) ∧
    Arrives { d with iterators := d.iterators + 1 } (fun x => x ∈ d.contents) iter found := by
  have valid' : Valid type { d with iterators := d.iterators + 1 } := ⟨valid.first, valid.idle, valid.busy, valid.distinct, valid.room⟩
  obtain ⟨iter, found, ran, arrives⟩ := nextLoop_ok valid' (d.ht0.size + d.ht1.size + 2) dictGetSafeIterator 0 rfl rfl
    (by simp [dictGetSafeIterator]) (by simp [bucketsLeft, dictGetSafeIterator, Dict.ht]; omega)
  have same : From { d with iterators := d.iterators + 1 } (dictGetSafeIterator : DictIterator K).table 0 = fun x => x ∈ d.contents := by
    funext x
    exact propext (from_zero { d with iterators := d.iterators + 1 } x)
  rw [same] at arrives
  refine ⟨iter, found, ?_, arrives⟩
  rw [dictNext]
  simp only [dictGetSafeIterator, Option.isNone_none, and_self, if_true]
  rw [show (⟨false, -1, none, none⟩ : DictIterator K) = dictGetSafeIterator from rfl, ran]
  rfl

end

end RedisCore.HashTable
