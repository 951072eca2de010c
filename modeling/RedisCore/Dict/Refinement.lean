import RedisCore.Dict.Entries
import RedisCore.Lib.Simulation

set_option autoImplicit false

namespace RedisCore.HashTable

open Buckets Multiset

variable {K V : Type} (type : DictType K)
variable {d : Dict K V}

inductive Op (K V : Type) where
  | add (key : K) (val : V)
  | replace (key : K) (val : V)
  | addOrFind (key : K) (fresh : V)
  | delete (key : K)
  | unlink (key : K)
  | find (key : K)
  | rehash (n : BitVec 32)
  | expand (size : Nat)
  | resize
  | setCanResize (enabled : Bool)
  | empty
  deriving DecidableEq, Repr

inductive Out (K V : Type) where
  | status (done : Bool)
  | entry (he : Option (DictEntry K V))
  | nothing
  deriving DecidableEq, Repr

def step (d : Dict K V) : Op K V → Except Stop (Dict K V × Out K V)
  | .add key val => (dictAdd type d key val).map fun r => (r.1, .status r.2)
  | .replace key val => (dictReplace type d key val).map fun r => (r.1, .status r.2)
  | .addOrFind key fresh => (dictAddOrFind type d key fresh).map fun r => (r.1, .entry r.2)
  | .delete key => (dictDelete type d key).map fun r => (r.1, .status r.2)
  | .unlink key => (dictUnlink type d key).map fun r => (r.1, .entry r.2)
  | .find key => (dictFind type d key).map fun r => (r.1, .entry r.2)
  | .rehash n => (dictRehash type d n).map fun r => (r.1, .nothing)
  | .expand size => .ok ((dictExpand d size).1, .nothing)
  | .resize => .ok ((dictResize d).1, .nothing)
  | .setCanResize enabled => .ok ({ d with canResize := enabled }, .nothing)
  | .empty => (dictEmpty d).map fun d => (d, .nothing)

-- A finite map from keys, up to the type's equality, to the entry stored for them.
abbrev FiniteMap (K V : Type) := K → Option (DictEntry K V)

def FiniteMap.set (m : FiniteMap K V) (key : K) (he : Option (DictEntry K V)) : FiniteMap K V :=
  fun other => if type.keyCompare other key then he else m other

def mapStep (m : FiniteMap K V) : Op K V → FiniteMap K V × Out K V
  | .add key val =>
    match m key with
    | some _ => (m, .status false)
    | none => (m.set type key (some ⟨key, val⟩), .status true)
  | .replace key val =>
    match m key with
    | some he => (m.set type key (some { he with val := val }), .status false)
    | none => (m.set type key (some ⟨key, val⟩), .status true)
  | .addOrFind key fresh =>
    match m key with
    | some he => (m, .entry (some he))
    | none => (m.set type key (some ⟨key, fresh⟩), .entry (some ⟨key, fresh⟩))
  | .delete key => (m.set type key none, .status (m key).isSome)
  | .unlink key => (m.set type key none, .entry (m key))
  | .find key => (m, .entry (m key))
  | .rehash _ => (m, .nothing)
  | .expand _ => (m, .nothing)
  | .resize => (m, .nothing)
  | .setCanResize _ => (m, .nothing)
  | .empty => (fun _ => none, .nothing)

-- The entries chained in the two tables are the graph of the map.
def Holds (contents : Multiset (DictEntry K V)) (m : FiniteMap K V) : Prop :=
  ∀ key he, m key = some he ↔ he ∈ contents ∧ type.keyCompare key he.key = true

structure Represents (d : Dict K V) (m : FiniteMap K V) : Prop where
  valid : Valid type d
  holds : Holds type d.contents m

theorem compare_of_compare {a b c : K} (ab : type.keyCompare a b = true) (ac : type.keyCompare a c = true) :
    type.keyCompare b c = true :=
  type.keyCompare_trans b a c (type.keyCompare_symm a b ab) ac

variable {m : FiniteMap K V}

theorem Holds.none_iff {contents : Multiset (DictEntry K V)}
    (holds : Holds type contents m) (key : K) :
    m key = none ↔ ∀ he ∈ contents, ¬type.keyCompare key he.key = true := by
  constructor
  · intro absent he member same
    have found := (holds key he).mpr ⟨member, same⟩
    rw [absent] at found
    exact absurd found (by simp)
  · intro absent
    cases found : m key with
    | none => rfl
    | some he =>
      obtain ⟨member, same⟩ := (holds key he).mp found
      exact absurd same (absent he member)

theorem holds_insert {contents : Multiset (DictEntry K V)}
    (holds : Holds type contents m) {key : K} (val : V)
    (absent : ∀ he ∈ contents, ¬type.keyCompare key he.key = true) :
    Holds type (⟨key, val⟩ ::ₘ contents) (m.set type key (some ⟨key, val⟩)) := by
  intro other he
  rw [FiniteMap.set, mem_cons]
  split
  next same =>
    constructor
    · rintro ⟨rfl⟩
      exact ⟨Or.inl rfl, same⟩
    · rintro ⟨rfl | member, equal⟩
      · rfl
      · exact absurd (compare_of_compare type same equal) (absent he member)
  next differs =>
    rw [holds other he]
    constructor
    · rintro ⟨member, equal⟩
      exact ⟨Or.inr member, equal⟩
    · rintro ⟨rfl | member, equal⟩
      · exact absurd equal differs
      · exact ⟨member, equal⟩

theorem holds_rewrite {contents rest : Multiset (DictEntry K V)} {key : K}
    {he : DictEntry K V} (holds : Holds type contents m) (split_contents : contents = he ::ₘ rest)
    (distinct : (contents.map fun entry => type.keyClass entry.key).Nodup)
    (same : type.keyCompare key he.key = true) (val : V) :
    Holds type ({ he with val := val } ::ₘ rest) (m.set type key (some { he with val := val })) ∧
      Holds type rest (m.set type key none) := by
  have others (entry : DictEntry K V) (member : entry ∈ rest) : ¬type.keyCompare key entry.key = true := by
    intro equal
    rw [split_contents, map_cons, nodup_cons] at distinct
    refine distinct.1 (mem_map.mpr ⟨entry, member, ?_⟩)
    exact ((keyClass_eq type _ _).mpr (compare_of_compare type same equal)).symm
  have through (other : K) (near : type.keyCompare other key = true) (entry : DictEntry K V)
      (equal : type.keyCompare other entry.key = true) : type.keyCompare key entry.key = true :=
    compare_of_compare type near equal
  constructor
  · intro other entry
    rw [FiniteMap.set, mem_cons]
    split
    next near =>
      constructor
      · rintro ⟨rfl⟩
        exact ⟨Or.inl rfl, type.keyCompare_trans _ _ _ near same⟩
      · rintro ⟨rfl | member, equal⟩
        · rfl
        · exact absurd (through other near entry equal) (others entry member)
    next far =>
      rw [holds other entry, split_contents, mem_cons]
      have apart : ¬type.keyCompare other he.key = true := fun equal =>
        far (type.keyCompare_trans _ _ _ equal (type.keyCompare_symm _ _ same))
      constructor
      · rintro ⟨rfl | member, equal⟩
        · exact absurd equal apart
        · exact ⟨Or.inr member, equal⟩
      · rintro ⟨rfl | member, equal⟩
        · exact absurd equal apart
        · exact ⟨Or.inr member, equal⟩
  · intro other entry
    rw [FiniteMap.set]
    split
    next near =>
      constructor
      · intro impossible
        exact absurd impossible (by simp)
      · rintro ⟨member, equal⟩
        exact absurd (through other near entry equal) (others entry member)
    next far =>
      rw [holds other entry, split_contents, mem_cons]
      have apart : ¬type.keyCompare other he.key = true := fun equal =>
        far (type.keyCompare_trans _ _ _ equal (type.keyCompare_symm _ _ same))
      constructor
      · rintro ⟨rfl | member, equal⟩
        · exact absurd equal apart
        · exact ⟨member, equal⟩
      · rintro ⟨member, equal⟩
        exact ⟨Or.inr member, equal⟩

theorem Represents.preserved {d' : Dict K V} (related : Represents type d m)
    (preserves : Preserves type d d') : Represents type d' m :=
  ⟨preserves.valid, preserves.contents ▸ related.holds⟩

section

variable {d : Dict K V} {m : FiniteMap K V}

theorem dictAddRaw_ok (key : K) (fresh : V) (related : Represents type d m) :
    (dictAddRaw type d key fresh = .error .oom ∧ 2 ^ 63 ≤ 24 * (Multiset.card d.contents + 1)) ∨
    (∃ d' idx, dictAddRaw type d key fresh = .ok (d', .free idx) ∧ m key = none ∧
      Represents type d' (m.set type key (some ⟨key, fresh⟩))) ∨
    ∃ d' ref he, dictAddRaw type d key fresh = .ok (d', .existing ref) ∧ m key = some he ∧
      Represents type d' m ∧ Points d' ref he ∧ type.keyCompare key he.key = true := by
  obtain ⟨d₁, stepped, preserves₁⟩ := rehashStepIfRehashing_ok type related.valid
  obtain ⟨d₂, expanded, preserves₂, allocated⟩ := dictExpandIfNeeded_ok preserves₁.valid
  have preserves := preserves₁.trans type preserves₂
  have related₂ := related.preserved type preserves
  rcases searchTables_ok key related₂.valid allocated with
    ⟨missing, absent⟩ | ⟨ref, he, found, points, same⟩
  · rcases insertEntry_ok fresh related₂.valid allocated absent with
      ⟨full, crowded⟩ | ⟨d₃, inserted, valid, contents, _⟩
    · refine Or.inl ⟨?_, preserves.contents ▸ crowded⟩
      simp [dictAddRaw, stepped, _dictKeyIndex, expanded, missing, full]
    · refine Or.inr (Or.inl ⟨d₃, (d₂.ht (dictIsRehashing d₂)).index (type.hashFunction key), ?_,
        (related₂.holds.none_iff type key).mpr absent, valid, ?_⟩)
      · simp [dictAddRaw, stepped, _dictKeyIndex, expanded, missing, inserted]
      · rw [contents]
        exact holds_insert type related₂.holds fresh absent
  · refine Or.inr (Or.inr ⟨d₂, ref, he, ?_, ?_, related₂, points, same⟩)
    · simp [dictAddRaw, stepped, _dictKeyIndex, expanded, found]
    · exact (related₂.holds key he).mpr ⟨points.mem, same⟩

theorem lookup_ok (key : K) (related : Represents type d m)
    (nonempty : ¬(d.ht0.used + d.ht1.used = 0)) :
    ∃ d', rehashStepIfRehashing type d = .ok d' ∧ Represents type d' m ∧
      ((searchTables type d' key = .ok none ∧ m key = none) ∨
        ∃ ref he, searchTables type d' key = .ok (some ref) ∧ Points d' ref he ∧ m key = some he ∧
          type.keyCompare key he.key = true) := by
  obtain ⟨d', stepped, preserves⟩ := rehashStepIfRehashing_ok type related.valid
  have related' := related.preserved type preserves
  have allocated := preserves.allocated (related.valid.allocated nonempty)
  refine ⟨d', stepped, related', ?_⟩
  rcases searchTables_ok key related'.valid allocated with
    ⟨missing, absent⟩ | ⟨ref, he, found, points, same⟩
  · exact Or.inl ⟨missing, (related'.holds.none_iff type key).mpr absent⟩
  · exact Or.inr ⟨ref, he, found, points, (related'.holds key he).mpr ⟨points.mem, same⟩, same⟩

theorem map_empty (related : Represents type d m)
    (empty : d.ht0.used + d.ht1.used = 0) (key : K) : m key = none := by
  rw [used_eq related.valid] at empty
  refine (related.holds.none_iff type key).mpr fun he member => ?_
  rw [card_eq_zero.mp empty] at member
  exact absurd member (notMem_zero he)

end

theorem set_none_of_none {contents : Multiset (DictEntry K V)}
    (holds : Holds type contents m) {key : K} (absent : m key = none) : m.set type key none = m := by
  funext other
  rw [FiniteMap.set]
  split
  next same =>
    refine ((holds.none_iff type other).mpr fun he member equal => ?_).symm
    exact (holds.none_iff type key).mp absent he member (compare_of_compare type same equal)
  next => rfl

theorem dictFind_ok (key : K) (related : Represents type d m) :
    ∃ d', dictFind type d key = .ok (d', m key) ∧ Represents type d' m := by
  unfold dictFind
  split
  next empty => exact ⟨d, by rw [map_empty type related empty key], related⟩
  next nonempty =>
    obtain ⟨d', stepped, related', ⟨missing, absent⟩ | ⟨ref, he, found, points, value, _⟩⟩ :=
      lookup_ok type key related nonempty
    · exact ⟨d', by simp [stepped, missing, absent], related'⟩
    · exact ⟨d', by simp [stepped, found, value, deref_ok points], related'⟩

theorem dictGenericDelete_ok (key : K) (related : Represents type d m) :
    ∃ d', dictGenericDelete type d key = .ok (d', m key) ∧ Represents type d' (m.set type key none) := by
  unfold dictGenericDelete
  split
  next empty =>
    have absent := map_empty type related (by omega) key
    refine ⟨d, by rw [absent], ?_⟩
    rw [set_none_of_none type related.holds absent]
    exact related
  next nonempty =>
    obtain ⟨d', stepped, related', ⟨missing, absent⟩ | ⟨ref, he, found, points, value, same⟩⟩ :=
      lookup_ok type key related (by omega)
    · refine ⟨d', by simp [stepped, missing, absent], ?_⟩
      rw [set_none_of_none type related'.holds absent]
      exact related'
    · obtain ⟨d'', unlinked, valid, contents⟩ := unlinkEntry_ok related'.valid points
      refine ⟨d'', by simp [stepped, found, value, deref_ok points, unlinked], valid, ?_⟩
      exact (holds_rewrite type related'.holds contents related'.valid.distinct same he.val).2

theorem clearLoop_ok (t : Dictht K V) (left i used : Nat) (within : i + left ≤ t.slots) :
    clearLoop t left i used = .ok () := by
  induction left generalizing i used with
  | zero => rfl
  | succ left ih =>
    rw [clearLoop]
    split
    next => rfl
    next =>
      rw [Dictht.bucket, if_pos (by omega)]
      exact ih (i + 1) _ (by omega)

theorem dictClear_ok {t : Dictht K V} (ok : TableOk type t) : _dictClear t = .ok _dictReset := by
  rw [_dictClear, clearLoop_ok t t.size 0 t.used (by rw [ok.slots]; omega)]
  rfl

theorem step_simulates {op : Op K V} (related : Represents type d m)
    (sizes : ∀ size, op = .expand size → size ≤ 2 ^ 60) :
    step type d op = .error .oom ∨
      ∃ d', step type d op = .ok (d', (mapStep type m op).2) ∧ Represents type d' (mapStep type m op).1 := by
  cases op with
  | add key val =>
    rcases dictAddRaw_ok type key val related with
      ⟨full, _⟩ | ⟨d', idx, added, absent, related'⟩ | ⟨d', ref, he, found, present, related', _, _⟩
    · exact Or.inl (by simp [step, dictAdd, full, Except.map])
    · exact Or.inr ⟨d', by simp [step, dictAdd, added, mapStep, absent, Except.map, pure,
        Except.pure], by simpa [mapStep, absent] using related'⟩
    · exact Or.inr ⟨d', by simp [step, dictAdd, found, mapStep, present, Except.map, pure,
        Except.pure], by simpa [mapStep, present] using related'⟩
  | replace key val =>
    rcases dictAddRaw_ok type key val related with
      ⟨full, _⟩ | ⟨d', idx, added, absent, related'⟩ | ⟨d', ref, he, found, present, related', points, same⟩
    · exact Or.inl (by simp [step, dictReplace, full, Except.map])
    · exact Or.inr ⟨d', by simp [step, dictReplace, added, mapStep, absent, Except.map, pure,
        Except.pure], by simpa [mapStep, absent] using related'⟩
    · obtain ⟨d'', rest, set_value, valid, contents, changed⟩ :=
        setVal_ok val related'.valid points
      refine Or.inr ⟨d'', by simp [step, dictReplace, found, set_value, mapStep, present,
        Except.map, pure, Except.pure], ?_⟩
      have rewritten := (holds_rewrite type related'.holds contents
        related'.valid.distinct same val).1
      rw [← changed] at rewritten
      simpa [mapStep, present] using (⟨valid, rewritten⟩ : Represents type d'' _)
  | addOrFind key fresh =>
    rcases dictAddRaw_ok type key fresh related with
      ⟨full, _⟩ | ⟨d', idx, added, absent, related'⟩ | ⟨d', ref, he, found, present, related', points, same⟩
    · exact Or.inl (by simp [step, dictAddOrFind, full, Except.map])
    · exact Or.inr ⟨d', by simp [step, dictAddOrFind, added, mapStep, absent, Except.map,
        pure, Except.pure], by simpa [mapStep, absent] using related'⟩
    · exact Or.inr ⟨d', by simp [step, dictAddOrFind, found, deref_ok points, mapStep, present, Except.map, pure, Except.pure], by simpa [mapStep, present] using related'⟩
  | delete key =>
    obtain ⟨d', deleted, related'⟩ := dictGenericDelete_ok type key related
    exact Or.inr ⟨d', by simp [step, dictDelete, deleted, mapStep, Except.map], related'⟩
  | unlink key =>
    obtain ⟨d', deleted, related'⟩ := dictGenericDelete_ok type key related
    exact Or.inr ⟨d', by simp [step, dictUnlink, deleted, mapStep, Except.map], related'⟩
  | find key =>
    obtain ⟨d', found, related'⟩ := dictFind_ok type key related
    exact Or.inr ⟨d', by simp [step, found, mapStep, Except.map], related'⟩
  | rehash n =>
    obtain ⟨d', more, rehashed, preserves⟩ := dictRehash_ok type n related.valid
    exact Or.inr ⟨d', by simp [step, rehashed, mapStep, Except.map], related.preserved type preserves⟩
  | expand size =>
    exact Or.inr ⟨_, rfl, related.preserved type (dictExpand_ok size related.valid (sizes size rfl)).1⟩
  | resize => exact Or.inr ⟨_, rfl, related.preserved type (dictResize_ok related.valid)⟩
  | setCanResize enabled =>
    have valid := related.valid
    exact Or.inr ⟨_, rfl, ⟨valid.first, valid.idle, valid.busy, valid.distinct, valid.room⟩, related.holds⟩
  | empty =>
    refine Or.inr ⟨{ d with ht0 := _dictReset, ht1 := _dictReset, rehashidx := none, iterators := 0 }, ?_, ?_⟩
    · simp [step, dictEmpty, dictClear_ok type related.valid.first,
        dictClear_ok type (related.valid.second type), mapStep, Except.map, pure,
        Except.pure]
    · have contents : ({ d with ht0 := _dictReset, ht1 := _dictReset, rehashidx := none, iterators := 0 } :
          Dict K V).contents = 0 := by simp [Dict.contents, contents_of_unallocated, _dictReset]
      refine ⟨⟨tableOk_reset type, fun _ => rfl, fun _ some => absurd some (by simp), ?_, ?_⟩, ?_⟩
      · rw [contents]; simp
      · rw [contents]; simp
      · rw [contents]
        intro key he
        simp [mapStep]

def run (ops : List (Op K V)) : Except Stop (Dict K V × List (Out K V)) :=
  Simulation.runOut (step type) ops dictCreate

def mapRun (ops : List (Op K V)) : FiniteMap K V × List (Out K V) :=
  Simulation.specOut (mapStep type) ops fun _ => none

theorem represents_create : Represents type (dictCreate : Dict K V) fun _ => none :=
  ⟨valid_create type, fun key he => by simp [Dict.contents, dictCreate, contents_of_unallocated, _dictReset]⟩

-- The allocation of the buckets wraps for sizes above 2^60.
theorem dict_refines_map (ops : List (Op K V)) (sizes : ∀ size, Op.expand size ∈ ops → size ≤ 2 ^ 60) :
    run type ops = .error .oom ∨
      ∃ d, run type ops = .ok (d, (mapRun type ops).2) ∧ Valid type d ∧
        Holds type d.contents (mapRun type ops).1 := by
  have simulation := Simulation.runOut_simulates (step type) (mapStep type) (Represents type)
    (fun op => ∀ size, op = .expand size → size ≤ 2 ^ 60) .oom
    (fun d m op related allowed => step_simulates type related allowed) ops dictCreate
    (fun _ => none) (represents_create type)
    (fun op member size same => sizes size (same ▸ member))
  rcases simulation with stopped | ⟨d, ran, related⟩
  · exact Or.inl stopped
  · exact Or.inr ⟨d, ran, related.valid, related.holds⟩

def boolType : DictType Bool where
  hashFunction := fun key => if key then 1 else 0
  keyCompare := fun a b => a == b
  keyCompare_refl := by decide
  keyCompare_symm := by decide
  keyCompare_trans := by decide
  hash_eq := by decide

theorem dict_refines_map_small : ∃ d, run boolType
      [.add true 1, .add true 2, .expand 16, .find true, .delete true, .add false (3 : Nat)] =
        .ok (d, [.status true, .status false, .nothing, .entry (some ⟨true, 1⟩), .status true, .status true]) ∧
    Valid boolType d := by
  rcases dict_refines_map boolType
      [.add true 1, .add true 2, .expand 16, .find true, .delete true, .add false (3 : Nat)]
      (by simp) with stopped | ⟨d, ran, valid, _⟩
  · exact absurd stopped (by intro same; cases same)
  · exact ⟨d, ran, valid⟩

theorem dictExpand_overflow : run boolType [.expand (2 ^ 61), .add true (1 : Nat)] = .error .fault ∧
      (mapRun boolType [.expand (2 ^ 61), .add true (1 : Nat)]).2 = [.nothing, .status true] :=
  ⟨rfl, rfl⟩

end RedisCore.HashTable
