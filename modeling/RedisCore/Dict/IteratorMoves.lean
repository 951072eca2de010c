import RedisCore.Dict.Entries
import RedisCore.Lib.Tour

set_option autoImplicit false

namespace RedisCore.HashTable

open Buckets Tour

-- An entry is addressed by its key, which a dict holds once; table is true for the second one.
structure DictIterator (K : Type) where
  table : Bool
  index : Int
  entry : Option K
  nextEntry : Option K

section

variable {K V : Type} (type : DictType K)

def dictGetSafeIterator : DictIterator K := ⟨false, -1, none, none⟩

-- What entry->next points to.
def nextOf (chain : List (DictEntry K V)) : Option K := chain.head?.map DictEntry.key

-- The pointer is followed in the bucket it was taken from; an entry that is no longer there is a dangling one.
def follow (chain : List (DictEntry K V)) (key : K) : Except Stop (DictEntry K V × Option K) :=
  match chain.dropWhile fun he => !type.keyCompare key he.key with
  | he :: rest => .ok (he, nextOf rest)
  | [] => .error .fault

-- One round of the loop when entry is NULL: the head of the next bucket, if there is one.
def nextBucket (d : Dict K V) (iter : DictIterator K) : Option (DictIterator K) :=
  if (d.ht iter.table).size ≤ iter.index + 1 then
    if dictIsRehashing d ∧ iter.table = false then some { iter with table := true, index := 0 } else none
  else some { iter with index := iter.index + 1 }

def nextLoop (d : Dict K V) : (fuel : Nat) → DictIterator K → Except Stop (DictIterator K × Option (DictEntry K V))
  | 0, _ => .error .fault
  | fuel + 1, iter =>
    match iter.entry with
    | none =>
      match nextBucket d iter with
      | none => .ok ({ iter with index := iter.index + 1 }, none)
      | some iter => do
        match ← (d.ht iter.table).bucket iter.index.toNat with
        | he :: rest => pure ({ iter with entry := some he.key, nextEntry := nextOf rest }, some he)
        | [] => nextLoop d fuel { iter with entry := none }
    | some _ =>
      match iter.nextEntry with
      | none => nextLoop d fuel { iter with entry := none }
      | some key => do
        let chain ← (d.ht iter.table).bucket iter.index.toNat
        let (he, next) ← follow type chain key
        pure ({ iter with entry := some he.key, nextEntry := next }, some he)

-- Every round that does not return goes on to another bucket.
def dictNext (d : Dict K V) (iter : DictIterator K) : Except Stop (Dict K V × DictIterator K × Option (DictEntry K V)) := do
  let d := if iter.entry.isNone ∧ iter.index = -1 ∧ iter.table = false then { d with iterators := d.iterators + 1 } else d
  let (iter, he) ← nextLoop type d (d.ht0.size + d.ht1.size + 2) iter
  pure (d, iter, he)

def dictReleaseIterator (d : Dict K V) (iter : DictIterator K) : Dict K V :=
  if ¬(iter.index = -1 ∧ iter.table = false) then { d with iterators := d.iterators - 1 } else d

inductive Action (K V : Type) where
  | next
  | add (key : K) (val : V)
  | find (key : K)
  | deleteReturned

/-- The dict and its iterator. The rest is recorded: the entry returned last while it is there, what happened, the dicts on the way. -/
structure Iteration (K V : Type) where
  dict : Dict K V
  iter : DictIterator K
  current : Option K
  ended : Bool
  events : List (Event K)
  states : List (Dict K V)

def advance (s : Iteration K V) : Except Stop (Iteration K V) := do
  let (d, iter, he) ← dictNext type s.dict s.iter
  match he with
  | some he =>
    pure { s with
      dict := d, iter, current := some he.key, events := s.events ++ [.visited he.key], states := s.states ++ [d] }
  | none => pure { s with dict := d, iter, current := none, ended := true, states := s.states ++ [d] }

-- After the end the caller has no more use for the iterator.
def act (s : Iteration K V) (action : Action K V) : Except Stop (Iteration K V) :=
  if s.ended then .ok s
  else
    match action with
    | .next => advance type s
    | .add key val => do
      let (d, added) ← dictAdd type s.dict key val
      pure { s with dict := d, events := if added then s.events ++ [.gained key] else s.events, states := s.states ++ [d] }
    | .find key => do
      let (d, _) ← dictFind type s.dict key
      pure { s with dict := d, states := s.states ++ [d] }
    | .deleteReturned =>
      match s.current with
      | none => .ok s
      | some key => do
        let (d, deleted) ← dictDelete type s.dict key
        pure { s with
          dict := d, current := none, events := if deleted then s.events ++ [.dropped key] else s.events, states := s.states ++ [d] }

def iterate (d : Dict K V) (actions : List (Action K V)) : Except Stop (Iteration K V) := do
  let s ← advance type ⟨d, dictGetSafeIterator, none, false, [], []⟩
  actions.foldlM (act type) s

end

section

variable {K V : Type}

/-- One chain is replaced and nothing else moves; the second table may be new. -/
structure Changed (d d' : Dict K V) (second : Bool) (i : Nat) (chain : List (DictEntry K V)) : Prop where
  chains : ∀ s j, (d'.ht s).table j = if s = second ∧ j = i then chain else (d.ht s).table j
  first : d'.ht0.size = d.ht0.size
  other : d'.ht1.size = d.ht1.size ∧ d'.rehashidx = d.rehashidx ∨ d.rehashidx = none
  iterators : d'.iterators = d.iterators

theorem Changed.refl (d : Dict K V) (second : Bool) (i : Nat) : Changed d d second i ((d.ht second).table i) where
  chains := by
    intro s j
    split
    next here => rw [here.1, here.2]
    next => rfl
  first := rfl
  other := .inl ⟨rfl, rfl⟩
  iterators := rfl

theorem ht_setHt (d : Dict K V) (second s : Bool) (t : Dictht K V) : (d.setHt second t).ht s = if s = second then t else d.ht s := by
  cases second <;> cases s <;> rfl

theorem rehashidx_setHt (d : Dict K V) (second : Bool) (t : Dictht K V) : (d.setHt second t).rehashidx = d.rehashidx := by
  cases second <;> rfl

theorem changed_setHt (d : Dict K V) (second : Bool) (i used : Nat) (chain : List (DictEntry K V)) :
    Changed d (d.setHt second { d.ht second with table := Function.update (d.ht second).table i chain, used := used }) second i chain where
  chains := by
    intro s j
    rw [ht_setHt]
    by_cases table : s = second
    · subst table
      by_cases bucket : j = i
      · simp [bucket]
      · simp [bucket]
    · simp [table]
  first := by cases second <;> rfl
  other := .inl ⟨by cases second <;> rfl, rehashidx_setHt d second _⟩
  iterators := by cases second <;> rfl

theorem Changed.after_expand {d d' d'' : Dict K V} {second : Bool} {i : Nat} {chain : List (DictEntry K V)}
    (changed : Changed d' d'' second i chain) (same : ∀ s j, (d'.ht s).table j = (d.ht s).table j) (first : d'.ht0.size = d.ht0.size)
    (other : d'.ht1.size = d.ht1.size ∧ d'.rehashidx = d.rehashidx ∨ d.rehashidx = none) (iterators : d'.iterators = d.iterators) :
    Changed d d'' second i chain where
  chains := by
    intro s j
    rw [changed.chains, same]
  first := changed.first.trans first
  other := by
    rcases other with ⟨size, idx⟩ | resting
    · rcases changed.other with ⟨size', idx'⟩ | resting'
      · exact .inl ⟨size'.trans size, idx'.trans idx⟩
      · exact .inr (idx.symm.trans resting')
    · exact .inr resting
  iterators := changed.iterators.trans iterators

end

section

variable {K V : Type} (type : DictType K) {d : Dict K V} (valid : Valid type d) (guarded : d.iterators ≠ 0)

theorem rehashStep_guarded (guarded : d.iterators ≠ 0) : rehashStepIfRehashing type d = .ok d := by
  unfold rehashStepIfRehashing _dictRehashStep
  rw [if_neg guarded]
  split <;> rfl

include valid

theorem expand_effect (allocated : d.ht0.size ≠ 0) : ∃ d', _dictExpandIfNeeded d = (d', true) ∧ Valid type d' ∧ d'.ht0.size ≠ 0 ∧
    d'.contents = d.contents ∧ (∀ s j, (d'.ht s).table j = (d.ht s).table j) ∧ d'.ht0.size = d.ht0.size ∧
    (d'.ht1.size = d.ht1.size ∧ d'.rehashidx = d.rehashidx ∨ d.rehashidx = none) ∧ d'.iterators = d.iterators := by
  obtain ⟨d', expanded, preserves, allocated'⟩ := dictExpandIfNeeded_ok valid
  refine ⟨d', expanded, preserves.valid, allocated', preserves.contents, ?_⟩
  unfold _dictExpandIfNeeded at expanded
  split at expanded
  next =>
    cases expanded
    exact ⟨fun _ _ => rfl, rfl, .inl ⟨rfl, rfl⟩, rfl⟩
  next resting =>
    have idle : d.rehashidx = none := by simpa [dictIsRehashing] using resting
    split at expanded
    next =>
      unfold dictExpand at expanded
      dsimp only at expanded
      split at expanded
      · cases expanded
      · split at expanded
        · cases expanded
        · cases expanded
          refine ⟨fun s j => ?_, rfl, .inr idle, rfl⟩
          cases s with
          | false => rfl
          | true =>
            change (newTable _ : Dictht K V).table j = d.ht1.table j
            rw [valid.idle idle]
            rfl
    next =>
      cases expanded
      exact ⟨fun _ _ => rfl, rfl, .inl ⟨rfl, rfl⟩, rfl⟩

include guarded

/-- An insertion while an iterator is open puts one entry at the head of a chain, or nothing. -/
theorem dictAdd_effect (allocated : d.ht0.size ≠ 0) (key : K) (val : V) : dictAdd type d key val = .error .oom ∨
    (∃ d', dictAdd type d key val = .ok (d', false) ∧ Valid type d' ∧ d'.contents = d.contents ∧
      ∃ second i, Changed d d' second i ((d.ht second).table i)) ∨
    ∃ d' second i, dictAdd type d key val = .ok (d', true) ∧ Valid type d' ∧ d'.contents = ⟨key, val⟩ ::ₘ d.contents ∧
      (∀ he ∈ d.contents, ¬type.keyCompare key he.key = true) ∧ i < (d'.ht second).size ∧
      Changed d d' second i (⟨key, val⟩ :: (d.ht second).table i) := by
  have stepped := rehashStep_guarded type guarded
  obtain ⟨d₁, expanded, valid₁, allocated₁, contents₁, same, first, other, iterators⟩ := expand_effect type valid allocated
  rcases searchTables_ok key valid₁ allocated₁ with ⟨missing, absent⟩ | ⟨ref, he, found, points, _⟩
  · rcases insertEntry_ok val valid₁ allocated₁ absent with ⟨full, _⟩ | ⟨d₂, inserted, valid₂, contents₂, _⟩
    · left
      simp [dictAdd, dictAddRaw, stepped, _dictKeyIndex, expanded, missing, full]
    · right
      right
      have ok := valid₁.table type d₁ (dictIsRehashing d₁)
      have there : (d₁.ht (dictIsRehashing d₁)).size ≠ 0 := by
        cases rehashing : d₁.rehashidx with
        | none => simpa [dictIsRehashing, rehashing, Dict.ht] using allocated₁
        | some i => simpa [dictIsRehashing, rehashing, Dict.ht] using (valid₁.busy i rehashing).allocated1
      have within := ok.index_lt type (type.hashFunction key) there
      have explicit := inserted
      unfold insertEntry at explicit
      split at explicit
      · cases explicit
      · simp only [ok.bucket_eq type within, ok.setBucket_eq type _ within, ok_bind, pure_ok] at explicit
        cases explicit
        refine ⟨_, dictIsRehashing d₁, (d₁.ht (dictIsRehashing d₁)).index (type.hashFunction key), ?_, valid₂, by rw [contents₂, contents₁], fun he member => absent he (contents₁ ▸ member), ?_, ?_⟩
        · simp [dictAdd, dictAddRaw, stepped, _dictKeyIndex, expanded, missing, inserted]
        · rw [ht_setHt, if_pos rfl]
          exact within
        · have changed := changed_setHt d₁ (dictIsRehashing d₁) ((d₁.ht (dictIsRehashing d₁)).index (type.hashFunction key))
            ((d₁.ht (dictIsRehashing d₁)).used + 1)
            (⟨key, val⟩ :: (d₁.ht (dictIsRehashing d₁)).table ((d₁.ht (dictIsRehashing d₁)).index (type.hashFunction key)))
          have lifted := changed.after_expand same first other iterators
          rw [same] at lifted ⊢
          exact lifted
  · right
    left
    refine ⟨d₁, ?_, valid₁, contents₁, false, 0, ?_⟩
    · simp [dictAdd, dictAddRaw, stepped, _dictKeyIndex, expanded, found]
    · have lifted := (Changed.refl d₁ false 0).after_expand same first other iterators
      rwa [same] at lifted

theorem dictFind_effect (key : K) : ∃ he, dictFind type d key = .ok (d, he) := by
  have stepped := rehashStep_guarded type guarded
  unfold dictFind
  split
  next => exact ⟨none, rfl⟩
  next nonempty =>
    rcases searchTables_ok key valid (valid.allocated nonempty) with ⟨missing, _⟩ | ⟨ref, he, found, points, _⟩
    · exact ⟨none, by simp [stepped, missing]⟩
    · exact ⟨some he, by simp [stepped, found, deref_ok points]⟩

/-- A deletion while an iterator is open takes one entry out of its chain. -/
theorem dictDelete_effect {he : DictEntry K V} (present : he ∈ d.contents) :
    ∃ d' ref, dictDelete type d he.key = .ok (d', true) ∧ Valid type d' ∧ d.contents = he ::ₘ d'.contents ∧ Points d ref he ∧
      Changed d d' ref.second ref.idx (((d.ht ref.second).table ref.idx).eraseIdx ref.pos) := by
  have stepped := rehashStep_guarded type guarded
  have nonempty : ¬d.ht0.used + d.ht1.used = 0 := by
    rw [used_eq valid, Multiset.card_eq_zero]
    rintro empty
    rw [empty] at present
    exact Multiset.notMem_zero he present
  rcases searchTables_ok he.key valid (valid.allocated nonempty) with ⟨_, absent⟩ | ⟨ref, other, found, points, same⟩
  · exact absurd (type.keyCompare_refl he.key) (absent he present)
  · obtain rfl : other = he := Multiset.inj_on_of_nodup_map valid.distinct _ (points.mem) _ present
      ((keyClass_eq type _ _).mpr (type.keyCompare_symm _ _ same))
    obtain ⟨d', unlinked, valid', contents⟩ := unlinkEntry_ok valid points
    have explicit := unlinked
    simp only [unlinkEntry, (valid.table type d ref.second).setBucket_eq type _ points.within, ok_bind, pure_ok] at explicit
    cases explicit
    refine ⟨_, ref, ?_, valid', contents, points, changed_setHt d ref.second ref.idx _ _⟩
    have some_used : ¬(d.ht0.used = 0 ∧ d.ht1.used = 0) := by omega
    simp [dictDelete, dictGenericDelete, some_used, stepped, found, deref_ok points, unlinked, Except.map]

end

end RedisCore.HashTable
