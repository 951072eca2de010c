import RedisCore.Dict.Valid

set_option autoImplicit false

namespace RedisCore.HashTable

open Buckets List Function Multiset

variable {K V : Type} {type : DictType K}
variable {d : Dict K V}

structure Points (d : Dict K V) (ref : EntryRef) (he : DictEntry K V) : Prop where
  within : ref.idx < (d.ht ref.second).size
  entry : ((d.ht ref.second).table ref.idx)[ref.pos]? = some he
  second : ref.second = true → dictIsRehashing d = true

theorem deref_ok {d : Dict K V} {ref : EntryRef} {he : DictEntry K V} (points : Points d ref he) :
    deref d ref = .ok he := by
  rw [deref, points.entry]

theorem contents_ht (d : Dict K V) (second : Bool) :
    d.contents = (d.ht second).contents + (d.ht !second).contents := by
  cases second with
  | false => rfl
  | true => exact add_comm _ _

theorem contents_setHt (d : Dict K V) (second : Bool) (t : Dictht K V) :
    (d.setHt second t).contents = t.contents + (d.ht !second).contents := by
  cases second with
  | false => rfl
  | true => exact add_comm _ _

theorem Points.mem {ref : EntryRef} {he : DictEntry K V} (points : Points d ref he) :
    he ∈ d.contents := by
  rw [contents_ht d ref.second]
  refine mem_add.mpr (Or.inl ((mem_chained _ _ _).mpr ⟨ref.idx, points.within, ?_⟩))
  exact mem_of_getElem? points.entry

theorem searchTable_ok (d : Dict K V) (key : K) (second : Bool) (ok : TableOk type (d.ht second))
    (allocated : (d.ht second).size ≠ 0) (active : second = true → dictIsRehashing d = true) :
    (searchTable type d key second = .ok none ∧
      ∀ he ∈ (d.ht second).contents, ¬type.keyCompare key he.key = true) ∨
    ∃ ref he, searchTable type d key second = .ok (some ref) ∧ Points d ref he ∧
      type.keyCompare key he.key = true := by
  have within := ok.index_lt type (type.hashFunction key) allocated
  simp only [searchTable, ok.bucket_eq type within, ok_bind, pure_ok]
  cases found : ((d.ht second).table ((d.ht second).index (type.hashFunction key))).findIdx?
      fun he => type.keyCompare key he.key with
  | none =>
    refine Or.inl ⟨rfl, ?_⟩
    intro he member same
    obtain ⟨i, inside, chained_at⟩ := (mem_chained _ _ _).mp member
    -- An entry with this key has the same hash, hence sits in the bucket just searched.
    have home := ok.placed i inside he chained_at
    rw [← type.hash_eq key he.key same] at home
    rw [home] at found
    exact absurd same (by simpa using findIdx?_eq_none_iff.mp found he chained_at)
  | some pos =>
    obtain ⟨inside, matches_at, _⟩ := findIdx?_eq_some_iff_getElem.mp found
    exact Or.inr ⟨_, _, rfl, ⟨within, getElem?_eq_getElem inside, active⟩, matches_at⟩

theorem searchTables_ok (key : K) (valid : Valid type d) (allocated : d.ht0.size ≠ 0) :
    (searchTables type d key = .ok none ∧ ∀ he ∈ d.contents, ¬type.keyCompare key he.key = true) ∨
    ∃ ref he, searchTables type d key = .ok (some ref) ∧ Points d ref he ∧
      type.keyCompare key he.key = true := by
  rcases searchTable_ok d key false valid.first allocated (by simp) with
    ⟨missing, absent⟩ | ⟨ref, he, found, points, same⟩
  · cases rehashing : d.rehashidx with
    | none =>
      refine Or.inl ⟨by simp [searchTables, missing, dictIsRehashing, rehashing], ?_⟩
      intro he member
      rw [Dict.contents, valid.idle rehashing,
        contents_of_unallocated (_dictReset : Dictht K V) rfl, add_zero] at member
      exact absent he member
    | some idx =>
      have active : dictIsRehashing d = true := by simp [dictIsRehashing, rehashing]
      have moving := valid.busy idx rehashing
      have reduces : searchTables type d key = searchTable type d key true := by
        simp [searchTables, missing, active]
      rcases searchTable_ok d key true moving.second moving.allocated1 (fun _ => active) with
        ⟨missing1, absent1⟩ | ⟨ref, he, found, points, same⟩
      · refine Or.inl ⟨by rw [reduces, missing1], ?_⟩
        intro he member
        rcases mem_add.mp member with in0 | in1
        · exact absent he in0
        · exact absent1 he in1
      · exact Or.inr ⟨ref, he, by rw [reduces, found], points, same⟩
  · exact Or.inr ⟨ref, he, by simp [searchTables, found], points, same⟩

theorem Valid.setHt (d : Dict K V) (valid : Valid type d) (second : Bool) (t : Dictht K V)
    (ok : TableOk type t) (size : t.size = (d.ht second).size)
    (active : second = true → dictIsRehashing d = true)
    (keeps : second = false → dictIsRehashing d = true → ∀ i, d.ht0.table i = [] → t.table i = [])
    (distinct : ((t.contents + (d.ht !second).contents).map fun he => type.keyClass he.key).Nodup)
    (room : 24 * Multiset.card (t.contents + (d.ht !second).contents) < 2 ^ 63) :
    Valid type (d.setHt second t) := by
  have contents := contents_setHt d second t
  cases second with
  | false =>
    refine ⟨ok, valid.idle, ?_, contents ▸ distinct, contents ▸ room⟩
    intro idx rehashing
    have moving := valid.busy idx rehashing
    exact { first := ok, second := moving.second, allocated0 := size.trans_ne moving.allocated0,
            allocated1 := moving.allocated1,
            below := fun i lower => keeps rfl (by simp [dictIsRehashing, show d.rehashidx = _ from rehashing])
              i (moving.below i lower) }
  | true =>
    have rehashing := active rfl
    refine ⟨valid.first, ?_, ?_, contents ▸ distinct, contents ▸ room⟩
    · intro none
      have : d.rehashidx = Option.none := none
      simp [dictIsRehashing, this] at rehashing
    · intro idx some_idx
      have moving := valid.busy idx some_idx
      exact { first := moving.first, second := ok, allocated0 := moving.allocated0,
              allocated1 := size.trans_ne moving.allocated1, below := moving.below }

theorem contents_set {t : Dictht K V} {i pos : Nat} (used : Nat) {he : DictEntry K V} (he' : DictEntry K V) (within : i < t.size)
    (entry : (t.table i)[pos]? = some he) :
    ∃ rest, t.contents = he ::ₘ rest ∧
      ({ t with table := update t.table i ((t.table i).set pos he'), used := used } :
        Dictht K V).contents = he' ::ₘ rest ∧
      ({ t with table := update t.table i ((t.table i).eraseIdx pos), used := used } :
        Dictht K V).contents = rest := by
  obtain ⟨inside, value⟩ := List.getElem?_eq_some_iff.mp entry
  have old : (t.table i : Multiset (DictEntry K V)) = he ::ₘ ((t.table i).eraseIdx pos : List _) := by
    rw [cons_coe, ← value]
    exact coe_eq_coe.mpr (getElem_cons_eraseIdx_perm inside).symm
  have new : ((t.table i).set pos he' : Multiset (DictEntry K V)) =
      he' ::ₘ ((t.table i).eraseIdx pos : List _) := by
    rw [cons_coe]
    exact coe_eq_coe.mpr (set_perm_cons_eraseIdx inside he')
  have clear := chained_clear t.table within
  have fill (chain : List (DictEntry K V)) : chained t.size (update t.table i chain) =
      (chain : Multiset (DictEntry K V)) + chained t.size (update t.table i []) := by
    have step := chained_clear (update t.table i chain) within
    rwa [update_self, update_idem] at step
  refine ⟨((t.table i).eraseIdx pos : List _) + chained t.size (update t.table i []), ?_, ?_, ?_⟩
  · rw [Dictht.contents, clear, old, cons_add]
  · rw [Dictht.contents]
    dsimp only
    rw [fill, new, cons_add]
  · rw [Dictht.contents]
    dsimp only
    rw [fill]

theorem set_eq_nil (chain : List (DictEntry K V)) (pos : Nat) (he : DictEntry K V)
    (empty : chain = []) : chain.set pos he = [] := by
  rw [empty, set_nil]

theorem unlinkEntry_ok {d : Dict K V} {ref : EntryRef} {he : DictEntry K V} (valid : Valid type d)
    (points : Points d ref he) :
    ∃ d', unlinkEntry d ref = .ok d' ∧ Valid type d' ∧ d.contents = he ::ₘ d'.contents := by
  let t := d.ht ref.second
  have ok := valid.table type d ref.second
  obtain ⟨rest, old, _, erased⟩ :=
    contents_set (t.used - 1) he points.within points.entry
  obtain ⟨inside, _⟩ := List.getElem?_eq_some_iff.mp points.entry
  have used := ok.used
  rw [show (d.ht ref.second).contents = he ::ₘ rest from old, Multiset.card_cons] at used
  have shorter := length_eraseIdx_of_lt inside
  have ok' := ok.update type t ref.idx (t.used - 1) ((t.table ref.idx).eraseIdx ref.pos) points.within
    (fun entry member => ok.placed _ points.within entry (mem_of_mem_eraseIdx member))
    (by simp only [t] at shorter ⊢; omega)
  have split_contents : d.contents = he ::ₘ (rest + (d.ht !ref.second).contents) := by
    rw [contents_ht d ref.second, show (d.ht ref.second).contents = he ::ₘ rest from old,
      cons_add]
  have distinct := valid.distinct
  have room := valid.room
  rw [split_contents, Multiset.map_cons, Multiset.nodup_cons] at distinct
  rw [split_contents, Multiset.card_cons] at room
  refine ⟨_, ?_, valid.setHt d ref.second _ ok' rfl points.second ?_ ?_ ?_, ?_⟩
  · simp only [unlinkEntry]
    rw [ok.setBucket_eq type _ points.within]
    rfl
  · intro first _ i empty
    have same : t = d.ht0 := by simp [t, first, Dict.ht]
    dsimp only
    by_cases here : i = ref.idx
    · rw [here, update_self, same, ← here, empty, eraseIdx_nil]
    · rw [update_of_ne here, same, empty]
  · rw [erased]
    exact distinct.2
  · rw [erased]
    omega
  · rw [contents_setHt, erased, split_contents]

theorem setVal_ok {d : Dict K V} {ref : EntryRef} {he : DictEntry K V} (val : V) (valid : Valid type d)
    (points : Points d ref he) :
    ∃ d' rest, setVal d ref val = .ok d' ∧ Valid type d' ∧ d.contents = he ::ₘ rest ∧
      d'.contents = { he with val := val } ::ₘ rest := by
  let t := d.ht ref.second
  let new : DictEntry K V := { he with val := val }
  have ok := valid.table type d ref.second
  obtain ⟨rest, old, changed, _⟩ :=
    contents_set t.used new points.within points.entry
  obtain ⟨inside, value⟩ := List.getElem?_eq_some_iff.mp points.entry
  have ok' := ok.update type t ref.idx t.used ((t.table ref.idx).set ref.pos new) points.within
    (fun entry member => by
      rcases mem_or_eq_of_mem_set member with kept | rfl
      · exact ok.placed _ points.within entry kept
      · exact ok.placed _ points.within he (value ▸ getElem_mem inside))
    (by rw [length_set])
  have split_contents : d.contents = he ::ₘ (rest + (d.ht !ref.second).contents) := by
    rw [contents_ht d ref.second, show (d.ht ref.second).contents = he ::ₘ rest from old,
      cons_add]
  have distinct := valid.distinct
  have room := valid.room
  rw [split_contents, Multiset.map_cons] at distinct
  rw [split_contents, Multiset.card_cons] at room
  refine ⟨_, _, ?_, valid.setHt d ref.second _ ok' rfl points.second ?_ ?_ ?_, split_contents, ?_⟩
  · simp only [setVal, deref_ok points, ok_bind]
    rw [ok.setBucket_eq type _ points.within]
    rfl
  · intro first _ i empty
    have same : t = d.ht0 := by simp [t, first, Dict.ht]
    dsimp only
    by_cases here : i = ref.idx
    · rw [here, update_self]
      exact set_eq_nil _ _ _ (by rw [same, ← here, empty])
    · rw [update_of_ne here, same, empty]
  · rw [changed, cons_add, Multiset.map_cons]
    exact distinct
  · rw [changed, cons_add, Multiset.card_cons]
    exact room
  · rw [contents_setHt, changed, cons_add]

theorem insertEntry_ok {key : K} (fresh : V) (valid : Valid type d)
    (allocated : d.ht0.size ≠ 0) (absent : ∀ he ∈ d.contents, ¬type.keyCompare key he.key = true) :
    let idx := (d.ht (dictIsRehashing d)).index (type.hashFunction key)
    (insertEntry d idx key fresh = .error .oom ∧ 2 ^ 63 ≤ 24 * (Multiset.card d.contents + 1)) ∨
      ∃ d', insertEntry d idx key fresh = .ok d' ∧ Valid type d' ∧
        d'.contents = ⟨key, fresh⟩ ::ₘ d.contents ∧ d'.canResize = d.canResize := by
  intro idx
  unfold insertEntry
  split
  next full =>
    rw [entryRoom, used_eq valid, Nat.not_lt] at full
    exact Or.inl ⟨rfl, full⟩
  next room =>
    have free : 24 * (Multiset.card d.contents + 1) < 2 ^ 63 := by
      have := not_not.mp room
      rwa [entryRoom, used_eq valid] at this
    let second := dictIsRehashing d
    let t := d.ht second
    have ok := valid.table type d second
    have there : t.size ≠ 0 := by
      cases rehashing : d.rehashidx with
      | none => simpa [t, second, dictIsRehashing, rehashing, Dict.ht] using allocated
      | some i => simpa [t, second, dictIsRehashing, rehashing, Dict.ht] using (valid.busy i rehashing).allocated1
    have within := ok.index_lt type (type.hashFunction key) there
    obtain ⟨ok', pushed⟩ := ok.push type ⟨key, fresh⟩ there
    have contents : (⟨key, fresh⟩ ::ₘ t.contents) + (d.ht !second).contents =
        ⟨key, fresh⟩ ::ₘ d.contents := by
      rw [cons_add, contents_ht d second]
    refine Or.inr ⟨_, ?_, valid.setHt d second _ ok' rfl id ?_ ?_ ?_, ?_, ?_⟩
    · change (do
        let head ← t.bucket idx
        let t ← t.setBucket idx (⟨key, fresh⟩ :: head)
        pure (d.setHt second { t with used := t.used + 1 })) = _
      rw [ok.bucket_eq type within]
      simp only [ok_bind]
      rw [ok.setBucket_eq type _ within]
      rfl
    · intro first rehashing
      rw [show second = true from rehashing] at first
      exact absurd first (by simp)
    · rw [pushed, contents, Multiset.map_cons, Multiset.nodup_cons]
      refine ⟨?_, valid.distinct⟩
      intro member
      obtain ⟨he, present, same⟩ := mem_map.mp member
      exact absent he present ((keyClass_eq type key he.key).mp same.symm)
    · rw [pushed, contents, Multiset.card_cons]
      exact free
    · rw [contents_setHt, pushed, contents]
    · simp only [Dict.setHt]
      split <;> rfl

end RedisCore.HashTable
