import RedisCore.Dict.IteratorNext
import RedisCore.Dict.Scan

set_option autoImplicit false

namespace RedisCore.HashTable

open Buckets Tour List

section

variable {K V : Type} (type : DictType K)

def present (d : Dict K V) : Set (Quotient type.setoid) := {q | ∃ x ∈ d.contents, type.keyClass x.key = q}

def pending (d : Dict K V) (iter : DictIterator K) (i : Nat) (rest : List (DictEntry K V)) : Set (Quotient type.setoid) :=
  {q | ∃ x, Ahead d iter i rest x ∧ type.keyClass x.key = q}

def classes (events : List (Event K)) : List (Event (Quotient type.setoid)) := events.map (Event.map type.keyClass)

theorem classes_concat (events : List (Event K)) (e : Event K) :
    classes type (events ++ [e]) = classes type events ++ [e.map type.keyClass] := by
  rw [classes, map_append]
  rfl

def Still (d d' : Dict K V) : Prop :=
  ∀ second i, i < (d.ht second).size → ∀ he ∈ (d.ht second).table i, he ∈ d'.contents → i < (d'.ht second).size ∧ he ∈ (d'.ht second).table i

end

section

variable {K V : Type} {type : DictType K} {d d' : Dict K V} {second : Bool} {i : Nat} {chain : List (DictEntry K V)} (valid : Valid type d)
  (changed : Changed d d' second i chain)

include changed

theorem Changed.mem (s : Bool) (j : Nat) (x : DictEntry K V) (keeps : x ∈ (d.ht second).table i → x ∈ chain)
    (member : x ∈ (d.ht s).table j) : x ∈ (d'.ht s).table j := by
  rw [changed.chains]
  split
  next here =>
    rw [here.1, here.2] at member
    exact keeps member
  next => exact member

theorem Changed.rehashing (active : dictIsRehashing d = true) : dictIsRehashing d' = true := by
  rcases changed.other with ⟨_, idx⟩ | resting
  · rw [dictIsRehashing, idx]
    exact active
  · rw [dictIsRehashing, resting] at active
    cases active

include valid

theorem Changed.grows (s : Bool) : (d.ht s).size ≤ (d'.ht s).size := by
  cases s with
  | false => exact changed.first.ge
  | true =>
    rcases changed.other with ⟨size, _⟩ | resting
    · exact size.ge
    · have none_there : (d.ht true).size = 0 := congrArg Dictht.size (valid.idle resting)
      omega

theorem Changed.inside {s : Bool} {j : Nat} {x : DictEntry K V} (member : x ∈ (d.ht s).table j) (within : j < (d'.ht s).size) :
    j < (d.ht s).size := by
  cases s with
  | false => exact changed.first ▸ within
  | true =>
    rcases changed.other with ⟨size, _⟩ | resting
    · exact size ▸ within
    · have none_there : (d.ht true).table j = [] := congrFun (congrArg Dictht.table (valid.idle resting)) j
      rw [none_there] at member
      cases member

theorem Changed.from_mono {s : Bool} {k : Nat} {x : DictEntry K V} (keeps : x ∈ (d.ht second).table i → x ∈ chain)
    (before : From d s k x) : From d' s k x := by
  rcases before with ⟨j, least, inside, member⟩ | ⟨first, j, inside, member⟩
  · exact .inl ⟨j, least, inside.trans_le (changed.grows valid s), changed.mem s j x keeps member⟩
  · exact .inr ⟨first, j, inside.trans_le (changed.grows valid true), changed.mem true j x keeps member⟩

theorem Changed.from_back {s : Bool} {k : Nat} {x : DictEntry K V} (after : From d' s k x) :
    From d s k x ∨ x ∈ chain ∧ x ∉ (d.ht second).table i := by
  by_cases new : x ∈ chain ∧ x ∉ (d.ht second).table i
  · exact .inr new
  · have old (s : Bool) (j : Nat) (member : x ∈ (d'.ht s).table j) : x ∈ (d.ht s).table j := by
      rw [changed.chains] at member
      split at member
      next here =>
        rw [here.1, here.2]
        by_contra absent
        exact new ⟨member, absent⟩
      next => exact member
    left
    rcases after with ⟨j, least, inside, member⟩ | ⟨first, j, inside, member⟩
    · exact .inl ⟨j, least, changed.inside valid (old s j member) inside, old s j member⟩
    · exact .inr ⟨first, j, changed.inside valid (old true j member) inside, old true j member⟩

theorem Changed.still (keeps : ∀ x ∈ (d.ht second).table i, x ∈ d'.contents → x ∈ chain) : Still d d' := by
  intro s j inside he member remains
  exact ⟨inside.trans_le (changed.grows valid s), changed.mem s j he (fun old => keeps he old remains) member⟩

theorem ahead_mono {iter : DictIterator K} {j : Nat} {rest : List (DictEntry K V)} {x : DictEntry K V}
    (keeps : x ∈ (d.ht second).table i → x ∈ chain) (ahead : Ahead d iter j rest x) : Ahead d' iter j rest x :=
  ahead.imp id (changed.from_mono valid keeps)

theorem ahead_back {iter : DictIterator K} {j : Nat} {rest : List (DictEntry K V)} {x : DictEntry K V} (ahead : Ahead d' iter j rest x) :
    Ahead d iter j rest x ∨ x ∈ chain ∧ x ∉ (d.ht second).table i := by
  rcases ahead with member | behind
  · exact .inl (.inl member)
  · exact (changed.from_back valid behind).imp .inr id

theorem standing_changed {iter : DictIterator K} {j : Nat} {passed rest : List (DictEntry K V)} (standing : Standing d iter j passed rest)
    {passed' : List (DictEntry K V)} (here : iter.table = second → j = i → chain = passed' ++ rest)
    (elsewhere : ¬(iter.table = second ∧ j = i) → passed' = passed) : Standing d' iter j passed' rest where
  index := standing.index
  within := standing.within.trans_le (changed.grows valid iter.table)
  active := fun table => changed.rehashing (standing.active table)
  chain := by
    rw [changed.chains]
    split
    next at_place => exact here at_place.1 at_place.2
    next apart => rw [standing.chain, elsewhere apart]
  entry := standing.entry
  next := standing.next

end

section

variable {K V : Type} {type : DictType K} {d : Dict K V} (valid : Valid type d) {iter : DictIterator K} {i : Nat}
  {passed rest : List (DictEntry K V)} (standing : Standing d iter i passed rest)

include standing

theorem Standing.mem_passed {x : DictEntry K V} (member : x ∈ passed) : x ∈ d.contents := by
  rw [contents_ht d iter.table]
  exact Multiset.mem_add.mpr (.inl ((mem_chained _ _ x).mpr ⟨i, standing.within, by rw [standing.chain]; simp [member]⟩))

theorem Standing.mem_ahead (x : DictEntry K V) (ahead : Ahead d iter i rest x) : x ∈ d.contents := by
  rcases ahead with member | behind
  · rw [contents_ht d iter.table]
    exact Multiset.mem_add.mpr (.inl ((mem_chained _ _ x).mpr ⟨i, standing.within, by rw [standing.chain]; simp [member]⟩))
  · exact from_mem behind

include valid

theorem Standing.passed_not_ahead {x y : DictEntry K V} (member : x ∈ passed) (ahead : Ahead d iter i rest y) :
    type.keyClass x.key ≠ type.keyClass y.key := by
  intro same
  have equal := (keyClass_eq type _ _).mp same
  have at_x : x ∈ (d.ht iter.table).table i := by rw [standing.chain]; simp [member]
  rcases ahead with later | ⟨j, behind, inside, at_y⟩ | ⟨first, j, inside, at_y⟩
  · have distinct := chain_nodup valid standing.within
    rw [standing.chain, map_append] at distinct
    exact (nodup_append.mp distinct).2.2 _ (mem_map_of_mem member) _ (mem_map_of_mem later) same
  · have place := place_unique valid iter.table iter.table i j x y standing.within inside at_x at_y equal
    omega
  · have place := place_unique valid iter.table true i j x y standing.within inside at_x at_y equal
    rw [first] at place
    cases place.1

end

section

variable {K V : Type} (type : DictType K)

/-- Between two steps. -/
structure Going (start : Set (Quotient type.setoid)) (s : Iteration K V) (i : Nat) (passed rest : List (DictEntry K V)) : Prop where
  valid : Valid type s.dict
  standing : Standing s.dict s.iter i passed rest
  tour : Tour.Invariant start (classes type s.events) (present type s.dict) (pending type s.dict s.iter i rest)
  current : ∀ key, s.current = some key → ∃ he ∈ passed, he.key = key

structure Kept (d₀ : Dict K V) (s : Iteration K V) : Prop where
  still : List.IsChain Still (d₀ :: s.states)
  last : (d₀ :: s.states).getLast? = some s.dict
  iterators : s.dict.iterators = d₀.iterators + 1
  opened : ¬(s.iter.index = -1 ∧ s.iter.table = false)
  running : s.ended = false → ∃ i passed rest, Going type (present type d₀) s i passed rest
  finished : s.ended = true → Tour.Invariant (present type d₀) (classes type s.events) (present type s.dict) ∅

theorem isChain_concat {A : Type} {R : A → A → Prop} {values : List A} {a : A} {b : A} (chain : List.IsChain R values)
    (last : values.getLast? = some a) (next : R a b) : List.IsChain R (values ++ [b]) := by
  rw [isChain_append]
  refine ⟨chain, isChain_singleton b, ?_⟩
  intro x at_end y at_start
  rw [last] at at_end
  cases at_end
  cases at_start
  exact next

theorem advance_tour {start : Set (Quotient type.setoid)} {d : Dict K V} (valid : Valid type d) {before : DictEntry K V → Prop}
    {iter : DictIterator K} {found : Option (DictEntry K V)} {events : List (Event K)} (arrives : Arrives d before iter found)
    (inside : ∀ x, before x → x ∈ d.contents)
    (tour : Tour.Invariant start (classes type events) (present type d) {q | ∃ x, before x ∧ type.keyClass x.key = q}) :
    (found = none ∧ 0 ≤ iter.index ∧ Tour.Invariant start (classes type events) (present type d) ∅) ∨
    ∃ he i passed rest, found = some he ∧ Standing d iter i (passed ++ [he]) rest ∧
      Tour.Invariant start (classes type (events ++ [.visited he.key])) (present type d) (pending type d iter i rest) := by
  rcases arrives with ⟨none_found, counted, nothing⟩ | ⟨he, i, passed, rest, rfl, standing, splits⟩
  · left
    have empty : {q | ∃ x, before x ∧ type.keyClass x.key = q} = (∅ : Set (Quotient type.setoid)) := by
      rw [Set.eq_empty_iff_forall_notMem]
      rintro q ⟨x, some_before, _⟩
      exact nothing x some_before
    exact ⟨none_found, counted, empty ▸ tour⟩
  · right
    refine ⟨he, i, passed, rest, rfl, standing, ?_⟩
    have first : before he := (splits he).mpr (.inl rfl)
    rw [classes_concat]
    refine tour.visit ⟨he, first, rfl⟩ ⟨he, inside he first, rfl⟩ _ fun q => ?_
    constructor
    · rintro ⟨x, ahead, rfl⟩
      exact ⟨⟨x, (splits x).mpr (.inr ahead), rfl⟩, (standing.passed_not_ahead valid (by simp) ahead).symm⟩
    · rintro ⟨⟨x, waiting, rfl⟩, other⟩
      rcases (splits x).mp waiting with rfl | ahead
      · exact absurd rfl other
      · exact ⟨x, ahead, rfl⟩

theorem kept_advance {d₀ : Dict K V} {s : Iteration K V} {d : Dict K V} {iter : DictIterator K} {found : Option (DictEntry K V)}
    (ran : dictNext type s.dict s.iter = .ok (d, iter, found)) (valid : Valid type d)
    (still : List.IsChain Still (d₀ :: (s.states ++ [d]))) (iterators : d.iterators = d₀.iterators + 1) (going : s.ended = false)
    {before : DictEntry K V → Prop} (arrives : Arrives d before iter found) (inside : ∀ x, before x → x ∈ d.contents)
    (tour : Tour.Invariant (present type d₀) (classes type s.events) (present type d) {q | ∃ x, before x ∧ type.keyClass x.key = q}) :
    ∃ s', advance type s = .ok s' ∧ Kept type d₀ s' := by
  have last : (d₀ :: (s.states ++ [d])).getLast? = some d := by rw [← cons_append, getLast?_concat]
  rcases advance_tour type valid arrives inside tour with ⟨rfl, counted, tour'⟩ | ⟨he, i, passed, rest, rfl, standing, tour'⟩
  · refine ⟨_, by simp only [advance, ran, ok_bind]; rfl, still, last, iterators, fun closed => ?_, fun going => ?_, fun _ => tour'⟩
    · have index : iter.index = -1 := closed.1
      omega
    · cases going
  · refine ⟨_, by simp only [advance, ran, ok_bind]; rfl, still, last, iterators, fun closed => ?_, fun _ => ?_, fun ended => ?_⟩
    · have index : iter.index = -1 := closed.1
      have counted := standing.index
      omega
    · refine ⟨i, passed ++ [he], rest, valid, standing, tour', fun key same => ?_⟩
      cases same
      exact ⟨he, by simp, rfl⟩
    · simp [going] at ended

theorem iterate_start {d : Dict K V} (valid : Valid type d) :
    ∃ s, advance type ⟨d, dictGetSafeIterator, none, false, [], []⟩ = .ok s ∧ Kept type d s := by
  have valid' : Valid type { d with iterators := d.iterators + 1 } := ⟨valid.first, valid.idle, valid.busy, valid.distinct, valid.room⟩
  obtain ⟨iter, found, ran, arrives⟩ := dictNext_first valid
  have unmoved : List.IsChain Still [d, { d with iterators := d.iterators + 1 }] := by
    refine isChain_pair.mpr fun s i inside he member _ => ?_
    cases s <;> exact ⟨inside, member⟩
  exact kept_advance type ran valid' unmoved rfl rfl arrives (fun _ => id) (Tour.invariant_start (present type d))

section

variable {d₀ : Dict K V} {s : Iteration K V} (kept : Kept type d₀ s) (going : s.ended = false)

include kept going

theorem next_ok : ∃ s', advance type s = .ok s' ∧ Kept type d₀ s' := by
  obtain ⟨i, passed, rest, state⟩ := kept.running going
  obtain ⟨iter, found, ran, arrives⟩ := dictNext_standing state.valid state.standing
  have still := isChain_concat kept.still kept.last fun _ _ inside _ member _ => ⟨inside, member⟩
  exact kept_advance type ran state.valid still kept.iterators going arrives (state.standing.mem_ahead) state.tour

theorem kept_change {d' : Dict K V} {second : Bool} {i j : Nat} {chain passed rest : List (DictEntry K V)}
    (passed' : List (DictEntry K V)) (events : List (Event K)) (current : Option K) (state : Going type (present type d₀) s i passed rest) (valid : Valid type d') (changed : Changed s.dict d' second j chain)
    (here : s.iter.table = second → i = j → chain = passed' ++ rest) (elsewhere : ¬(s.iter.table = second ∧ i = j) → passed' = passed)
    (keeps : ∀ x ∈ (s.dict.ht second).table j, x ∈ d'.contents → x ∈ chain)
    (tour : Tour.Invariant (present type d₀) (classes type events) (present type d') (pending type d' s.iter i rest))
    (returned : ∀ key, current = some key → ∃ he ∈ passed', he.key = key) :
    Kept type d₀ { s with dict := d', current := current, events := events, states := s.states ++ [d'] } where
  still := isChain_concat kept.still kept.last (changed.still state.valid keeps)
  last := by rw [← cons_append, getLast?_concat]
  iterators := changed.iterators.trans kept.iterators
  opened := kept.opened
  running := fun _ => ⟨i, passed', rest, valid, standing_changed state.valid changed state.standing here elsewhere, tour, returned⟩
  finished := fun ended => by rw [going] at ended; cases ended

theorem add_ok (key : K) (val : V) : act type s (.add key val) = .error .oom ∨ ∃ s', act type s (.add key val) = .ok s' ∧ Kept type d₀ s' := by
  obtain ⟨i, passed, rest, state⟩ := kept.running going
  have standing := state.standing
  have allocated : s.dict.ht0.size ≠ 0 := by
    cases table : s.iter.table with
    | false =>
      have within := standing.within
      rw [table] at within
      exact Nat.ne_of_gt (Nat.zero_lt_of_lt within)
    | true =>
      obtain ⟨idx, rehashing⟩ := Option.isSome_iff_exists.mp (standing.active table)
      exact (state.valid.busy idx rehashing).allocated0
  rcases dictAdd_effect type state.valid (by rw [kept.iterators]; exact Nat.succ_ne_zero _) allocated key val with
    full | ⟨d', ran, valid', contents, second, j, changed⟩ | ⟨d', second, j, ran, valid', contents, absent, within, changed⟩
  · left
    simp [act, going, full]
  · right
    have result : act type s (.add key val) = .ok { s with dict := d', states := s.states ++ [d'] } := by
      rw [act, if_neg (by simp [going])]
      simp only [ran, ok_bind]
      rfl
    refine ⟨_, result, ?_⟩
    have same : pending type d' s.iter i rest = pending type s.dict s.iter i rest := by
      ext q
      constructor
      · rintro ⟨x, ahead, rfl⟩
        exact ⟨x, (ahead_back state.valid changed ahead).resolve_right fun new => new.2 new.1, rfl⟩
      · rintro ⟨x, ahead, rfl⟩
        exact ⟨x, ahead_mono state.valid changed (fun old => old) ahead, rfl⟩
    refine kept_change type kept going passed s.events s.current state valid' changed (fun table bucket => ?_) (fun _ => rfl)
      (fun _ old _ => old) ?_ state.current
    · rw [← table, ← bucket, standing.chain]
    · have unchanged : present type d' = present type s.dict := by
        rw [present, contents]
        rfl
      rw [same, unchanged]
      exact state.tour
  · right
    have result : act type s (.add key val) =
        .ok { s with dict := d', events := s.events ++ [.gained key], states := s.states ++ [d'] } := by
      rw [act, if_neg (by simp [going])]
      simp only [ran, ok_bind]
      rfl
    refine ⟨_, result, ?_⟩
    have tour : Tour.Invariant (present type d₀) (classes type (s.events ++ [.gained key])) (present type d')
        (pending type d' s.iter i rest) := by
      rw [classes_concat]
      refine state.tour.gain (type.keyClass key) ?_ _ _ (fun q => ?_) ?_ ?_
      · rintro ⟨x, member, same⟩
        exact absent x member ((keyClass_eq type _ _).mp same.symm)
      · simp only [present, contents, Set.mem_ofPred_eq, Multiset.mem_cons]
        constructor
        · rintro ⟨x, rfl | member, rfl⟩
          · exact .inr rfl
          · exact .inl ⟨x, member, rfl⟩
        · rintro (⟨x, member, rfl⟩ | rfl)
          · exact ⟨x, .inr member, rfl⟩
          · exact ⟨⟨key, val⟩, .inl rfl, rfl⟩
      · rintro q ⟨x, ahead, rfl⟩
        exact ⟨x, ahead_mono state.valid changed (fun old => mem_cons_of_mem _ old) ahead, rfl⟩
      · rintro q ⟨x, ahead, rfl⟩
        rcases ahead_back state.valid changed ahead with before | ⟨inside, new⟩
        · exact .inl ⟨x, before, rfl⟩
        · rcases List.mem_cons.mp inside with rfl | old
          · exact .inr rfl
          · exact absurd old new
    by_cases at_place : s.iter.table = second ∧ i = j
    · refine kept_change type kept going (⟨key, val⟩ :: passed) _ s.current state valid' changed (fun _ _ => ?_) (fun apart => absurd at_place apart)
        (fun _ old _ => mem_cons_of_mem _ old) tour fun k same => ?_
      · rw [← at_place.1, ← at_place.2, standing.chain, cons_append]
      · obtain ⟨he, member, at_key⟩ := state.current k same
        exact ⟨he, mem_cons_of_mem _ member, at_key⟩
    · exact kept_change type kept going passed _ s.current state valid' changed (fun table bucket => absurd ⟨table, bucket⟩ at_place)
        (fun _ => rfl) (fun _ old _ => mem_cons_of_mem _ old) tour state.current

theorem find_ok (key : K) : ∃ s', act type s (.find key) = .ok s' ∧ Kept type d₀ s' := by
  obtain ⟨i, passed, rest, state⟩ := kept.running going
  obtain ⟨he, ran⟩ := dictFind_effect type state.valid (by rw [kept.iterators]; exact Nat.succ_ne_zero _) key
  have result : act type s (.find key) = .ok { s with states := s.states ++ [s.dict] } := by
    rw [act, if_neg (by simp [going])]
    simp only [ran, ok_bind]
    rfl
  refine ⟨_, result, kept_change type kept going passed s.events s.current state state.valid (Changed.refl s.dict s.iter.table i)
    (fun _ _ => state.standing.chain) (fun _ => rfl) (fun _ old _ => old) state.tour state.current⟩

theorem delete_ok : ∃ s', act type s .deleteReturned = .ok s' ∧ Kept type d₀ s' := by
  cases at_key : s.current with
  | none => exact ⟨s, by rw [act, if_neg (by simp [going])]; simp only [at_key], kept⟩
  | some key =>
    obtain ⟨i, passed, rest, state⟩ := kept.running going
    have standing := state.standing
    obtain ⟨he, member, rfl⟩ := state.current key at_key
    obtain ⟨d', ref, ran, valid', contents, points, changed⟩ := dictDelete_effect type state.valid
      (by rw [kept.iterators]; exact Nat.succ_ne_zero _) (standing.mem_passed member)
    have result : act type s .deleteReturned =
        .ok { s with dict := d', current := none, events := s.events ++ [.dropped he.key], states := s.states ++ [d'] } := by
      rw [act, if_neg (by simp [going])]
      simp only [at_key, ran, ok_bind]
      rfl
    have distinct := state.valid.distinct
    rw [contents, Multiset.map_cons, Multiset.nodup_cons] at distinct
    have gone : ∀ x ∈ d'.contents, type.keyClass x.key ≠ type.keyClass he.key := fun x remains same =>
      distinct.1 (Multiset.mem_map.mpr ⟨x, remains, same⟩)
    -- The returned entry is in the bucket where the iterator stands, in front of what is to come.
    have at_he : he ∈ (s.dict.ht s.iter.table).table i := by rw [standing.chain]; simp [member]
    obtain ⟨table, bucket⟩ := place_unique state.valid s.iter.table ref.second i ref.idx he he standing.within points.within at_he
      (mem_of_getElem? points.entry) (type.keyCompare_refl he.key)
    have entry := points.entry
    rw [← table, ← bucket, standing.chain] at entry
    rw [← table, ← bucket, standing.chain] at changed
    have front : ref.pos < passed.length := by
      by_contra behind
      rw [getElem?_append_right (not_lt.mp behind)] at entry
      exact standing.passed_not_ahead state.valid member (.inl (mem_of_getElem? entry)) rfl
    have keeps : ∀ x ∈ passed ++ rest, type.keyClass x.key ≠ type.keyClass he.key → x ∈ (passed ++ rest).eraseIdx ref.pos := by
      intro x inside other
      obtain ⟨bound, value⟩ := List.getElem?_eq_some_iff.mp entry
      have moved := (List.getElem_cons_eraseIdx_perm bound).mem_iff.mpr inside
      rcases List.mem_cons.mp moved with rfl | left
      · exact absurd (congrArg (fun y : DictEntry K V => type.keyClass y.key) value) other
      · exact left
    have same : pending type d' s.iter i rest = pending type s.dict s.iter i rest := by
      ext q
      constructor
      · rintro ⟨x, ahead, rfl⟩
        refine ⟨x, (ahead_back state.valid changed ahead).resolve_right fun new => new.2 ?_, rfl⟩
        rw [standing.chain]
        exact mem_of_mem_eraseIdx new.1
      · rintro ⟨x, ahead, rfl⟩
        refine ⟨x, ahead_mono state.valid changed (fun old => ?_) ahead, rfl⟩
        rw [standing.chain] at old
        exact keeps x old (standing.passed_not_ahead state.valid member ahead).symm
    refine ⟨_, result, kept_change type kept going (passed.eraseIdx ref.pos) _ none state valid' changed
      (fun _ _ => eraseIdx_append_of_lt_length front rest) (fun apart => absurd ⟨rfl, rfl⟩ apart) (fun x old remains => ?_) ?_ nofun⟩
    · rw [standing.chain] at old
      exact keeps x old (gone x remains)
    · rw [classes_concat, same]
      refine state.tour.drop (type.keyClass he.key) _ fun q => ?_
      simp only [present, contents, Set.mem_ofPred_eq, Multiset.mem_cons]
      constructor
      · rintro ⟨x, remains, rfl⟩
        exact ⟨⟨x, .inr remains, rfl⟩, gone x remains⟩
      · rintro ⟨⟨x, rfl | remains, rfl⟩, other⟩
        · exact absurd rfl other
        · exact ⟨x, remains, rfl⟩

end

-- Only memory can run out.
theorem act_ok {d₀ : Dict K V} {s : Iteration K V} (kept : Kept type d₀ s) (action : Action K V) :
    act type s action = .error .oom ∨ ∃ s', act type s action = .ok s' ∧ Kept type d₀ s' := by
  cases going : s.ended with
  | true => exact .inr ⟨s, by unfold act; rw [if_pos going], kept⟩
  | false =>
    cases action with
    | next =>
      obtain ⟨s', ran, kept'⟩ := next_ok type kept going
      exact .inr ⟨s', by rw [act, if_neg (by simp [going]), ran], kept'⟩
    | add key val => exact add_ok type kept going key val
    | find key => exact .inr (find_ok type kept going key)
    | deleteReturned => exact .inr (delete_ok type kept going)

theorem acts_ok {d₀ : Dict K V} (actions : List (Action K V)) (s : Iteration K V) (kept : Kept type d₀ s) :
    actions.foldlM (act type) s = .error .oom ∨ ∃ s', actions.foldlM (act type) s = .ok s' ∧ Kept type d₀ s' := by
  induction actions generalizing s with
  | nil => exact .inr ⟨s, rfl, kept⟩
  | cons action actions ih =>
    rw [foldlM_cons]
    rcases act_ok type kept action with full | ⟨next, ran, kept'⟩
    · exact .inl (by rw [full]; rfl)
    · rw [ran]
      exact ih next kept'

theorem safe_iteration (d : Dict K V) (valid : Valid type d) (actions : List (Action K V)) :
    iterate type d actions = .error .oom ∨ ∃ s, iterate type d actions = .ok s ∧
      (s.ended = true → ∀ key, Present type d key → .dropped (type.keyClass key) ∉ classes type s.events →
        Once (type.keyClass key) (classes type s.events)) ∧
      (∀ q front middle rest, classes type s.events = front ++ .visited q :: (middle ++ .visited q :: rest) → Revived q middle) ∧
      List.IsChain Still (d :: s.states) ∧ (dictReleaseIterator s.dict s.iter).iterators = d.iterators := by
  obtain ⟨first, started, kept⟩ := iterate_start type valid
  rw [iterate, started]
  rcases acts_ok type actions first kept with full | ⟨s, ran, kept'⟩
  · exact .inl full
  · refine .inr ⟨s, ran, fun ended key there stays => ?_, ?_, kept'.still, ?_⟩
    · obtain ⟨he, member, same⟩ := there
      exact (kept'.finished ended).complete (fun q => Set.notMem_empty q) ⟨he, member, ((keyClass_eq type _ _).mpr same).symm⟩ stays
    · cases ended : s.ended with
      | true => exact (kept'.finished ended).spaced
      | false =>
        obtain ⟨_, _, _, state⟩ := kept'.running ended
        exact state.tour.spaced
    · rw [dictReleaseIterator, if_pos kept'.opened]
      change s.dict.iterators - 1 = d.iterators
      rw [kept'.iterators, Nat.add_sub_cancel]

end

-- Two keys in the first table and an empty second one that they are to move to.
def growingDict : Dict Bool Nat :=
  match run boolType [.add true 1, .add false 2, .expand 8] with
  | .ok (d, _) => d
  | .error _ => dictCreate

theorem valid_growingDict : Valid boolType growingDict := by
  rcases dict_refines_map boolType [.add true 1, .add false 2, .expand 8] (by simp) with stopped | ⟨d, ran, valid, _⟩
  · exact absurd stopped (by intro same; cases same)
  · rw [growingDict, ran]
    exact valid

def deleteAndAddAgain : List (Action Bool Nat) := [.deleteReturned, .add false 5, .find true, .next, .next, .next]

theorem iteration_of_growingDict : ∃ s, iterate boolType growingDict deleteAndAddAgain = .ok s ∧ s.ended = true ∧
    Once (boolType.keyClass true) (classes boolType s.events) ∧ List.IsChain Still (growingDict :: s.states) := by
  have ends : (iterate boolType growingDict deleteAndAddAgain).map (fun s => (s.ended, s.events)) =
      .ok (true, [.visited false, .dropped false, .gained false, .visited true, .visited false]) := rfl
  rcases safe_iteration boolType growingDict valid_growingDict deleteAndAddAgain with full | ⟨s, ran, once, _, still, _⟩
  · rw [full] at ends
    cases ends
  · rw [ran] at ends
    obtain ⟨ended, events⟩ := Prod.mk.inj (Except.ok.inj ends)
    refine ⟨s, ran, ended, once ended true ⟨⟨true, 1⟩, ?_, rfl⟩ ?_, still⟩
    · rw [← from_zero]
      exact .inl ⟨1, by decide, by decide, by decide⟩
    · have apart : boolType.keyClass true ≠ boolType.keyClass false := fun same => nomatch (keyClass_eq boolType _ _).mp same
      rw [events]
      simp [classes, Event.map, apart]

theorem deleted_key_returned_again : Valid boolType growingDict ∧ ∃ s, iterate boolType growingDict deleteAndAddAgain = .ok s ∧
    s.events = [.visited false, .dropped false, .gained false, .visited true, .visited false] :=
  ⟨valid_growingDict, _, rfl, rfl⟩

end RedisCore.HashTable
