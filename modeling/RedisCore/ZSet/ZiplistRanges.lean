import RedisCore.ZSet.Ranges
import RedisCore.Ziplist.Values

set_option autoImplicit false

namespace RedisCore.ZSet

open Util Ziplist SkipList List

section

variable {S : Type} (scores : ScoreType S)

-- Elements and scores alternate in the ziplist.
def flat (members : List (Member S)) : List Bytes :=
  members.flatMap fun m => [m.ele, scores.d2string m.score]

@[simp] theorem flat_nil : flat scores ([] : List (Member S)) = [] := rfl

@[simp] theorem flat_cons (m : Member S) (members : List (Member S)) :
    flat scores (m :: members) = m.ele :: scores.d2string m.score :: flat scores members := rfl

@[simp] theorem flat_append (front members : List (Member S)) :
    flat scores (front ++ members) = flat scores front ++ flat scores members := flatMap_append

@[simp] theorem length_flat (members : List (Member S)) : (flat scores members).length = 2 * members.length := by
  induction members with
  | nil => rfl
  | cons m members ih =>
    rw [flat_cons, length_cons, length_cons, length_cons, ih]
    omega

theorem uintArg_short {s : Bytes} (short : s.length < 2 ^ 32) : uintArg s = s := by
  rw [uintArg, Nat.mod_eq_of_lt short, take_length]

theorem getScore_ok {zl : Bytes} {front rest : List Bytes} {p : Nat} {score : S}
    (cursor : Cursor zl front (scores.d2string score :: rest) p)
    (small : widest (front ++ scores.d2string score :: rest) < 2 ^ 32) :
    zzlGetScore scores zl p = some score := by
  have text := toBytes_entryValue (scores.d2string score)
  rw [zzlGetScore, cursor.get rest p small]
  cases stored : entryValue (scores.d2string score) with
  | str vstr =>
    rw [stored] at text
    obtain rfl : vstr = scores.d2string score := text
    simp [scores.d2string_fits score, scores.strtod_d2string]
  | int vlong =>
    obtain ⟨encoding, encoded⟩ := entryValue_int stored
    obtain ⟨_, range, same⟩ := zipTryEncoding_spec encoded
    simp [← scores.strtod_ll2string vlong range, ← same, scores.strtod_d2string]

theorem entryPointer_cons (m : Member S) (rest : List (Member S)) (p : Nat) :
    entryPointer (flat scores (m :: rest)) p = some p := rfl

theorem Holds.fuel {zl : Bytes} {members : List (Member S)} (holds : Holds zl (flat scores members)) :
    members.length < zl.length := by
  obtain ⟨items, related, values⟩ := holds
  obtain ⟨count, rendered, _⟩ := related.rendered
  have entries := length_le_itemsLen items
  have count_values := congrArg List.length values
  rw [length_map, length_flat] at count_values
  rw [rendered]
  simp only [render, length_image, length_encodeItems]
  omega

theorem insertAt_end_ok (zl : Bytes) (members : List (Member S)) (m : Member S)
    (holds : Holds zl (flat scores members)) (small : widest (flat scores (members ++ [m])) < 2 ^ 32)
    (short : m.ele.length < 2 ^ 32) :
    ∃ zl', zzlInsertAt scores zl none m.ele m.score = some zl' ∧ Holds zl' (flat scores (members ++ [m])) := by
  rw [flat_append, flat_cons, flat_nil] at small ⊢
  have small₁ : widest (flat scores members ++ [m.ele]) < 2 ^ 32 := by
    refine lt_of_le_of_lt (widest_sublist _ _ ((List.Sublist.refl _).append ?_)) small
    exact cons_sublist_cons.mpr (nil_sublist _)
  obtain ⟨zl₁, pushed₁, holds₁⟩ := holds.push _ m.ele small₁
  obtain ⟨zl₂, pushed₂, holds₂⟩ := holds₁.push _ (scores.d2string m.score) (by simpa using small)
  refine ⟨zl₂, by simp [zzlInsertAt, uintArg_short short, pushed₁, pushed₂], by simpa using holds₂⟩

end

variable {S : Type} (scores : ScoreType S)

structure StandsAt (zl : Bytes) (members : List (Member S)) (pair : Nat × Nat) (m : Member S) (front rest : List (Member S)) : Prop where
  shape : members = front ++ m :: rest
  element : Cursor zl (flat scores front) (m.ele :: scores.d2string m.score :: flat scores rest) pair.1
  score : Cursor zl (flat scores front ++ [m.ele]) (scores.d2string m.score :: flat scores rest) pair.2

section

variable {scores} {zl : Bytes} {members : List (Member S)} (small : widest (flat scores members) < 2 ^ 32)

include small

theorem stands_of_cursor (front rest : List (Member S)) (m : Member S) (p : Nat) (shape : members = front ++ m :: rest)
    (cursor : Cursor zl (flat scores front) (flat scores (m :: rest)) p) :
    ∃ q, ziplistNext zl p = some (some q) ∧ StandsAt scores zl members (p, q) m front rest := by
  have small' := small
  rw [shape, flat_append, flat_cons] at small'
  obtain ⟨q, to_score, at_score⟩ := cursor.next small'
  exact ⟨q, to_score, shape, cursor, at_score⟩

variable {pair : Nat × Nat} {m : Member S} {front rest : List (Member S)} (stands : StandsAt scores zl members pair m front rest)

include stands

theorem StandsAt.sizes : widest (flat scores front ++ m.ele :: scores.d2string m.score :: flat scores rest) < 2 ^ 32 ∧
    widest (flat scores front ++ [m.ele] ++ scores.d2string m.score :: flat scores rest) < 2 ^ 32 := by
  rw [stands.shape, flat_append, flat_cons] at small
  exact ⟨small, by simpa using small⟩

theorem StandsAt.object : ziplistGetObject zl pair.1 = some m.ele := by
  rw [ziplistGetObject, stands.element.get _ pair.1 (stands.sizes small).1, Option.map_some, toBytes_entryValue]

theorem StandsAt.readScore : zzlGetScore scores zl pair.2 = some m.score :=
  getScore_ok scores stands.score (stands.sizes small).2

theorem StandsAt.next : (rest = [] ∧ zzlNext zl pair.2 = some none) ∨
    ∃ next others there, rest = next :: others ∧ zzlNext zl pair.2 = some (some there) ∧
      StandsAt scores zl members there next (front ++ [m]) others := by
  obtain ⟨r, to_next, at_next⟩ := stands.score.next (stands.sizes small).2
  cases rest with
  | nil => exact .inl ⟨rfl, by simp [zzlNext, to_next]⟩
  | cons next others =>
    obtain ⟨q, to_score, there⟩ := stands_of_cursor small (front ++ [m]) others next r (by rw [stands.shape]; simp)
      (by simpa using at_next)
    exact .inr ⟨next, others, (r, q), rfl, by simp [zzlNext, to_next, to_score], there⟩

theorem StandsAt.prev : (front = [] ∧ zzlPrev zl pair.1 = some none) ∨
    ∃ before previous there, front = before ++ [previous] ∧ zzlPrev zl pair.1 = some (some there) ∧
      StandsAt scores zl members there previous before (m :: rest) := by
  cases front using List.reverseRecOn with
  | nil =>
    have first := stands.element.prev_first (by simp) (by simpa using (stands.sizes small).1)
    exact .inl ⟨rfl, by rw [zzlPrev, first]; rfl⟩
  | append_singleton before previous =>
    have whole := stands.shape
    have sizes : widest (flat scores before ++ [previous.ele] ++ scores.d2string previous.score :: flat scores (m :: rest)) < 2 ^ 32 := by
      rw [whole] at small
      simpa using small
    have split : flat scores (before ++ [previous]) = flat scores before ++ [previous.ele] ++ [scores.d2string previous.score] := by
      simp
    have cursor := stands.element
    rw [split] at cursor
    obtain ⟨s, to_score, at_score⟩ := cursor.prev (by simp) sizes
    obtain ⟨r, to_ele, at_ele⟩ := at_score.prev (by simp) (by simpa using sizes)
    exact .inr ⟨before, previous, (r, s), rfl, by simp [zzlPrev, to_score, to_ele], by simp [whole], at_ele, at_score⟩

end

section

variable {scores} {zl : Bytes} {members : List (Member S)} (holds : Holds zl (flat scores members))
  (small : widest (flat scores members) < 2 ^ 32)

include holds small

theorem stands_first {m : Member S} {rest : List (Member S)} (shape : members = m :: rest) :
    ∃ pair, ziplistIndex zl 0 = some (some pair.1) ∧ ziplistIndex zl 1 = some (some pair.2) ∧
      StandsAt scores zl members pair m [] rest := by
  have first := holds.first small
  have second := holds.at_index small 1
  subst shape
  have at_one : position (flat scores (m :: rest)).length 1 = some 1 := by
    rw [position, if_neg (by decide), if_pos (by simp)]
    rfl
  rw [at_one] at second
  obtain ⟨q, to_score, at_score⟩ := second
  exact ⟨(10, q), first, to_score, rfl, holds.start, at_score⟩

theorem stands_last {m : Member S} {init : List (Member S)} (shape : members = init ++ [m]) :
    ∃ pair, ziplistIndex zl (-2) = some (some pair.1) ∧ ziplistIndex zl (-1) = some (some pair.2) ∧
      StandsAt scores zl members pair m init [] := by
  have last := holds.at_index small (-2)
  have score := holds.at_index small (-1)
  subst shape
  have length : (flat scores (init ++ [m])).length = 2 * init.length + 2 := by
    rw [length_flat, length_append, length_singleton]
    omega
  have at_last : position (flat scores (init ++ [m])).length (-2) = some (2 * init.length) := by
    rw [length, position, if_pos (by decide), if_pos (by omega)]
    congr 1
  have at_score : position (flat scores (init ++ [m])).length (-1) = some (2 * init.length + 1) := by
    rw [length, position, if_pos (by decide), if_pos (by omega)]
    congr 1
  rw [at_last] at last
  rw [at_score] at score
  obtain ⟨p, to_last, cursor⟩ := last
  obtain ⟨q, to_score, cursor'⟩ := score
  have split : flat scores (init ++ [m]) = flat scores init ++ [m.ele, scores.d2string m.score] := by simp
  have split' : flat scores (init ++ [m]) = (flat scores init ++ [m.ele]) ++ [scores.d2string m.score] := by simp
  refine ⟨(p, q), to_last, to_score, rfl, ?_, ?_⟩
  · rw [split, ← length_flat scores init, take_left, drop_left] at cursor
    exact cursor
  · have front : 2 * init.length + 1 = (flat scores init ++ [m.ele]).length := by simp
    rw [split', front, take_left, drop_left] at cursor'
    exact cursor'

theorem index_empty (index : Int) (empty : members = []) : ziplistIndex zl index = some none := by
  have found := holds.at_index small index
  subst empty
  have nowhere : position (flat scores ([] : List (Member S))).length index = none := by
    unfold position
    simp only [flat_nil, length_nil, Nat.cast_zero]
    split
    · rw [if_neg (by omega)]
    · rfl
  rw [nowhere] at found
  exact found

end

section

variable [LinearOrder S] {scores} {range : Zrangespec S} {zl : Bytes} {members : List (Member S)} (small : widest (flat scores members) < 2 ^ 32)

include small

theorem firstLoop_ok {skipped after : List (Member S)} (front : List (Member S)) (fuel p : Nat) (shape : members = front ++ (skipped ++ after))
    (cursor : Cursor zl (flat scores front) (flat scores (skipped ++ after)) p)
    (outside : ∀ m ∈ skipped, zslValueGteMin m.score range = false) (starts : ∀ m ∈ after.head?, zslValueGteMin m.score range = true)
    (enough : (skipped ++ after).length < fuel) :
    ∃ q, Cursor zl (flat scores (front ++ skipped)) (flat scores after) q ∧
      zzlFirstLoop scores range zl fuel (entryPointer (flat scores (skipped ++ after)) p) =
        some (if after.head?.any fun m => zslValueLteMax m.score range then some q else none) := by
  obtain ⟨fuel, rfl⟩ : ∃ rest, fuel = rest + 1 := ⟨fuel - 1, by omega⟩
  induction skipped generalizing front fuel p with
  | nil =>
    refine ⟨p, by simpa using cursor, ?_⟩
    cases after with
    | nil => rfl
    | cons m others =>
      obtain ⟨q, to_score, stands⟩ := stands_of_cursor small front others m p shape cursor
      simp only [nil_append, entryPointer_cons, zzlFirstLoop, to_score, stands.readScore small, some_bind, starts m rfl, if_true]
      rfl
  | cons m skipped ih =>
    obtain ⟨q, to_score, stands⟩ := stands_of_cursor small front (skipped ++ after) m p shape cursor
    obtain ⟨r, to_next, at_next⟩ := stands.score.next (stands.sizes small).2
    obtain ⟨fuel, rfl⟩ : ∃ rest, fuel = rest + 1 := ⟨fuel - 1, by simp at enough; omega⟩
    have rest := ih (front ++ [m]) r (by rw [shape]; simp) (by simpa using at_next)
      (fun x member => outside x (mem_cons_of_mem m member)) fuel (by simpa using enough)
    rw [append_assoc, singleton_append] at rest
    simp only [cons_append, entryPointer_cons, zzlFirstLoop, to_score, stands.readScore small, outside m mem_cons_self, to_next, some_bind,
      Bool.false_eq_true, if_false]
    exact rest

theorem lastLoop_ok (skipped keep init rest : List (Member S)) (x : Member S) (fuel : Nat) (pair : Nat × Nat)
    (todo : keep ++ skipped = init ++ [x]) (stands : StandsAt scores zl members pair x init rest)
    (outside : ∀ y ∈ skipped, zslValueLteMax y.score range = false) (ends : ∀ y ∈ keep.getLast?, zslValueLteMax y.score range = true)
    (enough : init.length + 1 < fuel) :
    ∃ found, zzlLastLoop scores range zl fuel (some pair.1) = some found ∧
      found.map (ziplistGetObject zl) = (keep.getLast?.filter fun y => zslValueGteMin y.score range).map fun y => some y.ele := by
  induction skipped using List.reverseRecOn generalizing init rest x fuel pair with
  | nil =>
    obtain ⟨fuel, rfl⟩ : ∃ left, fuel = left + 1 := ⟨fuel - 1, by omega⟩
    rw [append_nil] at todo
    subst todo
    obtain ⟨q, to_score, again⟩ := stands_of_cursor small init rest x pair.1 stands.shape stands.element
    have object := stands.object small
    refine ⟨_, by simp only [zzlLastLoop, to_score, again.readScore small, some_bind, ends x (by simp), if_true]; rfl, ?_⟩
    rw [getLast?_concat]
    cases passes : zslValueGteMin x.score range with
    | false => simp [Option.filter, passes]
    | true => simp [Option.filter, passes, object]
  | append_singleton skipped y ih =>
    obtain ⟨fuel, rfl⟩ : ∃ left, fuel = left + 1 := ⟨fuel - 1, by omega⟩
    rw [← append_assoc] at todo
    obtain ⟨left, last⟩ := append_inj' todo rfl
    obtain rfl := singleton_inj.mp last
    obtain ⟨q, to_score, again⟩ := stands_of_cursor small init rest y pair.1 stands.shape stands.element
    simp only [zzlLastLoop, to_score, again.readScore small, some_bind, outside y (by simp), Bool.false_eq_true, if_false]
    rcases stands.prev small with ⟨nothing, moved⟩ | ⟨before, previous, there, split, moved, stands'⟩
    · rw [nothing] at left
      obtain ⟨rfl, _⟩ := append_eq_nil_iff.mp left
      refine ⟨none, ?_, rfl⟩
      rw [moved]
      cases fuel <;> rfl
    · subst split
      rw [moved]
      exact ih before (y :: rest) previous fuel there left stands' (fun z member => outside z (by simp [member]))
        (by simp at enough; omega)

variable (range) in
theorem countLoop_ok {m : Member S} {front rest : List (Member S)} {pair : Nat × Nat} (stands : StandsAt scores zl members pair m front rest)
    (fuel count : Nat) (enough : rest.length + 1 < fuel) :
    zzlCountLoop scores range zl fuel (some pair) count =
      some (count + ((m :: rest).takeWhile fun m => zslValueLteMax m.score range).length) := by
  obtain ⟨fuel, rfl⟩ : ∃ left, fuel = left + 1 := ⟨fuel - 1, by omega⟩
  induction rest generalizing front m pair fuel count with
  | nil =>
    obtain ⟨fuel, rfl⟩ : ∃ left, fuel = left + 1 := ⟨fuel - 1, by simp at enough; omega⟩
    rcases stands.next small with ⟨_, moved⟩ | ⟨_, _, _, impossible, _⟩
    · cases passes : zslValueLteMax m.score range <;> simp [zzlCountLoop, stands.readScore small, passes, moved]
    · cases impossible
  | cons next others ih =>
    obtain ⟨fuel, rfl⟩ : ∃ left, fuel = left + 1 := ⟨fuel - 1, by simp at enough; omega⟩
    rcases stands.next small with ⟨impossible, _⟩ | ⟨_, _, there, same, moved, stands'⟩
    · cases impossible
    · obtain ⟨rfl, rfl⟩ := List.cons.inj same
      have further := ih stands' (count + 1) fuel (by simpa using enough)
      cases passes : zslValueLteMax m.score range with
      | false => simp [zzlCountLoop, stands.readScore small, passes]
      | true =>
        rw [zzlCountLoop]
        simp only [stands.readScore small, some_bind, passes, if_true, moved, further, takeWhile_cons, length_cons]
        congr 1
        omega

end

end RedisCore.ZSet
