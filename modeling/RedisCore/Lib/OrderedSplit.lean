import Mathlib

set_option autoImplicit false

namespace RedisCore.OrderedSplit

open List

variable {A : Type} (low high : A → Bool)

def inside (a : A) : Bool := low a && high a

/-- Along the list the lower test does not fail again once it has passed, and the upper one does not pass again. -/
structure Ordered (values : List A) : Prop where
  lower : values.Pairwise fun a b => low a = true → low b = true
  upper : values.Pairwise fun a b => high b = true → high a = true

/-- The three parts into which an interval cuts an ordered list. -/
structure Parts (below within above : List A) : Prop where
  before : ∀ a ∈ below, low a = false
  both : ∀ a ∈ within, low a = true ∧ high a = true
  past : ∀ a ∈ above, low a = true ∧ high a = false
  reached : within ≠ [] → ∀ a ∈ below, high a = true

theorem dropWhile_holds (test : A → Bool) {values : List A}
    (ordered : values.Pairwise fun a b => test a = true → test b = true) :
    ∀ a ∈ values.dropWhile fun a => !test a, test a = true := by
  induction values with
  | nil => simp
  | cons first values ih =>
    obtain ⟨later, rest⟩ := pairwise_cons.mp ordered
    rw [dropWhile_cons]
    split
    next => exact ih rest
    next passes =>
      have here : test first = true := by simpa using passes
      intro a member
      rcases mem_cons.mp member with rfl | inside
      · exact here
      · exact later a inside here

theorem dropWhile_fails (test : A → Bool) {values : List A}
    (ordered : values.Pairwise fun a b => test b = true → test a = true) :
    ∀ a ∈ values.dropWhile test, test a = false := by
  have flipped : values.Pairwise fun a b => (!test a) = true → (!test b) = true := by
    refine ordered.imp fun {a b} back fails => ?_
    rw [Bool.not_eq_true', ← Bool.not_eq_true] at fails ⊢
    exact fun passes => fails (back passes)
  have failed := dropWhile_holds (fun a => !test a) flipped
  simpa using failed

theorem takeWhile_split {test : A → Bool} {passed failed : List A} (passes : ∀ a ∈ passed, test a = true)
    (fails : ∀ a ∈ failed, test a = false) : (passed ++ failed).takeWhile test = passed := by
  rw [takeWhile_append_of_pos passes]
  cases failed with
  | nil => rw [takeWhile_nil, append_nil]
  | cons a failed =>
    rw [takeWhile_cons, fails a mem_cons_self]
    exact append_nil passed

theorem Ordered.parts (values : List A) (ordered : Ordered low high values) :
    ∃ below within above, values = below ++ (within ++ above) ∧ Parts low high below within above := by
  have split : values.takeWhile (fun a => !low a) ++ values.dropWhile (fun a => !low a) = values :=
    takeWhile_append_dropWhile
  have split_rest : (values.dropWhile fun a => !low a).takeWhile high ++ (values.dropWhile fun a => !low a).dropWhile high =
      values.dropWhile fun a => !low a := takeWhile_append_dropWhile
  have passes := dropWhile_holds low ordered.lower
  have sorted := ordered.upper
  rw [← split] at sorted
  obtain ⟨_, behind, across⟩ := pairwise_append.mp sorted
  refine ⟨_, _, _, (by rw [split_rest, split]), ?_, ?_, ?_, ?_⟩
  · intro a member
    simpa using mem_takeWhile_imp member
  · intro a member
    exact ⟨passes a ((takeWhile_sublist _).subset member), mem_takeWhile_imp member⟩
  · intro a member
    exact ⟨passes a ((dropWhile_sublist _).subset member), dropWhile_fails high behind a member⟩
  · intro some_within a member
    obtain ⟨b, inside⟩ := exists_mem_of_ne_nil _ some_within
    exact across a member b ((takeWhile_sublist _).subset inside) (mem_takeWhile_imp inside)

section

variable {low high} {below within above : List A}

section

variable (parts : Parts low high below within above)

include parts

theorem Parts.filter :
    (below ++ (within ++ above)).filter (inside low high) = within := by
  have none_below : below.filter (inside low high) = [] :=
    filter_eq_nil_iff.mpr fun a member => by simp [inside, parts.before a member]
  have none_above : above.filter (inside low high) = [] :=
    filter_eq_nil_iff.mpr fun a member => by simp [inside, parts.past a member]
  have all_within : within.filter (inside low high) = within :=
    filter_eq_self.mpr fun a member => by simp [inside, parts.both a member]
  rw [filter_append, filter_append, none_below, none_above, all_within, nil_append, append_nil]

theorem Parts.filter_not :
    ((below ++ (within ++ above)).filter fun a => !inside low high a) = below ++ above := by
  have all_below : (below.filter fun a => !inside low high a) = below :=
    filter_eq_self.mpr fun a member => by simp [inside, parts.before a member]
  have all_above : (above.filter fun a => !inside low high a) = above :=
    filter_eq_self.mpr fun a member => by simp [inside, parts.past a member]
  have none_within : (within.filter fun a => !inside low high a) = [] :=
    filter_eq_nil_iff.mpr fun a member => by simp [inside, parts.both a member]
  rw [filter_append, filter_append, all_below, all_above, none_within, nil_append]

theorem Parts.empty (never : ∀ a, ¬(low a = true ∧ high a = true)) : within = [] := by
  by_contra some_within
  obtain ⟨a, member⟩ := exists_mem_of_ne_nil _ some_within
  exact never a (parts.both a member)

theorem Parts.last_low (a : A)
    (last : (below ++ (within ++ above)).getLast? = some a) : low a = true ↔ within ++ above ≠ [] := by
  rw [getLast?_append] at last
  cases rest : (within ++ above).getLast? with
  | none =>
    have nothing := getLast?_eq_none_iff.mp rest
    rw [rest, Option.none_or] at last
    simp [nothing, parts.before a (mem_of_getLast? last)]
  | some b =>
    rw [rest, Option.some_or, Option.some.injEq] at last
    subst last
    have member := mem_of_getLast? rest
    refine ⟨fun _ => ne_nil_of_mem member, fun _ => ?_⟩
    rcases mem_append.mp member with inside | after
    · exact (parts.both b inside).1
    · exact (parts.past b after).1

theorem Parts.first_high (a : A)
    (first : (below ++ (within ++ above)).head? = some a) (fails : high a = false) : within = [] := by
  by_contra some_within
  cases below with
  | nil =>
    obtain ⟨b, others, rfl⟩ := exists_cons_of_ne_nil some_within
    obtain rfl : b = a := by simpa using first
    rw [(parts.both b mem_cons_self).2] at fails
    cases fails
  | cons b others =>
    obtain rfl : b = a := by simpa using first
    rw [parts.reached some_within b mem_cons_self] at fails
    cases fails

end

/-- Where nothing is inside, the upper test already fails before the lower one passes. -/
theorem Parts.prefix_below (parts : Parts low high below [] above) {front : List A} (rest : List A)
    (shape : below ++ above = front ++ rest) (passed : ∀ a ∈ front, high a = true) : ∀ a ∈ front, low a = false := by
  intro a member
  have somewhere : a ∈ below ++ above := by
    rw [shape]
    exact mem_append_left rest member
  rcases mem_append.mp somewhere with inside | after
  · exact parts.before a inside
  · have fails := (parts.past a after).2
    rw [passed a member] at fails
    cases fails

end

end RedisCore.OrderedSplit
