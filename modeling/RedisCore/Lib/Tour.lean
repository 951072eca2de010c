import Mathlib

set_option autoImplicit false

namespace RedisCore.Tour

open List

inductive Event (Q : Type) where
  | visited (q : Q)
  | dropped (q : Q)
  | gained (q : Q)
  deriving DecidableEq

def Event.map {Q R : Type} (f : Q → R) : Event Q → Event R
  | .visited q => .visited (f q)
  | .dropped q => .dropped (f q)
  | .gained q => .gained (f q)

variable {Q : Type}

/-- Taken away and added again. -/
def Revived (q : Q) (events : List (Event Q)) : Prop :=
  ∃ first second third, events = first ++ .dropped q :: (second ++ .gained q :: third)

def Once (q : Q) (events : List (Event Q)) : Prop :=
  ∃ front rest, events = front ++ .visited q :: rest ∧ .visited q ∉ front ∧ .visited q ∉ rest

section

variable {q : Q} {events : List (Event Q)}

theorem Revived.append (revived : Revived q events) (more : List (Event Q)) :
    Revived q (events ++ more) := by
  obtain ⟨first, second, third, rfl⟩ := revived
  exact ⟨first, second, third ++ more, by simp⟩

theorem Revived.dropped (revived : Revived q events) : .dropped q ∈ events := by
  obtain ⟨first, second, third, rfl⟩ := revived
  simp

theorem revived_of_gained (dropped : .dropped q ∈ events) : Revived q (events ++ [.gained q]) := by
  obtain ⟨first, second, rfl⟩ := append_of_mem dropped
  exact ⟨first, second, [], by simp⟩

end

/-- What is there, what is still to be visited, and what the events so far say about both. -/
structure Invariant (start : Set Q) (events : List (Event Q)) (present pending : Set Q) : Prop where
  covered : ∀ q ∈ start, .dropped q ∉ events → q ∈ pending ∨ .visited q ∈ events
  fresh : ∀ q ∈ pending, ∀ front rest, events = front ++ .visited q :: rest → Revived q rest
  absent : ∀ q, q ∉ present → ∀ front rest, events = front ++ .visited q :: rest → .dropped q ∈ rest
  spaced : ∀ q front middle rest, events = front ++ .visited q :: (middle ++ .visited q :: rest) → Revived q middle

theorem invariant_start (start : Set Q) : Invariant start [] start start where
  covered := fun q member _ => .inl member
  fresh := by simp
  absent := by simp
  spaced := by simp

-- An event that is appended extends what follows an earlier one, unless it is that one.
theorem split_concat {events front rest : List (Event Q)} {e f : Event Q} (shape : events ++ [e] = front ++ f :: rest) :
    (rest = [] ∧ f = e ∧ front = events) ∨ ∃ before, rest = before ++ [e] ∧ events = front ++ f :: before := by
  cases rest using List.reverseRecOn with
  | nil =>
    obtain ⟨rfl, same⟩ := append_inj' shape rfl
    exact .inl ⟨rfl, (singleton_inj.mp same).symm, rfl⟩
  | append_singleton before g =>
    have regroup : events ++ [e] = (front ++ f :: before) ++ [g] := by rw [shape]; simp
    obtain ⟨rfl, same⟩ := append_inj' regroup rfl
    exact .inr ⟨before, by rw [singleton_inj.mp same], rfl⟩

variable {start present pending : Set Q} {events : List (Event Q)} (inv : Invariant start events present pending)

include inv

theorem Invariant.spaced_concat (e : Event Q) (other : ∀ q, .visited q ≠ e) (q : Q) (front middle rest : List (Event Q))
    (shape : events ++ [e] = front ++ .visited q :: (middle ++ .visited q :: rest)) : Revived q middle := by
  rw [← cons_append, ← append_assoc] at shape
  rcases split_concat shape with ⟨_, same, _⟩ | ⟨before, _, shape'⟩
  · exact absurd same (other q)
  · exact inv.spaced q front middle before (by simpa using shape')

theorem Invariant.visit {q : Q} (member : q ∈ pending) (inside : q ∈ present) (pending' : Set Q)
    (visited : ∀ r, r ∈ pending' ↔ r ∈ pending ∧ r ≠ q) : Invariant start (events ++ [.visited q]) present pending' where
  covered := by
    intro r started kept
    have kept_before : .dropped r ∉ events := fun dropped => kept (mem_append_left _ dropped)
    rcases inv.covered r started kept_before with waiting | seen
    · by_cases same : r = q
      · exact .inr (by simp [same])
      · exact .inl ((visited r).mpr ⟨waiting, same⟩)
    · exact .inr (mem_append_left _ seen)
  fresh := by
    intro r waiting front rest shape
    obtain ⟨before, other⟩ := (visited r).mp waiting
    rcases split_concat shape with ⟨_, same, _⟩ | ⟨middle, rfl, shape'⟩
    · exact absurd (Event.visited.inj same) other
    · exact (inv.fresh r before front middle shape').append _
  absent := by
    intro r outside front rest shape
    rcases split_concat shape with ⟨_, same, _⟩ | ⟨middle, rfl, shape'⟩
    · exact absurd (Event.visited.inj same ▸ inside) outside
    · exact mem_append_left _ (inv.absent r outside front middle shape')
  spaced := by
    intro r front middle rest shape
    rw [← cons_append, ← append_assoc] at shape
    rcases split_concat shape with ⟨_, same, shape'⟩ | ⟨before, _, shape'⟩
    · obtain rfl := Event.visited.inj same
      exact inv.fresh r member front middle shape'.symm
    · exact inv.spaced r front middle before (by simpa using shape')

theorem Invariant.drop (q : Q) (present' : Set Q) (left : ∀ r, r ∈ present' ↔ r ∈ present ∧ r ≠ q) :
    Invariant start (events ++ [.dropped q]) present' pending where
  covered := by
    intro r started kept
    rcases inv.covered r started fun dropped => kept (mem_append_left _ dropped) with waiting | seen
    · exact .inl waiting
    · exact .inr (mem_append_left _ seen)
  fresh := by
    intro r waiting front rest shape
    rcases split_concat shape with ⟨_, same, _⟩ | ⟨middle, rfl, shape'⟩
    · cases same
    · exact (inv.fresh r waiting front middle shape').append _
  absent := by
    intro r outside front rest shape
    rcases split_concat shape with ⟨_, same, _⟩ | ⟨middle, rfl, shape'⟩
    · cases same
    · by_cases same : r = q
      · simp [same]
      · have before : r ∉ present := fun there => outside ((left r).mpr ⟨there, same⟩)
        exact mem_append_left _ (inv.absent r before front middle shape')
  spaced := inv.spaced_concat _ (by simp)

theorem Invariant.gain (q : Q) (new : q ∉ present) (present' pending' : Set Q) (more : ∀ r, r ∈ present' ↔ r ∈ present ∨ r = q)
    (waits : ∀ r ∈ pending, r ∈ pending') (only : ∀ r ∈ pending', r ∈ pending ∨ r = q) :
    Invariant start (events ++ [.gained q]) present' pending' where
  covered := by
    intro r started kept
    rcases inv.covered r started fun dropped => kept (mem_append_left _ dropped) with waiting | seen
    · exact .inl (waits r waiting)
    · exact .inr (mem_append_left _ seen)
  fresh := by
    intro r waiting front rest shape
    rcases split_concat shape with ⟨_, same, _⟩ | ⟨middle, rfl, shape'⟩
    · cases same
    · by_cases same : r = q
      · subst same
        exact revived_of_gained (inv.absent r new front middle shape')
      · exact (inv.fresh r ((only r waiting).resolve_right same) front middle shape').append _
  absent := by
    intro r outside front rest shape
    rcases split_concat shape with ⟨_, same, _⟩ | ⟨middle, rfl, shape'⟩
    · cases same
    · have before : r ∉ present := fun there => outside ((more r).mpr (.inl there))
      exact mem_append_left _ (inv.absent r before front middle shape')
  spaced := inv.spaced_concat _ (by simp)

/-- At the end of the tour everything that stayed has been visited once. -/
theorem Invariant.complete (done : ∀ q, q ∉ pending) {q : Q} (started : q ∈ start) (kept : .dropped q ∉ events) : Once q events := by
  obtain ⟨front, rest, shape⟩ := append_of_mem ((inv.covered q started kept).resolve_left (done q))
  refine ⟨front, rest, shape, fun before => ?_, fun behind => ?_⟩
  · obtain ⟨first, middle, rfl⟩ := append_of_mem before
    have revived := inv.spaced q first middle rest (by rw [shape]; simp)
    exact kept (by rw [shape]; simp [revived.dropped])
  · obtain ⟨middle, last, rfl⟩ := append_of_mem behind
    have revived := inv.spaced q front middle last shape
    exact kept (by rw [shape]; simp [revived.dropped])

end RedisCore.Tour
