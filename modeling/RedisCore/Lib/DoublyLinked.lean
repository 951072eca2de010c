import Mathlib.Data.List.Induction
import Mathlib.Logic.Function.Basic

set_option autoImplicit false

namespace RedisCore.DoublyLinked

open List

variable {A : Type} [DecidableEq A]

-- The cells of the list follow each other; before and after are what its outer links point to.
def Linked (prev next : A → Option A) : (before : Option A) → List A → (after : Option A) → Prop
  | _, [], _ => True
  | before, a :: rest, after =>
    prev a = before ∧ next a = rest.head?.or after ∧ Linked prev next (some a) rest after

-- A store through a pointer that may be NULL.
def store (link : A → Option A) (cell : Option A) (value : Option A) : A → Option A :=
  match cell with
  | none => link
  | some a => Function.update link a value

def spliceBack (prev next : A → Option A) (old new : A) : (A → Option A) × (A → Option A) :=
  (store (Function.update prev new (some old)) (next old) (some new),
    Function.update (Function.update next new (next old)) old (some new))

def unlink (prev next : A → Option A) (cell : A) : (A → Option A) × (A → Option A) :=
  (store prev (next cell) (prev cell), store next (prev cell) (next cell))

omit [DecidableEq A] in
theorem getLast?_cons_or (a : A) (rest : List A) (before : Option A) :
    (a :: rest).getLast?.or before = rest.getLast?.or (some a) := by
  rw [getLast?_cons]
  cases rest.getLast? <;> rfl

omit [DecidableEq A] in
theorem linked_append (prev next : A → Option A) (before after : Option A) (front rest : List A) :
    Linked prev next before (front ++ rest) after ↔
      Linked prev next before front (rest.head?.or after) ∧
        Linked prev next (front.getLast?.or before) rest after := by
  induction front generalizing before with
  | nil => simp [Linked]
  | cons a front ih =>
    rw [cons_append, Linked, Linked, ih, head?_append, Option.or_assoc, getLast?_cons_or]
    simp only [and_assoc]

omit [DecidableEq A] in
theorem linked_congr {prev next : A → Option A} (prev' next' : A → Option A) (before : Option A) {after : Option A} {cells : List A}
    (same : ∀ a ∈ cells, prev' a = prev a ∧ next' a = next a) (linked : Linked prev next before cells after) :
    Linked prev' next' before cells after := by
  induction cells generalizing before with
  | nil => trivial
  | cons a cells ih =>
    obtain ⟨back, forth, rest⟩ := linked
    obtain ⟨same_prev, same_next⟩ := same a mem_cons_self
    exact ⟨same_prev.trans back, same_next.trans forth,
      ih (some a) (fun b inside => same b (mem_cons_of_mem a inside)) rest⟩

omit [DecidableEq A] in
theorem linked_reverse {prev next : A → Option A} (before after : Option A) {cells : List A}
    (linked : Linked prev next before cells after) : Linked next prev after cells.reverse before := by
  induction cells generalizing before with
  | nil => trivial
  | cons a cells ih =>
    obtain ⟨back, forth, rest⟩ := linked
    rw [reverse_cons, linked_append]
    refine ⟨by simpa using ih (some a) rest, ?_, ?_, trivial⟩
    · rw [forth, getLast?_reverse]
    · rw [back]
      rfl

omit [DecidableEq A] in
theorem Linked.at_cell {prev next : A → Option A} {front rest : List A} {a : A}
    (linked : Linked prev next none (front ++ a :: rest) none) :
    prev a = front.getLast? ∧ next a = rest.head? := by
  obtain ⟨_, back, forth, _⟩ := (linked_append prev next none none front (a :: rest)).mp linked
  exact ⟨by simpa using back, by simpa using forth⟩

theorem linked_splice {prev next : A → Option A} {front rest : List A} {old new : A}
    (linked : Linked prev next none (front ++ old :: rest) none) (distinct : (front ++ old :: rest).Nodup)
    (absent : new ∉ front ++ old :: rest) :
    Linked (spliceBack prev next old new).1 (spliceBack prev next old new).2 none
      (front ++ old :: new :: rest) none := by
  obtain ⟨back, forth⟩ := linked.at_cell
  obtain ⟨linked_front, _, _, linked_rest⟩ := (linked_append prev next none none front (old :: rest)).mp linked
  simp only [nodup_append, nodup_cons, mem_append, mem_cons, not_or] at distinct absent
  obtain ⟨_, ⟨old_rest, nodup_rest⟩, apart⟩ := distinct
  obtain ⟨new_front, new_old, new_rest⟩ := absent
  have others : ∀ a, a ≠ old → a ≠ new → rest.head? ≠ some a →
      (spliceBack prev next old new).1 a = prev a ∧ (spliceBack prev next old new).2 a = next a := by
    intro a not_old not_new not_head
    refine ⟨?_, by simp [spliceBack, not_old, not_new]⟩
    rw [spliceBack, forth]
    cases head : rest.head? with
    | none => simp [store, not_new]
    | some b =>
      have not_b : a ≠ b := fun same => not_head (by rw [head, same])
      simp [store, not_b, not_new]
  have in_rest : ∀ a, rest.head? = some a → a ∈ rest := fun a head => mem_of_head? head
  refine (linked_append _ _ none none front (old :: new :: rest)).mpr ⟨?_, ?_, ?_, ?_, ?_, ?_⟩
  · refine linked_congr _ _ none (fun a inside => others a ?_ ?_ ?_) linked_front
    · exact apart a inside old (.inl rfl)
    · rintro rfl
      exact new_front inside
    · exact fun head => apart a inside a (.inr (in_rest a head)) rfl
  · rw [spliceBack, forth, ← back.trans (Option.or_none).symm]
    cases head : rest.head? with
    | none => simp [store, Ne.symm new_old]
    | some b =>
      have not_b : old ≠ b := fun same => old_rest (same ▸ in_rest b head)
      simp [store, not_b, Ne.symm new_old]
  · simp [spliceBack]
  · rw [spliceBack, forth]
    cases head : rest.head? with
    | none => simp [store]
    | some b =>
      have not_b : new ≠ b := fun same => new_rest (same ▸ in_rest b head)
      simp [store, not_b]
  · simp [spliceBack, new_old, forth]
  · cases rest with
    | nil => trivial
    | cons b rest =>
      obtain ⟨_, forth_b, linked_rest⟩ := linked_rest
      obtain ⟨b_rest, nodup_rest⟩ := nodup_cons.mp nodup_rest
      simp only [mem_cons, not_or] at old_rest new_rest
      refine ⟨by simp [spliceBack, forth, store], ?_, ?_⟩
      · rw [← forth_b]
        simp [spliceBack, Ne.symm old_rest.1, Ne.symm new_rest.1]
      · refine linked_congr _ _ (some b) (fun a inside => others a ?_ ?_ ?_) linked_rest
        · rintro rfl
          exact old_rest.2 inside
        · rintro rfl
          exact new_rest.2 inside
        · rintro ⟨⟩
          exact b_rest inside

theorem linked_unlink {prev next : A → Option A} {front rest : List A} {cell : A}
    (linked : Linked prev next none (front ++ cell :: rest) none) (distinct : (front ++ cell :: rest).Nodup) :
    Linked (unlink prev next cell).1 (unlink prev next cell).2 none (front ++ rest) none := by
  obtain ⟨back, forth⟩ := linked.at_cell
  obtain ⟨linked_front, _, _, linked_rest⟩ := (linked_append prev next none none front (cell :: rest)).mp linked
  simp only [nodup_append, nodup_cons] at distinct
  obtain ⟨nodup_front, ⟨_, nodup_rest⟩, apart⟩ := distinct
  have across : ∀ a ∈ front, ∀ b ∈ rest, a ≠ b :=
    fun a inside b follows => apart a inside b (mem_cons_of_mem cell follows)
  refine (linked_append _ _ none none front rest).mpr ⟨?_, ?_⟩
  · cases front using List.reverseRecOn with
    | nil => trivial
    | append_singleton front x =>
      rw [linked_append] at linked_front ⊢
      rw [getLast?_concat] at back
      have split := nodup_append.mp nodup_front
      have same_prev : ∀ a ∈ front ++ [x], (unlink prev next cell).1 a = prev a := by
        intro a inside
        cases rest with
        | nil => simp [unlink, forth, store]
        | cons y rest => simp [unlink, forth, store, across a inside y mem_cons_self]
      refine ⟨linked_congr _ _ none (fun a inside => ⟨same_prev a (by simp [inside]), ?_⟩)
        linked_front.1, ?_, ?_, trivial⟩
      · have not_x : a ≠ x := split.2.2 a inside x (by simp)
        simp [unlink, back, store, not_x]
      · rw [same_prev x (by simp)]
        exact linked_front.2.1
      · simp [unlink, back, store, forth]
  · cases rest with
    | nil => trivial
    | cons y rest =>
      obtain ⟨_, forth_y, linked_rest⟩ := linked_rest
      obtain ⟨y_rest, _⟩ := nodup_cons.mp nodup_rest
      have same_next : ∀ a ∈ y :: rest, (unlink prev next cell).2 a = next a := by
        intro a inside
        cases last : front.getLast? with
        | none => simp [unlink, back, last, store]
        | some x =>
          have not_x : a ≠ x := (across x (mem_of_getLast? last) a inside).symm
          simp [unlink, back, last, store, not_x]
      refine ⟨by simp [unlink, forth, back, store], (same_next y mem_cons_self).trans forth_y, ?_⟩
      refine linked_congr _ _ (some y) (fun a inside => ⟨?_, same_next a (mem_cons_of_mem y inside)⟩) linked_rest
      have not_y : a ≠ y := fun same => y_rest (same ▸ inside)
      simp [unlink, forth, store, not_y]

end RedisCore.DoublyLinked
