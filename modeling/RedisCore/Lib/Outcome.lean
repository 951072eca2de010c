import Mathlib

set_option autoImplicit false

namespace RedisCore

open List

variable {ε α β : Type}

@[simp] theorem ok_bind (a : α) (f : α → Except ε β) : (Except.ok a >>= f) = f a := rfl

@[simp] theorem error_bind (e : ε) (f : α → Except ε β) : (Except.error e >>= f) = .error e := rfl

@[simp] theorem pure_ok (a : α) : (pure a : Except ε α) = .ok a := rfl

theorem some_bind (a : α) (f : α → Option β) : (some a >>= f) = f a := rfl

namespace Lib

theorem bind_ok {γ : Type} {x : Except ε β} {f : β → Except ε γ} {r : γ} :
    (x >>= f) = .ok r ↔ ∃ a, x = .ok a ∧ f a = .ok r := by
  cases x with
  | error e => exact ⟨nofun, fun ⟨_, impossible, _⟩ => nomatch impossible⟩
  | ok a => exact ⟨fun h => ⟨a, rfl, h⟩, fun ⟨_, same, h⟩ => Except.ok.inj same ▸ h⟩

/-- The computation ends without a fault, in a result with P. -/
abbrev Returns (x : Except ε α) (P : α → Prop) : Prop := ∃ a, x = .ok a ∧ P a

theorem Returns.bind {x : Except ε α} {f : α → Except ε β} {P : α → Prop} {Q : β → Prop} (first : Returns x P)
    (next : ∀ a, P a → Returns (f a) Q) : Returns (x >>= f) Q := by
  obtain ⟨a, computed, holds⟩ := first
  rw [computed]
  exact next a holds

theorem Returns.imp {x : Except ε α} {P Q : α → Prop} (first : Returns x P) (weaker : ∀ a, P a → Q a) : Returns x Q := by
  obtain ⟨a, computed, holds⟩ := first
  exact ⟨a, computed, weaker a holds⟩

theorem exists_of_isOk (x : Except ε α) (ok : x.isOk = true) : ∃ a, x = .ok a := by
  cases x with
  | error e => exact absurd ok (by simp [Except.isOk, Except.toBool])
  | ok a => exact ⟨a, rfl⟩

theorem foldlM_preserves (P : β → Prop) {f : β → α → Except ε β} {l : List α} (b : β) {r : β}
    (keeps : ∀ b a b', a ∈ l → P b → f b a = .ok b' → P b') (start : P b) (finished : l.foldlM f b = .ok r) : P r := by
  induction l generalizing b with
  | nil =>
    cases finished
    exact start
  | cons a rest ih =>
    rw [foldlM_cons, bind_ok] at finished
    obtain ⟨b', first, others⟩ := finished
    have kept := keeps b a b' mem_cons_self start first
    exact ih b' (fun b a b' inside => keeps b a b' (mem_cons_of_mem _ inside)) kept others

theorem foldlM_total (P : List α → β → Prop) (f : β → α → Except ε β) {l : List α} (nodup : l.Nodup)
    (keeps : ∀ done b a, a ∈ l → a ∉ done → P done b → ∃ b', f b a = .ok b' ∧ P (a :: done) b') (done : List α)
    (apart : ∀ a ∈ l, a ∉ done) (b : β) (start : P done b) :
    ∃ r, l.foldlM f b = .ok r ∧ P (l.reverse ++ done) r := by
  induction l generalizing b done with
  | nil => exact ⟨b, rfl, start⟩
  | cons a rest ih =>
    obtain ⟨absent, distinct⟩ := nodup_cons.mp nodup
    obtain ⟨b', first, kept⟩ := keeps done b a mem_cons_self (apart a mem_cons_self) start
    have apart' : ∀ x ∈ rest, x ∉ a :: done := by
      intro x inside
      rw [mem_cons, not_or]
      exact ⟨fun same => absent (same ▸ inside), apart x (mem_cons_of_mem _ inside)⟩
    obtain ⟨r, others, final⟩ := ih distinct
      (fun done b a inside => keeps done b a (mem_cons_of_mem _ inside)) (a :: done) apart' b' kept
    refine ⟨r, ?_, ?_⟩
    · rw [foldlM_cons, bind_ok]
      exact ⟨b', first, others⟩
    · simpa using final

variable {σ : Type}

def allSteps (step : σ → α → σ) (holds : σ → α → Bool) : σ → List α → Bool
  | _, [] => true
  | s, a :: rest => holds s a && allSteps step holds (step s a) rest

theorem foldl_guarded {step : σ → α → σ} {holds : σ → α → Bool} {P : σ → Prop}
    (keeps : ∀ s a, P s → holds s a = true → P (step s a)) (l : List α) (s : σ) (start : P s) (all : allSteps step holds s l = true) :
    P (l.foldl step s) := by
  induction l generalizing s with
  | nil => exact start
  | cons a rest ih =>
    obtain ⟨first, later⟩ := (Bool.and_eq_true _ _).mp all
    exact ih (step s a) (keeps s a start first) later

theorem foldl_kept {step : σ → α → σ} {P : σ → Prop} (keeps : ∀ s a, P s → P (step s a)) (l : List α) (s : σ) (start : P s) :
    P (l.foldl step s) := by
  induction l generalizing s with
  | nil => exact start
  | cons a rest ih => exact ih (step s a) (keeps s a start)

end Lib

end RedisCore
