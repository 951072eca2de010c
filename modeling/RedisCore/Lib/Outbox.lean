import Mathlib

set_option autoImplicit false

namespace RedisCore.Lib

open Function

/-- Bytes wait to be sent on descriptors. One that is marked with `n` announces a record and must not leave before the
records up to `n` are durable. `fresh` lists the descriptors that have got marked bytes since the records were last made
durable, `written` the marked bytes that have left, with what was durable then. -/
structure Outbox (Fd : Type) where
  queue : Fd → List (Option Nat)
  fresh : List Fd
  durable : Nat
  written : List (Nat × Nat)

namespace Outbox

variable {Fd : Type} [DecidableEq Fd] (o : Outbox Fd)

def put (fd : Fd) (bytes : List (Option Nat)) : Outbox Fd :=
  { o with
    queue := update o.queue fd (o.queue fd ++ bytes)
    fresh := if bytes.any Option.isSome then fd :: o.fresh else o.fresh }

def take (fd : Fd) (count : Nat) : Outbox Fd :=
  { o with
    queue := update o.queue fd ((o.queue fd).drop count)
    written := o.written ++ (((o.queue fd).take count).filterMap id).map (·, o.durable) }

def clear (fd : Fd) : Outbox Fd := { o with queue := update o.queue fd [] }

def commit (level : Nat) : Outbox Fd := { o with fresh := [], durable := max o.durable level }

/-- `level` is the last record so far, unless that is durable already. -/
structure Sound (level : Nat) (o : Outbox Fd) : Prop where
  recorded : ∀ fd n, some n ∈ o.queue fd → n ≤ max o.durable level
  durable : ∀ fd n, some n ∈ o.queue fd → fd ∉ o.fresh → n ≤ o.durable
  written : ∀ w ∈ o.written, w.1 ≤ w.2

variable {o} {level : Nat}

theorem mem_put_queue {fd other : Fd} {bytes : List (Option Nat)} {n : Nat} (waiting : some n ∈ (o.put fd bytes).queue other) :
    some n ∈ o.queue other ∨ other = fd ∧ some n ∈ bytes := by
  simp only [Outbox.put] at waiting
  by_cases here : other = fd
  · subst here
    rw [update_self] at waiting
    exact (List.mem_append.mp waiting).imp_right fun new => ⟨rfl, new⟩
  · rw [update_of_ne here] at waiting
    exact .inl waiting

theorem mem_put_fresh {fd other : Fd} {bytes : List (Option Nat)} :
    other ∈ (o.put fd bytes).fresh ↔ other ∈ o.fresh ∨ other = fd ∧ bytes.any Option.isSome = true := by
  simp only [Outbox.put]
  split_ifs with marked <;> simp [marked, or_comm]

theorem Sound.put (sound : Sound level o) (fd : Fd) (bytes : List (Option Nat)) (marks : ∀ n, some n ∈ bytes → n ≤ level) :
    Sound level (o.put fd bytes) where
  recorded := by
    intro other n waiting
    obtain old | ⟨-, new⟩ := mem_put_queue waiting
    · exact sound.recorded other n old
    · exact (marks n new).trans (le_max_right _ _)
  durable := by
    intro other n waiting calm
    rw [mem_put_fresh, not_or] at calm
    obtain old | ⟨rfl, new⟩ := mem_put_queue waiting
    · exact sound.durable other n old calm.1
    · exact absurd ⟨rfl, List.any_eq_true.mpr ⟨some n, new, rfl⟩⟩ calm.2
  written := sound.written

theorem mem_drop_queue {fd other : Fd} {count n : Nat}
    (waiting : some n ∈ update o.queue fd ((o.queue fd).drop count) other) : some n ∈ o.queue other := by
  by_cases here : other = fd
  · subst here
    rw [update_self] at waiting
    exact List.mem_of_mem_drop waiting
  · rwa [update_of_ne here] at waiting

theorem Sound.take (sound : Sound level o) {fd : Fd} (count : Nat) (calm : fd ∉ o.fresh) : Sound level (o.take fd count) where
  recorded := fun other n waiting => sound.recorded other n (mem_drop_queue waiting)
  durable := fun other n waiting kept => sound.durable other n (mem_drop_queue waiting) kept
  written := by
    intro w left
    obtain old | new := List.mem_append.mp left
    · exact sound.written w old
    · obtain ⟨n, marked, rfl⟩ := List.mem_map.mp new
      obtain ⟨byte, inside, same⟩ := List.mem_filterMap.mp marked
      exact sound.durable fd n (same ▸ List.mem_of_mem_take inside) calm

theorem Sound.clear (sound : Sound level o) (fd : Fd) : Sound level (o.clear fd) := by
  have waits : ∀ other n, some n ∈ (o.clear fd).queue other → some n ∈ o.queue other := by
    intro other n waiting
    by_cases here : other = fd
    · subst here
      simp [Outbox.clear] at waiting
    · simpa [Outbox.clear, here] using waiting
  exact ⟨fun other n waiting => sound.recorded other n (waits other n waiting),
    fun other n waiting => sound.durable other n (waits other n waiting), sound.written⟩

omit [DecidableEq Fd] in
theorem Sound.move (sound : Sound level o) {next : Nat} (later : level ≤ max o.durable next) : Sound next o :=
  ⟨fun fd n waiting => (sound.recorded fd n waiting).trans (max_le (le_max_left _ _) later), sound.durable, sound.written⟩

omit [DecidableEq Fd] in
theorem Sound.commit (sound : Sound level o) : Sound level (o.commit level) :=
  ⟨fun fd n waiting => (sound.recorded fd n waiting).trans (le_max_left _ _), fun fd n waiting _ => sound.recorded fd n waiting,
    sound.written⟩

end Outbox

end RedisCore.Lib
