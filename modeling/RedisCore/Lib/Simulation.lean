import RedisCore.Lib.Outcome

set_option autoImplicit false

namespace RedisCore.Simulation

open List

variable {State Model Op : Type}

theorem run_simulates (step : State → Op → Option State) (spec : Model → Op → Model)
    (Rel : State → Model → Prop) (Ok : Model → Prop)
    (simulates : ∀ state model op, Rel state model → Ok model → Ok (spec model op) →
      ∃ next, step state op = some next ∧ Rel next (spec model op))
    {ops : List Op} (state : State) (model : Model) (related : Rel state model)
    (ok : ∀ done, done <+: ops → Ok (done.foldl spec model)) :
    ∃ final, ops.foldlM step state = some final ∧ Rel final (ops.foldl spec model) := by
  induction ops generalizing state model with
  | nil => exact ⟨state, rfl, related⟩
  | cons op ops ih =>
    obtain ⟨next, stepped, related_next⟩ := simulates state model op related
      (ok [] nil_prefix) (ok [op] (cons_prefix_cons.mpr ⟨rfl, nil_prefix⟩))
    obtain ⟨final, run, related_final⟩ := ih next (spec model op) related_next
      (fun done within => ok (op :: done) (cons_prefix_cons.mpr ⟨rfl, within⟩))
    exact ⟨final, by rw [foldlM_cons, stepped, some_bind, run], related_final⟩

variable {Out Stop : Type}

def runOut (step : State → Op → Except Stop (State × Out)) :
    List Op → State → Except Stop (State × List Out)
  | [], state => .ok (state, [])
  | op :: ops, state => do
    let (state, out) ← step state op
    let (state, outs) ← runOut step ops state
    pure (state, out :: outs)

theorem runOut_concat {step : State → Op → Except Stop (State × Out)} {ops : List Op} {state middle final : State} {outs : List Out}
    {op : Op} {out : Out} (ran : runOut step ops state = .ok (middle, outs)) (last : step middle op = .ok (final, out)) :
    runOut step (ops ++ [op]) state = .ok (final, outs ++ [out]) := by
  induction ops generalizing state outs with
  | nil =>
    cases ran
    simp [runOut, last, bind, Except.bind]
  | cons first ops ih =>
    simp only [runOut, bind, Except.bind] at ran
    split at ran
    · cases ran
    next result stepped =>
      split at ran
      · cases ran
      next rest ran_rest =>
        cases ran
        simp only [cons_append, runOut, bind, Except.bind, stepped, ih ran_rest]
        rfl

theorem runOut_concat_error {step : State → Op → Except Stop (State × Out)} {ops : List Op} {state middle : State} {outs : List Out}
    {op : Op} {stop : Stop} (ran : runOut step ops state = .ok (middle, outs)) (last : step middle op = .error stop) :
    runOut step (ops ++ [op]) state = .error stop := by
  induction ops generalizing state outs with
  | nil =>
    cases ran
    simp [runOut, last, bind, Except.bind]
  | cons first ops ih =>
    simp only [runOut, bind, Except.bind] at ran
    split at ran
    · cases ran
    next result stepped =>
      split at ran
      · cases ran
      next rest ran_rest =>
        cases ran
        simp only [cons_append, runOut, bind, Except.bind, stepped, ih ran_rest]

def specOut (spec : Model → Op → Model × Out) : List Op → Model → Model × List Out
  | [], model => (model, [])
  | op :: ops, model =>
    let (model, out) := spec model op
    let (model, outs) := specOut spec ops model
    (model, out :: outs)

theorem runOut_simulates (step : State → Op → Except Stop (State × Out))
    (spec : Model → Op → Model × Out) (Rel : State → Model → Prop) (Allowed : Op → Prop)
    (permitted : Stop)
    (simulates : ∀ state model op, Rel state model → Allowed op → step state op = .error permitted ∨
        ∃ next, step state op = .ok (next, (spec model op).2) ∧ Rel next (spec model op).1)
    (ops : List Op) (state : State) (model : Model) (related : Rel state model)
    (allowed : ∀ op ∈ ops, Allowed op) :
    runOut step ops state = .error permitted ∨
      ∃ final, runOut step ops state = .ok (final, (specOut spec ops model).2) ∧
        Rel final (specOut spec ops model).1 := by
  induction ops generalizing state model with
  | nil => exact Or.inr ⟨state, rfl, related⟩
  | cons op ops ih =>
    rcases simulates state model op related (allowed op mem_cons_self) with
      stopped | ⟨next, stepped, related_next⟩
    · exact Or.inl (by simp [runOut, stopped, bind, Except.bind])
    · rcases ih next _ related_next (fun other member => allowed other (mem_cons_of_mem _ member)) with
        stopped | ⟨final, ran, related_final⟩
      · exact Or.inl (by simp [runOut, stepped, stopped, bind, Except.bind])
      · exact Or.inr ⟨final, by simp [runOut, specOut, stepped, ran, bind, Except.bind], related_final⟩

def Guarded (step : State → Op → Except Stop (State × Out)) (Before : State → Op → Bool) (After : State → Bool) :
    List Op → State → Bool
  | [], _ => true
  | op :: ops, state => Before state op && match step state op with
    | .ok (next, _) => After next && Guarded step Before After ops next
    | .error _ => true

theorem runOut_guarded (step : State → Op → Except Stop (State × Out)) (spec : Model → Op → Model × Out)
    (Rel : State → Model → Prop) (Before : State → Op → Bool) (After : State → Bool)
    (simulates : ∀ state model op, Rel state model → After state = true → Before state op = true →
      ∃ next, step state op = .ok (next, (spec model op).2) ∧ Rel next (spec model op).1)
    (ops : List Op) (state : State) (model : Model) (related : Rel state model) (after : After state = true)
    (guarded : Guarded step Before After ops state = true) :
    ∃ final, runOut step ops state = .ok (final, (specOut spec ops model).2) ∧
      Rel final (specOut spec ops model).1 ∧ After final = true := by
  induction ops generalizing state model with
  | nil => exact ⟨state, rfl, related, after⟩
  | cons op ops ih =>
    rw [Guarded, Bool.and_eq_true] at guarded
    obtain ⟨next, stepped, related_next⟩ := simulates state model op related after guarded.1
    have later := guarded.2
    rw [stepped, Bool.and_eq_true] at later
    obtain ⟨final, ran, related_final⟩ := ih next _ related_next later.1 later.2
    exact ⟨final, by simp [runOut, specOut, stepped, ran, bind, Except.bind], related_final⟩

end RedisCore.Simulation
