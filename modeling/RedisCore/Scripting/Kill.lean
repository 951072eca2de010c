import RedisCore.Lib.Outcome

set_option autoImplicit false

namespace RedisCore.Scripting

structure Command where
  write : Bool
  random : Bool
  denyoom : Bool
  noscript : Bool
  deriving DecidableEq

inductive LuaError where
  | killed
  | raised
  deriving DecidableEq

-- An arbitrary program is a type of control states with the instruction at each of them. A call whose command is
-- not in the table, or has a wrong number of arguments, has none. pcall and leave delimit a protected call.
inductive Instr (σ ρ : Type) where
  | compute (next : σ)
  | call (cmd : Option Command) (raises : Bool) (next : Option ρ → σ)
  | pcall (body : σ) (handler : Option LuaError → σ)
  | leave
  | raise

-- ended holds the error of a script that has ended with one. executed and caught record the commands that were run
-- and whether the error of SCRIPT KILL was caught.
structure State (σ : Type) where
  control : σ
  handlers : List (Option LuaError → σ)
  ended : Option (Option LuaError)
  luaWriteDirty : Bool
  luaRandomDirty : Bool
  luaKill : Bool
  luaTimedout : Bool
  executed : List Command
  caught : Bool

structure Conditions where
  replicateCommands : Bool
  readonlySlave : Bool
  bgsaveFails : Bool
  maxmemory : Bool
  freeMemoryFails : Bool
  foreignKey : Bool
  errorReply : Bool

inductive Event (ρ : Type) where
  | instr (conditions : Conditions) (reply : ρ)
  | hook (elapsed : Bool) (kills : Nat)

section

variable {σ ρ : Type}

def eval (control : σ) : State σ where
  control := control
  handlers := []
  ended := none
  luaWriteDirty := false
  luaRandomDirty := false
  luaKill := false
  luaTimedout := false
  executed := []
  caught := false

def luaError (s : State σ) (error : LuaError) : State σ :=
  match s.handlers with
  | [] => { s with ended := some (some error) }
  | handler :: outer =>
    { s with control := handler (some error), handlers := outer, caught := s.caught || decide (error = .killed) }

def luaReturn (s : State σ) : State σ :=
  match s.handlers with
  | [] => { s with ended := some none }
  | handler :: outer => { s with control := handler none, handlers := outer }

def scriptKill (s : State σ) : State σ := if s.luaWriteDirty then s else { s with luaKill := true }

def processEventsWhileBlocked (s : State σ) : Nat → State σ
  | 0 => s
  | kills + 1 => processEventsWhileBlocked (scriptKill s) kills

def luaMaskCountHook (s : State σ) (elapsed : Bool) (kills : Nat) : State σ :=
  let timed := { s with luaTimedout := s.luaTimedout || elapsed }
  let served := if timed.luaTimedout then processEventsWhileBlocked timed kills else timed
  if served.luaKill then luaError served .killed else served

def refuses (s : State σ) (cmd : Command) (conditions : Conditions) : Bool :=
  cmd.noscript ||
    (cmd.write && ((s.luaRandomDirty && !conditions.replicateCommands) || conditions.readonlySlave || conditions.bgsaveFails)) ||
    (conditions.maxmemory && !s.luaWriteDirty && cmd.denyoom && conditions.freeMemoryFails)

def markDirty (s : State σ) (cmd : Command) : State σ :=
  { s with luaRandomDirty := s.luaRandomDirty || cmd.random, luaWriteDirty := s.luaWriteDirty || cmd.write }

-- The state after the call and whether its reply is an error. The dirty flags are set before the check of the cluster.
def luaRedisGenericCommand (s : State σ) (cmd : Option Command) (conditions : Conditions) : State σ × Bool :=
  match cmd with
  | none => (s, true)
  | some cmd =>
    if refuses s cmd conditions then (s, true)
    else if conditions.foreignKey then (markDirty s cmd, true)
    else ({ markDirty s cmd with executed := s.executed ++ [cmd] }, conditions.errorReply)

def runInstr (s : State σ) (conditions : Conditions) (reply : ρ) : Instr σ ρ → State σ
  | .compute next => { s with control := next }
  | .call cmd raises next =>
    let (after, error) := luaRedisGenericCommand s cmd conditions
    if error && raises then luaError after .raised
    else { after with control := next (if error then none else some reply) }
  | .pcall body handler => { s with control := body, handlers := handler :: s.handlers }
  | .leave => luaReturn s
  | .raise => luaError s .raised

variable (program : σ → Instr σ ρ)

def step (s : State σ) (event : Event ρ) : State σ :=
  if s.ended.isSome then s
  else match event with
    | .instr conditions reply => runInstr s conditions reply (program s.control)
    | .hook elapsed kills => luaMaskCountHook s elapsed kills

def run (s : State σ) (events : List (Event ρ)) : State σ := events.foldl (step program) s

end

section

variable {σ ρ : Type} {s : State σ}

def writesNothing (s : State σ) : Prop := ∀ cmd ∈ s.executed, cmd.write = false

structure Harmless (s : State σ) : Prop where
  running : s.ended = none → s.caught = false → s.luaKill = false
  clean : s.luaWriteDirty = false → writesNothing s
  killed : s.ended = some (some .killed) → s.caught = false → writesNothing s

theorem processEventsWhileBlocked_kill (kills : Nat) :
    ∃ kill, processEventsWhileBlocked s kills = { s with luaKill := kill } ∧ (kill = true → s.luaKill = true ∨ s.luaWriteDirty = false) := by
  induction kills generalizing s with
  | zero => exact ⟨s.luaKill, rfl, .inl⟩
  | succ kills ih =>
    unfold processEventsWhileBlocked scriptKill
    split_ifs with dirty
    · exact ih
    · obtain ⟨kill, served, _⟩ := ih (s := { s with luaKill := true })
      exact ⟨kill, served, fun _ => .inr (by simpa using dirty)⟩

theorem Harmless.raised (harmless : Harmless s) : Harmless (luaError s .raised) := by
  unfold luaError
  split
  · exact ⟨by simp, harmless.clean, by simp⟩
  · simpa using ⟨harmless.running, harmless.clean, harmless.killed⟩

theorem killed_harmless (clean : s.luaWriteDirty = false → writesNothing s) (silent : s.caught = false → writesNothing s) :
    Harmless (luaError s .killed) := by
  unfold luaError
  split
  · exact ⟨by simp, clean, fun _ => silent⟩
  · exact ⟨by simp, clean, by simp⟩

section

variable (harmless : Harmless s) (running : s.ended = none)

include harmless running

theorem Harmless.hook (elapsed : Bool) (kills : Nat) :
    Harmless (luaMaskCountHook s elapsed kills) := by
  have silent : ∀ kill, (kill = true → s.luaKill = true ∨ s.luaWriteDirty = false) → kill = true → s.caught = false → writesNothing s := by
    intro kill allowed pending uncaught
    obtain already | clean := allowed pending
    · simp [harmless.running running uncaught] at already
    · exact harmless.clean clean
  obtain ⟨kill, served, allowed⟩ := processEventsWhileBlocked_kill (s := { s with luaTimedout := s.luaTimedout || elapsed }) kills
  unfold luaMaskCountHook
  dsimp only
  rw [served]
  split_ifs with slow pending alone
  · exact killed_harmless harmless.clean (silent kill allowed pending)
  · exact ⟨fun _ _ => by simpa using pending, harmless.clean, harmless.killed⟩
  · exact killed_harmless harmless.clean (silent s.luaKill .inl alone)
  · exact ⟨harmless.running, harmless.clean, harmless.killed⟩

theorem Harmless.command (cmd : Option Command) (conditions : Conditions) :
    Harmless (luaRedisGenericCommand s cmd conditions).1 := by
  unfold luaRedisGenericCommand
  split
  · exact harmless
  · rename_i cmd
    split_ifs
    · exact harmless
    · exact ⟨harmless.running, fun clean => harmless.clean (Bool.or_eq_false_iff.mp clean).1, harmless.killed⟩
    · refine ⟨harmless.running, ?_, fun killed => by simp [markDirty, running] at killed⟩
      intro clean other inside
      obtain ⟨before, reads⟩ := Bool.or_eq_false_iff.mp clean
      obtain earlier | rfl : other ∈ s.executed ∨ other = cmd := by simpa using inside
      · exact harmless.clean before other earlier
      · exact reads

theorem Harmless.instr (conditions : Conditions) (reply : ρ) (instr : Instr σ ρ) :
    Harmless (runInstr s conditions reply instr) := by
  cases instr with
  | compute | pcall => exact ⟨harmless.running, harmless.clean, harmless.killed⟩
  | raise => exact harmless.raised
  | leave =>
    change Harmless (luaReturn s)
    unfold luaReturn
    split
    · exact ⟨by simp, harmless.clean, by simp⟩
    · exact ⟨harmless.running, harmless.clean, harmless.killed⟩
  | call cmd raises next =>
    have after := harmless.command running cmd conditions
    unfold runInstr
    dsimp only
    split_ifs
    · exact after.raised
    all_goals exact ⟨after.running, after.clean, after.killed⟩

end

theorem Harmless.step {program : σ → Instr σ ρ} (harmless : Harmless s) (event : Event ρ) : Harmless (step program s event) := by
  unfold Scripting.step
  split_ifs with ended
  · exact harmless
  have running : s.ended = none := by simpa using ended
  cases event with
  | instr conditions reply => exact harmless.instr running conditions reply (program s.control)
  | hook elapsed kills => exact harmless.hook running elapsed kills

end

theorem killed_without_catching_wrote_nothing {σ ρ : Type} (program : σ → Instr σ ρ) (control : σ) (events : List (Event ρ))
    (killed : (run program (eval control) events).ended = some (some .killed))
    (uncaught : (run program (eval control) events).caught = false) :
    ∀ cmd ∈ (run program (eval control) events).executed, cmd.write = false := by
  have start : Harmless (eval control) := ⟨fun _ _ => rfl, by simp [writesNothing, eval], by simp [eval]⟩
  have harmless : Harmless (run program (eval control) events) :=
    Lib.foldl_kept (P := Harmless) (fun _ event harmless => harmless.step event) events _ start
  exact harmless.killed killed uncaught

def calm : Conditions := ⟨false, false, false, false, false, false, false⟩

def readsAndLoops : Bool → Instr Bool Unit
  | false => .call (some ⟨false, false, false, false⟩) true fun _ => true
  | true => .compute true

theorem loop_killed :
    let s := run readsAndLoops (eval false) [.instr calm (), .instr calm (), .hook true 1]
    s.ended = some (some .killed) ∧ ∀ cmd ∈ s.executed, cmd.write = false :=
  ⟨rfl, killed_without_catching_wrote_nothing readsAndLoops false [.instr calm (), .instr calm (), .hook true 1] rfl rfl⟩

-- A loop in a protected call, a write after it, and another loop.
def catchesAndWrites : Nat → Instr Nat Unit
  | 0 => .pcall 1 fun _ => 2
  | 1 => .compute 1
  | 2 => .call (some ⟨true, false, false, false⟩) true fun _ => 3
  | _ => .compute 3

theorem killed_after_write :
    let s := run catchesAndWrites (eval 0) [.instr calm (), .hook true 1, .instr calm (), .instr calm (), .hook true 0]
    s.ended = some (some .killed) ∧ s.executed = [⟨true, false, false, false⟩] :=
  ⟨rfl, rfl⟩

end RedisCore.Scripting
