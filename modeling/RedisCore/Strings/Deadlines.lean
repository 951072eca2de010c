import RedisCore.Strings.Object

set_option autoImplicit false

namespace RedisCore.Strings

open Util

inductive TimeUnit
  | seconds
  | milliseconds

def TimeUnit.scale : TimeUnit → Int
  | .seconds => 1000
  | .milliseconds => 1

structure Entry (V : Type) where
  value : V
  expire : Option Int
  deriving DecidableEq

structure Role where
  loading : Bool
  masterhost : Bool

-- if (unit == UNIT_SECONDS) when *= 1000
def inMilliseconds (unit : TimeUnit) (when : Int) : Int :=
  match unit with
  | .seconds => toLongLong (when * 1000)
  | .milliseconds => when

section

variable {V : Type} (role : Role) (now : Int) (o : Option (Entry V)) (param : Bytes)

def expireGenericCommand (basetime : Int) (unit : TimeUnit) : Reply × Option (Entry V) :=
  match string2ll param with
  | none => (notInteger, o)
  | some when =>
    let when := toLongLong (inMilliseconds unit when + basetime)
    match o with
    | none => (.longLong 0, o)
    | some e =>
      if when ≤ now ∧ !role.loading ∧ !role.masterhost then (.longLong 1, none)
      else (.longLong 1, some { e with expire := some when })

def expireCommand : Reply × Option (Entry V) := expireGenericCommand role now o param now .seconds
def expireatCommand : Reply × Option (Entry V) := expireGenericCommand role now o param 0 .seconds
def pexpireCommand : Reply × Option (Entry V) := expireGenericCommand role now o param now .milliseconds
def pexpireatCommand : Reply × Option (Entry V) := expireGenericCommand role now o param 0 .milliseconds

-- SET with EX or PX, SETEX and PSETEX.
def setGenericCommand (name : String) (nx xx : Bool) (val : V) (unit : TimeUnit) : Reply × Option (Entry V) :=
  match string2ll param with
  | none => (notInteger, o)
  | some milliseconds =>
    if milliseconds ≤ 0 then (.error ("invalid expire time in " ++ name), o)
    else
      let milliseconds := inMilliseconds unit milliseconds
      if nx ∧ o.isSome ∨ xx ∧ o.isNone then (.nil, o)
      else (.ok, some ⟨val, some (toLongLong (now + milliseconds))⟩)

-- The payload is none when its checksum is wrong, and holds none when no object can be read from it.
def restoreCommand (replace : Bool) (payload : Option (Option V)) : Reply × Option (Entry V) :=
  if !replace ∧ o.isSome then (.error "BUSYKEY Target key name already exists.", o)
  else
    match string2ll param with
    | none => (notInteger, o)
    | some ttl =>
      if ttl < 0 then (.error "Invalid TTL value, must be >= 0", o)
      else
        match payload with
        | none => (.error "DUMP payload version or checksum are wrong", o)
        | some none => (.error "Bad data format", o)
        | some (some obj) => (.ok, some ⟨obj, if ttl ≠ 0 then some (toLongLong (now + ttl)) else none⟩)

-- BLPOP and its kind in seconds, WAIT in milliseconds.
def getTimeoutFromObjectOrReply (unit : TimeUnit) : Except Reply Int :=
  match string2ll param with
  | none => .error (.error "timeout is not an integer or out of range")
  | some tval =>
    if tval < 0 then .error (.error "timeout is negative")
    else if tval > 0 then .ok (toLongLong (inMilliseconds unit tval + now)) else .ok tval

end

-- The deadline as the commands compute it, and the exact one.
def deadline (unit : TimeUnit) (base v : Int) : Int := toLongLong (inMilliseconds unit v + base)

def exactDeadline (unit : TimeUnit) (base v : Int) : Int := v * unit.scale + base

theorem deadline_eq (unit : TimeUnit) (base v : Int) : deadline unit base v = toLongLong (exactDeadline unit base v) := by
  cases unit with
  | seconds => exact Int.bmod_add_bmod
  | milliseconds => rw [deadline, exactDeadline, TimeUnit.scale, Int.mul_one, inMilliseconds]

theorem deadline_exact_iff (unit : TimeUnit) (base v : Int) :
    deadline unit base v = exactDeadline unit base v ↔ IsInt64 (exactDeadline unit base v) := by
  rw [deadline_eq, toLongLong_eq_iff]

theorem set_deadline (unit : TimeUnit) (now v : Int) : toLongLong (now + inMilliseconds unit v) = deadline unit now v := by
  rw [deadline, Int.add_comm]

section

variable {V : Type} (role : Role) (now : Int) (o : Option (Entry V)) (param : Bytes) (unit : TimeUnit)

def Refuses (r : Reply × Option (Entry V)) : Prop := ∃ text, r = (.error text, o)

def ExpireExact (basetime : Int) : Prop :=
  let r := expireGenericCommand role now o param basetime unit
  Refuses o r ∨ o = none ∧ r = (.longLong 0, none) ∨
    ∃ v ∈ string2ll param, ∃ e ∈ o, deadline unit basetime v = exactDeadline unit basetime v ∧
      r = (.longLong 1, if exactDeadline unit basetime v ≤ now ∧ !role.loading ∧ !role.masterhost then none
        else some { e with expire := some (exactDeadline unit basetime v) })

def SetExact (name : String) (nx xx : Bool) (val : V) : Prop :=
  let r := setGenericCommand now o param name nx xx val unit
  Refuses o r ∨ r = (.nil, o) ∨ ∃ v ∈ string2ll param, r = (.ok, some ⟨val, some (exactDeadline unit now v)⟩)

def TimeoutExact : Prop :=
  ∀ timeout, getTimeoutFromObjectOrReply now param unit = .ok timeout →
    ∃ v ∈ string2ll param, timeout = if v = 0 then 0 else exactDeadline unit now v

def RestoreExact (replace : Bool) (payload : Option (Option V)) : Prop :=
  let r := restoreCommand now o param replace payload
  Refuses o r ∨ ∃ v ∈ string2ll param, ∃ obj, r = (.ok, some ⟨obj, if v ≠ 0 then some (exactDeadline .milliseconds now v) else none⟩)

/-- A command refuses and changes nothing, or uses the exact deadline, unless it comes to compute one that does not fit. -/
structure DeadlinesExact : Prop where
  expire : ∀ basetime, ExpireExact role now o param unit basetime ↔
    ∀ v ∈ string2ll param, o.isSome → IsInt64 (exactDeadline unit basetime v)
  set : ∀ name nx xx val, SetExact now o param unit name nx xx val ↔
    ∀ v ∈ string2ll param, 0 < v → ¬(nx ∧ o.isSome ∨ xx ∧ o.isNone) → IsInt64 (exactDeadline unit now v)
  timeout : TimeoutExact now param unit ↔ ∀ v ∈ string2ll param, 0 < v → IsInt64 (exactDeadline unit now v)
  restore : ∀ replace payload, RestoreExact now o param replace payload ↔
    ∀ v ∈ string2ll param, ∀ obj, 0 < v → replace ∨ o = none → payload = some (some obj) →
      IsInt64 (exactDeadline .milliseconds now v)

theorem expire_iff (basetime : Int) : ExpireExact role now o param unit basetime ↔
    ∀ v ∈ string2ll param, o.isSome → IsInt64 (exactDeadline unit basetime v) := by
  unfold ExpireExact expireGenericCommand
  cases string2ll param with
  | none => simp [Refuses, notInteger]
  | some v =>
    simp only [← deadline.eq_1]
    cases o with
    | none => simp
    | some e =>
      simp only [Option.mem_some_iff, forall_eq', Option.isSome_some, forall_const, ← deadline_exact_iff]
      constructor
      · rintro (⟨text, refused⟩ | ⟨missing, -⟩ | ⟨v, rfl, e, rfl, same, -⟩)
        · split at refused <;> simp at refused
        · cases missing
        · exact same
      · intro same
        refine .inr (.inr ⟨v, rfl, e, rfl, same, ?_⟩)
        rw [same]
        split <;> rfl

theorem set_iff (name : String) (nx xx : Bool) (val : V) : SetExact now o param unit name nx xx val ↔
    ∀ v ∈ string2ll param, 0 < v → ¬(nx ∧ o.isSome ∨ xx ∧ o.isNone) → IsInt64 (exactDeadline unit now v) := by
  unfold SetExact setGenericCommand
  cases string2ll param with
  | none => simp [Refuses, notInteger]
  | some v =>
    simp only [set_deadline, Option.mem_some_iff, forall_eq', ← deadline_exact_iff]
    split
    next negative => exact iff_of_true (.inl ⟨_, rfl⟩) fun positive => absurd positive (by omega)
    next positive =>
      split
      next kept => exact iff_of_true (.inr (.inl rfl)) fun _ free => absurd kept free
      next free => simp only [Refuses, Int.not_le.mp positive, free, not_false_eq_true, forall_const]; simp

theorem timeout_iff : TimeoutExact now param unit ↔ ∀ v ∈ string2ll param, 0 < v → IsInt64 (exactDeadline unit now v) := by
  unfold TimeoutExact getTimeoutFromObjectOrReply
  cases string2ll param with
  | none => simp
  | some v =>
    simp only [← deadline.eq_1, Option.mem_some_iff, forall_eq', ← deadline_exact_iff]
    split_ifs <;> grind

theorem restore_iff (replace : Bool) (payload : Option (Option V)) : RestoreExact now o param replace payload ↔
    ∀ v ∈ string2ll param, ∀ obj, 0 < v → replace ∨ o = none → payload = some (some obj) →
      IsInt64 (exactDeadline .milliseconds now v) := by
  unfold RestoreExact restoreCommand
  split
  next busy => exact iff_of_true (.inl ⟨_, rfl⟩) (by grind)
  next free =>
    cases string2ll param with
    | none => simp [Refuses, notInteger]
    | some v =>
      have computed : toLongLong (now + v) = deadline .milliseconds now v := set_deadline .milliseconds now v
      simp only [computed, Option.mem_some_iff, forall_eq', ← deadline_exact_iff]
      split
      next negative => exact iff_of_true (.inl ⟨_, rfl⟩) (by grind)
      next =>
        split
        next => exact iff_of_true (.inl ⟨_, rfl⟩) (by simp)
        next => exact iff_of_true (.inl ⟨_, rfl⟩) (by simp)
        next obj =>
          have allowed : replace ∨ o = none := by
            cases o with
            | none => exact .inr rfl
            | some e => exact .inl (by simpa using free)
          by_cases zero : v = 0
          · exact iff_of_true (.inr ⟨v, rfl, obj, by simp [zero]⟩) (by simp [zero])
          · simp [Refuses, zero, allowed, show 0 < v by omega]

theorem deadlines_exact : DeadlinesExact role now o param unit where
  expire := expire_iff role now o param unit
  set := set_iff now o param unit
  timeout := timeout_iff now param unit
  restore := restore_iff now o param

end

-- Ten seconds from 1000 on.
theorem deadlines_exact_ten : SetExact (V := Unit) 1000 none [49, 48] .seconds "set" false false () ∧
    exactDeadline .seconds 1000 10 = 11000 := by
  refine ⟨((deadlines_exact ⟨false, false⟩ 1000 none [49, 48] .seconds).set "set" false false ()).mpr fun v parsed _ _ => ?_, rfl⟩
  obtain rfl : 10 = v := Option.some.inj (.trans (by decide +kernel) parsed)
  decide +kernel

-- 9223372036854776 seconds are more than 2^63 milliseconds.
theorem expire_wraps :
    expireCommand ⟨false, false⟩ 1000 (some ⟨(), none⟩) [57, 50, 50, 51, 51, 55, 50, 48, 51, 54, 56, 53, 52, 55, 55, 54] =
      (.longLong 1, none) := by
  decide +kernel

end RedisCore.Strings
