import RedisCore.SkipList.Queries
import RedisCore.Dict.Table
import RedisCore.Lib.ByteOrder
import RedisCore.Ziplist.Operations

set_option autoImplicit false

namespace RedisCore.ZSet

open Util Ziplist SkipList HashTable

-- Doubles other than NaN, with the conversions between them and text.
structure ScoreType (S : Type) where
  d2string : S → Bytes
  strtod : Bytes → S
  ofLongLong : Int → S
  strtod_d2string : ∀ score, strtod (d2string score) = score
  strtod_ll2string : ∀ v, IsInt64 v → strtod (ll2string 32 v) = ofLongLong v
  d2string_fits : ∀ score, (d2string score).length < 128

-- A length passed as unsigned int.
def uintArg (s : Bytes) : Bytes := s.take (s.length % 2 ^ 32)

structure Member (S : Type) where
  ele : Bytes
  score : S
  deriving DecidableEq

def Member.Lt {S : Type} [LinearOrder S] (a b : Member S) : Prop := a.score < b.score ∨ a.score = b.score ∧ a.ele < b.ele

-- The values of the dict are the addresses of the nodes whose score they point to.
inductive Zobj (S : Type) where
  | ziplist (zl : Bytes)
  | skiplist (dict : Dict Bytes Nat) (zsl : Zskiplist S Bytes)

def ziplistGetObject (zl : Bytes) (sptr : Nat) : Option Bytes := (ziplistGet (zl.drop sptr)).map ZlValue.toBytes

def zzlNext (zl : Bytes) (sptr : Nat) : Option (Option (Nat × Nat)) := do
  match ← ziplistNext zl sptr with
  | none => pure none
  | some eptr =>
    match ← ziplistNext zl eptr with
    | some sptr => pure (some (eptr, sptr))
    | none => none

def zzlPrev (zl : Bytes) (eptr : Nat) : Option (Option (Nat × Nat)) := do
  match ← ziplistPrev zl eptr with
  | none => pure none
  | some sptr =>
    match ← ziplistPrev zl sptr with
    | some eptr => pure (some (eptr, sptr))
    | none => none

section

variable {S : Type} (scores : ScoreType S) (zl : Bytes)

-- char buf[128] receives vlen bytes and a terminator.
def zzlGetScore (sptr : Nat) : Option S := do
  match ← ziplistGet (zl.drop sptr) with
  | .str vstr => if vstr.length < 128 then pure (scores.strtod vstr) else none
  | .int vlong => pure (scores.ofLongLong vlong)

def zzlInsertAt (eptr : Option Nat) (ele : Bytes) (score : S) : Option Bytes := do
  match eptr with
  | none =>
    let zl ← ziplistPush zl (uintArg ele) .tail
    ziplistPush zl (scores.d2string score) .tail
  | some eptr =>
    let zl ← ziplistInsert zl eptr (uintArg ele)
    match ← ziplistNext zl eptr with
    | some sptr => ziplistInsert zl sptr (scores.d2string score)
    | none => none

end

section

variable {S : Type} [LinearOrder S] (scores : ScoreType S) (range : Zrangespec S)

-- When the last entry is deleted, eptr is at the terminator and ziplistNext returns NULL.
def zzlDeleteLoop : (fuel : Nat) → (zl : Bytes) → (eptr num : Nat) → Option (Bytes × Nat)
  | 0, _, _, _ => none
  | fuel + 1, zl, eptr, num => do
    match ← ziplistNext zl eptr with
    | none => pure (zl, num)
    | some sptr =>
      if zslValueLteMax (← zzlGetScore scores zl sptr) range then
        let (zl, p) ← ziplistDelete zl eptr
        let (zl, p) ← ziplistDelete zl p
        zzlDeleteLoop fuel zl p (num + 1)
      else pure (zl, num)

variable (zl : Bytes)

def zzlIsInRange : Option Bool :=
  if emptyRange range then some false
  else do
    match ← ziplistIndex zl (-1) with
    | none => pure false
    | some last =>
      if zslValueGteMin (← zzlGetScore scores zl last) range then
        match ← ziplistIndex zl 1 with
        | none => none
        | some first => pure (zslValueLteMax (← zzlGetScore scores zl first) range)
      else pure false

-- sptr = ziplistNext(zl,eptr) must not be NULL.
def zzlFirstLoop : (fuel : Nat) → Option Nat → Option (Option Nat)
  | _, none => some none
  | 0, some _ => none
  | fuel + 1, some eptr => do
    match ← ziplistNext zl eptr with
    | none => none
    | some sptr =>
      let score ← zzlGetScore scores zl sptr
      if zslValueGteMin score range then pure (if zslValueLteMax score range then some eptr else none)
      else zzlFirstLoop fuel (← ziplistNext zl sptr)

def zzlLastLoop : (fuel : Nat) → Option Nat → Option (Option Nat)
  | _, none => some none
  | 0, some _ => none
  | fuel + 1, some eptr => do
    match ← ziplistNext zl eptr with
    | none => none
    | some sptr =>
      let score ← zzlGetScore scores zl sptr
      if zslValueLteMax score range then pure (if zslValueGteMin score range then some eptr else none)
      else zzlLastLoop fuel ((← zzlPrev zl eptr).map Prod.fst)

def zzlCountLoop : (fuel : Nat) → Option (Nat × Nat) → (count : Nat) → Option Nat
  | _, none, count => some count
  | 0, some _, _ => none
  | fuel + 1, some (_, sptr), count => do
    if zslValueLteMax (← zzlGetScore scores zl sptr) range then zzlCountLoop fuel (← zzlNext zl sptr) (count + 1) else pure count

end

section

variable {S : Type} [LinearOrder S] (scores : ScoreType S)

def zzlFirstInRange (zl : Bytes) (range : Zrangespec S) : Option (Option Nat) := do
  let eptr ← ziplistIndex zl 0
  if ← zzlIsInRange scores range zl then zzlFirstLoop scores range zl zl.length eptr else pure none

def zzlLastInRange (zl : Bytes) (range : Zrangespec S) : Option (Option Nat) := do
  let eptr ← ziplistIndex zl (-2)
  if ← zzlIsInRange scores range zl then zzlLastLoop scores range zl zl.length eptr else pure none

def zzlDeleteRangeByScore (zl : Bytes) (range : Zrangespec S) : Option (Bytes × Nat) := do
  match ← zzlFirstInRange scores zl range with
  | none => pure (zl, 0)
  | some eptr => zzlDeleteLoop scores range zl.length zl eptr 0

-- count is an int, the ranks are unsigned long.
def zcountCommand (zobj : Zobj S) (range : Zrangespec S) : Option Int :=
  match zobj with
  | .ziplist zl => do
    match ← zzlFirstInRange scores zl range with
    | none => pure 0
    | some eptr =>
      match ← ziplistNext zl eptr with
      | none => none
      | some sptr =>
        if zslValueLteMax (← zzlGetScore scores zl sptr) range then
          let count ← zzlCountLoop scores range zl zl.length (some (eptr, sptr)) 0
          pure ((count : Int).bmod (2 ^ 32))
        else none
  | .skiplist _ zsl => do
    match ← zslFirstInRange zsl range with
    | none => pure 0
    | some x =>
      let zn ← zsl.node x
      let rank ← zslGetRank zsl zn.score zn.ele
      let count := ((zsl.length : Int) - (rank - 1)).bmod (2 ^ 32)
      match ← zslLastInRange zsl range with
      | none => pure count
      | some y =>
        let zn ← zsl.node y
        let rank ← zslGetRank zsl zn.score zn.ele
        pure ((count - ((zsl.length : Int) - rank)).bmod (2 ^ 32))

end

end RedisCore.ZSet
