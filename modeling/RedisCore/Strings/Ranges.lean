import RedisCore.Util.LongLong

set_option autoImplicit false

namespace RedisCore.Strings

open Util

-- The first byte and the number of bytes that the caller of the clamping code goes on with.
structure Span where
  start : Int
  bytes : Int
  deriving DecidableEq

-- "Convert negative indexes", as in getrangeCommand, bitcountCommand and bitposCommand.
def convertIndexes (strlen : Nat) (start end_ : Int) : Int × Int :=
  let start := if start < 0 then toLongLong (strlen + start) else start
  let end_ := if end_ < 0 then toLongLong (strlen + end_) else end_
  let start := if start < 0 then 0 else start
  let end_ := if end_ < 0 then 0 else end_
  let end_ := if end_ ≥ strlen then (strlen : Int) - 1 else end_
  (start, end_)

def getrangeCommand (strlen : Nat) (start end_ : Int) : Option Span :=
  if start < 0 ∧ end_ < 0 ∧ start > end_ then none
  else
    let (start, end_) := convertIndexes strlen start end_
    if start > end_ ∨ strlen = 0 then none else some ⟨start, end_ - start + 1⟩

def bitcountCommand (strlen : Nat) (start end_ : Int) : Option Span :=
  if start < 0 ∧ end_ < 0 ∧ start > end_ then none
  else
    let (start, end_) := convertIndexes strlen start end_
    if start > end_ then none else some ⟨start, end_ - start + 1⟩

def bitposCommand (strlen : Nat) (start end_ : Int) : Option Span :=
  let (start, end_) := convertIndexes strlen start end_
  if start > end_ then none else some ⟨start, end_ - start + 1⟩

def sdsrange (len : Nat) (start end_ : Int) : Option Span :=
  if len = 0 then none
  else
    let start := if start < 0 then max (toLongLong (len + start)) 0 else start
    let end_ := if end_ < 0 then max (toLongLong (len + end_)) 0 else end_
    let newlen := if start > end_ then 0 else (end_ - start + 1) % 2 ^ 64
    if newlen ≠ 0 then
      if start ≥ len then none
      else if end_ ≥ len then
        let end_ : Int := len - 1
        if start > end_ then none else some ⟨start, (end_ - start + 1) % 2 ^ 64⟩
      else some ⟨start, newlen⟩
    else none

def lrangeCommand (llen : Nat) (start end_ : Int) : Option Span :=
  let start := if start < 0 then llen + start else start
  let end_ := if end_ < 0 then llen + end_ else end_
  let start := if start < 0 then 0 else start
  if start > end_ ∨ start ≥ llen then none
  else
    let end_ := if end_ ≥ llen then (llen : Int) - 1 else end_
    some ⟨start, end_ - start + 1⟩

def Selects (span : Option Span) (i : Nat) : Prop := ∃ s ∈ span, s.start ≤ i ∧ i < s.start + s.bytes

def position (len : Nat) (index : Int) : Int := if index < 0 then len + index else index

def InRange (len : Nat) (start end_ : Int) (i : Nat) : Prop :=
  i < len ∧ position len start ≤ i ∧ i ≤ position len end_

theorem selects_some (start bytes : Int) (i : Nat) : Selects (some ⟨start, bytes⟩) i ↔ start ≤ i ∧ i < start + bytes := by
  simp [Selects]

theorem selects_none (i : Nat) : ¬Selects none i := by simp [Selects]

theorem lrange_selects (len : Nat) (start end_ : Int) (i : Nat) :
    Selects (lrangeCommand len start end_) i ↔ InRange len start end_ i := by
  simp only [lrangeCommand, InRange, position]
  split_ifs <;> simp only [selects_some, selects_none, false_iff] <;> omega

-- The end is not before the first byte, or the start is behind it.
def Reaches (len : Nat) (start end_ : Int) : Prop := len = 0 ∨ -len ≤ end_ ∨ 0 < position len start

section

variable {len : Nat} (small : len < 2 ^ 63) {start end_ : Int} (range_start : IsInt64 start) (range_end : IsInt64 end_)

theorem toLongLong_index {index : Int} (small : len < 2 ^ 63) (range : IsInt64 index) :
    (if index < 0 then toLongLong (len + index) else index) = position len index := by
  unfold position
  split
  next negative => exact toLongLong_eq ⟨by have := range.1; omega, by omega⟩
  next => rfl

variable (reaches : Reaches len start end_)

include small range_start range_end reaches

theorem converted_selects (i : Nat) :
    let (first, last) := convertIndexes len start end_
    (first ≤ i ∧ i ≤ last) ↔ InRange len start end_ i := by
  simp only [convertIndexes, toLongLong_index small range_start, toLongLong_index small range_end, InRange, Reaches, position] at reaches ⊢
  split_ifs <;> grind

theorem bitpos_selects (i : Nat) : Selects (bitposCommand len start end_) i ↔ InRange len start end_ i := by
  have selects := converted_selects small range_start range_end reaches i
  simp only [bitposCommand] at selects ⊢
  rw [← selects]
  split_ifs <;> simp only [selects_some, selects_none, false_iff] <;> omega

theorem bitcount_selects (i : Nat) : Selects (bitcountCommand len start end_) i ↔ InRange len start end_ i := by
  unfold bitcountCommand
  split
  next crossing =>
    simp only [selects_none, false_iff, InRange, position]
    split_ifs <;> omega
  next => exact bitpos_selects small range_start range_end reaches i

theorem getrange_selects (i : Nat) : Selects (getrangeCommand len start end_) i ↔ InRange len start end_ i := by
  rw [← bitcount_selects small range_start range_end reaches i, getrangeCommand, bitcountCommand]
  by_cases empty : len = 0
  · have nothing := bitpos_selects small range_start range_end reaches i
    simp only [bitposCommand, InRange, empty] at nothing ⊢
    split
    · rfl
    · simp [nothing, selects_none]
  · simp only [empty, or_false]

theorem sdsrange_selects (i : Nat) : Selects (sdsrange len start end_) i ↔ InRange len start end_ i := by
  have first : (if start < 0 then max (toLongLong (len + start)) 0 else start) = max (position len start) 0 := by
    have := toLongLong_index small range_start
    grind
  have last : (if end_ < 0 then max (toLongLong (len + end_)) 0 else end_) = max (position len end_) 0 := by
    have := toLongLong_index small range_end
    grind
  obtain ⟨lower, upper⟩ := range_end
  simp only [sdsrange, first, last, InRange, Reaches, position] at reaches ⊢
  split_ifs <;> simp only [selects_some, selects_none, false_iff] <;> grind

end

def Exact (command : Nat → Int → Int → Option Span) (len : Nat) (start end_ : Int) : Prop :=
  ∀ i, Selects (command len start end_) i ↔ InRange len start end_ i

-- The end is clamped to the first byte, which is then selected if the start is not behind it.
theorem bitpos_selects_first {len : Nat} (small : len < 2 ^ 63) {start end_ : Int} (range_start : IsInt64 start)
    (range_end : IsInt64 end_) (misses : ¬Reaches len start end_) :
    Selects (bitposCommand len start end_) 0 ∧ ¬InRange len start end_ 0 := by
  simp only [bitposCommand, convertIndexes, toLongLong_index small range_start, toLongLong_index small range_end, InRange,
    Reaches, position, not_or] at misses ⊢
  split_ifs <;> simp only [selects_some, selects_none] <;> grind

theorem ranges_agree (len : Nat) (small : len < 2 ^ 63) (start end_ : BitVec 64) :
    Exact lrangeCommand len start.toInt end_.toInt ∧
    ((∀ command ∈ [getrangeCommand, bitcountCommand, bitposCommand, sdsrange], Exact command len start.toInt end_.toInt) ↔
      Reaches len start.toInt end_.toInt) := by
  have range_start : IsInt64 start.toInt := ⟨start.le_toInt, start.toInt_lt⟩
  have range_end : IsInt64 end_.toInt := ⟨end_.le_toInt, end_.toInt_lt⟩
  refine ⟨lrange_selects len _ _, fun exact_ => ?_, fun reaches command among i => ?_⟩
  · by_contra misses
    obtain ⟨selected, outside⟩ := bitpos_selects_first small range_start range_end misses
    exact outside ((exact_ bitposCommand (by simp) 0).mp selected)
  · simp only [List.mem_cons, List.not_mem_nil, or_false] at among
    rcases among with rfl | rfl | rfl | rfl
    · exact getrange_selects small range_start range_end reaches i
    · exact bitcount_selects small range_start range_end reaches i
    · exact bitpos_selects small range_start range_end reaches i
    · exact sdsrange_selects small range_start range_end reaches i

theorem ranges_agree_middle : Selects (getrangeCommand 5 (-4) (-3)) 2 ∧ ¬Selects (sdsrange 5 3 (-100)) 3 := by
  have middle := (ranges_agree 5 (by decide) (-4) (-3)).2.mpr (.inr (.inl (by decide)))
  have behind := (ranges_agree 5 (by decide) 3 (-100)).2.mpr (.inr (.inr (by decide)))
  refine ⟨(middle getrangeCommand (by simp) 2).mpr ⟨by decide, by decide, by decide⟩, fun selected => ?_⟩
  exact absurd ((behind sdsrange (by simp) 3).mp selected).2.2 (by decide)

theorem end_before_first : getrangeCommand 5 0 (-100) = some ⟨0, 1⟩ ∧ bitcountCommand 5 0 (-100) = some ⟨0, 1⟩ ∧
    bitposCommand 5 0 (-100) = some ⟨0, 1⟩ ∧ sdsrange 5 0 (-100) = some ⟨0, 1⟩ ∧ lrangeCommand 5 0 (-100) = none := by
  decide +kernel

end RedisCore.Strings
