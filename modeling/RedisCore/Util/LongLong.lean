import RedisCore.Lib.LittleEndian

set_option autoImplicit false

namespace RedisCore.Util

open List

variable {v : Int} {byte : UInt8} {s : Bytes}

def ullongMax : Nat := 2 ^ 64 - 1
def llongMax : Nat := 2 ^ 63 - 1

def isDigit (byte : UInt8) : Bool := 48 ≤ byte && byte ≤ 57

def digit (byte : UInt8) : Nat := byte.toNat - 48

def string2llLoop : Nat → Bytes → Option (Nat × Bytes)
  | v, [] => some (v, [])
  | v, p :: rest =>
    if isDigit p then
      if ullongMax / 10 < v then none
      else if ullongMax - digit p < v * 10 then none
      else string2llLoop (v * 10 + digit p) rest
    else some (v, p :: rest)

def string2ll (s : Bytes) : Option Int :=
  if s = [] then none
  else if s = [48] then some 0
  else
    let negative := s.head? = some 45
    match if negative then s.tail else s with
    | [] => none
    | p :: rest =>
      if 49 ≤ p ∧ p ≤ 57 then
        match string2llLoop (digit p) rest with
        | some (v, []) =>
          if negative then
            if llongMax + 1 < v then none else some (-(v : Int))
          else if llongMax < v then none else some (v : Int)
        | _ => none
      else if p = 48 ∧ s.length = 1 then some 0
      else none

-- The source recurses once per factor 10^12; two rounds cover 64 bits.
def digits10 : (rounds : Nat) → Nat → Nat
  | 0, _ => 0
  | rounds + 1, v =>
    if v < 10 then 1
    else if v < 100 then 2
    else if v < 1000 then 3
    else if v < 1000000000000 then
      if v < 100000000 then
        if v < 1000000 then
          if v < 10000 then 4 else 5 + (if 100000 ≤ v then 1 else 0)
        else 7 + (if 10000000 ≤ v then 1 else 0)
      else if v < 10000000000 then 9 + (if 1000000000 ≤ v then 1 else 0)
      else 11 + (if 100000000000 ≤ v then 1 else 0)
    else 12 + digits10 rounds (v / 1000000000000)

-- digits[2k] and digits[2k + 1] of the source's table.
def digitPair (k : Nat) : Bytes := [UInt8.ofNat (48 + k / 10), UInt8.ofNat (48 + k % 10)]

-- dst is filled from the right, two digits a round; ten rounds exhaust 64 bits.
def ll2stringLoop : (rounds : Nat) → Nat → Bytes → Bytes
  | 0, _, dst => dst
  | rounds + 1, value, dst =>
    if 100 ≤ value then ll2stringLoop rounds (value / 100) (digitPair (value % 100) ++ dst)
    else if value < 10 then UInt8.ofNat (48 + value) :: dst
    else digitPair value ++ dst

def ll2string (dstlen : Nat) (svalue : Int) : Bytes :=
  let value := svalue.natAbs
  let negative : Nat := if svalue < 0 then 1 else 0
  let length := digits10 2 value + negative
  if dstlen ≤ length then []
  else (if svalue < 0 then [45] else []) ++ ll2stringLoop 10 value []

def decimal (n : Nat) : Bytes :=
  if n = 0 then [48] else (Nat.digits 10 n).reverse.map (fun d => UInt8.ofNat (48 + d))

def IsInt64 (v : Int) : Prop := -(2 ^ 63) ≤ v ∧ v < 2 ^ 63

instance (v : Int) : Decidable (IsInt64 v) := inferInstanceAs (Decidable (_ ∧ _))

theorem digitPair_eq {k : Nat} (low : 10 ≤ k) (high : k < 100) :
    digitPair k = decimal k := by
  have positive : k ≠ 0 := by omega
  have quotient : k / 10 < 10 := by omega
  have nonzero : k / 10 ≠ 0 := by omega
  rw [decimal, if_neg positive, Nat.digits_def' (by norm_num) (by omega),
    Nat.digits_of_lt 10 (k / 10) nonzero quotient]
  simp [digitPair]

theorem decimal_split {value : Nat} (large : 100 ≤ value) :
    decimal value = decimal (value / 100) ++ digitPair (value % 100) := by
  have quotient : value / 100 ≠ 0 := by omega
  have nonzero : value ≠ 0 := by omega
  have tens : value / 10 / 10 = value / 100 := by omega
  have last : value / 10 % 10 = value % 100 / 10 := by omega
  have first : value % 100 % 10 = value % 10 := by omega
  rw [decimal, if_neg nonzero, decimal, if_neg quotient,
    Nat.digits_def' (by norm_num) (Nat.pos_of_ne_zero nonzero),
    Nat.digits_def' (by norm_num) (show 0 < value / 10 by omega), tens]
  simp [digitPair, last, first]

theorem ll2stringLoop_eq (rounds value : Nat) (dst : Bytes) (bound : value < 100 ^ rounds)
    (some_round : 0 < rounds) : ll2stringLoop rounds value dst = decimal value ++ dst := by
  induction rounds generalizing value dst with
  | zero => omega
  | succ rounds ih =>
    rw [ll2stringLoop]
    split_ifs with large small
    · have positive : 0 < rounds := by
        rcases Nat.eq_zero_or_pos rounds with zero | positive
        · subst zero; omega
        · exact positive
      have inner : value / 100 < 100 ^ rounds := by
        rw [pow_succ] at bound
        exact Nat.div_lt_of_lt_mul (by rw [Nat.mul_comm]; exact bound)
      rw [ih (value / 100) _ inner positive]
      rw [decimal_split large, append_assoc]
    · rcases Nat.eq_zero_or_pos value with zero | positive
      · subst zero; rfl
      · have nonzero : value ≠ 0 := by omega
        rw [decimal, if_neg nonzero, Nat.digits_of_lt 10 value nonzero small]
        rfl
    · rw [digitPair_eq (by omega) (by omega)]

theorem ite_le_of {c : Prop} [Decidable c] {a b n : Nat} (left : c → a ≤ n)
    (right : ¬c → b ≤ n) : (if c then a else b) ≤ n := by
  by_cases h : c
  · rw [if_pos h]; exact left h
  · rw [if_neg h]; exact right h

theorem digits10_le_round {rounds v limit : Nat} (wide : 12 ≤ limit)
    (high : digits10 rounds (v / 1000000000000) + 12 ≤ limit) : digits10 (rounds + 1) v ≤ limit := by
  have flag (c : Prop) [Decidable c] : (if c then 1 else 0) ≤ 1 := ite_le_of (fun _ => le_rfl) (by simp)
  rw [digits10]
  repeat' refine ite_le_of (fun _ => ?_) (fun _ => ?_)
  all_goals first
    | omega
    | exact le_trans (Nat.add_le_add_left (flag _) _) (by omega)

theorem digits10_le (v : Nat) : digits10 2 v ≤ 24 := by
  apply digits10_le_round (by omega)
  exact Nat.add_le_add_right (digits10_le_round (by omega) (by simp [digits10])) 12

theorem ll2string_eq {dstlen : Nat} (range : IsInt64 v) (room : 26 ≤ dstlen) :
    ll2string dstlen v = (if v < 0 then [45] else []) ++ decimal v.natAbs := by
  have bound : v.natAbs < 2 ^ 64 := by
    have := range.1; have := range.2; omega
  have digits := digits10_le v.natAbs
  have inner : v.natAbs < 100 ^ 10 := lt_of_lt_of_le bound (by norm_num)
  rw [ll2string]
  simp only [ll2stringLoop_eq 10 v.natAbs [] inner (by norm_num), append_nil]
  rw [if_neg]
  split_ifs <;> omega

def decValue (v : Nat) (s : Bytes) : Nat := s.foldl (fun v byte => v * 10 + digit byte) v

theorem isDigit_iff (byte : UInt8) : isDigit byte = true ↔ 48 ≤ byte.toNat ∧ byte.toNat ≤ 57 := by
  simp [isDigit, UInt8.le_iff_toNat_le]

theorem ofNat_digit (is_digit : isDigit byte = true) :
    UInt8.ofNat (48 + digit byte) = byte := by
  have range := (isDigit_iff byte).mp is_digit
  have value : 48 + digit byte = byte.toNat := by rw [digit]; omega
  rw [value, UInt8.ofNat_toNat]

theorem digit_lt (is_digit : isDigit byte = true) : digit byte < 10 := by
  have range := (isDigit_iff byte).mp is_digit
  rw [digit]
  omega

theorem digit_ofNat {d : Nat} (small : d < 10) : digit (UInt8.ofNat (48 + d)) = d := by
  simp [digit, UInt8.toNat_ofNat']
  omega

theorem isDigit_ofNat {d : Nat} (small : d < 10) : isDigit (UInt8.ofNat (48 + d)) = true := by
  rw [isDigit_iff, UInt8.toNat_ofNat']
  omega

theorem le_decValue (v : Nat) (s : Bytes) : v ≤ decValue v s := by
  induction s generalizing v with
  | nil => exact le_rfl
  | cons byte rest ih =>
    have next := ih (v * 10 + digit byte)
    simp only [decValue, foldl_cons] at next ⊢
    omega

theorem string2llLoop_sound (v w : Nat) (parsed : string2llLoop v s = some (w, [])) :
    (∀ byte ∈ s, isDigit byte = true) ∧ w = decValue v s := by
  induction s generalizing v with
  | nil =>
    simp only [string2llLoop, Option.some.injEq, Prod.mk.injEq, and_true] at parsed
    simp [decValue, parsed]
  | cons byte rest ih =>
    rw [string2llLoop] at parsed
    by_cases is_digit : isDigit byte = true
    · rw [if_pos is_digit] at parsed
      by_cases first : ullongMax / 10 < v
      · rw [if_pos first] at parsed; cases parsed
      rw [if_neg first] at parsed
      by_cases second : ullongMax - digit byte < v * 10
      · rw [if_pos second] at parsed; cases parsed
      rw [if_neg second] at parsed
      obtain ⟨digits, value⟩ := ih _ parsed
      exact ⟨by simpa [is_digit] using digits, value⟩
    · rw [if_neg is_digit] at parsed
      cases parsed

theorem string2llLoop_complete (v : Nat) (digits : ∀ byte ∈ s, isDigit byte = true)
    (bound : decValue v s ≤ ullongMax) : string2llLoop v s = some (decValue v s, []) := by
  induction s generalizing v with
  | nil => rfl
  | cons byte rest ih =>
    have is_digit := digits byte (by simp)
    have small := digit_lt is_digit
    have inner := le_decValue (v * 10 + digit byte) rest
    have value : decValue v (byte :: rest) = decValue (v * 10 + digit byte) rest := rfl
    rw [value] at bound ⊢
    rw [string2llLoop, if_pos is_digit, if_neg (by omega), if_neg (by omega)]
    exact ih _ (fun b member => digits b (by simp [member])) bound

theorem decValue_eq_ofDigits (s : Bytes) : decValue 0 s = Nat.ofDigits 10 (s.map digit).reverse := by
  induction s using List.reverseRecOn with
  | nil => rfl
  | append_singleton front byte ih =>
    simp only [decValue, foldl_append, foldl_cons, foldl_nil, map_append,
      map_cons, map_nil, reverse_append, reverse_cons, reverse_nil,
      nil_append, cons_append, Nat.ofDigits_cons] at ih ⊢
    omega

theorem decimal_decValue {rest : Bytes} (first : 49 ≤ byte ∧ byte ≤ 57)
    (digits : ∀ b ∈ rest, isDigit b = true) : decimal (decValue 0 (byte :: rest)) = byte :: rest := by
  have lower : 49 ≤ byte.toNat := UInt8.le_iff_toNat_le.mp first.1
  have upper : byte.toNat ≤ 57 := UInt8.le_iff_toNat_le.mp first.2
  have all_digits : ∀ b ∈ byte :: rest, isDigit b = true := by
    intro b member
    rcases mem_cons.mp member with rfl | member
    · exact (isDigit_iff b).mpr ⟨by omega, upper⟩
    · exact digits b member
  have nonzero : decValue 0 (byte :: rest) ≠ 0 := by
    have below := le_decValue (digit byte) rest
    have leading : decValue 0 (byte :: rest) = decValue (digit byte) rest := by
      simp [decValue]
    rw [leading]
    rw [digit] at below ⊢
    omega
  have inverse : Nat.digits 10 (decValue 0 (byte :: rest)) = ((byte :: rest).map digit).reverse := by
    rw [decValue_eq_ofDigits]
    apply Nat.digits_ofDigits 10 (by norm_num)
    · intro d member
      obtain ⟨b, inside, rfl⟩ := mem_map.mp (mem_reverse.mp member)
      exact digit_lt (all_digits b inside)
    · intro _
      simp only [map_cons, reverse_cons, getLast_append_singleton, digit]
      omega
  rw [decimal, if_neg nonzero, inverse, reverse_reverse, map_map]
  conv_rhs => rw [← map_id (byte :: rest)]
  exact map_congr_left fun b member => ofNat_digit (all_digits b member)

theorem decimal_cons (n : Nat) (nonzero : n ≠ 0) :
    ∃ byte rest, decimal n = byte :: rest ∧ (49 ≤ byte ∧ byte ≤ 57) ∧
      (∀ b ∈ rest, isDigit b = true) ∧ decValue 0 (byte :: rest) = n := by
  have nonempty : Nat.digits 10 n ≠ [] := Nat.digits_ne_nil_iff_ne_zero.mpr nonzero
  have small (d : Nat) (member : d ∈ Nat.digits 10 n) : d < 10 := Nat.digits_lt_base (by norm_num) member
  obtain ⟨d, ds, shape⟩ := exists_cons_of_ne_nil (show (Nat.digits 10 n).reverse ≠ [] by simpa)
  have leading : d ≠ 0 := by
    have last := Nat.getLast_digit_ne_zero 10 nonzero
    rw [getLast_eq_head_reverse] at last
    simpa only [shape, head_cons] using last
  have all_small : ∀ e ∈ d :: ds, e < 10 := fun e member => small e (by simpa [← shape] using member)
  have d_small := all_small d (by simp)
  refine ⟨UInt8.ofNat (48 + d), ds.map (fun e => UInt8.ofNat (48 + e)), ?_, ?_, ?_, ?_⟩
  · rw [decimal, if_neg nonzero, shape, map_cons]
  · constructor <;> rw [UInt8.le_iff_toNat_le, UInt8.toNat_ofNat'] <;> simp <;> omega
  · intro b member
    obtain ⟨e, inside, rfl⟩ := mem_map.mp member
    exact isDigit_ofNat (all_small e (by simp [inside]))
  · rw [decValue_eq_ofDigits, ← map_cons (f := fun e => UInt8.ofNat (48 + e)), map_map]
    have back : (d :: ds).map (digit ∘ fun e => UInt8.ofNat (48 + e)) = d :: ds := by
      conv_rhs => rw [← map_id (d :: ds)]
      exact map_congr_left fun e member => digit_ofNat (all_small e member)
    rw [back, ← shape, reverse_reverse, Nat.ofDigits_digits]

def llString (v : Int) : Bytes := (if v < 0 then [45] else []) ++ decimal v.natAbs

theorem string2ll_sound (parsed : string2ll s = some v) :
    IsInt64 v ∧ s = llString v := by
  unfold string2ll at parsed
  by_cases empty : s = []
  · rw [if_pos empty] at parsed; cases parsed
  rw [if_neg empty] at parsed
  by_cases zero : s = [48]
  · rw [if_pos zero] at parsed
    cases parsed
    exact ⟨by decide, by rw [zero]; rfl⟩
  rw [if_neg zero] at parsed
  dsimp only at parsed
  split at parsed
  next => cases parsed
  next byte rest shape =>
  by_cases first : 49 ≤ byte ∧ byte ≤ 57
  · rw [if_pos first] at parsed
    split at parsed
    next w loop =>
      obtain ⟨digits, value⟩ := string2llLoop_sound _ _ loop
      have leading : decValue (digit byte) rest = decValue 0 (byte :: rest) := by
        simp [decValue]
      have text : decimal w = byte :: rest := by
        rw [value, leading]
        exact decimal_decValue first digits
      have positive : w ≠ 0 := by
        intro none
        subst none
        rw [decimal, if_pos rfl] at text
        have same : byte = 48 := (List.cons.inj text).1.symm
        subst same
        exact absurd first.1 (by decide)
      by_cases negative : s.head? = some 45
      · rw [if_pos negative] at parsed shape
        by_cases large : llongMax + 1 < w
        · rw [if_pos large] at parsed; cases parsed
        rw [if_neg large] at parsed
        cases parsed
        have below : -(w : Int) < 0 := by omega
        refine ⟨⟨by simp only [llongMax] at large; omega, by omega⟩, ?_⟩
        rw [llString, if_pos below, Int.natAbs_neg, Int.natAbs_natCast, text, ← shape]
        cases s with
        | nil => cases negative
        | cons sign tail => cases negative; rfl
      · rw [if_neg negative] at parsed shape
        by_cases large : llongMax < w
        · rw [if_pos large] at parsed; cases parsed
        rw [if_neg large] at parsed
        cases parsed
        refine ⟨⟨by omega, by simp only [llongMax] at large; omega⟩, ?_⟩
        rw [llString, if_neg (by omega), Int.natAbs_natCast, text, shape]
        rfl
    next => cases parsed
  · rw [if_neg first] at parsed
    by_cases single : byte = 48 ∧ s.length = 1
    · -- A lone zero was already accepted, and a sign before it makes the length two.
      exfalso
      cases s with
      | nil => exact empty rfl
      | cons head tail =>
        have none : tail = [] := by simpa using single.2
        subst none
        by_cases negative : (head :: ([] : Bytes)).head? = some 45
        · rw [if_pos negative] at shape; cases shape
        · rw [if_neg negative] at shape
          cases shape
          exact zero (by rw [single.1])
    · rw [if_neg single] at parsed; cases parsed

theorem string2ll_complete (range : IsInt64 v) : string2ll (llString v) = some v := by
  by_cases zero : v = 0
  · subst zero; rfl
  obtain ⟨lower, upper⟩ := range
  obtain ⟨byte, rest, text, first, digits, value⟩ := decimal_cons v.natAbs (by omega)
  have leading : decValue (digit byte) rest = v.natAbs := by
    rw [← value]
    simp [decValue]
  have loop : string2llLoop (digit byte) rest = some (v.natAbs, []) := by
    rw [string2llLoop_complete _ digits (by rw [leading, ullongMax]; omega), leading]
  have not_sign : byte ≠ 45 := by rintro rfl; exact absurd first.1 (by decide)
  have not_zero : byte ≠ 48 := by rintro rfl; exact absurd first.1 (by decide)
  by_cases negative : v < 0
  · have string : llString v = 45 :: byte :: rest := by rw [llString, if_pos negative, text]; rfl
    have fits : ¬llongMax + 1 < v.natAbs := by rw [llongMax]; omega
    have back : -|v| = v := by rw [abs_of_neg negative, neg_neg]
    simp [string2ll, string, first, loop, fits, back]
  · have string : llString v = byte :: rest := by rw [llString, if_neg negative, text]; rfl
    have fits : ¬llongMax < v.natAbs := by rw [llongMax]; omega
    have back : |v| = v := abs_of_nonneg (by omega)
    simp [string2ll, string, first, loop, fits, back, not_sign, not_zero]

theorem ll2string_eq_llString (dstlen : Nat) (range : IsInt64 v) (room : 26 ≤ dstlen) :
    ll2string dstlen v = llString v :=
  ll2string_eq range room

-- The conversion to a signed 64-bit integer.
def toLongLong (x : Int) : Int := x.bmod (2 ^ 64)

theorem toLongLong_eq {x : Int} (range : IsInt64 x) : toLongLong x = x :=
  Int.bmod_eq_of_le (by have := range.1; omega) (by have := range.2; omega)

theorem isInt64_toLongLong (x : Int) : IsInt64 (toLongLong x) := ⟨Int.le_bmod (by decide), Int.bmod_lt (by decide)⟩

theorem toLongLong_eq_iff {x : Int} : toLongLong x = x ↔ IsInt64 x := ⟨fun same => same ▸ isInt64_toLongLong x, toLongLong_eq⟩

end RedisCore.Util
