import RedisCore.Lib.Buckets
import RedisCore.Lib.Outcome

set_option autoImplicit false

namespace RedisCore.HashTable

structure DictType (K : Type) where
  hashFunction : K → BitVec 64
  keyCompare : K → K → Bool
  keyCompare_refl : ∀ a, keyCompare a a
  keyCompare_symm : ∀ a b, keyCompare a b → keyCompare b a
  keyCompare_trans : ∀ a b c, keyCompare a b → keyCompare b c → keyCompare a c
  hash_eq : ∀ a b, keyCompare a b → hashFunction a = hashFunction b

@[ext] structure DictEntry (K V : Type) where
  key : K
  val : V
  deriving DecidableEq, Repr

-- slots counts the bucket pointers that were allocated, which size only promises.
@[ext] structure Dictht (K V : Type) where
  slots : Nat
  table : Nat → List (DictEntry K V)
  size : Nat
  sizemask : BitVec 64
  used : Nat

-- rehashidx is none where the source has -1; canResize is the global dict_can_resize.
structure Dict (K V : Type) where
  ht0 : Dictht K V
  ht1 : Dictht K V
  rehashidx : Option Nat
  iterators : Nat
  canResize : Bool

-- fault: a failed assertion, an access outside an allocation or a NULL dereference.
-- oom: zmalloc prints its message and aborts.
inductive Stop where
  | fault
  | oom
  deriving DecidableEq, Repr

section

variable {K V : Type}

def Dictht.bucket (t : Dictht K V) (i : Nat) : Except Stop (List (DictEntry K V)) :=
  if i < t.slots then .ok (t.table i) else .error .fault

def Dictht.setBucket (t : Dictht K V) (i : Nat) (chain : List (DictEntry K V)) :
    Except Stop (Dictht K V) :=
  if i < t.slots then .ok { t with table := Function.update t.table i chain } else .error .fault

def _dictReset : Dictht K V where
  slots := 0
  table := fun _ => []
  size := 0
  sizemask := 0
  used := 0

def dictCreate : Dict K V where
  ht0 := _dictReset
  ht1 := _dictReset
  rehashidx := none
  iterators := 0
  canResize := true

def dictIsRehashing (d : Dict K V) : Bool := d.rehashidx.isSome

def dictHtInitialSize : Nat := 4

def longMax : Nat := 2 ^ 63 - 1

def nextPowerLoop (size : Nat) : (rounds i : Nat) → Nat
  | 0, i => i
  | rounds + 1, i => if size ≤ i then i else nextPowerLoop size rounds (i * 2)

-- Below LONG_MAX the loop stops within 61 doublings.
def _dictNextPower (size : Nat) : Nat :=
  if longMax ≤ size then longMax + 1 else nextPowerLoop size 62 dictHtInitialSize

-- zcalloc receives realsize*sizeof(dictEntry*) as a size_t.
def newTable (realsize : Nat) : Dictht K V where
  slots := realsize * 8 % 2 ^ 64 / 8
  table := fun _ => []
  size := realsize
  sizemask := BitVec.ofNat 64 (realsize - 1)
  used := 0

-- true is DICT_OK.
def dictExpand (d : Dict K V) (size : Nat) : Dict K V × Bool :=
  let realsize := _dictNextPower size
  if dictIsRehashing d ∨ size < d.ht0.used then (d, false)
  else if realsize = d.ht0.size then (d, false)
  else if d.ht0.size = 0 then ({ d with ht0 := newTable realsize }, true)
  else ({ d with ht1 := newTable realsize, rehashidx := some 0 }, true)

-- minimal is an int.
def dictResize (d : Dict K V) : Dict K V × Bool :=
  if !d.canResize ∨ dictIsRehashing d then (d, false)
  else
    let minimal := (d.ht0.used : Int).bmod (2 ^ 32)
    let minimal := if minimal < dictHtInitialSize then (dictHtInitialSize : Int) else minimal
    dictExpand d minimal.toNat

inductive Skip where
  | found (idx : Nat) (emptyVisits : BitVec 32)
  | exhausted (idx : Nat)
  deriving DecidableEq, Repr

-- The fuel is the number of allocated buckets from idx on: running out is reading past the table.
def skipEmpty (t : Dictht K V) : (left idx : Nat) → (emptyVisits : BitVec 32) → Except Stop Skip
  | 0, _, _ => .error .fault
  | left + 1, idx, emptyVisits =>
    if t.table idx ≠ [] then .ok (.found idx emptyVisits)
    else if emptyVisits - 1 = 0 then .ok (.exhausted (idx + 1))
    else skipEmpty t left (idx + 1) (emptyVisits - 1)

end

section

variable {K V : Type} (type : DictType K)

def Dictht.index (t : Dictht K V) (hash : BitVec 64) : Nat := (hash &&& t.sizemask).toNat

def moveChain : List (DictEntry K V) → Dictht K V → Dictht K V → Except Stop (Dictht K V × Dictht K V)
  | [], ht0, ht1 => .ok (ht0, ht1)
  | de :: chain, ht0, ht1 => do
    let h := ht1.index (type.hashFunction de.key)
    let head ← ht1.bucket h
    let ht1 ← ht1.setBucket h (de :: head)
    moveChain chain { ht0 with used := ht0.used - 1 } { ht1 with used := ht1.used + 1 }

def rehashFinish (d : Dict K V) (ht0 ht1 : Dictht K V) (idx : Nat) : Dict K V × Bool :=
  if ht0.used = 0 then ({ d with ht0 := ht1, ht1 := _dictReset, rehashidx := none }, false)
  else ({ d with ht0 := ht0, ht1 := ht1, rehashidx := some idx }, true)

def rehashLoop (d : Dict K V) :
    (n : Nat) → (ht0 ht1 : Dictht K V) → (idx : Nat) → BitVec 32 → Except Stop (Dict K V × Bool)
  | 0, ht0, ht1, idx, _ => .ok (rehashFinish d ht0 ht1 idx)
  | n + 1, ht0, ht1, idx, emptyVisits =>
    if ht0.used = 0 then .ok (rehashFinish d ht0 ht1 idx)
    else if ht0.size ≤ idx then .error .fault
    else do
      match ← skipEmpty ht0 (ht0.slots - idx) idx emptyVisits with
      | .exhausted idx => .ok ({ d with ht0 := ht0, ht1 := ht1, rehashidx := some idx }, true)
      | .found idx emptyVisits =>
        let (moved0, ht1) ← moveChain type (ht0.table idx) ht0 ht1
        let ht0 ← moved0.setBucket idx []
        rehashLoop d n ht0 ht1 (idx + 1) emptyVisits

-- n is an int: n-- runs down from its unsigned value, n*10 wraps.
def dictRehash (d : Dict K V) (n : BitVec 32) : Except Stop (Dict K V × Bool) :=
  match d.rehashidx with
  | none => .ok (d, false)
  | some idx => rehashLoop type d n.toNat d.ht0 d.ht1 idx (n * 10)

def _dictRehashStep (d : Dict K V) : Except Stop (Dict K V) :=
  if d.iterators = 0 then (dictRehash type d 1).map Prod.fst else .ok d

def rehashStepIfRehashing (d : Dict K V) : Except Stop (Dict K V) :=
  if dictIsRehashing d then _dictRehashStep type d else .ok d

def dictForceResizeRatio : Nat := 5

def _dictExpandIfNeeded (d : Dict K V) : Dict K V × Bool :=
  if dictIsRehashing d then (d, true)
  else if d.ht0.size = 0 then dictExpand d dictHtInitialSize
  else if d.ht0.size ≤ d.ht0.used ∧ (d.canResize ∨ dictForceResizeRatio < d.ht0.used / d.ht0.size) then
    dictExpand d (d.ht0.used * 2 % 2 ^ 64)
  else (d, true)

structure EntryRef where
  second : Bool
  idx : Nat
  pos : Nat
  deriving DecidableEq, Repr

def Dict.ht (d : Dict K V) (second : Bool) : Dictht K V := if second then d.ht1 else d.ht0

def Dict.setHt (d : Dict K V) (second : Bool) (t : Dictht K V) : Dict K V :=
  if second then { d with ht1 := t } else { d with ht0 := t }

def searchTable (d : Dict K V) (key : K) (second : Bool) : Except Stop (Option EntryRef) := do
  let idx := (d.ht second).index (type.hashFunction key)
  let chain ← (d.ht second).bucket idx
  pure ((chain.findIdx? fun he => type.keyCompare key he.key).map fun pos => ⟨second, idx, pos⟩)

def searchTables (d : Dict K V) (key : K) : Except Stop (Option EntryRef) := do
  match ← searchTable type d key false with
  | some ref => pure (some ref)
  | none => if dictIsRehashing d then searchTable type d key true else pure none

def deref (d : Dict K V) (ref : EntryRef) : Except Stop (DictEntry K V) :=
  match ((d.ht ref.second).table ref.idx)[ref.pos]? with
  | some he => .ok he
  | none => .error .fault

-- err is the -1 that a failed expansion returns with *existing = NULL.
inductive KeyIndex where
  | free (idx : Nat)
  | existing (ref : EntryRef)
  | err
  deriving DecidableEq, Repr

def _dictKeyIndex (d : Dict K V) (key : K) : Except Stop (Dict K V × KeyIndex) :=
  match _dictExpandIfNeeded d with
  | (d, false) => .ok (d, .err)
  | (d, true) => do
    match ← searchTables type d key with
    | some ref => pure (d, .existing ref)
    | none => pure (d, .free ((d.ht (dictIsRehashing d)).index (type.hashFunction key)))

-- Entries of 24 bytes fill at most the lower half of the address space.
def entryRoom (d : Dict K V) : Prop := 24 * (d.ht0.used + d.ht1.used + 1) < 2 ^ 63

instance (d : Dict K V) : Decidable (entryRoom d) := inferInstanceAs (Decidable (_ < _))

-- fresh is what the new entry's value field holds before the caller sets it.
def insertEntry (d : Dict K V) (idx : Nat) (key : K) (fresh : V) : Except Stop (Dict K V) :=
  if ¬entryRoom d then .error .oom
  else do
    let second := dictIsRehashing d
    let head ← (d.ht second).bucket idx
    let t ← (d.ht second).setBucket idx (⟨key, fresh⟩ :: head)
    pure (d.setHt second { t with used := t.used + 1 })

def dictAddRaw (d : Dict K V) (key : K) (fresh : V) : Except Stop (Dict K V × KeyIndex) := do
  let d ← rehashStepIfRehashing type d
  match ← _dictKeyIndex type d key with
  | (d, .free idx) =>
    let d ← insertEntry d idx key fresh
    pure (d, .free idx)
  | (d, found) => pure (d, found)

def dictAdd (d : Dict K V) (key : K) (val : V) : Except Stop (Dict K V × Bool) := do
  match ← dictAddRaw type d key val with
  | (d, .free _) => pure (d, true)
  | (d, _) => pure (d, false)

def setVal (d : Dict K V) (ref : EntryRef) (val : V) : Except Stop (Dict K V) := do
  let he ← deref d ref
  let t := d.ht ref.second
  let t ← t.setBucket ref.idx ((t.table ref.idx).set ref.pos { he with val := val })
  pure (d.setHt ref.second t)

def dictReplace (d : Dict K V) (key : K) (val : V) : Except Stop (Dict K V × Bool) := do
  match ← dictAddRaw type d key val with
  | (d, .free _) => pure (d, true)
  | (d, .existing ref) =>
    let d ← setVal d ref val
    pure (d, false)
  | (_, .err) => .error .fault

def dictAddOrFind (d : Dict K V) (key : K) (fresh : V) : Except Stop (Dict K V × Option (DictEntry K V)) := do
  match ← dictAddRaw type d key fresh with
  | (d, .free _) => pure (d, some ⟨key, fresh⟩)
  | (d, .existing ref) =>
    let he ← deref d ref
    pure (d, some he)
  | (d, .err) => pure (d, none)

def unlinkEntry (d : Dict K V) (ref : EntryRef) : Except Stop (Dict K V) := do
  let t := d.ht ref.second
  let t ← t.setBucket ref.idx ((t.table ref.idx).eraseIdx ref.pos)
  pure (d.setHt ref.second { t with used := t.used - 1 })

def dictGenericDelete (d : Dict K V) (key : K) : Except Stop (Dict K V × Option (DictEntry K V)) :=
  if d.ht0.used = 0 ∧ d.ht1.used = 0 then .ok (d, none)
  else do
    let d ← rehashStepIfRehashing type d
    match ← searchTables type d key with
    | none => pure (d, none)
    | some ref =>
      let he ← deref d ref
      let d ← unlinkEntry d ref
      pure (d, some he)

def dictDelete (d : Dict K V) (key : K) : Except Stop (Dict K V × Bool) :=
  (dictGenericDelete type d key).map fun result => (result.1, result.2.isSome)

def dictUnlink (d : Dict K V) (key : K) : Except Stop (Dict K V × Option (DictEntry K V)) :=
  dictGenericDelete type d key

def dictFind (d : Dict K V) (key : K) : Except Stop (Dict K V × Option (DictEntry K V)) :=
  if d.ht0.used + d.ht1.used = 0 then .ok (d, none)
  else do
    let d ← rehashStepIfRehashing type d
    match ← searchTables type d key with
    | none => pure (d, none)
    | some ref =>
      let he ← deref d ref
      pure (d, some he)

end

section

variable {K V : Type}

def clearLoop (t : Dictht K V) : (left i used : Nat) → Except Stop Unit
  | 0, _, _ => .ok ()
  | left + 1, i, used =>
    if used = 0 then .ok ()
    else do
      let chain ← t.bucket i
      clearLoop t left (i + 1) (used - chain.length)

def _dictClear (t : Dictht K V) : Except Stop (Dictht K V) := do
  clearLoop t t.size 0 t.used
  pure _dictReset

def dictEmpty (d : Dict K V) : Except Stop (Dict K V) := do
  let ht0 ← _dictClear d.ht0
  let ht1 ← _dictClear d.ht1
  pure { d with ht0 := ht0, ht1 := ht1, rehashidx := none, iterators := 0 }

end

end RedisCore.HashTable
