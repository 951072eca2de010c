import RedisCore.Lib.Outcome

set_option autoImplicit false

namespace RedisCore.SkipList

open Function

def zskiplistMaxlevel : Nat := 32

-- What does not change while a node lives; height is the number of its level[] entries.
@[ext] structure ZskiplistNode (S E : Type) where
  ele : E
  score : S
  height : Nat
  deriving DecidableEq, Repr

-- A node pointer; none is the header.
abbrev Ref := Option Nat

-- The memory is split by field: forward (x, i) is x->level[i].forward.
structure Zskiplist (S E : Type) where
  node : Nat → Option (ZskiplistNode S E)
  forward : Ref × Nat → Option Nat
  span : Ref × Nat → BitVec 32
  backward : Nat → Option Nat
  tail : Option Nat
  length : Nat
  level : Nat
  fresh : Nat

section

variable {S E : Type}

def zslCreate : Zskiplist S E where
  node := fun _ => none
  forward := fun _ => none
  span := fun _ => 0
  backward := fun _ => none
  tail := none
  length := 0
  level := 1
  fresh := 0

def Zskiplist.height (zsl : Zskiplist S E) : Ref → Nat
  | none => zskiplistMaxlevel
  | some x => ((zsl.node x).map ZskiplistNode.height).getD 0

-- The update[] and rank[] arrays.
structure Path where
  update : Nat → Ref
  rank : Nat → BitVec 32

-- while (x->level[i].forward && ahead(forward)); every node is passed at most once.
def walk (zsl : Zskiplist S E) (ahead : Nat → ZskiplistNode S E → Bool) (i : Nat) :
    (fuel : Nat) → Ref → (traversed : Nat) → Option (Ref × Nat)
  | 0, _, _ => none
  | fuel + 1, x, traversed =>
    if i < zsl.height x then
      match zsl.forward (x, i) with
      | none => some (x, traversed)
      | some y => do
        let next ← zsl.node y
        let reached := traversed + (zsl.span (x, i)).toNat
        if ahead reached next then walk zsl ahead i fuel (some y) reached else pure (x, traversed)
    else none

-- for (i = zsl->level-1; i >= 0; i--); the unsigned int rank[i] holds what was traversed.
def descend (zsl : Zskiplist S E) (ahead : Nat → ZskiplistNode S E → Bool) :
    (levels : Nat) → Ref → (traversed : Nat) → Path → Option (Path × Ref × Nat)
  | 0, x, traversed, path => some (path, x, traversed)
  | i + 1, x, traversed, path => do
    let (x, traversed) ← walk zsl ahead i (zsl.length + 1) x traversed
    descend zsl ahead i x traversed
      { update := update path.update i x
        rank := update path.rank i (BitVec.ofNat 32 traversed) }

def search (zsl : Zskiplist S E) (ahead : Nat → ZskiplistNode S E → Bool) : Option (Path × Ref × Nat) :=
  descend zsl ahead zsl.level none 0 { update := fun _ => none, rank := fun _ => 0 }

def forLevels (body : Nat → Zskiplist S E → Option (Zskiplist S E)) :
    (count i : Nat) → Zskiplist S E → Option (Zskiplist S E)
  | 0, _, zsl => some zsl
  | count + 1, i, zsl => do forLevels body count (i + 1) (← body i zsl)

-- The levels that only the new node reaches start at the header.
def raiseLevel (zsl : Zskiplist S E) (level : Nat) (path : Path) : Zskiplist S E × Path :=
  if zsl.level < level then
    ({ zsl with
        span := fun at_level =>
          if at_level.1 = none ∧ zsl.level ≤ at_level.2 ∧ at_level.2 < level
          then BitVec.ofNat 32 zsl.length else zsl.span at_level
        level := level },
      { update := fun i => if zsl.level ≤ i ∧ i < level then none else path.update i
        rank := fun i => if zsl.level ≤ i ∧ i < level then 0 else path.rank i })
  else (zsl, path)

def linkLevel (x : Nat) (path : Path) (i : Nat) (zsl : Zskiplist S E) : Option (Zskiplist S E) :=
  let u := path.update i
  if i < zsl.height u ∧ i < zsl.height (some x) then
    some { zsl with
      forward := update (update zsl.forward (some x, i) (zsl.forward (u, i))) (u, i) (some x)
      span := update
        (update zsl.span (some x, i) (zsl.span (u, i) - (path.rank 0 - path.rank i)))
        (u, i) (path.rank 0 - path.rank i + 1) }
  else none

def bumpSpan (path : Path) (i : Nat) (zsl : Zskiplist S E) : Option (Zskiplist S E) :=
  let u := path.update i
  if i < zsl.height u then
    some { zsl with span := update zsl.span (u, i) (zsl.span (u, i) + 1) }
  else none

def zslCreateNode (zsl : Zskiplist S E) (level : Nat) (score : S) (ele : E) : Zskiplist S E :=
  { zsl with
    node := update zsl.node zsl.fresh (some { ele := ele, score := score, height := level })
    fresh := zsl.fresh + 1 }

-- x->level[0].forward->backward = target, or zsl->tail = target at the end of the list.
def setBackward (zsl : Zskiplist S E) (next target : Option Nat) : Zskiplist S E :=
  match next with
  | some y => { zsl with backward := update zsl.backward y target }
  | none => { zsl with tail := target }

def zslFreeNode (zsl : Zskiplist S E) (x : Nat) : Zskiplist S E :=
  { zsl with node := update zsl.node x none }

def unlinkLevel (x : Nat) (path : Path) (i : Nat) (zsl : Zskiplist S E) : Option (Zskiplist S E) :=
  let u := path.update i
  if i < zsl.height u then
    if zsl.forward (u, i) = some x then
      if i < zsl.height (some x) then
        some { zsl with
          span := update zsl.span (u, i) (zsl.span (u, i) + (zsl.span (some x, i) - 1))
          forward := update zsl.forward (u, i) (zsl.forward (some x, i)) }
      else none
    else some { zsl with span := update zsl.span (u, i) (zsl.span (u, i) - 1) }
  else none

-- while(zsl->level > 1 && zsl->header->level[zsl->level-1].forward == NULL) zsl->level--
def lowerLevel (zsl : Zskiplist S E) : Nat → Nat
  | 0 => 0
  | 1 => 1
  | level + 2 => if zsl.forward (none, level + 1) = none then lowerLevel zsl (level + 1) else level + 2

def zslDeleteNode (zsl : Zskiplist S E) (x : Nat) (path : Path) : Option (Zskiplist S E) := do
  let zsl ← forLevels (unlinkLevel x path) zsl.level 0 zsl
  let zsl := setBackward zsl (zsl.forward (some x, 0)) (zsl.backward x)
  pure { zsl with level := lowerLevel zsl zsl.level, length := zsl.length - 1 }

-- Deletes nodes from x on while they are in range; the elements are those passed to dictDelete.
def deleteWhile (path : Path) (inRange : Nat → ZskiplistNode S E → Bool) :
    (fuel : Nat) → Option Nat → (traversed : Nat) → Zskiplist S E → Option (Zskiplist S E × List E)
  | 0, _, _, _ => none
  | _, none, _, zsl => some (zsl, [])
  | fuel + 1, some x, traversed, zsl => do
    let node ← zsl.node x
    if inRange traversed node then
      let next := zsl.forward (some x, 0)
      let zsl ← zslDeleteNode zsl x path
      let (zsl, removed) ← deleteWhile path inRange fuel next (traversed + 1) (zslFreeNode zsl x)
      pure (zsl, node.ele :: removed)
    else pure (zsl, [])

def deleteRange (zsl : Zskiplist S E) (ahead inRange : Nat → ZskiplistNode S E → Bool) :
    Option (Zskiplist S E × List E) := do
  let (path, x, traversed) ← search zsl ahead
  deleteWhile path inRange (zsl.length + 1) (zsl.forward (x, 0)) (traversed + 1) zsl

end

section

variable {S E : Type} [LinearOrder S] [LinearOrder E]

def nodeBefore (score : S) (ele : E) (node : ZskiplistNode S E) : Bool :=
  decide (node.score < score ∨ node.score = score ∧ node.ele < ele)

-- level is what zslRandomLevel returned.
def zslInsert (zsl : Zskiplist S E) (score : S) (ele : E) (level : Nat) : Option (Zskiplist S E) := do
  let (path, _, _) ← search zsl (fun _ => nodeBefore score ele)
  let raised := raiseLevel zsl level path
  let path := raised.2
  let x := raised.1.fresh
  let zsl ← forLevels (linkLevel x path) level 0 (zslCreateNode raised.1 level score ele)
  let zsl ← forLevels (bumpSpan path) (zsl.level - level) level zsl
  let zsl := { zsl with backward := update zsl.backward x (path.update 0) }
  let zsl := setBackward zsl (zsl.forward (some x, 0)) (some x)
  pure { zsl with length := zsl.length + 1 }

def unlinkIfFound (zsl : Zskiplist S E) (score : S) (ele : E) (path : Path) :
    Option Nat → Option (Zskiplist S E × Option Nat)
  | none => some (zsl, none)
  | some x => do
    let node ← zsl.node x
    if score = node.score ∧ node.ele = ele then
      let zsl ← zslDeleteNode zsl x path
      pure (zsl, some x)
    else pure (zsl, none)

-- zslDelete when the caller passes a pointer for the node and frees it later.
def zslUnlink (zsl : Zskiplist S E) (score : S) (ele : E) : Option (Zskiplist S E × Option Nat) := do
  let (path, x, _) ← search zsl (fun _ => nodeBefore score ele)
  unlinkIfFound zsl score ele path (zsl.forward (x, 0))

def zslDelete (zsl : Zskiplist S E) (score : S) (ele : E) : Option (Zskiplist S E × Bool) := do
  match ← zslUnlink zsl score ele with
  | (zsl, some x) => pure (zslFreeNode zsl x, true)
  | (zsl, none) => pure (zsl, false)

structure Zrangespec (S : Type) where
  min : S
  max : S
  minex : Bool
  maxex : Bool

def zslDeleteRangeByScore (zsl : Zskiplist S E) (range : Zrangespec S) : Option (Zskiplist S E × List E) :=
  deleteRange zsl
    (fun _ node => if range.minex then decide (node.score ≤ range.min) else decide (node.score < range.min))
    (fun _ node => if range.maxex then decide (node.score < range.max) else decide (node.score ≤ range.max))

-- shared.minstring and shared.maxstring are told from elements by their address.
inductive LexBound (E : Type) where
  | minstring
  | maxstring
  | value (ele : E)

structure Zlexrangespec (E : Type) where
  min : LexBound E
  max : LexBound E
  minex : Bool
  maxex : Bool

-- sdscmplex(value, bound) for an element, which is neither of the shared strings.
def sdscmplex (value : E) : LexBound E → Ordering
  | .maxstring => .lt
  | .minstring => .gt
  | .value bound => compare value bound

def zslLexValueGteMin (value : E) (spec : Zlexrangespec E) : Bool :=
  if spec.minex then sdscmplex value spec.min == .gt else sdscmplex value spec.min != .lt

def zslLexValueLteMax (value : E) (spec : Zlexrangespec E) : Bool :=
  if spec.maxex then sdscmplex value spec.max == .lt else sdscmplex value spec.max != .gt

def zslDeleteRangeByLex (zsl : Zskiplist S E) (range : Zlexrangespec E) : Option (Zskiplist S E × List E) :=
  deleteRange zsl (fun _ node => !zslLexValueGteMin node.ele range)
    (fun _ node => zslLexValueLteMax node.ele range)

end

section

variable {S E : Type}

-- start and stop are 1-based ranks.
def zslDeleteRangeByRank (zsl : Zskiplist S E) (start stop : Nat) : Option (Zskiplist S E × List E) :=
  deleteRange zsl (fun reached _ => decide (reached < start)) (fun traversed _ => decide (traversed ≤ stop))

end

end RedisCore.SkipList
