import RedisCore.QuickList.Ranges

set_option autoImplicit false

namespace RedisCore.QuickList

open Ziplist DoublyLinked Simulation List

variable {cells : List Cell} {ql : Quicklist}

-- insertIter inserts at the entry that an iterator returns after it has skipped others. In iterate the
-- script says at each entry whether it is deleted. dup goes on with the copy.
inductive Op where
  | push (place : Where) (v : Bytes)
  | pop (place : Where)
  | rotate
  | index (idx : Int)
  | replace (idx : Int) (v : Bytes)
  | insert (idx : Int) (v : Bytes) (after : Bool)
  | insertIter (direction : Where) (skip : Nat) (v : Bytes) (after : Bool)
  | delRange (start count : Int)
  | iterate (direction : Where) (script : List Bool)
  | dup
  deriving DecidableEq, Repr

inductive Reply where
  | unit
  | value (v : Option Bytes)
  | flag (b : Bool)
  | values (vs : List Bytes)
  deriving DecidableEq, Repr

def entryBytes (entry : QuicklistEntry) : Bytes := (entry.value.map ZlValue.toBytes).getD []

section

variable (lzf : Lzf)

def visit (ql : Quicklist) (iter : QuicklistIter) (entry : QuicklistEntry) : (delete : Bool) → Except Fault (Quicklist × QuicklistIter)
  | true => quicklistDelEntry lzf ql iter entry
  | false => .ok (ql, iter)

def iterateLoop : List Bool → Quicklist → QuicklistIter → Except Fault (Quicklist × QuicklistIter × List Bytes)
  | [], ql, iter => .ok (ql, iter, [])
  | delete :: script, ql, iter => do
    match ← quicklistNext lzf (ql.len + 2) ql iter with
    | (ql, iter, none) => pure (ql, iter, [])
    | (ql, iter, some entry) =>
      let (ql, iter) ← visit lzf ql iter entry delete
      let (ql, iter, values) ← iterateLoop script ql iter
      pure (ql, iter, entryBytes entry :: values)

def iterEntry (ql : Quicklist) (direction : Where) (skip : Nat) : Except Fault (Quicklist × Option QuicklistEntry) := do
  let (ql, iter, _) ← iterateLoop lzf (List.replicate skip false) ql (quicklistGetIterator ql direction)
  let (ql, _, entry) ← quicklistNext lzf (ql.len + 2) ql iter
  pure (ql, entry)

def insertEntry (ql : Quicklist) (entry : Option QuicklistEntry) (v : Bytes) (after : Bool) : Except Fault (Quicklist × Reply) :=
  match entry with
  | none => .ok (ql, .flag false)
  | some entry => do
    let ql ← _quicklistInsert lzf ql entry v after
    pure (ql, .flag true)

def step (ql : Quicklist) : Op → Except Fault (Quicklist × Reply)
  | .push place v => do
    let (ql, _) ← quicklistPush lzf ql v place
    pure (ql, .unit)
  | .pop place => do
    let (ql, v) ← quicklistPopCustom lzf ql place
    pure (ql, .value (v.map ZlValue.toBytes))
  | .rotate => do
    let ql ← quicklistRotate lzf ql
    pure (ql, .unit)
  | .index idx => do
    let (ql, entry) ← quicklistIndex lzf ql idx
    pure (ql, .value (entry.map entryBytes))
  | .replace idx v => do
    let (ql, found) ← quicklistReplaceAtIndex lzf ql idx v
    pure (ql, .flag found)
  | .insert idx v after => do
    let (ql, entry) ← quicklistIndex lzf ql idx
    insertEntry lzf ql entry v after
  | .insertIter direction skip v after => do
    let (ql, entry) ← iterEntry lzf ql direction skip
    insertEntry lzf ql entry v after
  | .delRange start count => do
    let (ql, done) ← quicklistDelRange lzf ql start count
    pure (ql, .flag done)
  | .iterate direction script => do
    let (ql, iter, values) ← iterateLoop lzf script ql (quicklistGetIterator ql direction)
    let ql ← quicklistReleaseIterator lzf ql iter
    pure (ql, .values values)
  | .dup => do
    let copy ← quicklistDup lzf ql
    pure (copy, .unit)

end

def iterIndex : Where → Nat → Int
  | .head, k => k
  | .tail, k => -((k : Int) + 1)

def insertAtIndex (values : List Bytes) (k : Nat) (v : Bytes) : Bool → List Bytes
  | true => values.take (k + 1) ++ v :: values.drop (k + 1)
  | false => values.take k ++ v :: values.drop k

def specInsert (values : List Bytes) (v : Bytes) (after : Bool) : Option Nat → List Bytes × Reply
  | none => (values, .flag false)
  | some k => (insertAtIndex values k v after, .flag true)

def specIterate (direction : Where) : List Bool → Nat → List Bytes → List Bytes × List Bytes
  | [], _, values => (values, [])
  | delete :: script, k, values =>
    match position values.length (iterIndex direction k) with
    | none => (values, [])
    | some i =>
      let rest := match delete with
        | true => specIterate direction script k (values.eraseIdx i)
        | false => specIterate direction script (k + 1) values
      (rest.1, values[i]?.getD [] :: rest.2)

def specStep (values : List Bytes) : Op → List Bytes × Reply
  | .push place v => (pushed v values place, .unit)
  | .pop place =>
    match popped values place with
    | none => (values, .value none)
    | some (v, rest) => (rest, .value (some v))
  | .rotate => (rotated values, .unit)
  | .index idx => (values, .value ((position values.length idx).bind fun k => values[k]?))
  | .replace idx v =>
    match position values.length idx with
    | none => (values, .flag false)
    | some k => (values.set k v, .flag true)
  | .insert idx v after => specInsert values v after (position values.length idx)
  | .insertIter direction skip v after => specInsert values v after (position values.length (iterIndex direction skip))
  | .delRange start count =>
    (deletedRange values start count, .flag (decide (0 < count) && (position values.length start).isSome))
  | .iterate direction script =>
    let (rest, seen) := specIterate direction script 0 values
    (rest, .values seen)
  | .dup => (values, .unit)

def sizeLimit : Nat := 2 ^ 30 - 2 ^ 18

def smallNode (ql : Quicklist) (n : Nat) : Bool :=
  match ql.node n with
  | none => true
  | some node => decide (node.sz < sizeLimit)

-- Neither the count nor a ziplist can run over in the next call.
def calm (ql : Quicklist) : Bool :=
  decide (ql.count < 2 ^ 63) && (chainIds ql).all (smallNode ql)

def Op.written : Op → List Bytes
  | .push _ v => [v]
  | .replace _ v => [v]
  | .insert _ v _ => [v]
  | .insertIter _ _ v _ => [v]
  | _ => []

-- A split adds a node and can merge four: a flag must not come to an end, nor the list become too short to be compressed.
def splitFits (ql : Quicklist) (n : Nat) : Bool :=
  let ids := chainIds ql
  ids.all (fun m => !flagged ql m) || decide (2 < ids.idxOf n ∧ ids.idxOf n + 3 < ids.length ∧ 2 * ql.compress + 3 ≤ ids.length)

-- An offset that counts from the end of a node is only good for a node with room. A node without room is split, unless the
-- entry goes before its first one and there is a node before it.
def insertFits (ql : Quicklist) (entry : Option QuicklistEntry) (v : Bytes) (after : Bool) : Bool :=
  match entry with
  | some ⟨some n, _, _, offset⟩ =>
    match ql.node n with
    | none => true
    | some node => _quicklistNodeAllowInsert node ql.fill v.length ||
        decide (0 ≤ offset) && (!after && decide (offset = 0) && (ql.prev n).isSome || splitFits ql n)
  | _ => true

def iterateFits (lzf : Lzf) : List Bool → Quicklist → QuicklistIter → Bool
  | [], _, _ => true
  | delete :: script, ql, iter =>
    match quicklistNext lzf (ql.len + 2) ql iter with
    | .ok (ql, iter, some entry) => (!delete || entry.node.all (leavesHidden ql)) &&
        match visit lzf ql iter entry delete with
        | .ok (ql, iter) => iterateFits lzf script ql iter
        | .error _ => true
    | _ => true

def callFits (lzf : Lzf) (ql : Quicklist) : Op → Bool
  | .pop place => (ql.last place).all (leavesHidden ql)
  | .rotate => decide (ql.count ≤ 1) || !rotateDangles ql && ql.tail.all (leavesHidden ql)
  | .insert idx v after =>
    match quicklistIndex lzf ql idx with
    | .ok (ql, entry) => insertFits ql entry v after
    | .error _ => true
  | .insertIter direction skip v after =>
    match iterEntry lzf ql direction skip with
    | .ok (ql, entry) => insertFits ql entry v after
    | .error _ => true
  | .delRange start count => !delRangeOverruns lzf ql start count && delRangeHides lzf ql start count
  | .iterate direction script => iterateFits lzf script ql (quicklistGetIterator ql direction)
  | _ => true

-- What the caller has to see to before each call.
def fits (lzf : Lzf) (ql : Quicklist) (op : Op) : Bool :=
  calm ql && op.written.all (fun v => decide (v.length ≤ 2 ^ 29)) && callFits lzf ql op

section

variable {lzf : Lzf} {ql : Quicklist} {cells : List Cell}

theorem Good.bounded (good : Good lzf ql cells) (at_rest : calm ql = true) : Bounded (2 ^ 30) cells := by
  intro cell inside
  obtain ⟨node, found, stored⟩ := good.nodes cell inside
  obtain ⟨zl, plain, holds⟩ := stored.zl
  simp only [calm, Bool.and_eq_true, all_eq_true, good.chainIds] at at_rest
  have small := at_rest.2 cell.1 (mem_map_of_mem inside)
  simp only [smallNode, found, decide_eq_true_eq, sizeLimit, plain.size] at small
  have narrow := holds.widest_le zl cell.2
  have few := stored.few
  omega

end

theorem Bounded.entries {limit : Nat} (bounded : Bounded limit cells) : ∀ v ∈ contents cells, widest [v] < limit := by
  intro v inside
  obtain ⟨cell, in_cells, in_cell⟩ := mem_flatMap.mp inside
  exact lt_of_le_of_lt (widest_sublist _ _ (singleton_sublist.mpr in_cell)) (bounded cell in_cells)

theorem calm_count (at_rest : calm ql = true) : ql.count < 2 ^ 63 := by
  simp only [calm, Bool.and_eq_true, decide_eq_true_eq] at at_rest
  exact at_rest.1

theorem body_le_length (s : Bytes) : (zipEntryBody s).length ≤ s.length + 13 := by
  have header (encoding : UInt8) : (zipStoreEntryEncoding encoding s.length).length ≤ 5 := by
    unfold zipStoreEntryEncoding
    split <;> (try split) <;> (try split) <;> simp
  unfold zipEntryBody
  split
  next value encoding _ =>
    have data : ((zipSaveInteger value encoding).getD []).length ≤ 8 := by
      unfold zipSaveInteger
      repeat' split
      all_goals simp
    have := header encoding
    rw [length_append]
    omega
  next =>
    have := header 0
    rw [length_append]
    omega

theorem short_of_length {v : Bytes} (short : v.length ≤ 2 ^ 29) : widest [v] < 2 ^ 30 := by
  have body := body_le_length v
  have base : widest [] = 11 := rfl
  rw [widest_cons]
  omega

section

variable (front : List Cell) (n : Nat) (before : List Bytes) (v : Bytes) (rest : List Bytes) (back : List Cell)

theorem contents_entry : contents (front ++ (n, before ++ v :: rest) :: back) =
    (contents front ++ before) ++ v :: (rest ++ contents back) := by simp

theorem contents_at : (contents (front ++ (n, before ++ v :: rest) :: back))[(contents front).length + before.length]? = some v := by
  rw [contents_entry, ← length_append, getElem?_append_right (le_refl _), Nat.sub_self]
  rfl

theorem iter_position (direction : Where) : position (contents (front ++ (n, before ++ v :: rest) :: back)).length
      (iterIndex direction (passed front back before rest direction)) = some ((contents front).length + before.length) := by
  rw [contents_entry]
  simp only [length_append, length_cons]
  cases direction with
  | head =>
    rw [iterIndex, passed, position, if_neg (by omega), if_pos (by omega)]
    rfl
  | tail =>
    rw [iterIndex, passed, position, if_pos (by omega), if_pos (by omega)]
    congr 1
    omega

theorem iter_position_end (values : List Bytes) (direction : Where) :
    position values.length (iterIndex direction values.length) = none := by
  cases direction with
  | head => rw [iterIndex, position, if_neg (by omega), if_neg (by omega)]
  | tail => rw [iterIndex, position, if_pos (by omega), if_neg (by omega)]

theorem insertAtIndex_entry (value : Bytes) (after : Bool) :
    insertAtIndex (contents (front ++ (n, before ++ v :: rest) :: back)) ((contents front).length + before.length) value after =
      contents (front ++ (n, before ++ inserted value v rest after) :: back) := by
  rw [contents_entry, ← length_append]
  cases after with
  | false =>
    rw [insertAtIndex, take_left, drop_left]
    simp [inserted]
  | true =>
    have again : (contents front ++ before) ++ v :: (rest ++ contents back) =
        (contents front ++ before ++ [v]) ++ (rest ++ contents back) := by simp
    have length_eq : (contents front ++ before).length + 1 = (contents front ++ before ++ [v]).length := by
      simp [Nat.add_assoc]
    rw [again, insertAtIndex, length_eq, take_left, drop_left]
    simp [inserted]

end

variable {lzf : Lzf}

section

variable {ql : Quicklist} {entry : QuicklistEntry} {front : List Cell} {n : Nat} {before : List Bytes} {v : Bytes}
  {rest : List Bytes} {back : List Cell}

theorem Located.bytes (located : Located lzf ql entry front n before v rest back) : entryBytes entry = v := by
  rw [entryBytes, located.value, Option.map_some, Option.getD_some, toBytes_entryValue]

theorem Good.clear (good : Good lzf ql (front ++ (n, before ++ v :: rest) :: back)) (unexposed : ql.exposed = false)
    (fits : splitFits ql n = true) : Clear 3 (Inner 2 2 front back) ql (front ++ (n, before ++ v :: rest) :: back) := by
  simp only [splitFits, good.chainIds, good.idxOf, length_ids, length_append, length_cons, Bool.or_eq_true, all_eq_true,
    Bool.not_eq_true', decide_eq_true_eq] at fits
  refine ⟨unexposed, fits.imp_right fun ⟨many, more, long⟩ => ⟨⟨many, by omega⟩, by simpa using long, fun m is_end => ?_⟩⟩
  obtain ⟨node, found, _, unset⟩ := (good.ends unexposed).outer m is_end
  simpa [flagged, found] using unset

theorem insertEntry_ok {value : Bytes} (after : Bool)
    (located : Located lzf ql entry front n before v rest back)
    (small : Bounded (2 ^ 30) (front ++ (n, before ++ v :: rest) :: back)) (short : widest [value] < 2 ^ 30)
    (count : ql.count = (contents (front ++ (n, before ++ v :: rest) :: back)).length) (few : ql.count < 2 ^ 63)
    (offset : entry.offset = before.length ∨ entry.offset < 0) (fits : insertFits ql (some entry) value after = true) :
    ∃ ql', insertEntry lzf ql (some entry) value after = .ok (ql', .flag true) ∧
      Models lzf ql' (insertAtIndex (contents (front ++ (n, before ++ v :: rest) :: back))
        ((contents front).length + before.length) value after) ∧ (ql.exposed = false → ql'.exposed = false) := by
  obtain ⟨node, found, _⟩ := located.good.found
  have room_or : _quicklistNodeAllowInsert node ql.fill value.length = true ∨
      0 ≤ entry.offset ∧ ((after = false ∧ entry.offset = 0 ∧ front ≠ []) ∨ splitFits ql n = true) := by
    have prev : (ql.prev n).isSome = true ↔ front ≠ [] := by simp [located.good.next.2, ids]
    obtain ⟨entry_node, zi, at_value, at_offset⟩ := entry
    obtain rfl : entry_node = some n := located.node
    simpa only [insertFits, found, prev, Bool.or_eq_true, Bool.and_eq_true, decide_eq_true_eq, Bool.not_eq_true', and_assoc] using fits
  obtain ⟨ql', cells', ran, good', contents', count', unexposed'⟩ := quicklistInsert_ok before after
    located small short found (room_or.symm.imp_left fun forward => offset.resolve_right (not_lt.mpr forward.1))
  rw [insertAtIndex_entry]
  refine ⟨ql', ?_, ⟨cells', good', contents', ?_⟩, fun unexposed => unexposed' unexposed fun full =>
    (room_or.resolve_left (by simp [full])).2.imp_right (located.good.clear unexposed)⟩
  · simp only [insertEntry, ran, ok_bind]
    rfl
  · rw [count', add64_of_lt (by omega), count, contents_entry]
    cases after <;> simp [inserted] <;> omega

end

theorem skip_ok (skip : Nat) (ql : Quicklist) (iter : QuicklistIter) (k : Nat) (good : Good lzf ql cells)
    (small : Bounded (2 ^ 32) cells) (standing : Standing ql iter cells k) (within : k ≤ (contents cells).length) :
    ∃ ql' iter' values, iterateLoop lzf (List.replicate skip false) ql iter = .ok (ql', iter', values) ∧ Good lzf ql' cells ∧
      Steady ql ql' ∧ iter'.direction = iter.direction ∧
      Standing ql' iter' cells (min (k + skip) (contents cells).length) := by
  induction skip generalizing ql iter k with
  | zero =>
    refine ⟨ql, iter, [], rfl, good, ⟨rfl, rfl, rfl, rfl⟩, rfl, ?_⟩
    rw [Nat.add_zero, Nat.min_eq_left within]
    exact standing
  | succ skip ih =>
    obtain ⟨ql₁, iter₁, entry, next, good₁, count₁, direction₁, result⟩ := quicklistNext_ok ql.len good small
      standing
    cases entry with
    | none =>
      obtain ⟨rfl, standing₁⟩ := result
      refine ⟨ql₁, iter₁, [], ?_, good₁, count₁, direction₁, ?_⟩
      · simp only [replicate_succ, iterateLoop, next, ok_bind]
        rfl
      · rw [Nat.min_eq_right (by omega)]
        exact standing₁
    | some entry =>
      obtain ⟨front, n, before, v, rest, back, rfl, rfl, located, returned⟩ := result
      have standing₁ := returned.standing located
      rw [direction₁] at standing₁
      have inside : passed front back before rest iter.direction + 1 ≤
          (contents (front ++ (n, before ++ v :: rest) :: back)).length := by
        rw [contents_entry]
        cases iter.direction <;> simp only [passed, length_append, length_cons] <;> omega
      obtain ⟨ql', iter', values, ran, good', count', direction', standing'⟩ := ih ql₁ iter₁ _ good₁ standing₁ inside
      refine ⟨ql', iter', entryBytes entry :: values, ?_, good', count₁.trans count', direction'.trans direction₁, ?_⟩
      · simp only [replicate_succ, iterateLoop, next, ok_bind, visit, ran]
        rfl
      · rw [Nat.add_assoc, Nat.add_comm 1 skip] at standing'
        exact standing'

theorem iterEntry_ok (direction : Where) (skip : Nat) (good : Good lzf ql cells)
    (small : Bounded (2 ^ 32) cells) :
    ∃ ql' entry, iterEntry lzf ql direction skip = .ok (ql', entry) ∧ Good lzf ql' cells ∧ Steady ql ql' ∧
      match entry with
      | none => position (contents cells).length (iterIndex direction skip) = none
      | some entry => ∃ front n before v rest back, cells = front ++ (n, before ++ v :: rest) :: back ∧
          position (contents cells).length (iterIndex direction skip) = some ((contents front).length + before.length) ∧
          Located lzf ql' entry front n before v rest back ∧ (entry.offset = before.length ∨ entry.offset < 0) := by
  obtain ⟨ql₁, iter₁, values, skips, good₁, count₁, direction₁, standing₁⟩ := skip_ok skip ql _ 0 good small
    (standing_start direction good) (Nat.zero_le _)
  rw [Nat.zero_add] at standing₁
  obtain ⟨ql', iter', entry, next, good', count', direction', result⟩ := quicklistNext_ok ql₁.len good₁
    small standing₁
  have direction_eq : iter₁.direction = direction := direction₁
  refine ⟨ql', entry, ?_, good', count₁.trans count', ?_⟩
  · simp only [iterEntry, skips, ok_bind, next]
    rfl
  cases entry with
  | none =>
    have all : (contents cells).length ≤ skip := by
      have := result.1
      omega
    cases direction with
    | head => rw [iterIndex, position, if_neg (by omega), if_neg (by omega)]
    | tail => rw [iterIndex, position, if_pos (by omega), if_neg (by omega)]
  | some entry =>
    obtain ⟨front, n, before, v, rest, back, rfl, at_k, located, returned⟩ := result
    rw [direction_eq] at at_k
    have inside : passed front back before rest direction < (contents (front ++ (n, before ++ v :: rest) :: back)).length := by
      rw [contents_entry]
      cases direction <;> simp only [passed, length_append, length_cons] <;> omega
    have skip_eq : skip = passed front back before rest direction := by omega
    refine ⟨front, n, before, v, rest, back, rfl, by rw [skip_eq]; exact iter_position front n before v rest back direction,
      located, ?_⟩
    rw [returned.same, returned.offset]
    cases iter'.direction with
    | head => exact .inl rfl
    | tail =>
      refine .inr ?_
      rw [offsetFrom]
      omega

def Trimmed (cells' cells : List Cell) : Prop :=
  List.SublistForall₂ (fun cell' cell => cell'.1 = cell.1 ∧ cell'.2.Sublist cell.2) cells' cells

theorem Trimmed.refl (cells : List Cell) : Trimmed cells cells := by
  induction cells with
  | nil => exact .nil
  | cons cell cells ih => exact .cons ⟨rfl, .refl _⟩ ih

theorem Trimmed.trans (cells₁ cells₂ cells₃ : List Cell) (first : Trimmed cells₁ cells₂) (second : Trimmed cells₂ cells₃) :
    Trimmed cells₁ cells₃ := by
  induction second generalizing cells₁ with
  | nil =>
    cases first
    exact .nil
  | cons same _ ih =>
    cases first with
    | nil => exact .nil
    | cons same' rest => exact .cons ⟨same'.1.trans same.1, same'.2.trans same.2⟩ (ih _ rest)
    | cons_right rest => exact .cons_right (ih _ rest)
  | cons_right _ ih => exact .cons_right (ih _ first)

theorem trimmed_cut (front back : List Cell) (n : Nat) {values' values : List Bytes} (sub : values'.Sublist values) :
    Trimmed (front ++ (cellOf n values' ++ back)) (front ++ (n, values) :: back) := by
  induction front with
  | nil =>
    unfold cellOf
    split
    · exact .cons_right (Trimmed.refl back)
    · exact .cons ⟨rfl, sub⟩ (Trimmed.refl back)
  | cons cell front ih => exact .cons ⟨rfl, .refl _⟩ ih

theorem iterateLoop_ok (script : List Bool) (ql : Quicklist) (iter : QuicklistIter) (cells : List Cell) (k : Nat)
    (good : Good lzf ql cells) (count : ql.count = (contents cells).length) (small : Bounded (2 ^ 32) cells)
    (standing : Standing ql iter cells k) :
    ∃ ql' iter' cells' k', iterateLoop lzf script ql iter =
        .ok (ql', iter', (specIterate iter.direction script k (contents cells)).2) ∧ Good lzf ql' cells' ∧
      contents cells' = (specIterate iter.direction script k (contents cells)).1 ∧ ql'.count = (contents cells').length ∧
      Standing ql' iter' cells' k' ∧ Trimmed cells' cells ∧
      (ql.exposed = false → iterateFits lzf script ql iter = true → ql'.exposed = false) := by
  induction script generalizing ql iter cells k with
  | nil => exact ⟨ql, iter, cells, k, rfl, good, rfl, count, standing, .refl cells, fun unexposed _ => unexposed⟩
  | cons delete script ih =>
    obtain ⟨ql₁, iter₁, entry, next, good₁, steady₁, direction₁, result⟩ := quicklistNext_ok ql.len good small
      standing
    cases entry with
    | none =>
      obtain ⟨rfl, standing₁⟩ := result
      have stop := iter_position_end (contents cells) iter.direction
      refine ⟨ql₁, iter₁, cells, _, ?_, good₁, ?_, steady₁.count.trans count, standing₁, .refl cells,
        fun unexposed _ => steady₁.exposed.trans unexposed⟩
      · simp only [iterateLoop, next, ok_bind, specIterate, stop]
        rfl
      · simp only [specIterate, stop]
    | some entry =>
      obtain ⟨front, n, before, v, rest, back, rfl, rfl, located, returned⟩ := result
      have at_entry := iter_position front n before v rest back iter.direction
      have value := located.bytes
      have found := contents_at front n before v rest back
      cases delete with
      | false =>
        have standing₁ := returned.standing located
        obtain ⟨ql', iter', cells', k', ran, good', contents', count', standing', trimmed, unexposed'⟩ := ih ql₁ iter₁ _ _ good₁
          (steady₁.count.trans count) small standing₁
        rw [direction₁] at ran contents'
        refine ⟨ql', iter', cells', k', ?_, good', ?_, count', standing', trimmed, fun unexposed hidden => ?_⟩
        · simp only [iterateLoop, next, ok_bind, visit, ran, specIterate, at_entry, found, Option.getD_some, value]
          rfl
        · simp only [specIterate, at_entry]
          exact contents'
        · simp only [iterateFits, next, Bool.not_false, Bool.true_or, Bool.true_and, visit] at hidden
          exact unexposed' (steady₁.exposed.trans unexposed) hidden
      | true =>
        obtain ⟨ql₂, iter₂, deleted, good₂, count₂, unexposed₂, direction₂, standing₂⟩ := quicklistDelEntry_ok located returned (small.node)
        have erased : contents (front ++ (cellOf n (before ++ rest) ++ back)) =
            (contents (front ++ (n, before ++ v :: rest) :: back)).eraseIdx ((contents front).length + before.length) := by
          rw [contents_entry, ← length_append, eraseIdx_append_of_length_le (le_refl _), Nat.sub_self]
          simp
        have count₃ : ql₂.count = (contents (front ++ (cellOf n (before ++ rest) ++ back))).length := by
          rw [count₂, steady₁.count, count, contents_entry, sub64_of_le _ _ (by simp; omega)]
          simp
          omega
        have less : (before ++ rest).Sublist (before ++ v :: rest) := (List.Sublist.refl before).append (sublist_cons_self v rest)
        have small₂ := small.cut less
        obtain ⟨ql', iter', cells', k', ran, good', contents', count', standing', trimmed, unexposed'⟩ := ih ql₂ iter₂ _ _ good₂
          count₃ small₂ standing₂
        rw [direction₂, direction₁, erased] at ran contents'
        refine ⟨ql', iter', cells', k', ?_, good', ?_, count', standing', trimmed.trans _ _ _ (trimmed_cut front back n less),
          fun unexposed hidden => ?_⟩
        · simp only [iterateLoop, next, ok_bind, visit, deleted, ran, specIterate, at_entry, found, Option.getD_some,
            value]
          rfl
        · simp only [specIterate, at_entry]
          exact contents'
        · simp only [iterateFits, next, Bool.not_true, Bool.false_or, located.node, Option.all_some, visit, deleted,
            Bool.and_eq_true] at hidden
          exact unexposed' (unexposed₂ (steady₁.exposed.trans unexposed) hidden.1) hidden.2

-- No node that quicklistPush, quicklistPopCustom or quicklistRotate takes for a ziplist is flagged or compressed.
structure Represents (lzf : Lzf) (ql : Quicklist) (values : List Bytes) : Prop where
  models : Models lzf ql values
  unexposed : ql.exposed = false

theorem step_ok (ql : Quicklist) (values : List Bytes) (op : Op) (represents : Represents lzf ql values)
    (safe : fits lzf ql op = true) :
    ∃ ql', step lzf ql op = .ok (ql', (specStep values op).2) ∧ Represents lzf ql' (specStep values op).1 := by
  obtain ⟨⟨cells, good, rfl, count⟩, unexposed⟩ := represents
  rw [fits, Bool.and_eq_true, Bool.and_eq_true, all_eq_true] at safe
  obtain ⟨⟨at_rest, written⟩, call⟩ := safe
  have few := calm_count at_rest
  have small := good.bounded at_rest
  have small' : Bounded (2 ^ 31) cells := small.mono (by decide)
  have short (v : Bytes) (inside : v ∈ op.written) : widest [v] < 2 ^ 30 :=
    short_of_length (of_decide_eq_true (written v inside))
  cases op with
  | push place v =>
    obtain ⟨ql', added, cells', ran, good', shape, count', unexposed', _⟩ := quicklistPush_ok place good unexposed small'
      (short v mem_cons_self)
    have contents' := shape.contents
    refine ⟨ql', ?_, ⟨cells', good', contents', ?_⟩, unexposed'⟩
    · simp only [step, ran, ok_bind]
      rfl
    · rw [count', add64_of_lt (by omega), count]
      exact (length_pushed v (contents cells) place).symm
  | pop place =>
    have pops := quicklistPopCustom_ok place good unexposed count small'
    simp only [specStep]
    cases front : popped (contents cells) place with
    | none =>
      rw [front] at pops
      refine ⟨ql, ?_, ⟨cells, good, rfl, count⟩, unexposed⟩
      simp only [step, pops, ok_bind]
      rfl
    | some taken =>
      rw [front] at pops
      obtain ⟨ql', ran, models', unexposed'⟩ := pops
      refine ⟨ql', ?_, models', unexposed' call⟩
      simp only [step, ran, ok_bind, Option.map_some, toBytes_entryValue]
      rfl
  | rotate =>
    simp only [callFits, Bool.or_eq_true, decide_eq_true_eq, Bool.and_eq_true, Bool.not_eq_true'] at call
    have several (many : 1 < ql.count) := call.resolve_left (not_le.mpr many)
    obtain ⟨ql', ran, models', unexposed'⟩ := quicklistRotate_ok good unexposed count small' small.entries (by omega)
      fun many => (several many).1
    refine ⟨ql', ?_, models', unexposed' fun many => (several many).2⟩
    simp only [step, ran, ok_bind]
    rfl
  | index idx =>
    cases at_entry : position (contents cells).length idx with
    | none =>
      refine ⟨ql, ?_, ⟨cells, good, rfl, count⟩, unexposed⟩
      simp only [step, quicklistIndex_missing count at_entry, ok_bind, specStep, at_entry]
      rfl
    | some k =>
      obtain ⟨ql', entry, front, n, before, v, rest, back, index, rfl, rfl, located, _, steady⟩ :=
        quicklistIndex_found good count ((small.mono (by decide)).range k 0) at_entry
      refine ⟨ql', ?_, ⟨_, located.good, rfl, steady.count.trans count⟩, steady.exposed.trans unexposed⟩
      simp only [step, index, ok_bind, specStep, at_entry, Option.bind_some, Option.map_some, contents_at,
        located.bytes]
      rfl
  | replace idx v =>
    have replaces := quicklistReplaceAtIndex_ok idx good count small' (short v mem_cons_self)
    simp only [specStep]
    cases at_entry : position (contents cells).length idx with
    | none =>
      rw [at_entry] at replaces
      refine ⟨ql, ?_, ⟨cells, good, rfl, count⟩, unexposed⟩
      simp only [step, replaces, ok_bind]
      rfl
    | some k =>
      rw [at_entry] at replaces
      obtain ⟨ql', ran, models', exposed'⟩ := replaces
      refine ⟨ql', ?_, models', exposed'.trans unexposed⟩
      simp only [step, ran, ok_bind]
      rfl
  | insert idx v after =>
    simp only [specStep]
    cases at_entry : position (contents cells).length idx with
    | none =>
      refine ⟨ql, ?_, ⟨cells, good, rfl, count⟩, unexposed⟩
      simp only [step, quicklistIndex_missing count at_entry, ok_bind, specInsert, insertEntry]
    | some k =>
      obtain ⟨ql₁, entry, front, n, before, w, rest, back, index, rfl, rfl, located, offset, steady₁⟩ :=
        quicklistIndex_found good count ((small.mono (by decide)).range k 0) at_entry
      simp only [callFits, index] at call
      obtain ⟨ql', ran, models', unexposed'⟩ := insertEntry_ok after located small
        (short v mem_cons_self) (steady₁.count.trans count) (by rw [steady₁.count]; omega)
        (by rw [offset, indexOffset]; split <;> [exact .inl rfl; exact .inr (by omega)]) call
      refine ⟨ql', ?_, models', unexposed' (steady₁.exposed.trans unexposed)⟩
      simp only [step, index, ok_bind, ran, specInsert]
  | insertIter direction skip v after =>
    obtain ⟨ql₁, entry, found, good₁, steady₁, result⟩ := iterEntry_ok direction skip good
      (small.mono (by decide))
    simp only [callFits, found] at call
    cases entry with
    | none =>
      simp only [specStep, result, specInsert]
      refine ⟨ql₁, ?_, ⟨cells, good₁, rfl, steady₁.count.trans count⟩, steady₁.exposed.trans unexposed⟩
      simp only [step, found, ok_bind, insertEntry]
    | some entry =>
      obtain ⟨front, n, before, w, rest, back, rfl, at_entry, located, offset⟩ := result
      obtain ⟨ql', ran, models', unexposed'⟩ := insertEntry_ok after located small
        (short v mem_cons_self) (steady₁.count.trans count) (by rw [steady₁.count]; omega) offset call
      simp only [specStep, at_entry, specInsert]
      refine ⟨ql', ?_, models', unexposed' (steady₁.exposed.trans unexposed)⟩
      simp only [step, found, ok_bind, ran]
  | delRange start amount =>
    simp only [callFits, Bool.and_eq_true, Bool.not_eq_true'] at call
    obtain ⟨ql', ran, models', unexposed'⟩ := quicklistDelRange_ok good count
      (fun k _ => (small.mono (by decide)).range k _) call.1
    refine ⟨ql', ?_, models', unexposed' unexposed call.2⟩
    simp only [step, ran, ok_bind]
    rfl
  | iterate direction script =>
    obtain ⟨ql₁, iter₁, cells', k', ran, good₁, contents', count₁, standing, _, unexposed₁⟩ := iterateLoop_ok script ql
      (quicklistGetIterator ql direction) cells 0 good count (small.mono (by decide)) (standing_start direction good)
    obtain ⟨ql', released, good', steady⟩ := quicklistReleaseIterator_ok good₁ standing
    refine ⟨ql', ?_, ⟨cells', good', contents', by rw [steady.count, count₁, contents']; rfl⟩,
      steady.exposed.trans (unexposed₁ unexposed call)⟩
    simp only [step, ran, ok_bind, released]
    rfl
  | dup =>
    obtain ⟨copy, ran, models', unexposed'⟩ := quicklistDup_ok good unexposed (by omega)
    refine ⟨copy, ?_, models', unexposed'⟩
    simp only [step, ran, ok_bind]
    rfl

theorem models_new (lzf : Lzf) (fill compress : Int) : Models lzf (quicklistNew fill compress) [] :=
  ⟨[], ⟨quicklistNew_chain fill compress, rfl, nofun, (quicklistNew_bounds fill compress).1, (quicklistNew_bounds fill compress).2,
    fun _ => ⟨by rintro n (head | tail) <;> contradiction, fun _ => nofun⟩⟩, rfl, rfl⟩

theorem run_ok (fill compress : Int) (ops : List Op)
    (guarded : Guarded (step lzf) (fits lzf) (fun _ => true) ops (quicklistNew fill compress) = true) :
    ∃ ql, runOut (step lzf) ops (quicklistNew fill compress) = .ok (ql, (specOut specStep ops []).2) ∧
      Represents lzf ql (specOut specStep ops []).1 := by
  obtain ⟨ql, ran, represents, _⟩ := runOut_guarded (step lzf) specStep (Represents lzf) (fits lzf) (fun _ => true)
    (fun ql values op represents _ => step_ok ql values op represents) ops _ [] ⟨models_new lzf fill compress, rfl⟩ rfl guarded
  exact ⟨ql, ran, represents⟩

structure StoredNode where
  id : Nat
  node : QuicklistNode
  zl : Bytes
  values : List Bytes

structure NodeCorrect (lzf : Lzf) (ql : Quicklist) (stored : StoredNode) : Prop where
  found : ql.node stored.id = some stored.node
  raw : stored.node.encoding = .raw → stored.node.zl = stored.zl
  packed : stored.node.encoding = .lzf → lzf.compress stored.zl = some stored.node.zl
  holds : Holds stored.zl stored.values
  count : stored.node.count = stored.values.length
  sz : stored.node.sz = stored.zl.length
  present : stored.values ≠ []

theorem Good.storedNodes (good : Good lzf ql cells) :
    ∃ nodes : List StoredNode, (∀ stored ∈ nodes, NodeCorrect lzf ql stored) ∧ nodes.map StoredNode.id = ids cells ∧
      nodes.flatMap StoredNode.values = contents cells := by
  have all := good.nodes
  clear good
  induction cells with
  | nil => exact ⟨[], nofun, rfl, rfl⟩
  | cons cell cells ih =>
    obtain ⟨nodes, correct, same_ids, same_values⟩ := ih fun other inside => all other (mem_cons_of_mem cell inside)
    obtain ⟨node, found, stored⟩ := all cell mem_cons_self
    obtain ⟨zl, plain, holds⟩ := stored.zl
    refine ⟨⟨cell.1, node, zl, cell.2⟩ :: nodes, ?_, ?_, ?_⟩
    · intro other inside
      rcases mem_cons.mp inside with rfl | inside
      · exact ⟨found, plain.raw, fun packed => (plain.packed packed).1, holds, stored.count, plain.size, stored.present⟩
      · exact correct other inside
    · rw [map_cons, same_ids, ids_cons]
    · rw [flatMap_cons, same_values, contents_cons]

theorem Models.storedNodes {values : List Bytes} (models : Models lzf ql values) :
    ∃ nodes : List StoredNode, nodes.flatMap StoredNode.values = values ∧ ql.count = values.length ∧
      (∀ stored ∈ nodes, NodeCorrect lzf ql stored) ∧ ql.len = nodes.length ∧ Chain ql (nodes.map StoredNode.id) := by
  obtain ⟨cells, good, rfl, count⟩ := models
  obtain ⟨nodes, correct, same_ids, same_values⟩ := good.storedNodes
  refine ⟨nodes, same_values, count, correct, ?_, same_ids ▸ good.chain⟩
  rw [good.len, ← length_ids, ← same_ids, length_map]

variable (lzf) in
theorem quicklist_refines_list (fill compress : Int) (ops : List Op)
    (guarded : Guarded (step lzf) (fits lzf) (fun _ => true) ops (quicklistNew fill compress) = true) :
    ∃ ql, ∃ nodes : List StoredNode,
      runOut (step lzf) ops (quicklistNew fill compress) = .ok (ql, (specOut specStep ops []).2) ∧
      nodes.flatMap StoredNode.values = (specOut specStep ops []).1 ∧ ql.count = (specOut specStep ops []).1.length ∧
      (∀ stored ∈ nodes, NodeCorrect lzf ql stored) ∧ ql.len = nodes.length ∧ Chain ql (nodes.map StoredNode.id) := by
  obtain ⟨ql, ran, represents⟩ := run_ok fill compress ops guarded
  obtain ⟨nodes, stored⟩ := represents.models.storedNodes
  exact ⟨ql, nodes, ran, stored⟩

def plainLzf : Lzf where
  compress := fun _ => none
  decompress := fun _ _ => none
  lossless := nofun

-- The first rotation is of one node with the numbers 1 and 2, the second one of a list of several nodes.
def sampleOps : List Op :=
  [.push .tail [49], .push .tail [50], .rotate, .push .tail [97], .push .tail [98], .push .head [99], .insert 1 [100] true,
    .insertIter .head 2 [101] false, .rotate, .replace (-1) [102], .pop .tail, .dup]

theorem quicklist_refines_list_sample :
    Guarded (step plainLzf) (fits plainLzf) (fun _ => true) sampleOps (quicklistNew 3 0) = true ∧
      (∃ ql, ∃ nodes : List StoredNode,
        runOut (step plainLzf) sampleOps (quicklistNew 3 0) = .ok (ql, (specOut specStep sampleOps []).2) ∧
        nodes.flatMap StoredNode.values = (specOut specStep sampleOps []).1 ∧ ql.count = (specOut specStep sampleOps []).1.length ∧
        (∀ stored ∈ nodes, NodeCorrect plainLzf ql stored) ∧ ql.len = nodes.length ∧ Chain ql (nodes.map StoredNode.id)) := by
  have guarded : Guarded (step plainLzf) (fits plainLzf) (fun _ => true) sampleOps (quicklistNew 3 0) = true := by decide +kernel
  exact ⟨guarded, quicklist_refines_list plainLzf 3 0 sampleOps guarded⟩

def replies (lzf : Lzf) (fill compress : Int) (ops : List Op) : Option (List Reply) :=
  match runOut (step lzf) ops (quicklistNew fill compress) with
  | .ok (_, outs) => some outs
  | .error _ => none

def nodeCounts (lzf : Lzf) (fill compress : Int) (ops : List Op) : List (Option Nat) :=
  match runOut (step lzf) ops (quicklistNew fill compress) with
  | .ok (ql, _) => (chainIds ql).map fun n => (ql.node n).map QuicklistNode.count
  | .error _ => []

def faultOf (lzf : Lzf) (fill compress : Int) (ops : List Op) : Option Fault :=
  match runOut (step lzf) ops (quicklistNew fill compress) with
  | .ok _ => none
  | .error fault => some fault

-- An entry after the last one of a full node, found by its negative index, goes before it. With one node, quicklistRotate
-- pushes a value that it reads from the ziplist while the push is moving its bytes.
theorem insert_at_negative_index_misplaced :
    faultOf plainLzf 3 0 [.push .tail [97], .push .tail [98], .rotate] = some .dangling ∧
      replies plainLzf 1 0 [.push .tail [97], .insert (-1) [99] true, .iterate .head [false, false, false]] =
        some [.unit, .flag true, .values [[99], [97]]] ∧
      (specOut specStep [.push .tail [97], .insert (-1) [99] true, .iterate .head [false, false, false]] []).2 =
        [.unit, .flag true, .values [[97], [99]]] ∧
      nodeCounts plainLzf 1 0 [.push .tail [97], .insert (-1) [99] true] = [some 0, some 2] := by
  refine ⟨?_, ?_, ?_, ?_⟩ <;> decide +kernel

theorem Represents.ends_raw {values : List Bytes} (represents : Represents lzf ql values) (n : Nat)
    (is_end : ql.head = some n ∨ ql.tail = some n) : Raw ql n := by
  obtain ⟨⟨cells, good, _⟩, unexposed⟩ := represents
  obtain ⟨node, found, raw, _⟩ := (good.ends unexposed).outer n (by rwa [good.chain.head, good.chain.tail] at is_end)
  exact ⟨node, found, raw⟩

theorem Represents.ends_usable {values : List Bytes} (represents : Represents lzf ql values) (at_rest : calm ql = true) :
    (∀ place v, v.length ≤ 2 ^ 29 → ∃ next, quicklistPush lzf ql v place = .ok next) ∧
      (∀ place, ∃ next, quicklistPopCustom lzf ql place = .ok next) ∧
      ((1 < ql.count → rotateDangles ql = false) → ∃ next, quicklistRotate lzf ql = .ok next) := by
  obtain ⟨⟨cells, good, rfl, count⟩, unexposed⟩ := represents
  have few := calm_count at_rest
  have small : Bounded (2 ^ 31) cells := (good.bounded at_rest).mono (by decide)
  refine ⟨fun place v short => ?_, fun place => ?_, fun still => ?_⟩
  · obtain ⟨ql', added, _, ran, _⟩ := quicklistPush_ok place good unexposed small (short_of_length short)
    exact ⟨_, ran⟩
  · have pops := quicklistPopCustom_ok place good unexposed count small
    split at pops
    · exact ⟨_, pops⟩
    · obtain ⟨ql', ran, _⟩ := pops
      exact ⟨_, ran⟩
  · obtain ⟨ql', ran, _⟩ := quicklistRotate_ok good unexposed count small (good.bounded at_rest).entries (by omega) still
    exact ⟨_, ran⟩

variable (lzf) in
theorem quicklist_ends_raw (fill compress : Int) (ops : List Op)
    (guarded : Guarded (step lzf) (fits lzf) (fun _ => true) ops (quicklistNew fill compress) = true) :
    ∃ ql replies, runOut (step lzf) ops (quicklistNew fill compress) = .ok (ql, replies) ∧
      (∀ n, ql.head = some n ∨ ql.tail = some n → ∃ node, ql.node n = some node ∧ node.encoding = .raw) ∧
      (calm ql = true → (∀ place v, v.length ≤ 2 ^ 29 → ∃ next, quicklistPush lzf ql v place = .ok next) ∧
        (∀ place, ∃ next, quicklistPopCustom lzf ql place = .ok next) ∧
        ((1 < ql.count → rotateDangles ql = false) → ∃ next, quicklistRotate lzf ql = .ok next)) := by
  obtain ⟨ql, ran, represents⟩ := run_ok fill compress ops guarded
  exact ⟨ql, _, ran, represents.ends_raw, represents.ends_usable⟩

-- Forty equal bytes, the ziplist that holds only them, and a compression that knows that ziplist.
def run40 : Bytes := List.replicate 40 97

def zip40 : Bytes := (ziplistPush ziplistNew run40 .tail).getD []

def sampleLzf : Lzf where
  compress := fun data => if data = zip40 then some [1] else none
  decompress := fun packed len => if packed = [1] ∧ len = zip40.length then some zip40 else none
  lossless := by
    intro data packed compressed
    split at compressed
    next same =>
      cases compressed
      rw [same, if_pos ⟨rfl, rfl⟩]
    next => cases compressed

-- The insertion splits a node that the lookup has flagged.
def compressedOps : List Op := List.replicate 8 (.push .tail run40) ++
  [.index 3, .insert 3 [98] true, .delRange 2 3, .iterate .tail [false, true, false], .pop .head, .rotate]

theorem quicklist_ends_raw_sample :
    Guarded (step sampleLzf) (fits sampleLzf) (fun _ => true) compressedOps (quicklistNew 1 1) = true ∧
      ∃ ql replies, runOut (step sampleLzf) compressedOps (quicklistNew 1 1) = .ok (ql, replies) ∧
        (∀ n, ql.head = some n ∨ ql.tail = some n → ∃ node, ql.node n = some node ∧ node.encoding = .raw) ∧
        (calm ql = true → (∀ place v, v.length ≤ 2 ^ 29 → ∃ next, quicklistPush sampleLzf ql v place = .ok next) ∧
          (∀ place, ∃ next, quicklistPopCustom sampleLzf ql place = .ok next) ∧
          ((1 < ql.count → rotateDangles ql = false) → ∃ next, quicklistRotate sampleLzf ql = .ok next)) := by
  have guarded : Guarded (step sampleLzf) (fits sampleLzf) (fun _ => true) compressedOps (quicklistNew 1 1) = true := by decide +kernel
  exact ⟨guarded, quicklist_ends_raw sampleLzf 1 1 compressedOps guarded⟩

def headEncoding (lzf : Lzf) (fill compress : Int) (ops : List Op) : Option Encoding :=
  match runOut (step lzf) ops (quicklistNew fill compress) with
  | .ok (ql, _) => (ql.head.bind ql.node).map QuicklistNode.encoding
  | .error _ => none

-- The second node is decompressed for a lookup, becomes the head with its flag set and is compressed again.
theorem flagged_head_compressed :
    headEncoding sampleLzf 1 1 [.push .tail run40, .push .tail run40, .push .tail run40, .index 1, .pop .head, .replace 0 run40] =
        some .lzf ∧
      faultOf sampleLzf 1 1 [.push .tail run40, .push .tail run40, .push .tail run40, .index 1, .pop .head, .replace 0 run40,
        .pop .head] = some .compressed := by
  constructor <;> decide +kernel

end RedisCore.QuickList
