import RedisCore.QuickList.Entries

set_option autoImplicit false

namespace RedisCore.QuickList

open Ziplist List

variable {ql : Quicklist} {cells front : List Cell} {v zl : Bytes} {values before : List Bytes} {n : Nat}

theorem sub64_of_le (a b : Nat) (le : b ≤ a) : sub64 a b = a - b := by
  rw [sub64, if_pos le]

theorem add64_of_lt {a b : Nat} (lt : a + b < 2 ^ 64) : add64 a b = a + b := by
  rw [add64, if_pos lt]

theorem sub16_of_le {a b : Nat} (le : b ≤ a) : sub16 a b = a - b := by
  rw [sub16, if_pos le]

def cellOf (n : Nat) (values : List Bytes) : List Cell := if values = [] then [] else [(n, values)]

@[simp] theorem contents_cellOf (n : Nat) (values : List Bytes) : contents (cellOf n values) = values := by
  unfold cellOf
  split
  next empty => rw [empty]; rfl
  next => simp

variable {lzf : Lzf}

-- The last entry of a node can go without a flagged node at an end.
def leavesHidden (ql : Quicklist) (n : Nat) : Bool :=
  (ql.node n).all (fun node => node.count != 1) || hides ql ((chainIds ql).erase n)

theorem Good.chainIds {ql : Quicklist} {cells : List Cell} (good : Good lzf ql cells) : chainIds ql = ids cells :=
  good.chain.chainIds (by rw [good.len, length_ids])

section

variable {ql : Quicklist} {front back : List Cell} {n : Nat} {values : List Bytes}
  (good : Good lzf ql (front ++ (n, values) :: back))

include good

theorem Good.notMem_front : n ∉ ids front := by
  intro inside
  have distinct := good.chain.distinct
  rw [ids_append, ids_cons] at distinct
  exact (nodup_append.mp distinct).2.2 n inside n mem_cons_self rfl

theorem Good.erase : (QuickList.chainIds ql).erase n = ids (front ++ back) := by
  rw [good.chainIds, ids_append, ids_cons, erase_append_right _ good.notMem_front, erase_cons_head, ids_append]

theorem Good.idxOf : (ids (front ++ (n, values) :: back)).idxOf n = front.length := by
  rw [ids_append, ids_cons, idxOf_append_of_notMem good.notMem_front, idxOf_cons_self, length_ids, Nat.add_zero]

end

theorem Good.leavesHidden {ql : Quicklist} {front back : List Cell} {n : Nat} {before : List Bytes} {v : Bytes} {rest : List Bytes}
    (good : Good lzf ql (front ++ (n, before ++ v :: rest) :: back)) (hidden : leavesHidden ql n = true) (empty : before ++ rest = []) :
    hides ql (ids (front ++ back)) = true := by
  obtain ⟨node, found, stored⟩ := good.found
  have one : node.count = 1 := by
    obtain ⟨rfl, rfl⟩ := append_eq_nil_iff.mp empty
    exact stored.count
  rw [QuickList.leavesHidden, good.erase, found, Option.all_some, one] at hidden
  exact hidden

theorem delIndex_ok (ql : Quicklist) (front back : List Cell) (n p : Nat) (before : List Bytes) (v : Bytes)
    (rest : List Bytes) (zl : Bytes) (good : Good lzf ql (front ++ (n, before ++ v :: rest) :: back))
    (opened : Opened ql n zl) (cursor : Cursor zl before (v :: rest) p) (small : widest (before ++ v :: rest) < 2 ^ 32) :
    ∃ ql', quicklistDelIndex lzf ql n p = .ok (ql', decide (before ++ rest = [])) ∧
      Good lzf ql' (front ++ (cellOf n (before ++ rest) ++ back)) ∧ ql'.count = sub64 ql.count 1 ∧
      (ql.exposed = false → (before ++ rest = [] → hides ql (ids (front ++ back)) = true) → ql'.exposed = false) := by
  obtain ⟨node, found, raw, rfl, size, count, holds, present, few⟩ := good.holds opened
  obtain ⟨zl', deleted, cursor'⟩ := cursor.delete small
  have holds' := cursor'.holds
  have small' : widest (before ++ rest) < 2 ^ 32 := lt_of_le_of_lt (widest_sublist _ _
    ((List.Sublist.refl before).append (sublist_cons_self v rest))) small
  have left : sub16 node.count 1 = (before ++ rest).length := by
    rw [sub16_of_le (by rw [count]; simp; omega), count]
    simp only [length_append, length_cons]
    omega
  by_cases empty : before ++ rest = []
  · obtain ⟨ql', ran, good', count', removed⟩ := good.delNode
      { node with zl := zl', count := 0 } ql.count
    refine ⟨dropCount ql' 1, ?_, ?_, ?_, fun unexposed hidden => removed.hidden unexposed (hidden empty)⟩
    · have gone : sub16 node.count 1 = 0 := by rw [left, empty]; rfl
      have ran' : __quicklistDelNode lzf (ql.set n { node with zl := zl', count := 0 }) n = .ok ql' := ran
      simp [quicklistDelIndex, get_ok found, rawZl_ok raw, deleted, gone, ran', empty, ofZiplist]
    · rw [cellOf, if_pos empty]
      exact good'.recount _
    · change sub64 ql'.count 1 = _
      rw [count', sub64_of_le _ 0 (Nat.zero_le _)]
      rfl
  · have kept : ¬(before ++ rest).length = 0 := by rwa [length_eq_zero_iff]
    have few' : (before ++ rest).length < 65536 := by
      simp only [length_append, length_cons] at few ⊢
      omega
    have stored := good.store found raw holds' empty few'
    refine ⟨dropCount (ql.set n { node with zl := zl', sz := zl'.length, count := (before ++ rest).length }) 1, ?_, ?_, rfl,
      fun unexposed _ => unexposed⟩
    · simp only [quicklistDelIndex, get_ok found, rawZl_ok raw, deleted, ofZiplist, ok_bind, pure_ok, left, storeZl_ok node holds' small' few', decide_eq_false empty]
      rw [if_neg kept]
    · rw [cellOf, if_neg empty, singleton_append]
      exact stored.recount _

section

variable {ql : Quicklist} {cells : List Cell} (n : Nat) (values : List Bytes)

theorem Good.end_opened (good : Good lzf ql cells) (unexposed : ql.exposed = false) (is_end : IsEnd (ids cells) n) :
    ∃ zl, Opened ql n zl := by
  obtain ⟨node, found, raw, _⟩ := (good.ends unexposed).outer n is_end
  exact ⟨node.zl, node, found, raw, rfl⟩

theorem Good.same_bytes {ql' : Quicklist} (good : Good lzf ql cells) (opened : Opened ql n zl)
    (inside : n ∈ ids cells) (carries : Carries lzf ql ql' n) (quiet : Quiet ql' n) : Opened ql' n zl := by
  obtain ⟨node, found, raw, rfl⟩ := opened
  obtain ⟨other, zl, again, plain⟩ := good.sound n inside
  rw [found] at again
  cases again
  obtain ⟨node', found', recoded⟩ := carries node found
  obtain ⟨_, again, raw', _⟩ := quiet
  rw [found'] at again
  cases again
  exact ⟨node', found', raw', ((recoded.plain zl plain).raw raw').trans (plain.raw raw).symm⟩

end

theorem singleNode_ok (lzf : Lzf) (place : Where) (small : widest [v] < 2 ^ 32) :
    ∃ node, singleNode v place = .ok node ∧ NodeHolds lzf node [v] ∧ Settled node := by
  obtain ⟨zl, pushed, holds⟩ : ∃ zl, ziplistPush ziplistNew v place = some zl ∧ Holds zl [v] := by
    cases place with
    | head => exact holds_new.pushHead small
    | tail => exact holds_new.push [] v small
  refine ⟨{ quicklistCreateNode with zl := zl, sz := zl.length, count := 1 }, ?_, ?_, rfl, rfl⟩
  · have stored := storeZl_ok quicklistCreateNode holds small (by simp)
    rw [length_singleton] at stored
    simp [singleNode, pushed, ofZiplist, stored]
  · exact nodeHolds_raw rfl rfl rfl rfl holds (cons_ne_nil _ _) (by simp)

def pushed (v : Bytes) (values : List Bytes) : Where → List Bytes
  | .head => v :: values
  | .tail => values ++ [v]

section

variable (v : Bytes) (values : List Bytes)

theorem length_pushed (place : Where) :
    (pushed v values place).length = values.length + 1 := by
  cases place <;> simp [pushed]

theorem widest_cons_single : widest (v :: values) + 11 = widest [v] + widest values :=
  widest_append [v] values

theorem pushed_ne_nil (place : Where) : pushed v values place ≠ [] := by
  cases place <;> simp [pushed]

theorem widest_pushed (place : Where) :
    widest (pushed v values place) = widest (v :: values) := by
  cases place with
  | head => rfl
  | tail =>
    have split := widest_append values [v]
    rw [widest_cons] at split
    rw [pushed, widest_cons]
    simp only [widest, map_nil, sum_nil] at split ⊢
    omega

end

theorem ziplistPush_ok (place : Where) (holds : Holds zl values)
    (small : widest (v :: values) < 2 ^ 32) :
    ∃ zl', ziplistPush zl v place = some zl' ∧ Holds zl' (pushed v values place) := by
  cases place with
  | head => exact holds.pushHead small
  | tail => exact holds.push values v (by rwa [← widest_pushed v values .tail] at small)

theorem pushInside_ok {back : List Cell} (v : Bytes)
    (place : Where) (good : Good lzf ql (front ++ (n, values) :: back)) (opened : Opened ql n zl)
    (small : widest (v :: values) < 2 ^ 32) (few : values.length + 1 < 65536) :
    ∃ node, pushInside ql n v place = .ok (ql.set n node) ∧
      Good lzf (ql.set n node) (front ++ (n, pushed v values place) :: back) := by
  obtain ⟨node, found, raw, rfl, size, count, holds, _, _⟩ := good.holds opened
  obtain ⟨zl', ran, holds'⟩ := ziplistPush_ok place holds small
  have few' : (pushed v values place).length < 65536 := by rw [length_pushed]; exact few
  have stored := storeZl_ok node holds' (by rw [widest_pushed]; exact small) few'
  refine ⟨_, ?_, good.store found raw holds' (pushed_ne_nil v values place) few'⟩
  rw [length_pushed, ← count] at stored
  simp only [pushInside, get_ok found, rawZl_ok raw, ran, ofZiplist, ok_bind, stored, pure,
    Except.pure]
  rw [length_pushed, ← count]

theorem insertSingle_ok (ql : Quicklist) (front back : List Cell) (old : Option Nat) (v : Bytes) (place : Where)
    (after : Bool) (good : Good lzf ql (front ++ back)) (small : widest [v] < 2 ^ 32)
    (beside : Beside (ids front) (ids back) old after) :
    ∃ ql', insertSingle lzf ql old v place after = .ok ql' ∧ Good lzf ql' (front ++ (ql.fresh, [v]) :: back) ∧
      Steady ql ql' ∧ ∀ m ∈ ids (front ++ back), Carries lzf ql ql' m := by
  obtain ⟨node, created, holds, settled⟩ := singleNode_ok lzf place small
  obtain ⟨ql', ran, good', steady, carries, _⟩ := good.insertNode old after holds settled beside
  exact ⟨ql', by simp [insertSingle, created, ran], good', steady, carries⟩

theorem allowsInsert_ok {back : List Cell} (v : Bytes)
    (good : Good lzf ql (front ++ (n, values) :: back)) (small : widest (v :: values) < 2 ^ 32 - 64) :
    ∃ room, allowsInsert ql (some n) v.length = .ok room ∧ (room = true → values.length + 1 < 65536) := by
  obtain ⟨node, found, stored⟩ := good.found
  obtain ⟨zl, plain, holds⟩ := stored.zl
  refine ⟨_, by simp only [allowsInsert, get_ok found, ok_bind, pure_ok]; rfl, fun allowed => ?_⟩
  have long := holds.length_le zl values
  have entries := holds.entries_le zl values
  have body := length_le_body v
  rw [widest_cons] at small
  rw [← stored.count] at entries ⊢
  rw [← plain.size] at entries long
  exact allowInsert_few (by omega) entries good.fill allowed

inductive PushShape (v : Bytes) (fresh : Nat) : Where → List Cell → List Cell → Prop where
  | head (n : Nat) (values : List Bytes) (back : List Cell) :
    PushShape v fresh .head ((n, values) :: back) ((n, v :: values) :: back)
  | newHead (cells : List Cell) : PushShape v fresh .head cells ((fresh, [v]) :: cells)
  | tail (n : Nat) (values : List Bytes) (front : List Cell) :
    PushShape v fresh .tail (front ++ [(n, values)]) (front ++ [(n, values ++ [v])])
  | newTail (cells : List Cell) : PushShape v fresh .tail cells (cells ++ [(fresh, [v])])

theorem PushShape.contents {fresh : Nat} {place : Where} {cells' : List Cell}
    (shape : PushShape v fresh place cells cells') :
    QuickList.contents cells' = pushed v (QuickList.contents cells) place := by
  cases shape <;> simp [pushed]

theorem pushEnd_ok {ql : Quicklist} {front back : List Cell} {n : Nat} {values : List Bytes} {v : Bytes} (place : Where)
    (good : Good lzf ql (front ++ (n, values) :: back)) (unexposed : ql.exposed = false)
    (small : Bounded (2 ^ 31) (front ++ (n, values) :: back)) (short : widest [v] < 2 ^ 30)
    (is_end : IsEnd (ids (front ++ (n, values) :: back)) n) :
    ∃ room, allowsInsert ql (some n) v.length = .ok room ∧
      (room = true → ∃ node, pushInside ql n v place = .ok (ql.set n node) ∧
        Good lzf (ql.set n node) (front ++ (n, pushed v values place) :: back)) ∧ widest [v] < 2 ^ 32 := by
  have below := small.node
  have sum := widest_cons_single v values
  obtain ⟨room, tested, few⟩ := allowsInsert_ok v good (by omega)
  obtain ⟨zl, opened⟩ := good.end_opened n unexposed is_end
  refine ⟨room, tested, fun has_room => ?_, by omega⟩
  obtain ⟨node, ran, good'⟩ := pushInside_ok v place good opened
    (by omega) (few has_room)
  exact ⟨node, ran, good'⟩

def Untouched (lzf : Lzf) (ql ql' : Quicklist) (cells cells' : List Cell) : Prop :=
  ∀ n values, (n, values) ∈ cells → (n, values) ∈ cells' → Carries lzf ql ql' n

theorem untouched_set {ql : Quicklist} {front back : List Cell} {n : Nat} {values values' : List Bytes}
    (node : QuicklistNode) (changed : values' ≠ values) (good : Good lzf ql (front ++ (n, values) :: back)) :
    Untouched lzf ql (ql.set n node) (front ++ (n, values) :: back) (front ++ (n, values') :: back) := by
  intro m others inside inside' old at_m
  have apart : m ≠ n := by
    rintro rfl
    rcases (mem_middle).mp inside with same | elsewhere
    · rcases (mem_middle).mp inside' with same' | elsewhere
      · exact changed ((Prod.mk.inj same').2.symm.trans (Prod.mk.inj same).2)
      · exact good.apart elsewhere rfl
    · exact good.apart elsewhere rfl
  exact ⟨old, by simpa [Quicklist.set, apart] using at_m, Recoded.refl old⟩

theorem pushed_ne (v : Bytes) (values : List Bytes) (place : Where) : pushed v values place ≠ values := fun same => by
  have := congrArg List.length same
  rw [length_pushed] at this
  omega

theorem Good.last_cases (good : Good lzf ql cells) (place : Where) : cells = [] ∧ ql.last place = none ∨
    ∃ front n values back, cells = front ++ (n, values) :: back ∧ ql.last place = some n ∧ IsEnd (ids cells) n ∧
      match place with
      | .head => front = []
      | .tail => back = [] := by
  cases place with
  | head =>
    have head := good.chain.head
    cases cells with
    | nil => exact .inl ⟨rfl, head⟩
    | cons cell back => exact .inr ⟨[], cell.1, cell.2, back, rfl, head, .inl rfl, rfl⟩
  | tail =>
    have tail := good.chain.tail
    cases cells using List.reverseRecOn with
    | nil => exact .inl ⟨rfl, tail⟩
    | append_singleton front cell =>
      rw [ids_append, ids_cons, ids_nil, getLast?_concat] at tail
      exact .inr ⟨front, cell.1, cell.2, [], rfl, tail, .inr (by simp), rfl⟩

theorem pushEnd_false (place : Where) :
    pushEnd lzf ql false v place = insertSingle lzf ql (ql.last place) v place (decide (place = .tail)) := by
  cases place <;> rfl

theorem pushEnd_true {place : Where} (at_end : ql.last place = some n) : pushEnd lzf ql true v place = pushInside ql n v place := by
  cases place <;> simp only [Quicklist.last] at at_end <;> simp only [pushEnd, at_end]

theorem pushEnd_total (place : Where) (good : Good lzf ql cells) (unexposed : ql.exposed = false) (small : Bounded (2 ^ 31) cells)
    (short : widest [v] < 2 ^ 30) : ∃ room ql' cells', allowsInsert ql (ql.last place) v.length = .ok room ∧
      pushEnd lzf ql room v place = .ok ql' ∧ Good lzf ql' cells' ∧ PushShape v ql.fresh place cells cells' ∧ Steady ql ql' ∧
      Untouched lzf ql ql' cells cells' ∧ cells'.length = cells.length + if room then 0 else 1 := by
  rcases good.last_cases place with ⟨rfl, no_end⟩ | ⟨front, n, values, back, rfl, at_end, is_end, side⟩
  · obtain ⟨ql', ran, good', steady, _⟩ := insertSingle_ok ql [] [] none v place (decide (place = .tail)) good
      (by omega) ⟨by simp, fun _ => ⟨rfl, rfl⟩⟩
    refine ⟨false, ql', [(ql.fresh, [v])], by rw [no_end]; rfl, by rw [pushEnd_false, no_end, ran], good', ?_, steady,
      fun _ _ inside => by simp at inside, rfl⟩
    cases place with
    | head => exact .newHead []
    | tail => exact .newTail []
  · obtain ⟨room, tested, inside, single⟩ := pushEnd_ok place good unexposed small short is_end
    rw [at_end]
    cases room with
    | true =>
      obtain ⟨node, ran, good'⟩ := inside rfl
      refine ⟨true, ql.set n node, _, tested, (pushEnd_true at_end).trans ran, good', ?_, ⟨rfl, rfl, rfl, rfl⟩,
        untouched_set node (pushed_ne v values place) good, by simp⟩
      cases place with
      | head =>
        subst side
        exact .head n values back
      | tail =>
        subst side
        exact .tail n values front
    | false =>
      obtain ⟨front', back', same, beside, shape⟩ : ∃ front' back', front' ++ back' = front ++ (n, values) :: back ∧
          Beside (ids front') (ids back') (some n) (decide (place = .tail)) ∧
          PushShape v ql.fresh place (front ++ (n, values) :: back) (front' ++ (ql.fresh, [v]) :: back') := by
        cases place with
        | head =>
          subst side
          exact ⟨[], (n, values) :: back, rfl, ⟨rfl, nofun⟩, .newHead _⟩
        | tail =>
          subst side
          exact ⟨front ++ [(n, values)], [], by simp, ⟨by simp, nofun⟩, .newTail _⟩
      rw [← same] at good
      obtain ⟨ql', ran, good', steady, carries⟩ := insertSingle_ok ql front' back' (some n) v place _ good single beside
      rw [same] at carries
      refine ⟨false, ql', _, tested, by rw [pushEnd_false, at_end, ran], good', shape, steady,
        fun m others inside _ => carries m (mem_map_of_mem inside), ?_⟩
      rw [← same, length_append, length_append, length_cons]
      rfl

theorem quicklistPush_ok (place : Where) (good : Good lzf ql cells)
    (unexposed : ql.exposed = false) (small : Bounded (2 ^ 31) cells) (short : widest [v] < 2 ^ 30) :
    ∃ ql' added cells', quicklistPush lzf ql v place = .ok (ql', added) ∧ Good lzf ql' cells' ∧
      PushShape v ql.fresh place cells cells' ∧ ql'.count = add64 ql.count 1 ∧ ql'.exposed = false ∧
      ql'.compress = ql.compress ∧ Untouched lzf ql ql' cells cells' := by
  obtain ⟨room, ql', cells', tested, ran, good', shape, steady, untouched, _⟩ := pushEnd_total place good unexposed small short
  refine ⟨addCount ql' 1, decide (ql.last place ≠ ql'.last place), cells', ?_, good'.recount _, shape, by rw [← steady.count]; rfl,
    steady.exposed.trans unexposed, steady.compress, untouched⟩
  simp only [quicklistPush, tested, ran, ok_bind]
  rfl

theorem popNode_ok (ql : Quicklist) (front back : List Cell) (n : Nat) (before : List Bytes) (v : Bytes) (rest : List Bytes)
    (zl : Bytes) (pos : Int) (good : Good lzf ql (front ++ (n, before ++ v :: rest) :: back)) (opened : Opened ql n zl)
    (small : widest (before ++ v :: rest) < 2 ^ 32)
    (at_entry : position (before ++ v :: rest).length pos = some before.length) :
    ∃ ql', popNode lzf ql n pos = .ok (ql', some (entryValue v)) ∧
      Good lzf ql' (front ++ (cellOf n (before ++ rest) ++ back)) ∧ ql'.count = sub64 ql.count 1 ∧
      (ql.exposed = false → (before ++ rest = [] → hides ql (ids (front ++ back)) = true) → ql'.exposed = false) := by
  obtain ⟨node, found, raw, rfl, _, _, holds, _, _⟩ := good.holds opened
  have index := holds.at_index small pos
  rw [at_entry] at index
  obtain ⟨p, index, cursor⟩ := index
  rw [take_left, drop_left] at cursor
  obtain ⟨ql', ran, result⟩ := delIndex_ok ql front back n p before v rest node.zl good opened cursor small
  refine ⟨ql', ?_, result⟩
  simp [popNode, get_ok found, rawZl_ok raw, index, cursor.get rest p small, ran, ofZiplist]

def popped : List Bytes → Where → Option (Bytes × List Bytes)
  | [], _ => none
  | v :: rest, .head => some (v, rest)
  | v :: rest, .tail => some ((v :: rest).getLast (cons_ne_nil v rest), (v :: rest).dropLast)

theorem popped_concat (values : List Bytes) (v : Bytes) : popped (values ++ [v]) .tail = some (v, values) := by
  cases values with
  | nil => rfl
  | cons first values =>
    have kept : (first :: (values ++ [v])).dropLast = first :: values := by
      rw [← cons_append, dropLast_concat]
    simp [popped, kept]

theorem Good.nonempty (cell : Cell) (good : Good lzf ql cells)
    (inside : cell ∈ cells) : cell.2 ≠ [] := by
  obtain ⟨_, _, holds⟩ := good.nodes cell inside
  exact holds.present

theorem end_entry (place : Where) (present : values ≠ []) :
    ∃ before v rest, values = before ++ v :: rest ∧ position values.length (startOffset place) = some before.length ∧
      match place with
      | .head => before = []
      | .tail => rest = [] := by
  cases place with
  | head =>
    obtain ⟨v, rest, rfl⟩ := exists_cons_of_ne_nil present
    exact ⟨[], v, rest, rfl, by simp [position, startOffset], rfl⟩
  | tail =>
    refine ⟨_, _, [], (dropLast_append_getLast present).symm, ?_, rfl⟩
    have filled := length_pos_of_ne_nil present
    rw [startOffset, position, if_pos (by decide), if_pos (by omega), length_dropLast]
    congr 1

theorem quicklistPopCustom_ok (place : Where) (good : Good lzf ql cells)
    (unexposed : ql.exposed = false) (count : ql.count = (contents cells).length)
    (small : Bounded (2 ^ 31) cells) :
    match popped (contents cells) place with
    | none => quicklistPopCustom lzf ql place = .ok (ql, none)
    | some (v, rest) => ∃ ql', quicklistPopCustom lzf ql place = .ok (ql', some (entryValue v)) ∧ Models lzf ql' rest ∧
        ((ql.last place).all (leavesHidden ql) = true → ql'.exposed = false) := by
  rcases good.last_cases place with ⟨rfl, _⟩ | ⟨front, n, values, back, rfl, at_end, is_end, side⟩
  · simp [popped, quicklistPopCustom, count]
  · obtain ⟨before, v, rest, rfl, at_entry, inner⟩ := end_entry place (good.nonempty (n, values) (by simp))
    obtain ⟨zl, opened⟩ := good.end_opened n unexposed is_end
    obtain ⟨ql', ran, good', count', unexposed'⟩ := popNode_ok ql front back n before v rest zl _ good opened
      (lt_trans small.node (by decide)) at_entry
    have shape : popped (contents (front ++ (n, before ++ v :: rest) :: back)) place =
        some (v, contents front ++ (before ++ rest ++ contents back)) := by
      cases place with
      | head =>
        subst side inner
        simp [popped]
      | tail =>
        subst side inner
        simpa using popped_concat (contents front ++ before) v
    rw [shape]
    refine ⟨ql', ?_, ⟨_, good', by simp, ?_⟩, fun hidden => unexposed' unexposed (good.leavesHidden (by rwa [at_end] at hidden))⟩
    · have filled : ql.count ≠ 0 := by rw [count]; simp
      simp only [quicklistPopCustom, if_neg filled, at_end, ran]
    · rw [count', count, sub64_of_le _ _ (by simp; omega)]
      simp
      omega

theorem tailEntry_ok (ql : Quicklist) (front : List Cell) (t : Nat) (before : List Bytes) (w zl : Bytes)
    (good : Good lzf ql (front ++ [(t, before ++ [w])])) (opened : Opened ql t zl)
    (small : widest (before ++ [w]) < 2 ^ 32) :
    ∃ p, tailEntry ql t = .ok (p, entryValue w) ∧ Cursor zl before [w] p := by
  obtain ⟨node, found, raw, rfl, _, _, holds, _, _⟩ := good.holds opened
  have index := holds.at_index small (-1)
  have at_entry : position (before ++ [w]).length (-1) = some before.length := by simp [position]
  rw [at_entry] at index
  obtain ⟨p, index, cursor⟩ := index
  rw [take_left, drop_left] at cursor
  refine ⟨p, ?_, cursor⟩
  simp [tailEntry, get_ok found, rawZl_ok raw, index, cursor.get [] p small, ofZiplist]

theorem push_keeps_tail {w : Bytes} {fresh t : Nat} {cells' : List Cell}
    (shape : PushShape w fresh .head (front ++ [(t, before ++ [w])]) cells') :
    (front = [] ∧ cells' = [(t, w :: (before ++ [w]))]) ∨
      ∃ first others, cells' = (first :: others) ++ [(t, before ++ [w])] ∧ contents (first :: others) = w :: contents front ∧
        others <:+ front ∧ front.length ≤ others.length + 1 := by
  generalize cells_eq : front ++ [(t, before ++ [w])] = cells at shape
  cases shape with
  | head n values back =>
    cases front with
    | nil =>
      simp only [nil_append, List.cons.injEq, Prod.mk.injEq] at cells_eq
      obtain ⟨⟨rfl, rfl⟩, rfl⟩ := cells_eq
      exact .inl ⟨rfl, rfl⟩
    | cons first front =>
      simp only [cons_append, List.cons.injEq] at cells_eq
      obtain ⟨rfl, rfl⟩ := cells_eq
      exact .inr ⟨(n, w :: values), front, rfl, by simp, suffix_cons _ _, le_refl _⟩
  | newHead =>
    subst cells_eq
    exact .inr ⟨(fresh, [w]), front, rfl, by simp, suffix_rfl, Nat.le_succ _⟩

theorem hides_pushed {ql' : Quicklist} {others back : List Cell} {first : Cell} (good : Good lzf ql (front ++ back))
    (good' : Good lzf ql' (first :: others ++ back)) (unexposed : ql'.exposed = false) (depth : ql'.compress = ql.compress)
    (untouched : Untouched lzf ql ql' (front ++ back) (first :: others ++ back)) (tail : others <:+ front)
    (long : front.length ≤ others.length + 1) (hidden : hides ql (ids front) = true) :
    hides ql' (ids (first :: others)) = true := by
  obtain ⟨outer, few⟩ := hides_iff.mp hidden
  have head : flagged ql' first.1 = false := by
    obtain ⟨node, found, _, unset⟩ := (good'.ends unexposed).outer first.1 (.inl rfl)
    simp [flagged, found, unset]
  have same (m : Nat) (inside : m ∈ ids others) (unset : flagged ql m = false) : flagged ql' m = false := by
    obtain ⟨⟨m, values⟩, in_others, rfl⟩ := mem_map.mp inside
    have before : (m, values) ∈ front ++ back := mem_append_left back (tail.subset in_others)
    exact (untouched m values before (by simp [in_others])).flagged (good.sound m (mem_map_of_mem before)) unset
  refine hides_iff.mpr ⟨fun m is_end => ?_, fun short m inside => ?_⟩
  · rcases is_end with at_head | at_last
    · cases at_head
      exact head
    · cases others using List.reverseRecOn with
      | nil =>
        cases at_last
        exact head
      | append_singleton others last =>
        obtain ⟨start, rfl⟩ := tail
        obtain rfl : last.1 = m := by simpa [getLast?_cons] using at_last
        exact same last.1 (by simp) (outer last.1 (.inr (by simp)))
  · rcases mem_cons.mp inside with rfl | inside
    · exact head
    · refine same m inside (few ?_ m ((tail.map Prod.fst).subset inside))
      rw [length_ids, length_cons, depth] at short
      rw [length_ids]
      omega

-- One node, with room for its last entry once more, which is a string.
def rotateDangles (ql : Quicklist) : Bool :=
  match ql.tail with
  | none => false
  | some t =>
    match tailEntry ql t with
    | .error _ => false
    | .ok (_, value) => (readsMoved ql t value).toOption.getD false

theorem readsMoved_ok (good : Good lzf ql cells) (t : Nat) (value : ZlValue) : ∃ moved, readsMoved ql t value = .ok moved := by
  cases value with
  | int _ => exact ⟨false, rfl⟩
  | str value =>
    rcases good.last_cases .head with ⟨_, no_end⟩ | ⟨front, n, values, back, rfl, at_end, _⟩
    · have empty : ql.head = none := no_end
      exact ⟨_, by simp only [readsMoved, empty, allowsInsert, ok_bind, pure_ok]; rfl⟩
    · obtain ⟨node, found, _⟩ := good.found
      have head : ql.head = some n := at_end
      exact ⟨_, by simp only [readsMoved, head, allowsInsert, get_ok found, ok_bind, pure_ok]; rfl⟩

theorem rotateTail_ok {t : Nat} {w : Bytes} (good : Good lzf ql (front ++ [(t, before ++ [w])]))
    (unexposed : ql.exposed = false) (still : rotateDangles ql = false)
    (small : Bounded (2 ^ 31) (front ++ [(t, before ++ [w])])) (short : widest [w] < 2 ^ 30) :
    ∃ ql' cells', rotateTail lzf ql t = .ok ql' ∧ Good lzf ql' cells' ∧
      contents cells' = w :: (contents front ++ before) ∧ ql'.count = sub64 (add64 ql.count 1) 1 ∧
      (leavesHidden ql t = true → ql'.exposed = false) := by
  have below := small.node
  have small_node : widest (before ++ [w]) < 2 ^ 32 := by omega
  obtain ⟨zl, opened⟩ := good.end_opened t unexposed (.inr (by simp))
  obtain ⟨p, last, cursor⟩ := tailEntry_ok ql front t before w zl good opened small_node
  obtain ⟨ql₁, added, cells₁, pushes, good₁, shape, count₁, unexposed₁, depth₁, untouched⟩ :=
    quicklistPush_ok .head good unexposed small short
  have stays : readsMoved ql t (entryValue w) = .ok false := by
    obtain ⟨moved, read⟩ := readsMoved_ok good t (entryValue w)
    have tail : ql.tail = some t := by rw [good.chain.tail]; simp
    simp only [rotateDangles, tail, last, read, Except.toOption, Option.getD_some] at still
    rw [read, still]
  have run (p' : Nat) (ql' : Quicklist) (gone : Bool) (tail : ql₁.tail = some t)
      (pointer : rotatePointer ql₁ t p = .ok p') (deleted : quicklistDelIndex lzf ql₁ t p' = .ok (ql', gone)) :
      rotateTail lzf ql t = .ok ql' := by
    simp only [rotateTail, last, stays, Bool.false_eq_true, if_false, quicklistPushHead, toBytes_entryValue, pushes, ok_bind, tail,
      pointer, deleted]
    rfl
  rcases push_keeps_tail shape with ⟨rfl, rfl⟩ | ⟨first, others, rfl, moved, tail, long⟩
  · -- the pushed entry shares the node with the one that goes
    obtain ⟨zl', opened'⟩ := good₁.end_opened t unexposed₁ (.inr rfl)
    have small' : widest ((w :: before) ++ [w]) < 2 ^ 32 := by
      have sum := widest_cons_single w (before ++ [w])
      rw [cons_append]
      omega
    obtain ⟨p', last', cursor'⟩ := tailEntry_ok ql₁ [] t (w :: before) w zl' good₁ opened' small'
    obtain ⟨ql', deleted, good', count', unexposed'⟩ := delIndex_ok ql₁ [] [] t p' (w :: before) w [] zl' good₁ opened' cursor' small'
    refine ⟨ql', _, run p' ql' _ good₁.chain.tail ?_ deleted, good', by simp, by rw [count', count₁], fun _ => unexposed' unexposed₁ nofun⟩
    have single : ql₁.len = 1 := good₁.len
    simp only [rotatePointer, if_pos single, last', ok_bind]
    rfl
  · have inside : (t, before ++ [w]) ∈ front ++ [(t, before ++ [w])] := by simp
    have quiet : Quiet ql₁ t := (good₁.ends unexposed₁).outer t (.inr (by rw [ids_append]; exact getLast?_concat))
    have opened' := good.same_bytes t opened (mem_map_of_mem inside)
      (untouched t _ inside (by simp)) quiet
    obtain ⟨ql', deleted, good', count', unexposed'⟩ := delIndex_ok ql₁ (first :: others) [] t p before w [] zl good₁ opened' cursor
      small_node
    refine ⟨ql', _, run p ql' _ (by rw [good₁.chain.tail, ids_append]; exact getLast?_concat) ?_ deleted, good', ?_,
      by rw [count', count₁], fun hidden => unexposed' unexposed₁ fun empty => ?_⟩
    · have several : ¬ql₁.len = 1 := by
        rw [good₁.len]
        simp
      rw [rotatePointer, if_neg several]
    · rw [contents_append, moved]
      simp
    · rw [append_nil]
      exact hides_pushed good good₁ unexposed₁ depth₁ untouched tail long (by simpa using good.leavesHidden hidden (by simpa using empty))

def rotated (values : List Bytes) : List Bytes :=
  match popped values .tail with
  | none => []
  | some (v, rest) => v :: rest

theorem quicklistRotate_ok (good : Good lzf ql cells) (unexposed : ql.exposed = false)
    (count : ql.count = (contents cells).length) (small : Bounded (2 ^ 31) cells)
    (short : ∀ v ∈ contents cells, widest [v] < 2 ^ 30) (many : (contents cells).length < 2 ^ 63)
    (still : 1 < ql.count → rotateDangles ql = false) :
    ∃ ql', quicklistRotate lzf ql = .ok ql' ∧ Models lzf ql' (rotated (contents cells)) ∧
      ((1 < ql.count → ql.tail.all (leavesHidden ql) = true) → ql'.exposed = false) := by
  by_cases few : ql.count ≤ 1
  · have same : contents cells = rotated (contents cells) := by
      rw [count] at few
      match contents cells, few with
      | [], _ => rfl
      | [_], _ => rfl
    exact ⟨ql, if_pos few, ⟨cells, good, same, same ▸ count⟩, fun _ => unexposed⟩
  · cases cells using List.reverseRecOn with
    | nil => simp [count] at few
    | append_singleton front cell =>
      obtain ⟨t, values⟩ := cell
      have present := good.nonempty (t, values) (by simp)
      obtain ⟨before, w, rfl⟩ : ∃ before w, values = before ++ [w] :=
        ⟨_, _, (dropLast_append_getLast present).symm⟩
      have shape : contents (front ++ [(t, before ++ [w])]) = contents front ++ before ++ [w] := by simp
      obtain ⟨ql', cells', ran, good', moved, count', unexposed'⟩ := rotateTail_ok good unexposed (still (by omega)) small
        (short w (by simp))
      rw [shape, rotated, popped_concat]
      have tail : ql.tail = some t := by rw [good.chain.tail]; simp
      refine ⟨ql', ?_, ⟨cells', good', moved, ?_⟩, fun hidden => unexposed' ?_⟩
      · simp only [quicklistRotate, if_neg few, tail, ran]
      · rw [count', add64_of_lt (by omega), sub64_of_le _ _ (by omega), count, shape]
        simp
        omega
      · have last := hidden (by omega)
        rwa [tail] at last

theorem replaceEntry_ok {entry : QuicklistEntry} {back : List Cell}
    {rest : List Bytes} {value : Bytes} (located : Located lzf ql entry front n before v rest back)
    (small : widest (before ++ v :: rest) < 2 ^ 31) (short : widest [value] < 2 ^ 30) :
    ∃ p ql', entryPointers entry = .ok (n, p) ∧ replaceEntry lzf ql value n p = .ok ql' ∧
      Good lzf ql' (front ++ (n, before ++ value :: rest) :: back) ∧ Steady ql ql' := by
  obtain ⟨zl, p, opened, at_p, cursor⟩ := located.pointer
  obtain ⟨node, found, raw, rfl, _, count, _, _, few⟩ := located.good.holds opened
  have small' : widest (before ++ value :: rest) < 2 ^ 32 := by
    have sub := widest_sublist _ _ ((List.Sublist.refl before).append (sublist_cons_self v rest))
    have front_sum := widest_append before (value :: rest)
    have sum := widest_append before rest
    have single := widest_cons_single value rest
    omega
  obtain ⟨zl₁, deleted, cursor₁⟩ := cursor.delete (by omega)
  obtain ⟨zl₂, inserted, cursor₂⟩ := cursor₁.insert value small'
  have holds := cursor₂.holds
  have same : (before ++ value :: rest).length = node.count := by rw [count]; simp
  have stored := storeZl_ok node holds small' (by rw [same, count]; exact few)
  have good₁ := located.good.store found raw holds (by simp)
    (by rw [same, count]; exact few)
  obtain ⟨ql', ran, good', recodes⟩ := good₁.quicklistCompress n (by simp)
  refine ⟨p, ql', by simp [entryPointers, located.node, at_p], ?_, good', { recodes.steady with }⟩
  rw [same] at stored ran
  simp only [replaceEntry, get_ok found, rawZl_ok raw, deleted, inserted, ofZiplist, ok_bind, stored, ran]

theorem quicklistReplaceAtIndex_ok (idx : Int) {value : Bytes}
    (good : Good lzf ql cells) (count : ql.count = (contents cells).length) (small : Bounded (2 ^ 31) cells)
    (short : widest [value] < 2 ^ 30) :
    match position (contents cells).length idx with
    | none => quicklistReplaceAtIndex lzf ql idx value = .ok (ql, false)
    | some k => ∃ ql', quicklistReplaceAtIndex lzf ql idx value = .ok (ql', true) ∧
        Models lzf ql' ((contents cells).set k value) ∧ ql'.exposed = ql.exposed := by
  cases at_entry : position (contents cells).length idx with
  | none =>
    simp only [quicklistReplaceAtIndex, quicklistIndex_missing count at_entry, ok_bind]
    rfl
  | some k =>
    obtain ⟨ql₁, entry, front, n, before, v, rest, back, index, rfl, at_k, located, _, steady₁⟩ :=
      quicklistIndex_found good count ((small.mono (by decide)).range k 0) at_entry
    have replaced : (contents (front ++ (n, before ++ v :: rest) :: back)).set k value =
        contents (front ++ (n, before ++ value :: rest) :: back) := by
      simp only [contents_append, contents_cons, append_assoc, cons_append]
      rw [← append_assoc, ← append_assoc, set_append_right _ _ (by simp; omega)]
      have zero : k - (contents front ++ before).length = 0 := by simp; omega
      rw [zero, set_cons_zero]
    obtain ⟨p, ql', pointers, ran, good', steady'⟩ := replaceEntry_ok located
      (small.node) short
    have steady := steady₁.trans steady'
    refine ⟨ql', ?_, ⟨_, good', replaced.symm, by rw [steady.count, count, length_set]⟩, steady.exposed⟩
    simp only [quicklistReplaceAtIndex, index, pointers, ran, ok_bind]
    rfl

end RedisCore.QuickList
