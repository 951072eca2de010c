import RedisCore.QuickList.Refinement

set_option autoImplicit false

namespace RedisCore.QuickList

open Ziplist List

def pushTails (lzf : Lzf) : List Bytes → Quicklist → Except Fault Quicklist
  | [], ql => .ok ql
  | v :: values, ql => do
    let (ql, _) ← quicklistPushTail lzf ql v
    pushTails lzf values ql

-- The size of the ziplist that takes the entry, as _quicklistNodeAllowInsert estimates it. With f entries in the tail it
-- is a new one.
def nextSize (f : Nat) (ql : Quicklist) (v : Bytes) : Nat :=
  (match ql.tail.bind ql.node with
    | some node => if node.count < f then node.sz else 11
    | none => 11) + v.length + ziplistOverhead v.length

def withinLimit (lzf : Lzf) (f : Nat) : List Bytes → Quicklist → Bool
  | [], _ => true
  | v :: values, ql => decide (nextSize f ql v ≤ sizeSafetyLimit) &&
    match quicklistPushTail lzf ql v with
    | .ok (ql, _) => withinLimit lzf f values ql
    | .error _ => true

structure Packed (f : Nat) (cells : List Cell) : Prop where
  full : ∀ cell ∈ cells.dropLast, cell.2.length = f
  most : ∀ cell ∈ cells, cell.2.length ≤ f
  short : ∀ cell ∈ cells, widest cell.2 ≤ 11 + 2 ^ 14 * cell.2.length

structure Filled (lzf : Lzf) (f : Nat) (ql : Quicklist) (cells : List Cell) : Prop where
  good : Good lzf ql cells
  unexposed : ql.exposed = false
  fill : ql.fill = f
  packed : Packed f cells

theorem allowInsert_fill {node : QuicklistNode} {f : Nat} {v : Bytes}
    (within : node.count < f → node.sz + v.length + ziplistOverhead v.length ≤ sizeSafetyLimit) :
    _quicklistNodeAllowInsert node f v.length = decide (node.count < f) := by
  have positive : _quicklistNodeSizeMeetsOptimizationRequirement
      ((node.sz + v.length + ziplistOverhead v.length) % 2 ^ 32) f = false := if_pos (Int.natCast_nonneg f)
  simp only [_quicklistNodeAllowInsert, positive, Nat.cast_lt]
  by_cases room : node.count < f
  · have small := within room
    rw [Nat.mod_eq_of_lt (lt_of_le_of_lt small (by decide)), if_neg (not_lt.mpr small)]
    rfl
  · simp [room]

section

variable {lzf : Lzf} {f n : Nat} {ql : Quicklist} {cells front : List Cell} {values : List Bytes} {v : Bytes}

theorem Packed.tail (packed : Packed f (front ++ [(n, values)])) (room : values.length < f) (short : widest [v] ≤ 11 + 2 ^ 14) :
    Packed f (front ++ [(n, values ++ [v])]) := by
  obtain ⟨full, most, small⟩ := packed
  rw [dropLast_concat] at full
  rw [forall_mem_append, forall_mem_singleton] at most small
  dsimp only at small
  have sum := widest_cons_single v values
  have same : widest (values ++ [v]) = widest (v :: values) := widest_pushed v values .tail
  refine ⟨by rwa [dropLast_concat], forall_mem_append.mpr ⟨most.1, forall_mem_singleton.mpr ?_⟩,
    forall_mem_append.mpr ⟨small.1, forall_mem_singleton.mpr ?_⟩⟩
  all_goals
    simp only [length_append, length_singleton]
    omega

theorem Packed.newTail (packed : Packed f cells) (positive : 0 < f) (last : ∀ cell ∈ cells.getLast?, cell.2.length = f)
    (short : widest [v] ≤ 11 + 2 ^ 14) : Packed f (cells ++ [(n, [v])]) := by
  obtain ⟨full, most, small⟩ := packed
  refine ⟨?_, forall_mem_append.mpr ⟨most, forall_mem_singleton.mpr positive⟩,
    forall_mem_append.mpr ⟨small, forall_mem_singleton.mpr (by simpa using short)⟩⟩
  rw [dropLast_concat]
  cases cells using List.reverseRecOn with
  | nil => exact nofun
  | append_singleton front cell =>
    rw [dropLast_concat] at full
    exact forall_mem_append.mpr ⟨full, forall_mem_singleton.mpr (last cell getLast?_concat)⟩

theorem Filled.tested (filled : Filled lzf f ql (front ++ [(n, values)])) (within : nextSize f ql v ≤ sizeSafetyLimit) :
    allowsInsert ql (ql.last .tail) v.length = .ok (decide (values.length < f)) := by
  obtain ⟨node, found, stored⟩ := filled.good.found
  have tail : ql.tail = some n := by
    rw [filled.good.chain.tail]
    simp
  simp only [nextSize, tail, Option.bind_some, found] at within
  simp only [allowsInsert, Quicklist.last, tail, get_ok found, ok_bind, pure_ok, filled.fill]
  rw [allowInsert_fill fun room => by rwa [if_pos room] at within, stored.count]

theorem Filled.push (filled : Filled lzf f ql cells) (positive : 0 < f) (narrow : f < 32768) (v : Bytes)
    (within : nextSize f ql v ≤ sizeSafetyLimit) : ∃ ql' added cells', quicklistPushTail lzf ql v = .ok (ql', added) ∧
      Filled lzf f ql' cells' ∧ contents cells' = contents cells ++ [v] := by
  have length : v.length ≤ sizeSafetyLimit := le_trans (by unfold nextSize; omega) within
  have short : widest [v] ≤ 11 + 2 ^ 14 := by
    have body := body_le_length v
    rw [widest_cons]
    unfold sizeSafetyLimit at length
    simp only [widest, map_nil, sum_nil]
    omega
  have small : Bounded (2 ^ 31) cells := fun cell inside => by
    have := filled.packed.short cell inside
    have := filled.packed.most cell inside
    omega
  obtain ⟨room, ql', cells', tested, ran, good', shape, steady, _, count⟩ := pushEnd_total (v := v) .tail filled.good
    filled.unexposed small (by omega)
  refine ⟨addCount ql' 1, _, cells', by simp only [quicklistPushTail, quicklistPush, tested, ran, ok_bind]; rfl,
    ⟨good'.recount _, steady.exposed.trans filled.unexposed, steady.fill.trans filled.fill, ?_⟩, shape.contents⟩
  cases shape with
  | tail n values front =>
    have again := filled.tested within
    rw [tested] at again
    cases room with
    | true => exact filled.packed.tail (of_decide_eq_true (Except.ok.inj again).symm) short
    | false => simp at count
  | newTail =>
    refine filled.packed.newTail positive (fun cell last => ?_) short
    obtain ⟨front, rfl⟩ := getLast?_eq_some_iff.mp last
    have again := filled.tested within
    rw [tested] at again
    cases room with
    | true => simp at count
    | false =>
      have full := of_decide_eq_false (Except.ok.inj again).symm
      have := filled.packed.most cell (by simp)
      omega

theorem Filled.pushTails (positive : 0 < f) (narrow : f < 32768) (values : List Bytes) (filled : Filled lzf f ql cells)
    (within : withinLimit lzf f values ql = true) : ∃ ql' cells', pushTails lzf values ql = .ok ql' ∧ Filled lzf f ql' cells' ∧
      contents cells' = contents cells ++ values := by
  induction values generalizing ql cells with
  | nil => exact ⟨ql, cells, rfl, filled, by simp⟩
  | cons v values ih =>
    obtain ⟨first, later⟩ := (Bool.and_eq_true _ _).mp within
    obtain ⟨ql₁, added, cells₁, ran, filled₁, contents₁⟩ := filled.push positive narrow v (of_decide_eq_true first)
    rw [ran] at later
    obtain ⟨ql', cells', ran', filled', contents'⟩ := ih filled₁ later
    refine ⟨ql', cells', ?_, filled', by rw [contents', contents₁, append_assoc]; rfl⟩
    rw [QuickList.pushTails, ran]
    exact ran'

theorem length_contents_full (full : ∀ cell ∈ cells, cell.2.length = f) : (contents cells).length = cells.length * f := by
  induction cells with
  | nil => simp
  | cons cell cells ih =>
    rw [forall_mem_cons] at full
    rw [contents_cons, length_append, full.1, ih full.2, length_cons, Nat.succ_mul, Nat.add_comm]

theorem Filled.nodes (filled : Filled lzf f ql cells) (positive : 0 < f) : ql.len = ((contents cells).length + f - 1) / f := by
  obtain ⟨full, most, _⟩ := filled.packed
  rw [filled.good.len]
  cases cells using List.reverseRecOn with
  | nil => simp [Nat.div_eq_of_lt, positive]
  | append_singleton front cell =>
    rw [dropLast_concat] at full
    have last := most cell (by simp)
    have some_entry := length_pos_of_ne_nil (filled.good.nonempty cell (by simp))
    simp only [contents_append, contents_cons, contents_nil, append_nil, length_append, length_singleton, length_contents_full full]
    symm
    apply Nat.div_eq_of_lt_le
    · rw [Nat.succ_mul]
      omega
    · rw [Nat.succ_mul, Nat.succ_mul]
      omega

end

theorem fill_factor_honoured (lzf : Lzf) (f depth : Int) (values : List Bytes) (positive : 1 ≤ f) (narrow : f < 32768)
    (within : withinLimit lzf f.toNat values (quicklistNew f depth) = true) :
    ∃ ql, pushTails lzf values (quicklistNew f depth) = .ok ql ∧ ql.len = (values.length + f.toNat - 1) / f.toNat ∧
      (chainIds ql).length = ql.len ∧ ∀ n ∈ (chainIds ql).dropLast, (ql.node n).map QuicklistNode.count = some f.toNat := by
  obtain ⟨cells, good, -⟩ := models_new lzf f depth
  obtain rfl : cells = [] := length_eq_zero_iff.mp good.len.symm
  have fill : (quicklistNew f depth).fill = f.toNat := by
    simp only [quicklistNew, quicklistSetCompressDepth, quicklistSetFill]
    split_ifs <;> omega
  have start : Filled lzf f.toNat (quicklistNew f depth) [] := ⟨good, rfl, fill, nofun, nofun, nofun⟩
  obtain ⟨ql, cells', ran, filled, same⟩ := start.pushTails (by omega) (by omega) values within
  rw [contents_nil, nil_append] at same
  refine ⟨ql, ran, by rw [filled.nodes (by omega), same], ?_, ?_⟩
  · rw [filled.good.chainIds, length_ids, filled.good.len]
  · rw [filled.good.chainIds, ids, ← map_dropLast]
    intro n inside
    obtain ⟨cell, in_cells, rfl⟩ := mem_map.mp inside
    obtain ⟨node, found, stored⟩ := filled.good.nodes cell (mem_of_mem_dropLast in_cells)
    rw [found, Option.map_some, stored.count, filled.packed.full cell in_cells]

def fiveDigits : List Bytes := [[49], [50], [51], [52], [53]]

theorem fill_factor_two : ∃ ql, pushTails plainLzf fiveDigits (quicklistNew 2 0) = .ok ql ∧
    ql.len = (fiveDigits.length + Int.toNat 2 - 1) / Int.toNat 2 ∧ (chainIds ql).length = ql.len ∧
      ∀ n ∈ (chainIds ql).dropLast, (ql.node n).map QuicklistNode.count = some (Int.toNat 2) :=
  fill_factor_honoured plainLzf 2 0 fiveDigits (by decide) (by decide) (by decide +kernel)

-- The factor 32768 is stored as -32768, with which every push adds a node.
theorem fill_factor_negated : (quicklistNew 32768 0).fill = -32768 ∧
    withinLimit plainLzf 32768 fiveDigits (quicklistNew 32768 0) = true ∧
      (pushTails plainLzf fiveDigits (quicklistNew 32768 0)).toOption.map Quicklist.len = some 5 ∧
        (fiveDigits.length + 32768 - 1) / 32768 = 1 := by
  decide +kernel

end RedisCore.QuickList
