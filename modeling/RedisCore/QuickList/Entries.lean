import RedisCore.QuickList.Invariant

set_option autoImplicit false

namespace RedisCore.QuickList

open Ziplist List

variable {ql : Quicklist} {cells : List Cell} {zl : Bytes} {values : List Bytes}

theorem length_le_body (s : Bytes) : s.length ≤ (zipEntryBody s).length + 32 := by
  unfold zipEntryBody
  cases encoded : zipTryEncoding s with
  | none =>
    simp
    omega
  | some found =>
    have short : s.length < 32 := by
      unfold zipTryEncoding at encoded
      split at encoded
      · cases encoded
      · omega
    omega

theorem widest_append (front back : List Bytes) : widest (front ++ back) + 11 = widest front + widest back := by
  simp [widest]
  omega

theorem widest_cons (s : Bytes) (values : List Bytes) :
    widest (s :: values) = 5 + (zipEntryBody s).length + widest values := by
  simp [widest]
  omega

-- No node's ziplist can come near the limit of its 32-bit fields.
def Bounded (limit : Nat) (cells : List Cell) : Prop := ∀ cell ∈ cells, widest cell.2 < limit

theorem Bounded.node {limit : Nat} {front back : List Cell} {n : Nat}
    (bounded : Bounded limit (front ++ (n, values) :: back)) : widest values < limit :=
  bounded (n, values) ((mem_middle).mpr (.inl rfl))

theorem Bounded.set {limit : Nat} {front back : List Cell} (n m : Nat) {values' : List Bytes}
    (bounded : Bounded limit (front ++ (n, values) :: back)) (below : widest values' < limit) :
    Bounded limit (front ++ (m, values') :: back) := by
  intro cell inside
  rcases (mem_middle).mp inside with rfl | other
  · exact below
  · exact bounded cell ((mem_middle).mpr (.inr other))

theorem Bounded.insert (limit : Nat) (front back : List Cell) (n : Nat) (values : List Bytes)
    (bounded : Bounded limit (front ++ back)) (below : widest values < limit) :
    Bounded limit (front ++ (n, values) :: back) := by
  intro cell inside
  rcases (mem_middle).mp inside with rfl | other
  · exact below
  · exact bounded cell other

theorem Bounded.mono {limit limit' : Nat} (bounded : Bounded limit cells) (le : limit ≤ limit') :
    Bounded limit' cells := fun cell inside => lt_of_lt_of_le (bounded cell inside) le

-- The nodes that hold the entries from k on, extent of them.
def SmallRange : List Cell → (k extent : Nat) → Prop
  | [], _, _ => True
  | cell :: cells, k, extent =>
    if cell.2.length ≤ k then SmallRange cells (k - cell.2.length) extent
    else widest cell.2 < 2 ^ 32 ∧ (cell.2.length - k < extent → SmallRange cells 0 (extent - (cell.2.length - k)))

theorem Bounded.range (bounded : Bounded (2 ^ 32) cells) (k extent : Nat) : SmallRange cells k extent := by
  induction cells generalizing k extent with
  | nil => trivial
  | cons cell cells ih =>
    have rest : Bounded (2 ^ 32) cells := fun other inside => bounded other (mem_cons_of_mem cell inside)
    rw [SmallRange]
    split
    · exact ih rest _ _
    · exact ⟨bounded cell mem_cons_self, fun _ => ih rest _ _⟩

theorem SmallRange.at {front : List Cell} {k extent : Nat} (small : SmallRange (front ++ cells) k extent)
    (low : (contents front).length ≤ k) : SmallRange cells (k - (contents front).length) extent := by
  induction front generalizing k with
  | nil => exact small
  | cons cell front ih =>
    rw [contents_cons, length_append] at low ⊢
    rw [cons_append, SmallRange, if_pos (by omega)] at small
    rw [Nat.sub_add_eq]
    exact ih small (by omega)

theorem SmallRange.node {front back : List Cell} {n k extent : Nat} (small : SmallRange (front ++ (n, values) :: back) k extent)
    (low : (contents front).length ≤ k) (high : k < (contents front).length + values.length) :
    widest values < 2 ^ 32 ∧ (values.length - (k - (contents front).length) < extent →
      SmallRange back 0 (extent - (values.length - (k - (contents front).length)))) := by
  have here := small.at low
  rwa [SmallRange, if_neg (by dsimp only; omega)] at here

theorem length_contents_reverse (cells : List Cell) : (contents cells.reverse).length = (contents cells).length := by
  induction cells with
  | nil => rfl
  | cons cell cells ih => simp [ih, Nat.add_comm]

theorem allowInsert_few {node : QuicklistNode} {fill : Int} {sz : Nat} (fits : node.sz + sz + 10 < 2 ^ 32)
    (entries : node.count + 11 ≤ node.sz) (fill_bound : fill < 32768)
    (allowed : _quicklistNodeAllowInsert node fill sz = true) : node.count + 1 < 65536 := by
  have overhead : 2 ≤ ziplistOverhead sz ∧ ziplistOverhead sz ≤ 10 := by
    unfold ziplistOverhead
    split <;> split <;> (try split) <;> omega
  unfold _quicklistNodeAllowInsert at allowed
  rw [Nat.mod_eq_of_lt (by omega)] at allowed
  dsimp only at allowed
  split at allowed
  next meets =>
    unfold _quicklistNodeSizeMeetsOptimizationRequirement at meets
    split at meets
    · cases meets
    · split at meets
      · cases meets
      next level found =>
        have bound : level ≤ 65536 := by
          have inside := mem_of_getElem? found
          simp [optimizationLevel] at inside
          omega
        have := of_decide_eq_true meets
        omega
  next =>
    split at allowed
    · cases allowed
    · have := of_decide_eq_true allowed
      omega

variable {lzf : Lzf}

theorem storeZl_count (node : QuicklistNode) (holds : Holds zl values) (small : widest values < 2 ^ 32) {count : Nat}
    (few : count < 65536) : storeZl node zl count = .ok { node with zl := zl, sz := zl.length, count := count } := by
  rw [storeZl, holds.bytes small]
  simp [ofZiplist, Nat.mod_eq_of_lt few]

theorem storeZl_ok (node : QuicklistNode) (holds : Holds zl values)
    (small : widest values < 2 ^ 32) (few : values.length < 65536) :
    storeZl node zl values.length = .ok { node with zl := zl, sz := zl.length, count := values.length } :=
  storeZl_count node holds small few

theorem nodeHolds_raw {node : QuicklistNode} (raw : node.encoding = .raw)
    (at_zl : node.zl = zl) (size : node.sz = zl.length) (count : node.count = values.length) (holds : Holds zl values)
    (present : values ≠ []) (few : values.length < 65536) : NodeHolds lzf node values :=
  ⟨⟨zl, ⟨size, fun _ => at_zl, fun packed => by rw [raw] at packed; cases packed⟩, holds⟩, count, present, few⟩

def Opened (ql : Quicklist) (n : Nat) (zl : Bytes) : Prop :=
  ∃ node, ql.node n = some node ∧ node.encoding = .raw ∧ node.zl = zl

theorem rawZl_ok {node : QuicklistNode} (raw : node.encoding = .raw) : rawZl node = .ok node.zl := by
  simp [rawZl, raw]

theorem opened_set (ql : Quicklist) (n : Nat) {node : QuicklistNode} (raw : node.encoding = .raw) :
    Opened (ql.set n node) n node.zl := ⟨node, by simp [Quicklist.set], raw, rfl⟩

section

variable {ql : Quicklist} {front back : List Cell} {n : Nat} {values : List Bytes}

theorem Good.holds (good : Good lzf ql (front ++ (n, values) :: back)) (opened : Opened ql n zl) :
    ∃ node, ql.node n = some node ∧ node.encoding = .raw ∧ node.zl = zl ∧ node.sz = zl.length ∧
      node.count = values.length ∧ Holds zl values ∧ values ≠ [] ∧ values.length < 65536 := by
  obtain ⟨node, found, stored⟩ := good.found
  obtain ⟨other, again, raw, at_zl⟩ := opened
  rw [found] at again
  cases again
  obtain ⟨zl', plain, holds⟩ := stored.zl
  have same : zl' = zl := (plain.raw raw).symm.trans at_zl
  subst same
  exact ⟨node, found, raw, at_zl, plain.size, stored.count, holds, stored.present, stored.few⟩

theorem Good.store {node : QuicklistNode} {values' : List Bytes}
    (good : Good lzf ql (front ++ (n, values) :: back)) (found : ql.node n = some node) (raw : node.encoding = .raw)
    (holds : Holds zl values') (present : values' ≠ []) (few : values'.length < 65536) :
    Good lzf (ql.set n { node with zl := zl, sz := zl.length, count := values'.length }) (front ++ (n, values') :: back) :=
  good.set _ values' found (nodeHolds_raw raw rfl rfl rfl holds present few) id

theorem Good.use (good : Good lzf ql (front ++ (n, values) :: back)) :
    ∃ node zl, ql.node n = some node ∧ (quicklistDecompressNodeForUse lzf node).encoding = .raw ∧
      (quicklistDecompressNodeForUse lzf node).zl = zl ∧ Holds zl values ∧
      Good lzf (ql.set n (quicklistDecompressNodeForUse lzf node)) (front ++ (n, values) :: back) := by
  obtain ⟨node, found, stored⟩ := good.found
  obtain ⟨zl, plain, holds⟩ := stored.zl
  have shape := use_plain plain
  refine ⟨node, zl, found, by rw [shape], by rw [shape], holds, ?_⟩
  refine good.set _ values found ?_ ?_
  · rw [shape]
    exact nodeHolds_raw rfl rfl plain.size stored.count holds stored.present stored.few
  · rintro ⟨raw, unflagged⟩
    rw [shape]
    simp [Settled, raw, unflagged]

end

-- The entry v of node n, with its pointer into the opened node.
structure Located (lzf : Lzf) (ql : Quicklist) (entry : QuicklistEntry) (front : List Cell) (n : Nat) (before : List Bytes)
    (v : Bytes) (rest : List Bytes) (back : List Cell) : Prop where
  good : Good lzf ql (front ++ (n, before ++ v :: rest) :: back)
  node : entry.node = some n
  pointer : ∃ zl p, Opened ql n zl ∧ entry.zi = some p ∧ Cursor zl before (v :: rest) p
  value : entry.value = some (entryValue v)

theorem openEntry_ok {front back : List Cell} {n : Nat} {before : List Bytes} {v : Bytes}
    {rest : List Bytes} (offset : Int) (good : Good lzf ql (front ++ (n, before ++ v :: rest) :: back))
    (small : widest (before ++ v :: rest) < 2 ^ 32)
    (at_entry : position (before ++ v :: rest).length offset = some before.length) :
    ∃ ql' entry, openEntry lzf ql n offset = .ok (ql', entry) ∧ Located lzf ql' entry front n before v rest back ∧
      entry.offset = offset ∧ Steady ql ql' := by
  obtain ⟨node, zl, found, raw, rfl, holds, opened⟩ := good.use
  have index := holds.at_index small offset
  rw [at_entry] at index
  obtain ⟨p, index, cursor⟩ := index
  rw [take_left, drop_left] at cursor
  have value := cursor.get rest p small
  refine ⟨ql.set n (quicklistDecompressNodeForUse lzf node), ⟨some n, some p, some (entryValue v), offset⟩, ?_,
    ⟨opened, rfl, ⟨_, p, opened_set ql n raw, rfl, cursor⟩, rfl⟩, rfl, rfl, rfl, rfl, rfl⟩
  simp [openEntry, get_ok found, rawZl_ok raw, index, entryAt, value, ofZiplist]

section

variable (ql : Quicklist) (link : Nat → Option Nat)

theorem indexWalk_ok (order : List Cell) (index fuel accum : Nat)
    (steps : ∀ front cell back, order = front ++ cell :: back → link cell.1 = (ids back).head?)
    (counts : ∀ cell ∈ order, ∃ node, ql.node cell.1 = some node ∧ node.count = cell.2.length)
    (enough : order.length ≤ fuel) (below : accum ≤ index) (within : index < accum + (contents order).length) :
    ∃ front cell back, order = front ++ cell :: back ∧
      indexWalk ql link index fuel (ids order).head? accum = .ok (some (cell.1, accum + (contents front).length)) ∧
      accum + (contents front).length ≤ index ∧ index < accum + (contents front).length + cell.2.length := by
  induction order generalizing fuel accum with
  | nil =>
    simp at within
    omega
  | cons cell order ih =>
    obtain ⟨node, found, count⟩ := counts cell mem_cons_self
    cases fuel with
    | zero => simp at enough
    | succ fuel =>
      have step : indexWalk ql link index (fuel + 1) (ids (cell :: order)).head? accum =
          if index < accum + cell.2.length then .ok (some (cell.1, accum))
          else indexWalk ql link index fuel (link cell.1) (accum + cell.2.length) := by
        simp only [ids_cons, head?_cons, indexWalk, get_ok found, ok_bind, count]
        rfl
      rw [step]
      by_cases here : index < accum + cell.2.length
      · exact ⟨[], cell, order, rfl, by simp [here], by simpa using below, by simpa using here⟩
      · simp only [contents_cons, length_append, length_cons] at within enough
        obtain ⟨front, next, back, split, ran, low, high⟩ := ih fuel (accum + cell.2.length)
          (fun front next back split => steps (cell :: front) next back (by rw [split]; rfl))
          (fun next inside => counts next (mem_cons_of_mem cell inside)) (by omega) (by omega) (by omega)
        refine ⟨cell :: front, next, back, by rw [split]; rfl, ?_, ?_, ?_⟩
        · rw [if_neg here, steps [] cell order rfl, ran]
          simp [Nat.add_assoc]
        · simpa [Nat.add_assoc] using low
        · simpa [Nat.add_assoc] using high

end

theorem split_entry (values : List Bytes) (k : Nat) (within : k < values.length) :
    ∃ before v rest, values = before ++ v :: rest ∧ before.length = k :=
  ⟨values.take k, values[k], values.drop (k + 1), by rw [← drop_eq_getElem_cons within, take_append_drop],
    by simp; omega⟩

-- The offset counts from the end of the node that the index counts from.
def indexOffset (idx : Int) (before rest : List Bytes) : Int :=
  if 0 ≤ idx then before.length else -((rest.length : Int) + 1)

theorem Good.counts (good : Good lzf ql cells) :
    ∀ cell ∈ cells, ∃ node, ql.node cell.1 = some node ∧ node.count = cell.2.length := by
  intro cell inside
  obtain ⟨node, found, holds⟩ := good.nodes cell inside
  exact ⟨node, found, holds.count⟩

theorem Good.next {front back : List Cell} {cell : Cell} (good : Good lzf ql (front ++ cell :: back)) :
    ql.next cell.1 = (ids back).head? ∧ ql.prev cell.1 = (ids front).getLast? := by
  have linked := good.chain.linked
  rw [ids_append, ids_cons] at linked
  exact ⟨(linked.at_cell).2, (linked.at_cell).1⟩

theorem quicklistIndex_found {idx : Int} {k extent : Nat} (good : Good lzf ql cells)
    (count : ql.count = (contents cells).length) (small : SmallRange cells k extent)
    (at_entry : position (contents cells).length idx = some k) :
    ∃ ql' entry front n before v rest back, quicklistIndex lzf ql idx = .ok (ql', some entry) ∧
      cells = front ++ (n, before ++ v :: rest) :: back ∧ (contents front).length + before.length = k ∧
      Located lzf ql' entry front n before v rest back ∧ entry.offset = indexOffset idx before rest ∧
      Steady ql ql' := by
  have within := position_lt at_entry
  by_cases forward : 0 ≤ idx
  · have k_eq : idx.toNat = k ∧ idx = k := by
      unfold position at at_entry
      split at at_entry
      · omega
      · split at at_entry <;> simp at at_entry
        omega
    obtain ⟨front, ⟨n, values⟩, back, rfl, walk, low, high⟩ := indexWalk_ok ql ql.next cells k ql.len 0
      (fun front cell back split => by rw [split] at good; exact good.next.1)
      (good.counts) (by rw [good.len]) (by omega) (by omega)
    rw [← good.chain.head, Nat.zero_add] at walk
    simp only [Nat.zero_add] at low high
    obtain ⟨before, v, rest, rfl, before_length⟩ := split_entry values (k - (contents front).length) (by omega)
    have small_node : widest (before ++ v :: rest) < 2 ^ 32 := (small.node (by omega) (by omega)).1
    have offset_eq : idx - ((contents front).length : Nat) = (before.length : Int) := by omega
    obtain ⟨ql', entry, opened, located, at_offset, steady⟩ := openEntry_ok
      (before.length : Int) good small_node (by simp [position])
    refine ⟨ql', entry, front, n, before, v, rest, back, ?_, rfl, by omega, located, ?_, steady⟩
    · simp only [quicklistIndex, if_pos forward, k_eq.1, count, Nat.not_le.mpr within, if_false, walk, ok_bind,
        openFound, offset_eq, opened]
      rfl
    · rw [at_offset, indexOffset, if_pos forward]
  · have k_eq : (-idx - 1).toNat + 1 + k = (contents cells).length := by
      unfold position at at_entry
      split at at_entry
      · split at at_entry <;> simp at at_entry
        omega
      · omega
    obtain ⟨back', ⟨n, values⟩, front', split, walk, low, high⟩ := indexWalk_ok ql ql.prev cells.reverse (-idx - 1).toNat
      ql.len 0
      (fun front cell back split => by
        have order : cells = back.reverse ++ cell :: front.reverse := by
          rw [← reverse_reverse cells, split]
          simp
        rw [order] at good
        rw [good.next.2, ids, map_reverse, getLast?_reverse]
        rfl)
      (fun cell inside => good.counts cell (mem_reverse.mp inside))
      (by rw [good.len, length_reverse]) (by omega) (by rw [length_contents_reverse]; omega)
    obtain ⟨front, rfl⟩ : ∃ front, front' = front.reverse := ⟨front'.reverse, (reverse_reverse _).symm⟩
    obtain ⟨back, rfl⟩ : ∃ back, back' = back.reverse := ⟨back'.reverse, (reverse_reverse _).symm⟩
    have order : cells = front ++ (n, values) :: back := by
      rw [← reverse_reverse cells, split]
      simp
    subst order
    have tail : (ids (front ++ (n, values) :: back).reverse).head? = ql.tail := by
      rw [good.chain.tail, ids, map_reverse, head?_reverse]
      rfl
    rw [tail, Nat.zero_add, length_contents_reverse] at walk
    simp only [Nat.zero_add, length_contents_reverse] at low high
    simp only [contents_append, contents_cons, length_append] at k_eq within count
    obtain ⟨before, v, rest, rfl, before_length⟩ := split_entry values (k - (contents front).length) (by omega)
    have small_node : widest (before ++ v :: rest) < 2 ^ 32 := (small.node (by omega) (by omega)).1
    simp only [length_append, length_cons] at k_eq high count
    have offset_eq : idx + ((contents back).length : Nat) = -((rest.length : Int) + 1) := by omega
    obtain ⟨ql', entry, opened, located, at_offset, steady⟩ := openEntry_ok
      (-((rest.length : Int) + 1)) good small_node (by
        simp only [position, length_append, length_cons]
        rw [if_pos (by omega), if_pos (by omega)]
        simp only [Option.some.injEq]
        omega)
    refine ⟨ql', entry, front, n, before, v, rest, back, ?_, rfl, by omega, located, ?_, steady⟩
    · have inside : ¬ql.count ≤ (-idx - 1).toNat := by omega
      simp only [quicklistIndex, if_neg forward, if_neg inside, walk, ok_bind, openFound, offset_eq, opened]
      rfl
    · rw [at_offset, indexOffset, if_neg forward]

theorem quicklistIndex_missing {idx : Int}
    (count : ql.count = (contents cells).length) (missing : position (contents cells).length idx = none) :
    quicklistIndex lzf ql idx = .ok (ql, none) := by
  unfold position at missing
  unfold quicklistIndex
  rw [count]
  split at missing
  next negative =>
    rw [if_neg (by omega), if_pos]
    split at missing <;> simp at missing
    omega
  next =>
    rw [if_pos (by omega), if_pos]
    split at missing <;> simp at missing
    omega

end RedisCore.QuickList
