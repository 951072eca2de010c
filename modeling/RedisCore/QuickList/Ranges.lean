import RedisCore.QuickList.Iterate

set_option autoImplicit false

namespace RedisCore.QuickList

open Ziplist List

variable {lzf : Lzf}
variable {values : List Bytes} {cells : List Cell} {offset : Int} {orig ql : Quicklist} {extent : Nat}

theorem Good.entire {front back : List Cell} {n : Nat}
    (good : Good lzf ql (front ++ (n, values) :: back)) :
    ∃ ql', __quicklistDelNode lzf ql n = .ok ql' ∧ Good lzf ql' (front ++ back) ∧ ql'.count = sub64 ql.count values.length ∧
      Tames ql ql' (front ++ back) := by
  obtain ⟨node, found, stored⟩ := good.found
  obtain ⟨ql', ran, good', count, removed⟩ := good.delNode node ql.count
  have same : ({ ql.set n node with count := ql.count } : Quicklist) = ql := by
    have nodes : Function.update ql.node n (some node) = ql.node := by rw [← found, Function.update_eq_self]
    simp only [Quicklist.set, nodes]
  rw [same] at ran
  exact ⟨ql', ran, good', by rw [count, stored.count], removed⟩

-- The node n has to be open, or its flag can change.
structure Spares (ql ql' : Quicklist) (front : List Cell) (n : Nat) (values : List Bytes) (back : List Cell) : Prop where
  kept : values ≠ [] → ql'.exposed = ql.exposed
  tames : Raw ql n ∨ values = [] → Tames ql ql' (front ++ (cellOf n values ++ back))

theorem Tames.spares {ql' : Quicklist} {front back : List Cell} (removed : Tames ql ql' (front ++ back)) (n : Nat) :
    Spares ql ql' front n [] back :=
  ⟨fun absent => absurd rfl absent, fun _ => removed⟩

section

variable {ql : Quicklist} {front : List Cell} {n : Nat} {before rest : List Bytes} {back : List Cell}

theorem delPart_ok {del : Nat} (good : Good lzf ql (front ++ (n, before ++ rest) :: back))
    (small : widest (before ++ rest) < 2 ^ 32) (at_entry : position (before ++ rest).length offset = some before.length)
    (within : del ≤ rest.length) (bounded : del ≤ ql.count) :
    ∃ ql', delPart lzf ql n offset del = .ok ql' ∧ Good lzf ql' (front ++ (cellOf n (before ++ rest.drop del) ++ back)) ∧
      ql'.count = ql.count - del ∧ Spares ql ql' front n (before ++ rest.drop del) back := by
  obtain ⟨node, zl, found, raw, rfl, holds, good₁⟩ := good.use
  have at_node : (ql.set n (quicklistDecompressNodeForUse lzf node)).node n = some (quicklistDecompressNodeForUse lzf node) := by
    simp [Quicklist.set]
  obtain ⟨_, count⟩ := good₁.opened at_node raw
  have few : (before ++ rest).length < 65536 := by
    obtain ⟨_, _, stored⟩ := good.found
    exact stored.few
  have few_del : del < 2 ^ 32 := by
    rw [length_append] at few
    omega
  obtain ⟨zl', deleted, holds'⟩ := holds.deleteRange small offset (del % 2 ^ 32)
  rw [at_entry] at holds'
  dsimp only at holds'
  rw [Nat.mod_eq_of_lt few_del] at deleted holds'
  rw [take_left, ← drop_drop, drop_left] at holds'
  have sub : (before ++ rest.drop del).Sublist (before ++ rest) := (List.Sublist.refl before).append (drop_sublist del rest)
  have left : sub16 (quicklistDecompressNodeForUse lzf node).count del = (before ++ rest.drop del).length := by
    rw [count, sub16_of_le (by rw [length_append]; omega)]
    simp
    omega
  have stored := storeZl_ok (quicklistDecompressNodeForUse lzf node) holds' (lt_of_le_of_lt (widest_sublist _ _ sub) small)
    (lt_of_le_of_lt sub.length_le few)
  have total : sub64 ql.count del = ql.count - del := sub64_of_le _ _ bounded
  by_cases empty : before ++ rest.drop del = []
  · obtain ⟨ql', ran, good', count', removed⟩ := good.delNode
      { quicklistDecompressNodeForUse lzf node with zl := zl', sz := zl'.length, count := 0 } (sub64 ql.count del)
    refine ⟨ql', ?_, ?_, by rw [count', sub64_of_le _ _ (Nat.zero_le _), total]; rfl, empty ▸ removed.spares n⟩
    · rw [empty, length_nil] at left stored
      simp only [delPart, get_ok found, rawZl_ok raw, Nat.mod_eq_of_lt few_del, deleted, ofZiplist, ok_bind, left, stored, if_true]
      exact ran
    · rw [cellOf, if_pos empty, nil_append]
      exact good'
  · have kept : ¬(before ++ rest.drop del).length = 0 := fun zero => empty (length_eq_zero_iff.mp zero)
    have good₂ := good₁.store at_node raw holds' empty (lt_of_le_of_lt sub.length_le few)
    rw [set_set] at good₂
    generalize cut_eq : ({ quicklistDecompressNodeForUse lzf node with
      zl := zl', sz := zl'.length, count := (before ++ rest.drop del).length } : QuicklistNode) = cut at good₂ stored
    obtain ⟨node', ran, good', unset⟩ := (good₂.recount (sub64 ql.count del)).recompressOnly
    refine ⟨({ ql.set n cut with count := sub64 ql.count del } : Quicklist).set n node', ?_, ?_, total, fun _ => rfl, fun stays => ?_⟩
    · simp only [delPart, get_ok found, rawZl_ok raw, Nat.mod_eq_of_lt few_del, deleted, ofZiplist, ok_bind, left, stored]
      rw [if_neg (by rw [← cut_eq]; exact kept)]
      exact ran
    · rw [cellOf, if_neg empty, singleton_append]
      exact good'
    · obtain ⟨other, again, was_raw⟩ := stays.resolve_right empty
      rw [found] at again
      cases again
      refine ⟨rfl, fun unexposed _ => unexposed, fun m _ was_unset => ?_⟩
      by_cases same : m = n
      · have flag : node'.recompress = false := unset (by
          simpa [flagged, Quicklist.set, ← cut_eq, quicklistDecompressNodeForUse, was_raw, same, found] using was_unset)
        simp [flagged, Quicklist.set, same, flag]
      · simpa [flagged, Quicklist.set, same] using was_unset

theorem Bounded.cut {limit : Nat} {front back : List Cell} {n : Nat} {values' : List Bytes}
    (bounded : Bounded limit (front ++ (n, values) :: back)) (sub : values'.Sublist values) :
    Bounded limit (front ++ (cellOf n values' ++ back)) := by
  unfold cellOf
  split
  · exact fun cell inside => bounded cell ((mem_middle).mpr (.inr inside))
  · exact bounded.set n n (lt_of_le_of_lt (widest_sublist _ _ sub) (bounded.node))

-- The entries to go do not reach the end of the node although the extent is below its count.
def Overruns (count : Nat) (offset : Int) (extent : Nat) : Prop :=
  0 < offset ∧ extent < count ∧ (count : Int) < offset + extent

instance (count : Nat) (offset : Int) (extent : Nat) : Decidable (Overruns count offset extent) :=
  inferInstanceAs (Decidable (_ ∧ _ ∧ _))

theorem delFrom_ok (good : Good lzf ql (front ++ (n, before ++ rest) :: back))
    (small : widest (before ++ rest) < 2 ^ 32) (present : rest ≠ [])
    (at_entry : offset = before.length ∨ offset = -(rest.length : Int))
    (fits : ¬Overruns (before ++ rest).length offset extent) (bounded : min rest.length extent ≤ ql.count) :
    ∃ ql', delFrom lzf ql n offset (delCount (before ++ rest).length offset extent).1
        (delCount (before ++ rest).length offset extent).2 = .ok ql' ∧
      (delCount (before ++ rest).length offset extent).1 = min rest.length extent ∧
      Good lzf ql' (front ++ (cellOf n (before ++ rest.drop (min rest.length extent)) ++ back)) ∧
      ql'.count = ql.count - min rest.length extent ∧
      Spares ql ql' front n (before ++ rest.drop (min rest.length extent)) back := by
  have some_rest := length_pos_of_ne_nil present
  have position_eq : position (before ++ rest).length offset = some before.length := by
    rw [length_append]
    rcases at_entry with rfl | rfl
    · rw [position, if_neg (by omega), if_pos (by omega)]
      rfl
    · rw [position, if_pos (by omega), if_pos (by omega)]
      congr 1
      omega
  by_cases whole : offset = 0 ∧ (before ++ rest).length ≤ extent
  · obtain rfl : before = [] := by
      refine length_eq_zero_iff.mp ?_
      rcases at_entry with at_entry | at_entry <;> omega
    rw [nil_append] at *
    have amount : min rest.length extent = rest.length := Nat.min_eq_left whole.2
    obtain ⟨ql', ran, good', count, removed⟩ := good.entire
    have counts : delCount rest.length offset extent = (rest.length, true) := by rw [delCount, if_pos whole]
    rw [counts, amount]
    rw [amount] at bounded
    rw [drop_length, nil_append]
    refine ⟨ql', ran, rfl, ?_, count.trans (sub64_of_le _ _ bounded), removed.spares n⟩
    rw [cellOf, if_pos rfl, nil_append]
    exact good'
  · have counts : delCount (before ++ rest).length offset extent = (min rest.length extent, false) := by
      rw [length_append] at whole fits ⊢
      unfold Overruns at fits
      rw [delCount, if_neg whole]
      rcases at_entry with at_entry | at_entry
      · by_cases reaches : before.length + rest.length ≤ extent
        · rw [if_pos (by omega)]
          congr 1
          omega
        · rw [if_neg (by omega), if_neg (by omega)]
          congr 1
          omega
      · rw [if_neg (by omega), if_pos (by omega)]
        congr 1
        omega
    rw [counts]
    obtain ⟨ql', ran, result⟩ := delPart_ok good small
      position_eq (Nat.min_le_left _ _) bounded
    exact ⟨ql', ran, rfl, result⟩

theorem delRangeLoop_step (fuel : Nat) (good : Good lzf ql (front ++ (n, before ++ rest) :: back))
    (small : widest (before ++ rest) < 2 ^ 32) (present : rest ≠ [])
    (at_entry : offset = before.length ∨ offset = -(rest.length : Int))
    (fits : ¬Overruns (before ++ rest).length offset (extent + 1)) (bounded : extent + 1 ≤ ql.count) :
    ∃ ql', delRangeLoop lzf (fuel + 1) ql (some n) offset (extent + 1) =
        delRangeLoop lzf fuel ql' (ids back).head? 0 (extent + 1 - min rest.length (extent + 1)) ∧
      Good lzf ql' (front ++ (cellOf n (before ++ rest.drop (min rest.length (extent + 1))) ++ back)) ∧
      ql'.count = ql.count - min rest.length (extent + 1) ∧
      Spares ql ql' front n (before ++ rest.drop (min rest.length (extent + 1))) back := by
  obtain ⟨node, found, stored⟩ := good.found
  have next := good.next.1
  obtain ⟨ql', ran, amount, result⟩ := delFrom_ok good
    small present at_entry fits (by omega)
  refine ⟨ql', ?_, result⟩
  simp only [delRangeLoop, get_ok found, ok_bind, stored.count, ran, next]
  rw [amount]

end

theorem drop_min (values : List Bytes) (count : Nat) : values.drop (min count values.length) = values.drop count := by
  by_cases all : values.length ≤ count
  · rw [Nat.min_eq_right all, drop_length, drop_eq_nil_of_le all]
  · rw [Nat.min_eq_left (by omega)]

-- The nodes that a range empties go one after another, and each time the flags of the rest stay hidden.
def rangeHides (ql : Quicklist) (kept : List Nat) : (sizes : List (Nat × Nat)) → (extent : Nat) → Bool
  | [], _ => true
  | (_, count) :: later, extent =>
    decide (extent < count) || hides ql (kept ++ later.map Prod.fst) && rangeHides ql kept later (extent - count)

def sizes (cells : List Cell) : List (Nat × Nat) := cells.map fun cell => (cell.1, cell.2.length)

theorem map_fst_sizes (cells : List Cell) : (sizes cells).map Prod.fst = ids cells := by simp [sizes, ids]

theorem rangeHides_cons {kept : List Nat} {cell : Cell} (hidden : rangeHides ql kept (sizes (cell :: cells)) extent = true)
    (emptied : cell.2.length ≤ extent) : hides ql (kept ++ ids cells) = true ∧
      rangeHides ql kept (sizes cells) (extent - cell.2.length) = true := by
  change rangeHides ql kept ((cell.1, cell.2.length) :: sizes cells) extent = true at hidden
  simp only [rangeHides, map_fst_sizes, Bool.or_eq_true, Bool.and_eq_true, decide_eq_true_eq] at hidden
  exact hidden.resolve_left (Nat.not_lt.mpr emptied)

theorem rangeHides_mono {ql' : Quicklist} {kept : List Nat} {later : List (Nat × Nat)} (depth : ql'.compress = ql.compress)
    (unset : ∀ m ∈ kept ++ later.map Prod.fst, flagged ql m = false → flagged ql' m = false)
    (hidden : rangeHides ql kept later extent = true) : rangeHides ql' kept later extent = true := by
  induction later generalizing extent with
  | nil => rfl
  | cons size later ih =>
    have unset' : ∀ m ∈ kept ++ later.map Prod.fst, flagged ql m = false → flagged ql' m = false := fun m inside =>
      unset m (by simp only [map_cons, mem_append, mem_cons] at inside ⊢; tauto)
    simp only [rangeHides, Bool.or_eq_true, Bool.and_eq_true] at hidden ⊢
    exact hidden.imp_right fun ⟨now, rest⟩ => ⟨hides_mono depth unset' now, ih unset' rest⟩

theorem delRangeLoop_ok (fuel : Nat) (ql : Quicklist) (front : List Cell) (n : Nat) (before rest : List Bytes)
    {back : List Cell} (offset : Int) (extent : Nat) (good : Good lzf ql (front ++ (n, before ++ rest) :: back))
    (small : SmallRange ((n, before ++ rest) :: back) before.length extent) (present : rest ≠ [])
    (enough : back.length < fuel) (at_entry : offset = before.length ∨ offset = -(rest.length : Int))
    (within : extent ≤ (rest ++ contents back).length) (bounded : extent ≤ ql.count)
    (fits : ¬Overruns (before ++ rest).length offset extent) :
    ∃ ql' cells', delRangeLoop lzf fuel ql (some n) offset extent = .ok ql' ∧ Good lzf ql' cells' ∧
      contents cells' = contents front ++ before ++ (rest ++ contents back).drop extent ∧ ql'.count = ql.count - extent ∧
      (ql.exposed = false → Raw ql n ∨ before = [] →
        rangeHides ql (ids (front ++ cellOf n before)) (sizes ((n, rest) :: back)) extent = true → ql'.exposed = false) := by
  induction fuel generalizing ql front n before rest back offset extent with
  | zero => exact absurd enough (Nat.not_lt_zero _)
  | succ fuel ih =>
    cases extent with
    | zero => exact ⟨ql, _, rfl, good, by simp, rfl, fun unexposed _ _ => unexposed⟩
    | succ extent =>
      have some_rest := length_pos_of_ne_nil present
      rw [SmallRange, if_neg (by simp; omega)] at small
      simp only [length_append, Nat.add_sub_cancel_left] at small
      obtain ⟨ql₁, ran, good₁, count₁, spares⟩ := delRangeLoop_step fuel good small.1 present at_entry fits bounded
      by_cases ends : extent + 1 ≤ rest.length
      · rw [Nat.min_eq_right ends] at ran good₁ count₁ spares
        refine ⟨ql₁, _, ?_, good₁, by simp [drop_append_of_le_length ends], count₁, fun unexposed _ hidden => ?_⟩
        · rw [ran, Nat.sub_self]
          cases fuel <;> rfl
        · by_cases empty : before ++ rest.drop (extent + 1) = []
          · obtain ⟨rfl, gone⟩ := append_eq_nil_iff.mp empty
            refine (spares.tames (.inr empty)).hidden unexposed ?_
            simpa [cellOf, gone] using (rangeHides_cons hidden (drop_eq_nil_iff.mp gone)).1
          · exact (spares.kept empty).trans unexposed
      · rw [Nat.min_eq_left (by omega), drop_length, append_nil] at good₁ spares
        rw [Nat.min_eq_left (by omega)] at ran count₁
        rw [length_append] at within
        cases back with
        | nil => exact absurd within (by simpa using ends)
        | cons cell back =>
          obtain ⟨m, values⟩ := cell
          rw [← append_assoc] at good₁
          rw [contents_cons, length_append] at within
          dsimp only at within
          obtain ⟨ql', cells', steps, good', contents', count', unexposed'⟩ := ih ql₁ _ m [] values 0 (extent + 1 - rest.length)
            good₁ (small.2 (by omega)) (good₁.nonempty (m, values) (by simp)) (by simp at enough; omega) (.inl rfl) (by rw [length_append]; omega) (by omega)
            (fun overrun => absurd overrun.1 (lt_irrefl 0))
          refine ⟨ql', cells', ran.trans steps, good', ?_, by omega, fun unexposed stays hidden => ?_⟩
          · have gone : (rest ++ contents ((m, values) :: back)).drop (extent + 1) =
                (values ++ contents back).drop (extent + 1 - rest.length) := by
              rw [drop_append, drop_eq_nil_of_le (by omega), nil_append, contents_cons]
            rw [contents', gone]
            simp
          · have tames := spares.tames stays
            rw [← append_assoc] at tames
            obtain ⟨now, later⟩ := rangeHides_cons hidden (by dsimp only; omega)
            rw [← ids_append] at now
            refine unexposed' (tames.hidden unexposed now) (.inr rfl) ?_
            have none : cellOf m [] = [] := if_pos rfl
            rw [none, append_nil]
            exact rangeHides_mono tames.depth (by rw [map_fst_sizes, ← ids_append]; exact tames.unset) later

-- The entries from the offset to the end of the node.
def rangeLeft (count : Nat) (offset : Int) : Int := if offset < 0 then -offset else count - offset

theorem Good.later {front back : List Cell} {n : Nat} (good : Good lzf ql (front ++ (n, values) :: back)) :
    ((ids (front ++ (n, values) :: back)).drop (front.length + 1)).map (fun m => (m, (ql.node m).elim 0 (·.count))) = sizes back := by
  have later : (ids (front ++ (n, values) :: back)).drop (front.length + 1) = ids back := by
    rw [ids_append, ids_cons, append_cons]
    exact drop_left' (by simp)
  rw [later, ids, sizes, map_map]
  refine map_congr_left fun cell inside => ?_
  obtain ⟨node, found, stored⟩ := good.nodes cell (by simp [inside])
  simp [found, stored.count]

def delRangeOverruns (lzf : Lzf) (ql : Quicklist) (start count : Int) : Bool :=
  match quicklistIndex lzf ql start with
  | .ok (ql', some ⟨some n, _, _, offset⟩) =>
    match ql'.node n with
    | none => false
    | some node => decide (Overruns node.count offset (delExtent ql start count.toNat))
  | _ => false

def delRangeHides (lzf : Lzf) (ql : Quicklist) (start count : Int) : Bool :=
  match quicklistIndex lzf ql start with
  | .ok (ql', some ⟨some n, _, _, offset⟩) =>
    match ql'.node n with
    | none => true
    | some node =>
      let ids := chainIds ql'
      let place := ids.idxOf n
      let left := rangeLeft node.count offset
      -- The first node stays if it has entries before the range.
      rangeHides ql' (ids.take (if left = node.count then place else place + 1))
        ((n, left.toNat) :: (ids.drop (place + 1)).map fun m => (m, (ql'.node m).elim 0 (·.count)))
        (delExtent ql start count.toNat)
  | _ => true

def deletedRange (values : List Bytes) (start count : Int) : List Bytes :=
  match position values.length start with
  | none => values
  | some k => values.take k ++ values.drop (k + count.toNat)

-- What the lookup of the first entry tells the loop.
structure RangeStart (lzf : Lzf) (ql ql₁ : Quicklist) (entry : QuicklistEntry) (start count : Int) (front : List Cell) (n : Nat)
    (before : List Bytes) (v : Bytes) (rest : List Bytes) (back : List Cell) : Prop where
  index : quicklistIndex lzf ql start = .ok (ql₁, some entry)
  located : Located lzf ql₁ entry front n before v rest back
  offset : entry.offset = indexOffset start before rest
  steady : Steady ql ql₁
  extent : delExtent ql start count.toNat = min count.toNat (v :: rest ++ contents back).length
  small : SmallRange ((n, before ++ v :: rest) :: back) before.length (delExtent ql start count.toNat)

section

variable {start count : Int}

theorem quicklistDelRange_start {k : Nat} (good : Good lzf ql cells) (total : ql.count = (contents cells).length)
    (at_entry : position (contents cells).length start = some k)
    (small : SmallRange cells k (min count.toNat ((contents cells).length - k))) :
    ∃ ql₁ entry front n before v rest back, cells = front ++ (n, before ++ v :: rest) :: back ∧
      (contents front).length + before.length = k ∧ RangeStart lzf ql ql₁ entry start count front n before v rest back := by
  obtain ⟨ql₁, entry, front, n, before, v, rest, back, index, rfl, at_k, located, offset, steady⟩ :=
    quicklistIndex_found good total small at_entry
  have within := position_lt at_entry
  have length_split : (contents (front ++ (n, before ++ v :: rest) :: back)).length =
      (contents front).length + before.length + (v :: rest ++ contents back).length := by
    simp
    omega
  have extent_eq : delExtent ql start count.toNat = min count.toNat (v :: rest ++ contents back).length := by
    unfold position at at_entry
    unfold delExtent
    rw [total]
    split at at_entry
    next negative =>
      split at at_entry <;> simp only [reduceCtorEq, Option.some.injEq] at at_entry
      rw [if_neg (by omega)]
      split <;> omega
    next =>
      split at at_entry <;> simp only [reduceCtorEq, Option.some.injEq] at at_entry
      rw [if_pos (by omega), sub64_of_le _ _ (by omega)]
      split <;> omega
  refine ⟨ql₁, entry, front, n, before, v, rest, back, rfl, at_k, index, located, offset, steady, extent_eq, ?_⟩
  have here := small.at (by omega)
  rwa [length_split, ← at_k, Nat.add_sub_cancel_left, Nat.add_sub_cancel_left, ← extent_eq] at here

variable {ql₁ ql' : Quicklist} {entry : QuicklistEntry} {front : List Cell} {n : Nat} {before : List Bytes} {v : Bytes}
  {rest : List Bytes} {back : List Cell} (found : RangeStart lzf ql ql₁ entry start count front n before v rest back)

include found

theorem RangeStart.overruns : delRangeOverruns lzf ql start count =
    decide (Overruns (before ++ v :: rest).length entry.offset (delExtent ql start count.toNat)) := by
  have index := found.index
  have at_node := found.located.node
  obtain ⟨node, at_n, stored⟩ := found.located.good.found
  obtain ⟨entry_node, zi, value, entry_offset⟩ := entry
  obtain rfl : entry_node = some n := at_node
  simp only [delRangeOverruns, index, at_n, stored.count]

theorem RangeStart.runs (positive : 0 < count)
    (ran : delRangeLoop lzf ql₁.len ql₁ (some n) entry.offset (delExtent ql start count.toNat) = .ok ql') :
    quicklistDelRange lzf ql start count = .ok (ql', true) := by
  simp only [quicklistDelRange, if_neg (not_le.mpr positive), found.index, ok_bind, found.located.node, ran]
  rfl

theorem RangeStart.hides (hidden : delRangeHides lzf ql start count = true) :
    Raw ql₁ n ∧ rangeHides ql₁ (ids (front ++ cellOf n before)) (sizes ((n, v :: rest) :: back))
      (delExtent ql start count.toNat) = true := by
  obtain ⟨index, located, offset, steady, _⟩ := found
  obtain ⟨node, at_n, stored⟩ := located.good.found
  obtain ⟨_, _, ⟨_, again, raw, _⟩, _⟩ := located.pointer
  rw [at_n] at again
  cases again
  refine ⟨⟨node, at_n, raw⟩, ?_⟩
  obtain ⟨entry_node, zi, value, entry_offset⟩ := entry
  obtain rfl : entry_node = some n := located.node
  have left : rangeLeft (before ++ v :: rest).length entry_offset = (v :: rest).length := by
    dsimp only at offset
    rw [rangeLeft, offset, indexOffset, length_append, length_cons]
    split <;> split <;> omega
  have kept : (ids (front ++ (n, before ++ v :: rest) :: back)).take (if ((v :: rest).length : Int) = (before ++ v :: rest).length
      then front.length else front.length + 1) = ids (front ++ cellOf n before) := by
    rw [ids_append, ids_append, ids_cons, cellOf]
    by_cases empty : before = []
    · rw [if_pos (by simp [empty]), if_pos empty]
      exact (take_left' (length_ids front)).trans (append_nil _).symm
    · have some_before := length_pos_of_ne_nil empty
      rw [if_neg (by rw [length_append]; omega), if_neg empty, append_cons]
      exact take_left' (by simp)
  simp only [delRangeHides, index, at_n, stored.count, left, Int.toNat_natCast, located.good.chainIds,
    located.good.idxOf, located.good.later, kept] at hidden
  exact hidden

end

theorem quicklistDelRange_ok {start count : Int} (good : Good lzf ql cells)
    (total : ql.count = (contents cells).length)
    (small : ∀ k, position (contents cells).length start = some k →
      SmallRange cells k (min count.toNat ((contents cells).length - k)))
    (fits : delRangeOverruns lzf ql start count = false) :
    ∃ ql', quicklistDelRange lzf ql start count =
        .ok (ql', decide (0 < count) && (position (contents cells).length start).isSome) ∧
      Models lzf ql' (deletedRange (contents cells) start count) ∧
      (ql.exposed = false → delRangeHides lzf ql start count = true → ql'.exposed = false) := by
  by_cases nothing : count ≤ 0
  · have same : deletedRange (contents cells) start count = contents cells := by
      have zero : count.toNat = 0 := by omega
      unfold deletedRange
      split
      · rfl
      · rw [zero, Nat.add_zero, take_append_drop]
    rw [same]
    refine ⟨ql, ?_, ⟨cells, good, rfl, total⟩, fun unexposed _ => unexposed⟩
    rw [quicklistDelRange, if_pos nothing, decide_eq_false (by omega), Bool.false_and]
  · cases at_entry : position (contents cells).length start with
    | none =>
      rw [deletedRange, at_entry]
      refine ⟨ql, ?_, ⟨cells, good, rfl, total⟩, fun unexposed _ => unexposed⟩
      simp only [quicklistDelRange, if_neg nothing, quicklistIndex_missing total at_entry, ok_bind,
        Option.isSome_none, Bool.and_false]
      rfl
    | some k =>
      obtain ⟨ql₁, entry, front, n, before, v, rest, back, rfl, at_k, found⟩ :=
        quicklistDelRange_start good total at_entry (small k at_entry)
      have within := position_lt at_entry
      have split : contents (front ++ (n, before ++ v :: rest) :: back) =
          contents front ++ before ++ (v :: rest ++ contents back) := by simp
      have length_split := congrArg List.length split
      rw [length_append, length_append] at length_split
      obtain ⟨ql', cells', ran, good', contents', count', unexposed'⟩ := delRangeLoop_ok ql₁.len ql₁ front n before (v :: rest)
        entry.offset (delExtent ql start count.toNat) found.located.good found.small (cons_ne_nil _ _)
        (by rw [found.located.good.len]; simp; omega) (by rw [found.offset, indexOffset]; split <;> simp)
        (by rw [found.extent]; omega) (by rw [found.steady.count, total, found.extent]; omega)
        (of_decide_eq_false (found.overruns.symm.trans fits))
      have removed : contents cells' = deletedRange (contents (front ++ (n, before ++ v :: rest) :: back)) start count := by
        have front_length : (contents front ++ before).length = k := by rw [length_append]; exact at_k
        rw [contents', found.extent, deletedRange, at_entry, split, ← front_length]
        simp only [take_left, ← drop_drop, drop_left]
        rw [drop_min]
      refine ⟨ql', ?_, ⟨cells', good', removed, ?_⟩, fun unexposed hidden => ?_⟩
      · rw [decide_eq_true (by omega), Option.isSome_some, Bool.and_self]
        exact found.runs (by omega) ran
      · rw [← removed, count', found.steady.count, total, contents', found.extent, split]
        simp only [length_append, length_drop]
        omega
      · obtain ⟨raw, later⟩ := found.hides hidden
        exact unexposed' (found.steady.exposed.trans unexposed) (.inl raw) later

-- A copy in the making. Its last node may be stored compressed until another one follows.
structure Copying (lzf : Lzf) (orig copy : Quicklist) (cells : List Cell) : Prop where
  chain : Chain copy (ids cells)
  len : copy.len = cells.length
  count : copy.count = (contents cells).length
  nodes : ∀ cell ∈ cells, ∃ node, copy.node cell.1 = some node ∧ NodeHolds lzf node cell.2
  fill : copy.fill < 32768
  depth : copy.compress = orig.compress
  exposed : copy.exposed = false
  head : ∀ n, (ids cells).head? = some n → Quiet copy n
  short : orig.compress = 0 ∨ orig.len < 2 * orig.compress → ∀ n ∈ ids cells, Quiet copy n

theorem dupNode_holds {node : QuicklistNode} (holds : NodeHolds lzf node values) :
    NodeHolds lzf (dupNode node) values := by
  obtain ⟨zl, plain, stored⟩ := holds.zl
  refine ⟨⟨zl, ⟨plain.size, fun raw => ?_, fun packed => ?_⟩, stored⟩, holds.count, holds.present, holds.few⟩
  · have raw : node.encoding = .raw := raw
    simp only [dupNode, raw, if_true, plain.size, plain.raw raw, take_length]
  · have packed : node.encoding = .lzf := packed
    refine ⟨?_, rfl⟩
    simp only [dupNode, packed, reduceCtorEq, if_false]
    exact (plain.packed packed).1

theorem Copying.insert {copy : Quicklist} {node : QuicklistNode}
    (copying : Copying lzf orig copy cells) (holds : NodeHolds lzf node values) (room : cells.length < orig.len)
    (bounded : (contents cells).length + values.length < 2 ^ 64)
    (first : cells = [] → Settled (dupNode node))
    (calm : orig.compress = 0 ∨ orig.len < 2 * orig.compress → Settled (dupNode node)) :
    ∃ copy', __quicklistInsertNode lzf (addCount (copy.alloc (dupNode node)) node.count) copy.tail copy.fresh true = .ok copy' ∧
      Copying lzf orig copy' (cells ++ [(copy.fresh, values)]) ∧
      (Settled (dupNode node) → Quiet copy' copy.fresh) := by
  have chain : Chain (addCount copy node.count) (ids cells ++ []) := by
    rw [append_nil]
    exact ⟨copying.chain.linked, copying.chain.distinct, copying.chain.head, copying.chain.tail, copying.chain.old⟩
  have copied := dupNode_holds holds
  have sound : ∀ m ∈ ids cells ++ [], Sound lzf (addCount copy node.count) m := by
    rw [append_nil]
    intro m inside
    obtain ⟨cell, in_cells, rfl⟩ := mem_map.mp inside
    obtain ⟨node, found, holds⟩ := copying.nodes cell in_cells
    obtain ⟨zl, plain, _⟩ := holds.zl
    exact ⟨node, zl, found, plain⟩
  obtain ⟨copy', ran, chain', len', count', fill', depth', exposed', carries, quiet⟩ :=
    insertNode_ok (dupNode node) copy.tail true chain (by rw [append_nil, length_ids]; exact copying.len)
      ⟨copying.chain.tail, fun none_left => by simpa [copying.chain.tail] using none_left⟩ sound
      (by obtain ⟨zl, plain, _⟩ := copied.zl; exact ⟨zl, plain⟩)
  have apart : ∀ m ∈ ids cells, m ≠ copy.fresh := fun m inside same =>
    copying.chain.fresh (same ▸ inside)
  have old_quiet : ∀ m ∈ ids cells, Quiet copy m → Quiet ((addCount copy node.count).alloc (dupNode node)) m := by
    rintro m inside ⟨other, found, settled⟩
    exact ⟨other, by simpa [Quicklist.alloc, addCount, apart m inside] using found, settled⟩
  have new_quiet (settled : Settled (dupNode node)) : Quiet ((addCount copy node.count).alloc (dupNode node)) copy.fresh :=
    ⟨dupNode node, by simp [Quicklist.alloc, addCount], settled⟩
  have last_quiet (settled : Settled (dupNode node)) : Quiet copy' copy.fresh :=
    quiet copy.fresh (new_quiet settled) (.inl (.inr (by simp [addCount])))
  refine ⟨copy', ran, ⟨?_, ?_, ?_, ?_, ?_, ?_, ?_, ?_, ?_⟩, last_quiet⟩
  · rw [ids_append]
    exact chain'
  · rw [len', length_append, length_singleton]
    exact congrArg (· + 1) copying.len
  · rw [count', contents_append, contents_cons, contents_nil, append_nil, length_append]
    change add64 copy.count node.count = _
    rw [copying.count, holds.count, add64_of_lt bounded]
  · intro cell inside
    rcases mem_append.mp inside with in_cells | new
    · obtain ⟨before, found, stored⟩ := copying.nodes cell in_cells
      have distinct := apart cell.1 (mem_map_of_mem in_cells)
      obtain ⟨node', found', recoded⟩ := carries cell.1 before (by simpa [Quicklist.alloc, addCount, distinct] using found)
      exact ⟨node', found', stored.recode recoded⟩
    · obtain rfl := mem_singleton.mp new
      obtain ⟨node', found', recoded⟩ := carries copy.fresh (dupNode node) (by simp [Quicklist.alloc, addCount])
      exact ⟨node', found', copied.recode recoded⟩
  · rw [fill']
    exact copying.fill
  · rw [depth']
    exact copying.depth
  · rw [exposed']
    exact copying.exposed
  · intro n at_head
    cases cells with
    | nil =>
      obtain rfl : copy.fresh = n := Option.some.inj at_head
      exact last_quiet (first rfl)
    | cons cell cells =>
      obtain rfl : cell.1 = n := Option.some.inj at_head
      exact quiet cell.1 (old_quiet cell.1 (by simp) (copying.head cell.1 rfl)) (.inl (.inl rfl))
  · intro idle n inside
    have copy_idle : Idle (addCount copy node.count) := by
      unfold Idle
      change copy.compress = 0 ∨ copy.len < 2 * copy.compress
      rw [copying.depth, copying.len]
      omega
    rw [ids_append, mem_append] at inside
    rcases inside with in_cells | new
    · exact quiet n (old_quiet n in_cells (copying.short idle n in_cells)) (.inr copy_idle)
    · obtain rfl := mem_singleton.mp new
      exact last_quiet (calm idle)

theorem settled_dupNode {node : QuicklistNode} (settled : Settled node) : Settled (dupNode node) := ⟨settled.1, rfl⟩

theorem dupLoop_ok (done rest : List Cell) (fuel : Nat) (copy : Quicklist) (cells : List Cell)
    (good : Good lzf orig (done ++ rest)) (unexposed : orig.exposed = false) (enough : rest.length ≤ fuel)
    (bounded : (contents (done ++ rest)).length < 2 ^ 64) (copying : Copying lzf orig copy cells)
    (same : contents cells = contents done) (same_length : cells.length = done.length)
    (last : rest = [] → ∀ n, (ids cells).getLast? = some n → Quiet copy n) :
    ∃ copy' cells', dupLoop lzf orig fuel (ids rest).head? copy = .ok copy' ∧ Copying lzf orig copy' cells' ∧
      contents cells' = contents (done ++ rest) ∧ cells'.length = (done ++ rest).length ∧
      ∀ n, (ids cells').getLast? = some n → Quiet copy' n := by
  induction rest generalizing done fuel copy cells with
  | nil =>
    refine ⟨copy, cells, by cases fuel <;> rfl, copying, by simpa using same, by simpa using same_length, last rfl⟩
  | cons cell rest ih =>
    obtain ⟨n, values⟩ := cell
    obtain ⟨fuel, rfl⟩ : ∃ f, fuel = f + 1 := ⟨fuel - 1, by simp at enough; omega⟩
    obtain ⟨node, found, holds⟩ := good.found
    have next := good.next.1
    have ends := good.ends unexposed
    have quiet_node (quiet : Quiet orig n) : Settled (dupNode node) := by
      obtain ⟨other, again, settled⟩ := quiet
      rw [found] at again
      cases again
      exact settled_dupNode settled
    have orig_len := good.len
    simp only [contents_append, contents_cons, length_append, length_cons] at bounded orig_len enough
    obtain ⟨copy₁, inserts, copying₁, quiet₁⟩ := copying.insert holds (by omega)
      (by rw [same]; omega)
      (fun empty => by
        obtain rfl : done = [] := length_eq_zero_iff.mp (by rw [← same_length, empty]; rfl)
        exact quiet_node (ends.outer n (.inl rfl)))
      (fun idle => quiet_node (ends.short (by rw [length_ids, ← good.len]; exact idle) n (by simp)))
    have again : done ++ (n, values) :: rest = (done ++ [(n, values)]) ++ rest := by simp
    rw [again] at good ⊢
    obtain ⟨copy', cells', steps, copying', contents', length', quiet'⟩ := ih (done ++ [(n, values)]) fuel copy₁
      (cells ++ [(copy.fresh, values)]) good (by omega) (by simp; omega) copying₁ (by simp [same]) (by simp [same_length])
      (fun empty m at_m => by
        obtain rfl : copy.fresh = m := by simpa using at_m
        subst empty
        exact quiet₁ (quiet_node (ends.outer n (.inr (by simp)))))
    refine ⟨copy', cells', ?_, copying', contents', length', quiet'⟩
    rw [ids_cons, head?_cons]
    simp only [dupLoop, get_ok found, ok_bind, inserts, next, steps]

theorem quicklistNew_bounds (fill compress : Int) :
    (quicklistNew fill compress).fill < 32768 ∧ (quicklistNew fill compress).compress < 65536 := by
  have small : ∀ a : Int, (a + 32768) % 65536 - 32768 < 32768 := fun a => by omega
  exact ⟨small _, Nat.mod_lt _ (by decide)⟩

theorem quicklistNew_chain (fill compress : Int) : Chain (quicklistNew fill compress) [] :=
  ⟨trivial, nodup_nil, rfl, rfl, nofun⟩

theorem quicklistNew_depth (fill : Int) {compress : Nat} (small : compress < 65536) :
    (quicklistNew fill compress).compress = compress := by
  change (if 65536 < (compress : Int) then 65536 else if (compress : Int) < 0 then 0 else (compress : Int)).toNat % 65536 = _
  rw [if_neg (by omega), if_neg (by omega), Int.toNat_natCast, Nat.mod_eq_of_lt small]

theorem quicklistDup_ok (good : Good lzf orig cells) (unexposed : orig.exposed = false)
    (bounded : (contents cells).length < 2 ^ 64) :
    ∃ copy, quicklistDup lzf orig = .ok copy ∧ Models lzf copy (contents cells) ∧ copy.exposed = false := by
  have depth := quicklistNew_depth orig.fill good.depth
  have start : Copying lzf orig (quicklistNew orig.fill orig.compress) [] :=
    ⟨quicklistNew_chain _ _, rfl, rfl, nofun, (quicklistNew_bounds _ _).1, depth, rfl, nofun, nofun⟩
  obtain ⟨copy, cells', ran, copying, contents', length', last⟩ := dupLoop_ok [] cells orig.len _ [] good unexposed
    (le_of_eq good.len.symm) bounded start rfl rfl (fun _ => nofun)
  refine ⟨copy, ?_, ⟨cells', ⟨copying.chain, copying.len, copying.nodes, copying.fill, ?_, fun _ => ⟨?_, ?_⟩⟩, contents',
    contents' ▸ copying.count⟩, copying.exposed⟩
  · rw [quicklistDup, good.chain.head]
    exact ran
  · rw [copying.depth]
    exact good.depth
  · rintro n (head | tail)
    · exact copying.head n head
    · exact last n tail
  · intro short
    rw [copying.depth, length_ids, length', nil_append, ← good.len] at short
    exact copying.short short

end RedisCore.QuickList
