import RedisCore.Ziplist.Image

set_option autoImplicit false

namespace RedisCore.Ziplist

open Buffer List

-- An entry as it stands in the buffer: the width of its prevlen field and the bytes after that, whatever wrote them.
structure Cell where
  wide : Bool
  body : Bytes
  deriving DecidableEq, Repr

def Cell.prevlensize (cell : Cell) : Nat := if cell.wide then 5 else 1

def Cell.rawlen (cell : Cell) : Nat := cell.prevlensize + cell.body.length

def Cell.encode (prevlen : Nat) (cell : Cell) : Bytes := storePrevlen cell.wide prevlen ++ cell.body

def encodeCells : Nat → List Cell → Bytes
  | _, [] => []
  | prevlen, cell :: cells => cell.encode prevlen ++ encodeCells cell.rawlen cells

def cellsLen (cells : List Cell) : Nat := (cells.map Cell.rawlen).sum

def CellsFit : Nat → List Cell → Prop
  | _, [] => True
  | prevlen, cell :: cells => (cell.wide = false → prevlen < zipBigPrevlen) ∧ CellsFit cell.rawlen cells

-- The bytes after the prevlen field say themselves how many they are.
def Decodes (body : Bytes) : Prop :=
  ∀ rest, ∃ encoding lensize len, zipDecodeLength (body ++ rest) = some (encoding, lensize, len) ∧
    lensize + len = body.length

@[simp] theorem Cell.length_encode (prevlen : Nat) (cell : Cell) : (cell.encode prevlen).length = cell.rawlen := by
  simp [Cell.encode, Cell.rawlen, Cell.prevlensize]

@[simp] theorem length_encodeCells (prevlen : Nat) (cells : List Cell) : (encodeCells prevlen cells).length = cellsLen cells := by
  induction cells generalizing prevlen with
  | nil => rfl
  | cons cell cells ih => simp [encodeCells, cellsLen, ih]

@[simp] theorem cellsLen_nil : cellsLen [] = 0 := rfl

@[simp] theorem cellsLen_cons (cell : Cell) (cells : List Cell) : cellsLen (cell :: cells) = cell.rawlen + cellsLen cells := by
  simp [cellsLen]

@[simp] theorem cellsLen_append (front cells : List Cell) : cellsLen (front ++ cells) = cellsLen front + cellsLen cells := by
  simp [cellsLen]

def lastCellRawlen (prevlen : Nat) (cells : List Cell) : Nat := (cells.getLast?.map Cell.rawlen).getD prevlen

@[simp] theorem lastCellRawlen_cons (prevlen : Nat) (cell : Cell) (cells : List Cell) :
    lastCellRawlen prevlen (cell :: cells) = lastCellRawlen cell.rawlen cells := by
  cases cells <;> simp [lastCellRawlen, getLast?_cons]

theorem encodeCells_append (prevlen : Nat) (front cells : List Cell) :
    encodeCells prevlen (front ++ cells) = encodeCells prevlen front ++ encodeCells (lastCellRawlen prevlen front) cells := by
  induction front generalizing prevlen with
  | nil => rfl
  | cons cell front ih => simp [encodeCells, ih]

theorem cellsFit_append (prevlen : Nat) (front cells : List Cell) :
    CellsFit prevlen (front ++ cells) ↔ CellsFit prevlen front ∧ CellsFit (lastCellRawlen prevlen front) cells := by
  induction front generalizing prevlen with
  | nil => simp [CellsFit, lastCellRawlen]
  | cons cell front ih => simp [CellsFit, ih, and_assoc]

theorem lastCellRawlen_le (front : List Cell) : lastCellRawlen 0 front ≤ cellsLen front := by
  cases front using List.reverseRecOn with
  | nil => exact le_rfl
  | append_singleton front cell => simp [lastCellRawlen]

theorem Decodes.length_pos {body : Bytes} (decodes : Decodes body) : 0 < body.length := by
  cases body with
  | nil =>
    obtain ⟨_, _, _, decoded, _⟩ := decodes []
    cases decoded
  | cons => simp

theorem Cell.rawlen_pos (cell : Cell) (decodes : Decodes cell.body) : 2 ≤ cell.rawlen := by
  have body := decodes.length_pos
  unfold Cell.rawlen Cell.prevlensize
  split <;> omega

theorem Cell.encode_head (cell : Cell) {prevlen : Nat} (rest : Bytes)
    (fits : cell.wide = false → prevlen < zipBigPrevlen) :
    ∃ first, (cell.encode prevlen ++ rest).head? = some first ∧ first ≠ zipEnd := by
  rw [Cell.encode, append_assoc]
  obtain ⟨first, tail, shape, distinct, _⟩ := storePrevlen_head (cell.body ++ rest) fits
  exact ⟨first, by rw [shape]; rfl, distinct⟩

theorem Cell.drop_encode (cell : Cell) (prevlen : Nat) (rest : Bytes) :
    (cell.encode prevlen ++ rest).drop cell.prevlensize = cell.body ++ rest := by
  rw [Cell.encode, append_assoc, Cell.prevlensize, ← length_storePrevlen cell.wide prevlen, drop_left]

section

variable (cell : Cell) {prevlen : Nat} (rest : Bytes) (fits : cell.wide = false → prevlen < zipBigPrevlen)
  (bound : prevlen < 2 ^ 32)

include fits bound

theorem Cell.decodePrevlen_encode :
    zipDecodePrevlen (cell.encode prevlen ++ rest) = some (cell.prevlensize, prevlen) := by
  rw [Cell.encode, append_assoc]
  exact zipDecodePrevlen_store _ fits bound

theorem Cell.zipEntry_encode (decodes : Decodes cell.body) :
    ∃ entry, zipEntry (cell.encode prevlen ++ rest) = some entry ∧ entry.prevrawlensize = cell.prevlensize ∧
      entry.prevrawlen = prevlen ∧ entry.headersize + entry.len = cell.rawlen := by
  obtain ⟨encoding, lensize, len, decoded, size⟩ := decodes rest
  have payload := cell.drop_encode prevlen rest
  have prev := cell.decodePrevlen_encode rest fits bound
  refine ⟨⟨cell.prevlensize, prevlen, lensize, len, cell.prevlensize + lensize, encoding⟩,
    by simp [zipEntry, prev, payload, decoded], rfl, rfl, ?_⟩
  simp only [Cell.rawlen, ← size]
  omega

end

theorem storePrevlen_true_of_le {rawlen : Nat} (large : zipBigPrevlen ≤ rawlen) :
    zipStorePrevEntryLength rawlen = storePrevlen true rawlen := by
  rw [zipStorePrevEntryLength, if_neg (by omega)]
  rfl

theorem zipStorePrevEntryLength_eq (rawlen : Nat) :
    zipStorePrevEntryLength rawlen = storePrevlen (decide (zipBigPrevlen ≤ rawlen)) rawlen := by
  by_cases large : zipBigPrevlen ≤ rawlen
  · rw [storePrevlen_true_of_le large, decide_eq_true large]
  · rw [zipStorePrevEntryLength, if_pos (by omega), decide_eq_false large]
    rfl

theorem zipPrevEntryLengthSize_eq (rawlen : Nat) :
    zipPrevEntryLengthSize rawlen = if zipBigPrevlen ≤ rawlen then 5 else 1 := by
  unfold zipPrevEntryLengthSize
  split <;> split <;> omega

def Cell.widen (cell : Cell) : Cell := { cell with wide := true }

def cascadeCells : Nat → List Cell → List Cell
  | _, [] => []
  | rawlen, cell :: cells =>
    if cell.wide = false ∧ zipBigPrevlen ≤ rawlen then
      cell.widen :: cascadeCells cell.widen.rawlen cells
    else cell :: cells

theorem Cell.rawlen_widen (cell : Cell) (narrow : cell.wide = false) :
    cell.widen.rawlen = cell.rawlen + 4 := by
  simp [Cell.rawlen, Cell.widen, Cell.prevlensize, narrow]
  omega

theorem cellsLen_dropLast_le (cells : List Cell) : cellsLen cells.dropLast ≤ cellsLen cells := by
  cases cells using List.reverseRecOn with
  | nil => exact le_rfl
  | append_singleton front cell => simp

theorem cellsLen_le_cascade (rawlen : Nat) (cells : List Cell) :
    cellsLen cells ≤ cellsLen (cascadeCells rawlen cells) := by
  induction cells generalizing rawlen with
  | nil => exact le_rfl
  | cons cell cells ih =>
    rw [cascadeCells]
    split
    next grows =>
      have rest := ih cell.widen.rawlen
      have wider := cell.rawlen_widen grows.1
      simp only [cellsLen_cons]
      omega
    next => exact le_rfl

variable {cells : List Cell}

theorem cascadeCells_eq_of_fits {stale rawlen : Nat} (fits : CellsFit stale cells)
    (same : stale = rawlen) : cascadeCells rawlen cells = cells := by
  cases cells with
  | nil => rfl
  | cons cell cells =>
    rw [cascadeCells, if_neg]
    rintro ⟨narrow, large⟩
    have small := fits.1 narrow
    omega

theorem cellsFit_cascade (stale rawlen : Nat) (fits : CellsFit stale cells) :
    CellsFit rawlen (cascadeCells rawlen cells) := by
  induction cells generalizing stale rawlen with
  | nil => trivial
  | cons cell cells ih =>
    rw [cascadeCells]
    split
    next grows =>
      exact ⟨fun narrow => by simp [Cell.widen] at narrow, ih cell.rawlen cell.widen.rawlen fits.2⟩
    next stays =>
      refine ⟨fun narrow => ?_, fits.2⟩
      by_contra large
      exact stays ⟨narrow, by omega⟩

theorem cascadeTail_image (tail count np extra : Nat) (body : Bytes) (bound : tail < 2 ^ 32) :
    cascadeTail (image tail count body) np extra =
      some (image (if tail = np then tail else tail + extra) count body) := by
  simp only [cascadeTail, ziplistTailOffset_image tail count body bound, some_bind]
  by_cases same : tail = np
  · simp [same]
  · simp only [same, ne_eq, not_false_eq_true, if_true, if_false]
    exact setZiplistTailOffset_image tail (tail + extra) count _ body (by push_cast; rfl)

theorem cascadeGrow_image (tail count curlen np stale : Nat) {rawlen : Nat} (front rest : Bytes)
    (large : zipBigPrevlen ≤ rawlen) (bound : tail < 2 ^ 32)
    (size : curlen = front.length + 1 + rest.length + 11) (at_front : np = 10 + front.length) :
    cascadeGrow (image tail count (front ++ (storePrevlen false stale ++ rest))) curlen np 4 rawlen 1 =
      some (image (if tail = np then tail else tail + 4) count
        (front ++ (storePrevlen true rawlen ++ rest))) := by
  let tail' := if tail = np then tail else tail + 4
  obtain ⟨gap, old, shape, length_gap, length_old⟩ :=
    split_length (storePrevlen false stale ++ (rest ++ slack 4)) 5 (by simp; omega)
  have room : old.length = rest.length := by simp at length_old; omega
  have regroup : front ++ (storePrevlen false stale ++ rest) ++ slack 4 =
      (front ++ gap) ++ (old ++ []) := by
    rw [append_nil, append_assoc, append_assoc, shape]
    simp
  have moved : read (image tail' count ((front ++ gap) ++ (old ++ []))) (np + 1)
      (curlen - np - 1 - 1) = some rest := by
    have source := read_image tail' count (np + 1) (curlen - np - 1 - 1)
      (front ++ storePrevlen false stale) rest (slack 4) (by simp; omega) (by omega)
    rw [← regroup]
    simpa using source
  have write_prev : write (image tail' count ((front ++ gap) ++ (rest ++ []))) np (storePrevlen true rawlen) =
        some (image tail' count (front ++ (storePrevlen true rawlen ++ rest))) := by
    have step := write_image tail' count np front gap (storePrevlen true rawlen) rest at_front
      (by simp [length_gap])
    simpa using step
  rw [cascadeGrow, ziplistResize_grow tail count (curlen + 4) 4 _ (by simp; omega), storePrevlen_true_of_le large]
  simp only [some_bind, cascadeTail_image tail count np 4 _ bound]
  rw [regroup, move_image tail' count (np + (1 + 4)) (np + 1) (curlen - np - 1 - 1) (front ++ gap)
    old [] rest moved (by simp [length_gap]; omega) room.symm, some_bind, write_prev]

theorem cascadeLoop_last (fuel tail count curlen p pr : Nat) {front : Bytes} {cell : Cell}
    (fits : cell.wide = false → pr < zipBigPrevlen) (pr_bound : pr < 2 ^ 32)
    (decodes : Decodes cell.body) (at_front : p = 10 + front.length) :
    cascadeLoop (fuel + 1) (image tail count (front ++ cell.encode pr)) curlen p =
      some (image tail count (front ++ cell.encode pr)) := by
  obtain ⟨first, head, distinct⟩ := cell.encode_head [zipEnd] fits
  obtain ⟨cur, decoded, _, _, rawlen⟩ := cell.zipEntry_encode [zipEnd] fits pr_bound decodes
  have after := getElem?_image tail count (p + cell.rawlen) (front ++ cell.encode pr) []
    (by simp [at_front]; omega)
  rw [append_nil] at after
  rw [cascadeLoop, getElem?_image tail count p front _ at_front, head,
    drop_image_append tail count p front _ at_front, decoded]
  simp [rawlen, after]

theorem cascadeLoop_step (fuel tail count curlen : Nat) {p pr stale : Nat} (front rest : Bytes)
    {cell next : Cell} (fits : cell.wide = false → pr < zipBigPrevlen) (pr_bound : pr < 2 ^ 32)
    (decodes : Decodes cell.body) (next_fits : next.wide = false → stale < zipBigPrevlen)
    (stale_bound : stale < 2 ^ 32) (next_decodes : Decodes next.body)
    (at_front : p = 10 + front.length) :
    cascadeLoop (fuel + 1) (image tail count (front ++ (cell.encode pr ++ (next.encode stale ++ rest)))) curlen p =
      if stale = cell.rawlen then
        some (image tail count (front ++ (cell.encode pr ++ (next.encode stale ++ rest))))
      else if next.wide = false ∧ zipBigPrevlen ≤ cell.rawlen then
        (cascadeGrow (image tail count (front ++ (cell.encode pr ++ (next.encode stale ++ rest))))
          curlen (p + cell.rawlen) 4 cell.rawlen 1).bind
          fun zl => cascadeLoop fuel zl (curlen + 4) (p + cell.rawlen)
      else
        some (image tail count (front ++ (cell.encode pr ++ (next.encode cell.rawlen ++ rest)))) := by
  let zl := image tail count (front ++ (cell.encode pr ++ (next.encode stale ++ rest)))
  have regroup : zl = image tail count ((front ++ cell.encode pr) ++ (next.encode stale ++ rest)) := by
    simp [zl]
  have at_next : p + cell.rawlen = 10 + (front ++ cell.encode pr).length := by
    simp [at_front]; omega
  obtain ⟨first, head, distinct⟩ :=
    cell.encode_head (next.encode stale ++ rest ++ [zipEnd]) fits
  obtain ⟨cur, decoded, _, _, rawlen⟩ :=
    cell.zipEntry_encode (next.encode stale ++ rest ++ [zipEnd]) fits pr_bound decodes
  obtain ⟨first', head', distinct'⟩ := next.encode_head (rest ++ [zipEnd]) next_fits
  obtain ⟨after, decoded', prevsize, prevlen, _⟩ :=
    next.zipEntry_encode (rest ++ [zipEnd]) next_fits stale_bound next_decodes
  have at_p : zl[p]? = some first := by
    rw [← head, ← append_assoc]
    exact getElem?_image tail count p front _ at_front
  have at_after : zl[p + cell.rawlen]? = some first' := by
    rw [regroup, getElem?_image tail count _ _ _ at_next, append_assoc, head']
  have read : zipEntry (zl.drop p) = some cur := by
    rw [← decoded, ← append_assoc]
    exact congrArg zipEntry (drop_image_append tail count p front _ at_front)
  have read' : zipEntry (zl.drop (p + cell.rawlen)) = some after := by
    rw [regroup, drop_image_append tail count _ _ _ at_next, append_assoc, decoded']
  have store (bytes : Bytes) (same : bytes = storePrevlen next.wide cell.rawlen) : write zl (p + cell.rawlen) bytes =
        some (image tail count (front ++ (cell.encode pr ++ (next.encode cell.rawlen ++ rest)))) := by
    have step := write_image tail count (p + cell.rawlen) (front ++ cell.encode pr)
      (storePrevlen next.wide stale) (storePrevlen next.wide cell.rawlen)
      (next.body ++ rest) at_next (by simp)
    rw [regroup, same]
    simpa [Cell.encode] using step
  change cascadeLoop (fuel + 1) zl curlen p = _
  simp only [cascadeLoop, at_p, some_bind, distinct, if_false, read, rawlen, at_after, distinct', read', prevlen]
  by_cases same : stale = cell.rawlen
  · rw [if_pos same, if_pos same]
    rfl
  rw [if_neg same, if_neg same, prevsize, zipPrevEntryLengthSize_eq, Cell.prevlensize]
  by_cases large : zipBigPrevlen ≤ cell.rawlen <;> cases wide : next.wide
  · simp [large]
    rfl
  · simp [large]
    exact store _ (by rw [wide, storePrevlen_true_of_le large])
  · simp [large]
    exact store _ (by rw [wide, zipStorePrevEntryLength_eq, decide_eq_false large])
  · simp [large]
    exact store _ (by rw [wide]; rfl)

theorem cascadeLoop_image (fuel count pr stale curlen p : Nat) (front : Bytes) (cell : Cell)
    (fits : cell.wide = false → pr < zipBigPrevlen) (pr_bound : pr < 2 ^ 32)
    (stale_fits : CellsFit stale cells) (stale_bound : stale < 2 ^ 32) (decode : ∀ any ∈ cell :: cells, Decodes any.body)
    (bound : front.length + cellsLen (cell :: cascadeCells cell.rawlen cells) + 11 < 2 ^ 32)
    (enough : cells.length < fuel) (size : curlen = front.length + cellsLen (cell :: cells) + 11)
    (at_front : p = 10 + front.length) :
    cascadeLoop fuel (image (10 + front.length + cellsLen (cell :: cells).dropLast) count
          (front ++ (cell.encode pr ++ encodeCells stale cells))) curlen p =
      some (image (10 + front.length + cellsLen (cell :: cascadeCells cell.rawlen cells).dropLast) count
        (front ++ (cell.encode pr ++ encodeCells cell.rawlen (cascadeCells cell.rawlen cells)))) := by
  induction cells generalizing fuel pr stale curlen p front cell with
  | nil =>
    obtain ⟨fuel, rfl⟩ := Nat.exists_eq_succ_of_ne_zero (show fuel ≠ 0 by omega)
    have rawlen_bound : cell.rawlen < 2 ^ 32 := by
      simp only [cellsLen_cons] at bound
      omega
    simp only [encodeCells, append_nil, cascadeCells]
    exact cascadeLoop_last fuel _ count curlen p pr fits pr_bound (decode cell mem_cons_self) at_front
  | cons next cells ih =>
    obtain ⟨fuel, rfl⟩ := Nat.exists_eq_succ_of_ne_zero (show fuel ≠ 0 by omega)
    have grown := cellsLen_le_cascade cell.rawlen (next :: cells)
    have rawlen_bound : cell.rawlen < 2 ^ 32 := by
      simp only [cellsLen_cons] at bound
      omega
    have next_bound : next.rawlen < 2 ^ 32 := by
      simp only [cellsLen_cons] at bound grown
      omega
    rw [encodeCells, Nat.succ_eq_add_one, cascadeLoop_step fuel _ count curlen front _ fits pr_bound
        (decode cell (by simp)) stale_fits.1 stale_bound (decode next (by simp)) at_front]
    by_cases same : stale = cell.rawlen
    · rw [if_pos same, cascadeCells_eq_of_fits stale_fits same, encodeCells, same]
    rw [if_neg same]
    by_cases grows : next.wide = false ∧ zipBigPrevlen ≤ cell.rawlen
    · rw [if_pos grows, cascadeCells, if_pos grows]
      rw [cascadeCells, if_pos grows] at bound
      have tail_moves : (if 10 + front.length + cellsLen (cell :: next :: cells).dropLast =
            p + cell.rawlen then 10 + front.length + cellsLen (cell :: next :: cells).dropLast
          else 10 + front.length + cellsLen (cell :: next :: cells).dropLast + 4) =
          10 + (front ++ cell.encode pr).length + cellsLen (next.widen :: cells).dropLast := by
        cases cells with
        | nil => simp [at_front]; omega
        | cons after cells =>
          have positive := next.rawlen_pos (decode next (by simp))
          simp only [dropLast_cons_cons, cellsLen_cons, length_append, Cell.length_encode,
            next.rawlen_widen grows.1]
          rw [if_neg (by omega)]
          omega
      have front_tail := cellsLen_dropLast_le (cell :: next :: cells)
      simp only [cellsLen_cons] at front_tail grown bound size
      have narrow : next.rawlen = 1 + (next.body).length := by
        simp [Cell.rawlen, Cell.prevlensize, grows.1]
      have grow := cascadeGrow_image (10 + front.length + cellsLen (cell :: next :: cells).dropLast)
        count curlen (p + cell.rawlen) stale (front ++ cell.encode pr)
        (next.body ++ encodeCells next.rawlen cells) grows.2
        (by rw [cascadeCells, if_pos grows, cellsLen_cons] at grown; omega)
        (by simp only [length_append, Cell.length_encode, length_encodeCells]; omega)
        (by simp [at_front]; omega)
      rw [tail_moves] at grow
      have regroup : front ++ (cell.encode pr ++ (next.encode stale ++ encodeCells next.rawlen cells)) =
          (front ++ cell.encode pr) ++
            (storePrevlen false stale ++ (next.body ++ encodeCells next.rawlen cells)) := by
        simp [Cell.encode, grows.1]
      have rest_decode : ∀ any ∈ next.widen :: cells, Decodes any.body := by
        intro any inside
        rcases mem_cons.mp inside with rfl | inside
        · exact decode next (by simp)
        · exact decode any (by simp [inside])
      have step := ih fuel cell.rawlen next.rawlen (curlen + 4) (p + cell.rawlen)
        (front ++ cell.encode pr) next.widen (by simp [Cell.widen]) rawlen_bound stale_fits.2
        next_bound rest_decode (by simp only [length_append, Cell.length_encode, cellsLen_cons]; omega)
        (by simpa using enough)
        (by simp only [length_append, Cell.length_encode, cellsLen_cons,
              next.rawlen_widen grows.1]; omega)
        (by simp [at_front]; omega)
      rw [regroup, grow, Option.bind_some]
      have shape : next.widen.encode cell.rawlen ++ encodeCells next.rawlen cells =
          storePrevlen true cell.rawlen ++ (next.body ++ encodeCells next.rawlen cells) := by
        simp [Cell.encode, Cell.widen]
      rw [← shape, step, encodeCells]
      simp only [append_assoc, dropLast_cons_cons, cellsLen_cons, length_append,
        Cell.length_encode, Nat.add_assoc]
    · rw [if_neg grows, cascadeCells, if_neg grows, encodeCells]

theorem length_le_cellsLen {cells : List Cell} (decode : ∀ cell ∈ cells, Decodes cell.body) : cells.length ≤ cellsLen cells := by
  induction cells with
  | nil => exact le_rfl
  | cons cell cells ih =>
    have positive := cell.rawlen_pos (decode cell mem_cons_self)
    have rest := ih fun other inside => decode other (mem_cons_of_mem _ inside)
    simp only [length_cons, cellsLen_cons]
    omega

theorem ziplistCascadeUpdate_cells (count : Nat) {pr stale : Nat} (p : Nat) (front : Bytes) {cell : Cell}
    (fits : cell.wide = false → pr < zipBigPrevlen) (pr_bound : pr < 2 ^ 32)
    (stale_fits : CellsFit stale cells) (stale_bound : stale < 2 ^ 32) (decode : ∀ any ∈ cell :: cells, Decodes any.body)
    (bound : front.length + cellsLen (cell :: cascadeCells cell.rawlen cells) + 11 < 2 ^ 32)
    (at_front : p = 10 + front.length) :
    __ziplistCascadeUpdate (image (10 + front.length + cellsLen (cell :: cells).dropLast) count
          (front ++ (cell.encode pr ++ encodeCells stale cells))) p =
      some (image (10 + front.length + cellsLen (cell :: cascadeCells cell.rawlen cells).dropLast) count
        (front ++ (cell.encode pr ++ encodeCells cell.rawlen (cascadeCells cell.rawlen cells)))) := by
  have grown := cellsLen_le_cascade cell.rawlen cells
  have few := length_le_cellsLen fun any inside => decode any (mem_cons_of_mem _ inside)
  have size : (front ++ (cell.encode pr ++ encodeCells stale cells)).length + 11 =
      front.length + cellsLen (cell :: cells) + 11 := by simp
  simp only [cellsLen_cons] at bound
  rw [__ziplistCascadeUpdate, ziplistBytes_image _ count _ (by rw [size, cellsLen_cons]; omega),
    some_bind, size, length_image]
  exact cascadeLoop_image _ count pr stale _ p front cell fits pr_bound stale_fits stale_bound decode
    (by simpa only [cellsLen_cons] using bound) (by simp; omega) rfl at_front

end RedisCore.Ziplist
