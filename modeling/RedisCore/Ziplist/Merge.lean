import RedisCore.Ziplist.Cursor

set_option autoImplicit false

namespace RedisCore.Ziplist

open Buffer List

-- Both buffers exist and are distinct. The larger one is reallocated: first when append is set.
def mergeBuffers (first second : Bytes) (firstBytes secondBytes zlbytes : Nat) (append : Bool) :
    Option Bytes :=
  if append then do
    write (realloc 0 first zlbytes) (firstBytes - 1)
      (← read second ziplistHeaderSize (secondBytes - ziplistHeaderSize))
  else do
    let target ← move (realloc 0 second zlbytes) (firstBytes - 1) ziplistHeaderSize
      (secondBytes - ziplistHeaderSize)
    write target 0 (← read first 0 (firstBytes - 1))

-- The second component is append: which of the two buffers lives on.
def ziplistMerge (first second : Bytes) : Option (Bytes × Bool) := do
  let firstBytes ← ziplistBytes first
  let firstLen ← ziplistLength first
  let secondBytes ← ziplistBytes second
  let secondLen ← ziplistLength second
  let append := decide (secondLen ≤ firstLen)
  let zlbytes := firstBytes + secondBytes - ziplistHeaderSize - 1
  let zllength := min (firstLen + secondLen) 65535
  let firstOffset ← ziplistTailOffset first
  let secondOffset ← ziplistTailOffset second
  let target ← mergeBuffers first second firstBytes secondBytes zlbytes append
  let target ← setZiplistBytes target zlbytes
  let target ← setZiplistLength target zllength
  let target ← setZiplistTailOffset target ((firstBytes - 1) + (secondOffset - ziplistHeaderSize) : Nat)
  let target ← __ziplistCascadeUpdate target firstOffset
  pure (target, append)

section

variable (tail tail' count count' : Nat) (body body' : Bytes)

theorem append_image :
    mergeBuffers (image tail count body) (image tail' count' body') (body.length + 11) (body'.length + 11)
        (body.length + body'.length + 11) true =
      some (fields (body.length + 11) tail count ++ (body ++ (body' ++ [zipEnd]))) := by
  have grown : realloc 0 (image tail count body) (body.length + body'.length + 11) =
      (fields (body.length + 11) tail count ++ body) ++
        ((zipEnd :: List.replicate body'.length 0) ++ []) := by
    have step := realloc_grow 0 (image tail count body) body'.length
    rw [length_image, Nat.add_right_comm] at step
    rw [step, image_eq]
    simp
  have source : read (image tail' count' body') 10 (body'.length + 1) = some (body' ++ [zipEnd]) := by
    rw [image_eq]
    have all := read_append (fields (body'.length + 11) tail' count') (body' ++ [zipEnd]) [] 10
      (body'.length + 1) (by simp) (by simp)
    simpa using all
  have written := write_append (fields (body.length + 11) tail count ++ body)
    (zipEnd :: List.replicate body'.length 0) (body' ++ [zipEnd]) [] (body.length + 10) (by simp; omega)
    (by simp)
  simp only [mergeBuffers, if_true, ziplistHeaderSize,
    show body'.length + 11 - 10 = body'.length + 1 from rfl, show body.length + 11 - 1 = body.length + 10 from rfl,
    source, some_bind, grown, written]
  simp

theorem prepend_image :
    mergeBuffers (image tail count body) (image tail' count' body') (body.length + 11) (body'.length + 11)
        (body.length + body'.length + 11) false =
      some (fields (body.length + 11) tail count ++ (body ++ (body' ++ [zipEnd]))) := by
  have grown : realloc 0 (image tail' count' body') (body.length + body'.length + 11) =
      fields (body'.length + 11) tail' count' ++ ((body' ++ [zipEnd]) ++ List.replicate body.length 0) := by
    have step := realloc_grow 0 (image tail' count' body') body.length
    rw [length_image, show body'.length + 11 + body.length = body.length + body'.length + 11 by omega] at step
    rw [step, image_eq]
    simp
  have source := read_append (fields (body'.length + 11) tail' count') (body' ++ [zipEnd])
    (List.replicate body.length 0) 10 (body'.length + 1) (by simp) (by simp)
  -- The moved entries fill the end of the buffer; what they leave in front is overwritten next.
  obtain ⟨front, old, shape, front_length, old_length⟩ := split_length
    (fields (body'.length + 11) tail' count' ++ ((body' ++ [zipEnd]) ++ List.replicate body.length 0))
    (body.length + 10) (by simp; omega)
  have moved := write_append front old (body' ++ [zipEnd]) [] (body.length + 10) front_length.symm
    (by rw [old_length]; simp; omega)
  have header : read (image tail count body) 0 (body.length + 10) =
      some (fields (body.length + 11) tail count ++ body) := by
    rw [image_eq, ← append_assoc]
    have all := read_append [] (fields (body.length + 11) tail count ++ body) [zipEnd] 0 (body.length + 10) rfl
      (by simp; omega)
    simpa using all
  have written := write_append [] front (fields (body.length + 11) tail count ++ body) (body' ++ [zipEnd]) 0 rfl
    (by simp; omega)
  simp only [append_nil, nil_append, ← shape] at moved written
  simp only [mergeBuffers, Bool.false_eq_true, if_false, ziplistHeaderSize, move,
    show body'.length + 11 - 10 = body'.length + 1 from rfl, show body.length + 11 - 1 = body.length + 10 from rfl,
    grown, source, Option.bind_eq_bind, Option.bind_some, moved, header, written]
  simp

theorem mergeBuffers_image (append : Bool) :
    mergeBuffers (image tail count body) (image tail' count' body') (body.length + 11) (body'.length + 11)
        (body.length + body'.length + 11) append =
      some (fields (body.length + 11) tail count ++ (body ++ (body' ++ [zipEnd]))) := by
  cases append with
  | true => exact append_image tail tail' count count' body body'
  | false => exact prepend_image tail tail' count count' body body'

end

def mergeCells (cells cells' : List Cell) : List Cell := cells ++ cascadeCells (lastCellRawlen 0 cells) cells'

theorem cellsFit_merge {cells cells' : List Cell} (fits : CellsFit 0 cells) (fits' : CellsFit 0 cells') :
    CellsFit 0 (mergeCells cells cells') :=
  (cellsFit_append 0 cells _).mpr ⟨fits, cellsFit_cascade 0 _ fits'⟩

theorem renderCells_append (count : Nat) (front rest : List Cell) :
    renderCells count (front ++ rest) = image (10 + cellsLen (front ++ rest).dropLast) count
      (encodeCells 0 front ++ encodeCells (lastCellRawlen 0 front) rest) := by
  rw [renderCells, encodeCells_append]

-- The seam: the head of the second list still records a previous length of 0.
theorem cascade_seam (count : Nat) {front : List Cell} {last : Cell} {cells : List Cell} (present : cells ≠ [])
    (fits : CellsFit 0 (front ++ [last])) (seam_fits : CellsFit 0 cells)
    (decode : ∀ any ∈ front ++ last :: cells, Decodes any.body)
    (bound : cellsLen (mergeCells (front ++ [last]) cells) + 11 < 2 ^ 32) :
    __ziplistCascadeUpdate (image (10 + cellsLen (front ++ [last]) + cellsLen cells.dropLast) count
          (encodeCells 0 (front ++ [last]) ++ encodeCells 0 cells)) (10 + cellsLen front) =
      some (renderCells count (mergeCells (front ++ [last]) cells)) := by
  obtain ⟨head, rest, rfl⟩ := exists_cons_of_ne_nil present
  have last_length : lastCellRawlen 0 (front ++ [last]) = last.rawlen := by simp [lastCellRawlen]
  have last_bound := lastCellRawlen_le front
  have last_fits := ((cellsFit_append 0 front [last]).mp fits).2.1
  simp only [mergeCells, cellsLen_append, cellsLen_cons, cellsLen_nil, last_length] at bound
  have cascade := ziplistCascadeUpdate_cells count (10 + cellsLen front)
    (encodeCells 0 front) last_fits (by omega) seam_fits (by omega)
    (fun any inside => decode any (mem_append_right front inside))
    (by rw [length_encodeCells, cellsLen_cons]; omega) (by simp)
  have start : 10 + cellsLen (front ++ [last]) + cellsLen (head :: rest).dropLast =
      10 + (encodeCells 0 front).length + cellsLen (last :: head :: rest).dropLast := by
    simp only [cellsLen_append, cellsLen_cons, cellsLen_nil, length_encodeCells, dropLast_cons_cons]
    omega
  have joined : encodeCells 0 (front ++ [last]) ++ encodeCells 0 (head :: rest) =
      encodeCells 0 front ++ (last.encode (lastCellRawlen 0 front) ++ encodeCells 0 (head :: rest)) := by
    simp [encodeCells_append, encodeCells]
  have whole : mergeCells (front ++ [last]) (head :: rest) =
      front ++ last :: cascadeCells last.rawlen (head :: rest) := by
    rw [mergeCells, last_length, append_assoc, singleton_append]
  rw [start, joined, cascade, whole, renderCells_append, encodeCells,
    dropLast_append_of_ne_nil (cons_ne_nil _ _), cellsLen_append, length_encodeCells, Nat.add_assoc]

theorem ziplistMerge_cells {count count' : Nat} {cells cells' : List Cell} (present : cells ≠ [])
    (present' : cells' ≠ []) (fits : CellsFit 0 cells) (fits' : CellsFit 0 cells') (count_bound : count < 65536)
    (count_bound' : count' < 65536)
    (decode : ∀ any ∈ cells ++ cells', Decodes any.body) (bound : cellsLen (mergeCells cells cells') + 11 < 2 ^ 32) :
    ziplistMerge (renderCells count cells) (renderCells count' cells') =
      some (renderCells (min (count + count') 65535) (mergeCells cells cells'), decide (count' ≤ count)) := by
  obtain ⟨front, last, rfl⟩ : ∃ front last, cells = front ++ [last] :=
    ⟨cells.dropLast, cells.getLast present, (dropLast_append_getLast present).symm⟩
  have seam := cascade_seam (min (count + count') 65535) present' fits fits' (by simpa using decode) bound
  have grown := cellsLen_le_cascade (lastCellRawlen 0 (front ++ [last])) cells'
  have buffers := mergeBuffers_image (10 + cellsLen front) (10 + cellsLen cells'.dropLast) count count'
    (encodeCells 0 (front ++ [last])) (encodeCells 0 cells') (decide (count' ≤ count))
  have drop_le := cellsLen_dropLast_le cells'
  have joined : (encodeCells 0 (front ++ [last]) ++ encodeCells 0 cells').length + 11 =
      cellsLen (front ++ [last]) + cellsLen cells' + 11 := by simp
  have front_le : cellsLen front ≤ cellsLen (front ++ [last]) := by simp
  generalize full_eq : front ++ [last] = full at *
  have dropped : full.dropLast = front := by rw [← full_eq, dropLast_concat]
  simp only [mergeCells, cellsLen_append] at bound
  have total : cellsLen full + 11 + (cellsLen cells' + 11) - 10 - 1 = cellsLen full + cellsLen cells' + 11 := by omega
  have at_tail : cellsLen full + 11 - 1 + (10 + cellsLen cells'.dropLast - 10) =
      10 + cellsLen full + cellsLen cells'.dropLast := by omega
  simp only [length_encodeCells] at buffers
  have sized := setZiplistBytes_fields (cellsLen full + 11) (cellsLen full + cellsLen cells' + 11)
    (10 + cellsLen front) count (encodeCells 0 full ++ (encodeCells 0 cells' ++ [zipEnd]))
  rw [← append_assoc (encodeCells 0 full), ← joined, ← image_eq] at sized
  have size := ziplistBytes_image (10 + cellsLen front) count (encodeCells 0 full)
    (by rw [length_encodeCells]; omega)
  have size' := ziplistBytes_image (10 + cellsLen cells'.dropLast) count' (encodeCells 0 cells')
    (by rw [length_encodeCells]; omega)
  rw [length_encodeCells] at size size'
  simp only [ziplistMerge, renderCells, dropped, size, size', ziplistLength_image _ _ _ count_bound,
    ziplistLength_image _ _ _ count_bound', ziplistTailOffset_image (10 + cellsLen front) count _ (by omega),
    ziplistTailOffset_image (10 + cellsLen cells'.dropLast) count' _ (by omega), some_bind, ziplistHeaderSize, total, buffers]
  rw [← append_assoc (encodeCells 0 full), ← joined, sized]
  simp only [some_bind, setZiplistLength_image _ count _ rfl,
    setZiplistTailOffset_image _ (10 + cellsLen full + cellsLen cells'.dropLast) _ _ _ (congrArg _ at_tail), seam]
  rfl

def mergeItems (items items' : List Item) : List Item := items ++ cascadeItems (lastRawlen 0 items) items'

theorem map_value_merge (items items' : List Item) :
    (mergeItems items items').map Item.value = items.map Item.value ++ items'.map Item.value := by
  simp [mergeItems, map_value_cascade]

theorem lastRawlen_cells (items : List Item) : lastRawlen 0 items = lastCellRawlen 0 (items.map Item.cell) := by
  rw [lastRawlen, lastCellRawlen, getLast?_map, Option.map_map]
  rfl

theorem map_cell_merge (items items' : List Item) :
    (mergeItems items items').map Item.cell = mergeCells (items.map Item.cell) (items'.map Item.cell) := by
  rw [mergeItems, map_append, map_cell_cascade, lastRawlen_cells, mergeCells]

theorem Represents.merge {zl zl' : Bytes} {items items' : List Item} (present : items ≠ []) (present' : items' ≠ [])
    (related : Represents zl items) (related' : Represents zl' items')
    (bound : layoutBytes (mergeItems items items') < 2 ^ 32) :
    ∃ merged kept, ziplistMerge zl zl' = some (merged, kept) ∧ Represents merged (mergeItems items items') := by
  obtain ⟨fits, count, rfl, count_bound, counted⟩ := related
  obtain ⟨fits', count', rfl, count_bound', counted'⟩ := related'
  have grown := itemsLen_le_cascade (lastRawlen 0 items) items'
  have small : itemsLen (items ++ items') < 2 ^ 32 := by
    simp only [layoutBytes, mergeItems, itemsLen_append] at bound ⊢
    omega
  have decode := decode_items small
  rw [layoutBytes, itemsLen_cells, map_cell_merge] at bound
  rw [map_append] at decode
  have joined := ziplistMerge_cells (by simpa using present) (by simpa using present')
    ((fits_cells 0 items).mp fits) ((fits_cells 0 items').mp fits') count_bound count_bound' decode bound
  rw [← map_cell_merge, ← render_cells, ← render_cells, ← render_cells] at joined
  refine ⟨_, _, joined, ?_, min (count + count') 65535, rfl, by omega, fun exact => ?_⟩
  · rw [fits_cells, map_cell_merge]
    exact cellsFit_merge ((fits_cells 0 items).mp fits) ((fits_cells 0 items').mp fits')
  · have length := congrArg List.length (map_value_merge items items')
    simp only [length_map, length_append] at length
    have first := counted (by omega)
    have second := counted' (by omega)
    omega

end RedisCore.Ziplist
