import RedisCore.Ziplist.Cells

set_option autoImplicit false

namespace RedisCore.Ziplist

open Util Buffer List Option

variable {encoding : UInt8} {p zl : Bytes}

-- Only the first lensize bytes are looked at.
theorem zipDecodeLength_header {lensize len : Nat}
    (decoded : zipDecodeLength p = some (encoding, lensize, len)) :
    ∃ header rest, p = header ++ rest ∧ header.length = lensize ∧
      ∀ other, zipDecodeLength (header ++ other) = some (encoding, lensize, len) := by
  cases p with
  | nil => cases decoded
  | cons first tail =>
    unfold zipDecodeLength at decoded
    dsimp only at decoded
    generalize kind : (if first < zipStrMask then first &&& zipStrMask else first) = stored at decoded
    split_ifs at decoded with str short medium long
    · cases decoded
      exact ⟨[first], tail, rfl, rfl, fun other => by
        simp only [zipDecodeLength, cons_append, kind, if_pos str, if_pos short]⟩
    · split at decoded
      next second more =>
        cases decoded
        exact ⟨[first, second], more, rfl, rfl, fun other => by
          simp only [zipDecodeLength, cons_append, kind, if_pos str, if_neg short, if_pos medium]⟩
      next => cases decoded
    · split at decoded
      next b1 b2 b3 b4 more =>
        cases decoded
        exact ⟨[first, b1, b2, b3, b4], more, rfl, rfl, fun other => by
          simp only [zipDecodeLength, cons_append, kind, if_pos str, if_neg short, if_neg medium, if_pos long]⟩
      next => cases decoded
    · obtain ⟨size, known, same⟩ := map_eq_some_iff.mp decoded
      cases same
      exact ⟨[first], tail, rfl, rfl, fun other => by
        simp only [zipDecodeLength, cons_append, kind, if_neg str, known, map_some]⟩

theorem zipDecodeLength_within (body rest other : Bytes) {lensize len : Nat}
    (decoded : zipDecodeLength (body ++ rest) = some (encoding, lensize, len)) (within : lensize ≤ body.length) :
    zipDecodeLength (body ++ other) = some (encoding, lensize, len) := by
  obtain ⟨header, more, shape, rfl, always⟩ := zipDecodeLength_header decoded
  obtain ⟨middle, rfl⟩ : header <+: body :=
    prefix_of_prefix_length_le (shape ▸ prefix_append header more) (prefix_append body rest) within
  rw [append_assoc]
  exact always (middle ++ other)

theorem zipDecodeLength_int_size {lensize len : Nat}
    (decoded : zipDecodeLength p = some (encoding, lensize, len)) (not_str : zipIsStr encoding = false) :
    zipIntSize encoding = some len := by
  have large := (not_str_iff encoding).mp not_str
  cases p with
  | nil => cases decoded
  | cons first tail =>
    unfold zipDecodeLength at decoded
    dsimp only at decoded
    generalize (if first < zipStrMask then first &&& zipStrMask else first) = stored at decoded
    by_cases str : stored < zipStrMask
    · rw [if_pos str] at decoded
      split_ifs at decoded with short medium long
      · cases decoded
        exact absurd str large
      · split at decoded <;> cases decoded
        exact absurd str large
      · split at decoded <;> cases decoded
        exact absurd str large
    · rw [if_neg str] at decoded
      obtain ⟨size, known, same⟩ := map_eq_some_iff.mp decoded
      cases same
      exact known

theorem loadBytes_append {width : Nat} {data : Bytes} (rest : Bytes) (whole : width = data.length) :
    loadBytes width (data ++ rest) = some (LittleEndian.decodeInt data) := by
  subst whole
  simp [loadBytes]

theorem zipLoadInteger_append (data rest other : Bytes) (size : zipIntSize encoding = some data.length) :
    zipLoadInteger (data ++ rest) encoding = zipLoadInteger (data ++ other) encoding := by
  have whole (width : Nat) (same : width = data.length) : loadBytes width (data ++ rest) = loadBytes width (data ++ other) := by
    rw [loadBytes_append rest same, loadBytes_append other same]
  unfold zipIntSize at size
  split_ifs at size with byte word triple quad octet immediate
  · subst byte
    exact whole 1 (Option.some.inj size)
  · subst word
    exact whole 2 (Option.some.inj size)
  · subst triple
    have shifted : 4 = (0 :: data).length := by simp [← Option.some.inj size]
    change (loadBytes 4 ((0 :: data) ++ rest)).map _ = (loadBytes 4 ((0 :: data) ++ other)).map _
    rw [loadBytes_append rest shifted, loadBytes_append other shifted]
  · subst quad
    exact whole 4 (Option.some.inj size)
  · subst octet
    exact whole 8 (Option.some.inj size)
  · simp only [zipLoadInteger, if_neg byte, if_neg word, if_neg triple, if_neg quad, if_neg octet]

structure Visit where
  offset : Nat
  prevrawlen : Nat
  rawlen : Nat
  value : Bytes
  deriving DecidableEq, Repr

def visitFrom (zl : Bytes) : (fuel p : Nat) → Option (List Visit)
  | 0, _ => none
  | fuel + 1, p => do
    if (← zl[p]?) = zipEnd then pure []
    else
      let entry ← zipEntry (zl.drop p)
      let value ← ziplistGet (zl.drop p)
      let rest ← visitFrom zl fuel (p + (entry.headersize + entry.len))
      pure ({ offset := p, prevrawlen := entry.prevrawlen, rawlen := entry.headersize + entry.len,
              value := value.toBytes } :: rest)

-- An entry takes at least two bytes, so the length of the buffer bounds the walk.
def visits (zl : Bytes) : Option (List Visit) := visitFrom zl zl.length ziplistHeaderSize

structure WellFormed (zl : Bytes) (visited : List Visit) : Prop where
  bytes : ziplistBytes zl = some zl.length
  terminator : zl.getLast? = some zipEnd
  walk : visits zl = some visited
  tiles : ziplistHeaderSize + (visited.map Visit.rawlen).sum + 1 = zl.length
  prevlens : visited.map Visit.prevrawlen = (0 :: visited.map Visit.rawlen).dropLast
  tail : ziplistTailOffset zl = some ((visited.getLast?.map Visit.offset).getD ziplistHeaderSize)
  length : ∃ zllen, ziplistLength zl = some zllen ∧ (zllen < 65535 → zllen = visited.length)

theorem visitFrom_cases {fuel p : Nat} {visited : List Visit} (walk : visitFrom zl fuel p = some visited) :
    ∃ rounds, fuel = rounds + 1 ∧ ((zl[p]? = some zipEnd ∧ visited = []) ∨
      ∃ byte entry value rest, zl[p]? = some byte ∧ byte ≠ zipEnd ∧ zipEntry (zl.drop p) = some entry ∧
        ziplistGet (zl.drop p) = some value ∧ visitFrom zl rounds (p + (entry.headersize + entry.len)) = some rest ∧
        visited = { offset := p, prevrawlen := entry.prevrawlen, rawlen := entry.headersize + entry.len,
                    value := value.toBytes } :: rest) := by
  cases fuel with
  | zero => cases walk
  | succ rounds =>
    refine ⟨rounds, rfl, ?_⟩
    rw [visitFrom] at walk
    simp only [bind_eq_bind, bind_eq_some_iff] at walk
    obtain ⟨byte, read, walk⟩ := walk
    split at walk
    next at_end => exact .inl ⟨by rw [read, at_end], (Option.some.inj walk).symm⟩
    next inside =>
      simp only [bind_eq_some_iff] at walk
      obtain ⟨entry, decoded, value, got, rest, others, same⟩ := walk
      exact .inr ⟨byte, entry, value, rest, read, inside, decoded, got, others, (Option.some.inj same).symm⟩

theorem zipEntry_cases {entry : ZlEntry} (decoded : zipEntry p = some entry) :
    zipDecodePrevlen p = some (entry.prevrawlensize, entry.prevrawlen) ∧
      zipDecodeLength (p.drop entry.prevrawlensize) = some (entry.encoding, entry.lensize, entry.len) ∧
      entry.headersize = entry.prevrawlensize + entry.lensize := by
  simp only [zipEntry, bind_eq_bind, bind_eq_some_iff] at decoded
  obtain ⟨⟨size, prevlen⟩, first, ⟨encoding, lensize, len⟩, second, same⟩ := decoded
  cases same
  exact ⟨first, second, rfl⟩

-- Wherever the bytes after a prevlen field stand, they are read as the value.
def Reads (body : Bytes) (value : ZlValue) : Prop :=
  ∀ rest, ∃ encoding lensize len, zipDecodeLength (body ++ rest) = some (encoding, lensize, len) ∧
    lensize + len = body.length ∧
    ((zipIsStr encoding = true ∧ value = .str (body.drop lensize)) ∨
      zipIsStr encoding = false ∧ ∃ z, zipLoadInteger (body.drop lensize ++ rest) encoding = some z ∧ value = .int z)

theorem Reads.decodes {body : Bytes} {value : ZlValue} (reads : Reads body value) : Decodes body := by
  intro rest
  obtain ⟨encoding, lensize, len, decoded, size, _⟩ := reads rest
  exact ⟨encoding, lensize, len, decoded, size⟩

theorem Reads.get {cell : Cell} {value : ZlValue} (reads : Reads cell.body value) {prevlen : Nat} (rest : Bytes)
    (fits : cell.wide = false → prevlen < zipBigPrevlen) (bound : prevlen < 2 ^ 32) :
    ziplistGet (cell.encode prevlen ++ rest) = some value := by
  obtain ⟨encoding, lensize, len, decoded, size, read⟩ := reads rest
  obtain ⟨first, head, distinct⟩ := cell.encode_head rest fits
  have payload := cell.drop_encode prevlen rest
  have prev := cell.decodePrevlen_encode rest fits bound
  have data : (cell.encode prevlen ++ rest).drop (cell.prevlensize + lensize) = cell.body.drop lensize ++ rest := by
    rw [← drop_drop, payload, drop_append_of_le_length (by omega)]
  have length : (cell.body.drop lensize).length = len := by simp [← size]
  simp only [ziplistGet, head, Option.some.injEq, distinct, if_false, zipEntry, prev, payload, decoded, some_bind, Option.pure_def, data]
  rcases read with ⟨kind, rfl⟩ | ⟨kind, z, loaded, rfl⟩
  · rw [if_pos kind, if_neg (by simp; omega), ← length, take_left]
  · rw [if_neg (by simp [kind]), loaded]
    rfl

theorem reads_of_get {entry : ZlEntry} {value : ZlValue} (decoded : zipEntry p = some entry)
    (got : ziplistGet p = some value) (inside : entry.headersize + entry.len ≤ p.length) :
    Reads ((p.drop entry.prevrawlensize).take (entry.lensize + entry.len)) value := by
  obtain ⟨_, length, header⟩ := zipEntry_cases decoded
  obtain ⟨_, same, again, read⟩ := ziplistGet_cases got
  obtain rfl := Option.some.inj (decoded.symm.trans again)
  set body := (p.drop entry.prevrawlensize).take (entry.lensize + entry.len) with body_eq
  have shape : p.drop entry.prevrawlensize = body ++ (p.drop entry.prevrawlensize).drop (entry.lensize + entry.len) :=
    (take_append_drop _ _).symm
  have size : body.length = entry.lensize + entry.len := by
    simp only [body_eq, length_take, length_drop]
    omega
  have data : p.drop entry.headersize =
      body.drop entry.lensize ++ (p.drop entry.prevrawlensize).drop (entry.lensize + entry.len) := by
    rw [header, ← drop_drop, shape, drop_append_of_le_length (by omega)]
    simp [size]
  have data_length : (body.drop entry.lensize).length = entry.len := by
    rw [length_drop, size]
    omega
  intro rest
  rw [shape] at length
  refine ⟨entry.encoding, entry.lensize, entry.len, zipDecodeLength_within body _ rest length (by omega), size.symm, ?_⟩
  rcases read with ⟨kind, enough, rfl⟩ | ⟨kind, z, loaded, rfl⟩
  · refine .inl ⟨kind, ?_⟩
    rw [data, ← data_length, take_left]
  · have whole := zipDecodeLength_int_size length kind
    rw [← data_length] at whole
    rw [data, zipLoadInteger_append _ _ rest whole] at loaded
    exact .inr ⟨kind, z, loaded, rfl⟩

structure Slot where
  cell : Cell
  value : Bytes

def Slot.Ok (slot : Slot) : Prop := ∃ value, Reads slot.cell.body value ∧ value.toBytes = slot.value

def visitSlots : (p prev : Nat) → List Slot → List Visit
  | _, _, [] => []
  | p, prev, slot :: slots =>
    { offset := p, prevrawlen := prev, rawlen := slot.cell.rawlen, value := slot.value } ::
      visitSlots (p + slot.cell.rawlen) slot.cell.rawlen slots

theorem visitFrom_slots (fuel tail count p prev : Nat) (front : Bytes) {slots : List Slot}
    (fits : CellsFit prev (slots.map Slot.cell)) (ok : ∀ slot ∈ slots, slot.Ok) (prev_bound : prev < 2 ^ 32)
    (bound : cellsLen (slots.map Slot.cell) < 2 ^ 32) (at_front : p = 10 + front.length) (enough : slots.length < fuel) :
    visitFrom (image tail count (front ++ encodeCells prev (slots.map Slot.cell))) fuel p = some (visitSlots p prev slots) := by
  induction slots generalizing fuel front p prev with
  | nil =>
    obtain ⟨fuel, rfl⟩ : ∃ rest, fuel = rest + 1 := ⟨fuel - 1, by simp at enough; omega⟩
    rw [visitFrom, getElem?_image tail count p front _ at_front]
    simp [encodeCells, visitSlots]
  | cons slot slots ih =>
    obtain ⟨fuel, rfl⟩ : ∃ rest, fuel = rest + 1 := ⟨fuel - 1, by simp at enough; omega⟩
    obtain ⟨value, reads, text⟩ := ok slot mem_cons_self
    rw [map_cons, cellsLen_cons] at bound
    rw [map_cons] at fits ⊢
    obtain ⟨first, head, distinct⟩ := slot.cell.encode_head
      (encodeCells slot.cell.rawlen (slots.map Slot.cell) ++ [zipEnd]) fits.1
    obtain ⟨entry, decoded, _, prevrawlen, rawlen⟩ := slot.cell.zipEntry_encode
      (encodeCells slot.cell.rawlen (slots.map Slot.cell) ++ [zipEnd]) fits.1 prev_bound reads.decodes
    have got := reads.get (encodeCells slot.cell.rawlen (slots.map Slot.cell) ++ [zipEnd]) fits.1 prev_bound
    have rest := ih fuel (p + slot.cell.rawlen) slot.cell.rawlen (front ++ slot.cell.encode prev) fits.2
      (fun other inside => ok other (mem_cons_of_mem _ inside)) (by omega) (by omega) (by simp [at_front]; omega)
      (by simpa using enough)
    rw [append_assoc] at rest
    rw [visitFrom, getElem?_image tail count p front _ at_front, encodeCells,
      drop_image_append tail count p front _ at_front, append_assoc, head, decoded, got]
    simp only [some_bind, distinct, if_false, rawlen, rest, prevrawlen, text]
    rfl

section

variable (p prev : Nat) (slots : List Slot)

theorem map_value_visitSlots :
    (visitSlots p prev slots).map Visit.value = slots.map Slot.value := by
  induction slots generalizing p prev with
  | nil => rfl
  | cons slot slots ih => simp [visitSlots, ih]

theorem map_rawlen_visitSlots :
    (visitSlots p prev slots).map Visit.rawlen = (slots.map Slot.cell).map Cell.rawlen := by
  induction slots generalizing p prev with
  | nil => rfl
  | cons slot slots ih => simp [visitSlots, ih]

theorem map_prevrawlen_visitSlots :
    (visitSlots p prev slots).map Visit.prevrawlen = (prev :: (slots.map Slot.cell).map Cell.rawlen).dropLast := by
  induction slots generalizing p prev with
  | nil => rfl
  | cons slot slots ih => simp [visitSlots, ih]

theorem last_offset_visitSlots :
    ((visitSlots p prev slots).getLast?.map Visit.offset).getD p = p + cellsLen (slots.map Slot.cell).dropLast := by
  induction slots generalizing p prev with
  | nil => rfl
  | cons slot slots ih =>
    cases slots with
    | nil => simp [visitSlots]
    | cons next slots =>
      have rest := ih (p + slot.cell.rawlen) slot.cell.rawlen
      simp only [visitSlots, getLast?_cons_cons, map_cons, dropLast_cons_cons, cellsLen_cons] at rest ⊢
      rw [← Nat.add_assoc, ← rest]
      simp [getLast?_cons]

end

def renderCells (count : Nat) (cells : List Cell) : Bytes :=
  image (10 + cellsLen cells.dropLast) count (encodeCells 0 cells)

@[simp] theorem length_renderCells (count : Nat) (cells : List Cell) : (renderCells count cells).length = cellsLen cells + 11 := by
  simp [renderCells]

theorem wellFormed_slots (count : Nat) {slots : List Slot} (fits : CellsFit 0 (slots.map Slot.cell))
    (ok : ∀ slot ∈ slots, slot.Ok) (bound : cellsLen (slots.map Slot.cell) + 11 < 2 ^ 32) (count_bound : count < 65536)
    (counted : count < 65535 → count = slots.length) :
    WellFormed (renderCells count (slots.map Slot.cell)) (visitSlots 10 0 slots) := by
  have length := length_renderCells count (slots.map Slot.cell)
  have tail_le := cellsLen_dropLast_le (slots.map Slot.cell)
  have decode : ∀ cell ∈ slots.map Slot.cell, Decodes cell.body := by
    intro cell inside
    obtain ⟨slot, member, rfl⟩ := mem_map.mp inside
    obtain ⟨_, reads, _⟩ := ok slot member
    exact reads.decodes
  have entries := length_le_cellsLen decode
  have same := congrArg List.length (map_rawlen_visitSlots 10 0 slots)
  simp only [length_map] at same entries
  constructor
  · have size := ziplistBytes_image (10 + cellsLen (slots.map Slot.cell).dropLast) count (encodeCells 0 (slots.map Slot.cell))
      (by rw [length_encodeCells]; omega)
    rw [length_encodeCells] at size
    rw [length, renderCells, size]
  · rw [renderCells, image_eq, ← append_assoc, getLast?_concat]
  · have walk := visitFrom_slots (renderCells count (slots.map Slot.cell)).length (10 + cellsLen (slots.map Slot.cell).dropLast)
      count 10 0 [] fits ok (by omega) (by omega) rfl (by omega)
    rwa [nil_append] at walk
  · rw [map_rawlen_visitSlots, length, ziplistHeaderSize]
    simp only [cellsLen]
    omega
  · rw [map_prevrawlen_visitSlots, map_rawlen_visitSlots]
  · rw [ziplistHeaderSize, last_offset_visitSlots, renderCells, ziplistTailOffset_image _ count _ (by omega)]
  · exact ⟨count, ziplistLength_image _ count _ count_bound, by rw [same]; exact counted⟩

theorem storePrevlen_of_decode {size prevlen : Nat} (decoded : zipDecodePrevlen p = some (size, prevlen))
    (inside : p.head? ≠ some zipEnd) :
    ∃ wide : Bool, size = (if wide then 5 else 1) ∧ (wide = false → prevlen < zipBigPrevlen) ∧
      p = storePrevlen wide prevlen ++ p.drop size := by
  cases p with
  | nil => cases decoded
  | cons first rest =>
    simp only [zipDecodePrevlen] at decoded
    by_cases small : first.toNat < zipBigPrevlen
    · rw [if_pos small] at decoded
      cases decoded
      exact ⟨false, rfl, fun _ => small, by simp [storePrevlen]⟩
    · rw [if_neg small] at decoded
      split at decoded
      next => cases decoded
      next enough =>
        cases decoded
        have big : first = UInt8.ofNat zipBigPrevlen := by
          have byte := UInt8.toNat_lt first
          have other : first.toNat ≠ 255 := fun same => inside (by
            rw [head?_cons, Option.some.injEq]
            exact UInt8.toNat_inj.mp same)
          apply UInt8.toNat_inj.mp
          simp only [zipBigPrevlen] at small ⊢
          simp
          omega
        have back := LittleEndian.encode_decode (rest.take 4)
        rw [show (rest.take 4).length = 4 by simp; omega] at back
        refine ⟨true, rfl, by simp, ?_⟩
        simp only [storePrevlen, if_true, zipStorePrevEntryLengthLarge, back, big]
        simp

theorem visitFrom_shape (fuel p prev : Nat) (visited : List Visit) (walk : visitFrom zl fuel p = some visited)
    (chain : visited.map Visit.prevrawlen = (prev :: visited.map Visit.rawlen).dropLast) :
    ∃ slots rest, zl.drop p = encodeCells prev (slots.map Slot.cell) ++ zipEnd :: rest ∧
      CellsFit prev (slots.map Slot.cell) ∧ (∀ slot ∈ slots, slot.Ok) ∧ visited = visitSlots p prev slots := by
  induction fuel generalizing p prev visited with
  | zero => cases walk
  | succ fuel ih =>
    obtain ⟨rounds, same, ⟨at_end, rfl⟩ | ⟨byte, entry, value, others, read, inside, decoded, got, further, rfl⟩⟩ :=
      visitFrom_cases walk
    · have head := head?_drop (l := zl) (i := p)
      rw [at_end] at head
      obtain ⟨rest, shape⟩ := head?_eq_some_iff.mp head
      exact ⟨[], rest, by simpa [encodeCells] using shape, trivial, nofun, rfl⟩
    · obtain rfl : fuel = rounds := by omega
      simp only [map_cons, dropLast_cons_of_ne_nil (cons_ne_nil _ _), List.cons.injEq] at chain
      obtain ⟨prev_eq, chain⟩ := chain
      obtain ⟨slots, rest, shape, fits, ok, rfl⟩ := ih _ _ others further chain
      obtain ⟨prevlen, _, header⟩ := zipEntry_cases decoded
      obtain ⟨before, _, _⟩ := ziplistGet_cases got
      obtain ⟨wide, width, small, field⟩ := storePrevlen_of_decode prevlen before
      have room : entry.headersize + entry.len ≤ (zl.drop p).length := by
        have length := congrArg List.length shape
        simp only [length_drop, length_append, length_cons] at length ⊢
        omega
      have reads := reads_of_get decoded got room
      have rawlen : (Cell.mk wide (((zl.drop p).drop entry.prevrawlensize).take (entry.lensize + entry.len))).rawlen =
          entry.headersize + entry.len := by
        simp only [Cell.rawlen, Cell.prevlensize, length_take, length_drop, ← width]
        simp only [length_drop] at room
        omega
      refine ⟨⟨⟨wide, ((zl.drop p).drop entry.prevrawlensize).take (entry.lensize + entry.len)⟩, value.toBytes⟩ :: slots, rest,
        ?_, ⟨?_, ?_⟩, ?_, ?_⟩
      · rw [map_cons, encodeCells, rawlen, append_assoc, ← shape, Cell.encode, ← prev_eq]
        conv_lhs => rw [field]
        rw [append_assoc]
        congr 1
        rw [header, Nat.add_assoc, ← drop_drop, ← drop_drop, take_append_drop]
      · rw [← prev_eq]
        exact small
      · rw [rawlen]
        exact fits
      · intro slot member
        rcases mem_cons.mp member with rfl | member
        · exact ⟨value, reads, rfl⟩
        · exact ok slot member
      · rw [visitSlots, rawlen, prev_eq]

theorem encode_of_read {bytes : Bytes} {offset width : Nat} {n : Nat} (read_eq : read zl offset width = some bytes)
    (value : LittleEndian.decode bytes = n) : (zl.drop offset).take width = LittleEndian.encode width n ∧ n < 256 ^ width := by
  unfold Buffer.read at read_eq
  split at read_eq
  next within =>
    cases read_eq
    have length : ((zl.drop offset).take width).length = width := by
      simp only [length_take, length_drop]
      omega
    have back := LittleEndian.encode_decode ((zl.drop offset).take width)
    have small := LittleEndian.decode_lt ((zl.drop offset).take width)
    rw [length, value] at back small
    exact ⟨back.symm, small⟩
  next => cases read_eq

theorem WellFormed.slots {visited : List Visit} (formed : WellFormed zl visited) :
    ∃ slots count, zl = renderCells count (slots.map Slot.cell) ∧ CellsFit 0 (slots.map Slot.cell) ∧
      (∀ slot ∈ slots, slot.Ok) ∧ visited = visitSlots 10 0 slots ∧ cellsLen (slots.map Slot.cell) + 11 < 2 ^ 32 ∧
      ziplistLength zl = some count ∧ count < 65536 ∧ (count < 65535 → count = slots.length) := by
  obtain ⟨slots, rest, shape, fits, ok, rfl⟩ := visitFrom_shape _ _ 0 visited formed.walk formed.prevlens
  obtain ⟨count, length, counted⟩ := formed.length
  have tiles := formed.tiles
  rw [map_rawlen_visitSlots, ziplistHeaderSize] at tiles
  have tail := formed.tail
  rw [ziplistHeaderSize, last_offset_visitSlots] at tail
  obtain ⟨bytes_field, read_bytes, bytes_value⟩ := map_eq_some_iff.mp formed.bytes
  obtain ⟨tail_field, read_tail, tail_value⟩ := map_eq_some_iff.mp tail
  obtain ⟨length_field, read_length, length_value⟩ := map_eq_some_iff.mp length
  obtain ⟨bytes_eq, bytes_bound⟩ := encode_of_read read_bytes bytes_value
  obtain ⟨tail_eq, _⟩ := encode_of_read read_tail tail_value
  obtain ⟨length_eq, count_bound⟩ := encode_of_read read_length length_value
  have size : cellsLen (slots.map Slot.cell) + 11 = zl.length := by
    rw [cellsLen]
    omega
  have total := congrArg List.length shape
  rw [ziplistHeaderSize] at shape
  simp only [ziplistHeaderSize, length_drop, length_append, length_encodeCells, length_cons] at total
  obtain rfl : rest = [] := length_eq_zero_iff.mp (by omega)
  have same := congrArg List.length (map_rawlen_visitSlots 10 0 slots)
  simp only [length_map] at same
  refine ⟨slots, count, ?_, fits, ok, rfl, by omega, length, by omega, fun short => (counted short).trans same⟩
  rw [renderCells, image, length_encodeCells, size, ← bytes_eq, ← tail_eq, ← length_eq, ← shape]
  simp only [drop_zero]
  rw [← drop_drop (i := 2) (j := 8), take_append_drop, ← drop_drop (i := 4) (j := 4), take_append_drop,
    take_append_drop]

end RedisCore.Ziplist
