import RedisCore.Ziplist.Operations
import RedisCore.Ziplist.Entry

set_option autoImplicit false

namespace RedisCore.Ziplist

open Buffer List

-- An entry without the value of its prevlen field, which its predecessor determines.
structure Item where
  wide : Bool
  value : Bytes
  deriving DecidableEq, Repr

def Item.prevlensize (item : Item) : Nat := if item.wide then 5 else 1

def Item.rawlen (item : Item) : Nat := item.prevlensize + (zipEntryBody item.value).length

def storePrevlen (wide : Bool) (prevlen : Nat) : Bytes :=
  if wide then zipStorePrevEntryLengthLarge prevlen else [UInt8.ofNat prevlen]

def Item.encode (prevlen : Nat) (item : Item) : Bytes :=
  storePrevlen item.wide prevlen ++ zipEntryBody item.value

def encodeItems : Nat → List Item → Bytes
  | _, [] => []
  | prevlen, item :: items => item.encode prevlen ++ encodeItems item.rawlen items

def itemsLen (items : List Item) : Nat := (items.map Item.rawlen).sum

def lastRawlen (prevlen : Nat) (items : List Item) : Nat :=
  (items.getLast?.map Item.rawlen).getD prevlen

def Fits : Nat → List Item → Prop
  | _, [] => True
  | prevlen, item :: items =>
    (item.wide = false → prevlen < zipBigPrevlen) ∧ Fits item.rawlen items

@[simp] theorem length_storePrevlen (wide : Bool) (prevlen : Nat) :
    (storePrevlen wide prevlen).length = if wide then 5 else 1 := by
  cases wide <;> simp [storePrevlen, zipStorePrevEntryLengthLarge]

@[simp] theorem Item.length_encode (prevlen : Nat) (item : Item) :
    (item.encode prevlen).length = item.rawlen := by
  simp [Item.encode, Item.rawlen, Item.prevlensize]

@[simp] theorem length_encodeItems (prevlen : Nat) (items : List Item) :
    (encodeItems prevlen items).length = itemsLen items := by
  induction items generalizing prevlen with
  | nil => rfl
  | cons item items ih => simp [encodeItems, itemsLen, ih]

@[simp] theorem itemsLen_nil : itemsLen [] = 0 := rfl

@[simp] theorem itemsLen_cons (item : Item) (items : List Item) :
    itemsLen (item :: items) = item.rawlen + itemsLen items := by
  simp [itemsLen]

@[simp] theorem itemsLen_append (front items : List Item) :
    itemsLen (front ++ items) = itemsLen front + itemsLen items := by
  simp [itemsLen]

@[simp] theorem lastRawlen_nil (prevlen : Nat) : lastRawlen prevlen [] = prevlen := rfl

@[simp] theorem lastRawlen_cons (prevlen : Nat) (item : Item) (items : List Item) :
    lastRawlen prevlen (item :: items) = lastRawlen item.rawlen items := by
  cases items <;> simp [lastRawlen, getLast?_cons]

theorem encodeItems_append (prevlen : Nat) (front items : List Item) : encodeItems prevlen (front ++ items) =
      encodeItems prevlen front ++ encodeItems (lastRawlen prevlen front) items := by
  induction front generalizing prevlen with
  | nil => rfl
  | cons item front ih => simp [encodeItems, ih]

theorem fits_append (prevlen : Nat) (front items : List Item) :
    Fits prevlen (front ++ items) ↔ Fits prevlen front ∧ Fits (lastRawlen prevlen front) items := by
  induction front generalizing prevlen with
  | nil => simp [Fits]
  | cons item front ih => simp [Fits, ih, and_assoc]

theorem Item.rawlen_pos (item : Item) : 2 ≤ item.rawlen := by
  have body := zipEntryBody_length_pos item.value
  unfold Item.rawlen Item.prevlensize
  split <;> omega

section

variable {wide : Bool} {prevlen : Nat} (rest : Bytes) (fits : wide = false → prevlen < zipBigPrevlen)

include fits

theorem storePrevlen_head :
    ∃ first tail, storePrevlen wide prevlen ++ rest = first :: tail ∧ first ≠ zipEnd ∧
      (first.toNat < zipBigPrevlen ↔ wide = false) := by
  cases wide with
  | false =>
    have small : prevlen < 254 := fits rfl
    have value : (UInt8.ofNat prevlen).toNat = prevlen := by
      rw [UInt8.toNat_ofNat']
      omega
    refine ⟨UInt8.ofNat prevlen, rest, rfl, ?_, by simp [value, fits]⟩
    intro same
    rw [same] at value
    have : (255 : Nat) = prevlen := value
    omega
  | true =>
    refine ⟨UInt8.ofNat zipBigPrevlen, _, rfl, by decide, by decide⟩

theorem zipDecodePrevlensize_store :
    zipDecodePrevlensize (storePrevlen wide prevlen ++ rest) = some (if wide then 5 else 1) := by
  obtain ⟨first, tail, shape, _, width⟩ := storePrevlen_head rest fits
  rw [shape]
  cases wide <;> simp [zipDecodePrevlensize, width]

theorem zipDecodePrevlen_store (bound : prevlen < 2 ^ 32) : zipDecodePrevlen (storePrevlen wide prevlen ++ rest) =
      some (if wide then 5 else 1, prevlen) := by
  cases wide with
  | false =>
    have small : prevlen < 254 := fits rfl
    have value : (UInt8.ofNat prevlen).toNat = prevlen := by
      rw [UInt8.toNat_ofNat']
      omega
    simp [storePrevlen, zipDecodePrevlen, value, fits]
  | true =>
    have large : ¬(UInt8.ofNat zipBigPrevlen).toNat < zipBigPrevlen := by decide
    have four : (LittleEndian.encode 4 prevlen ++ rest).take 4 = LittleEndian.encode 4 prevlen := by
      rw [take_append_of_le_length (by simp), take_of_length_le (by simp)]
    simp only [storePrevlen, if_true, zipStorePrevEntryLengthLarge, cons_append,
      zipDecodePrevlen, large, if_false, four, length_append, LittleEndian.length_encode]
    rw [if_neg (by omega), LittleEndian.decode_encode_of_lt (by norm_num; exact bound)]

end

section

variable {item : Item} {prevlen : Nat} (rest : Bytes)

theorem zipRawEntryLength_encode
    (fits : item.wide = false → prevlen < zipBigPrevlen) (short : item.value.length < 2 ^ 32) :
    zipRawEntryLength (item.encode prevlen ++ rest) = some item.rawlen := by
  obtain ⟨body⟩ := zipEntryBody_read rest short
  have payload : (item.encode prevlen ++ rest).drop item.prevlensize =
      zipEntryBody item.value ++ rest := by
    rw [Item.encode, append_assoc, Item.prevlensize, ← length_storePrevlen item.wide prevlen, drop_left]
  have size : zipDecodePrevlensize (item.encode prevlen ++ rest) = some item.prevlensize := by
    rw [Item.encode, append_assoc]
    exact zipDecodePrevlensize_store _ fits
  simp only [zipRawEntryLength, size, some_bind, payload, body.decoded,
    Item.rawlen, ← body.size]
  rw [Nat.add_assoc]
  rfl

theorem Item.encode_head (fits : item.wide = false → prevlen < zipBigPrevlen) :
    ∃ first, (item.encode prevlen ++ rest).head? = some first ∧ first ≠ zipEnd := by
  rw [Item.encode, append_assoc]
  obtain ⟨first, tail, shape, distinct, _⟩ :=
    storePrevlen_head (zipEntryBody item.value ++ rest) fits
  exact ⟨first, by rw [shape]; rfl, distinct⟩

theorem zipEntry_fields (body : BodyRead item.value rest)
    (fits : item.wide = false → prevlen < zipBigPrevlen) (bound : prevlen < 2 ^ 32) :
    zipEntry (item.encode prevlen ++ rest) =
        some ⟨item.prevlensize, prevlen, body.lensize, body.len, item.prevlensize + body.lensize, body.encoding⟩ ∧
      (item.encode prevlen ++ rest).drop (item.prevlensize + body.lensize) =
        (zipEntryBody item.value ++ rest).drop body.lensize := by
  have payload : (item.encode prevlen ++ rest).drop item.prevlensize =
      zipEntryBody item.value ++ rest := by
    rw [Item.encode, append_assoc, Item.prevlensize, ← length_storePrevlen item.wide prevlen, drop_left]
  have prev : zipDecodePrevlen (item.encode prevlen ++ rest) = some (item.prevlensize, prevlen) := by
    rw [Item.encode, append_assoc]
    exact zipDecodePrevlen_store _ fits bound
  refine ⟨by simp [zipEntry, prev, payload, body.decoded], ?_⟩
  rw [← drop_drop, payload]

end

section

variable {item : Item} {prevlen : Nat} (rest : Bytes) (fits : item.wide = false → prevlen < zipBigPrevlen)
  (bound : prevlen < 2 ^ 32) (short : item.value.length < 2 ^ 32)

include fits bound short

theorem zipEntry_encode :
    ∃ entry, zipEntry (item.encode prevlen ++ rest) = some entry ∧
      entry.prevrawlensize = item.prevlensize ∧ entry.prevrawlen = prevlen ∧
      entry.headersize + entry.len = item.rawlen := by
  obtain ⟨body⟩ := zipEntryBody_read rest short
  refine ⟨_, (zipEntry_fields rest body fits bound).1, rfl, rfl, ?_⟩
  simp only [Item.rawlen, ← body.size]
  omega

theorem ziplistGet_encode :
    ziplistGet (item.encode prevlen ++ rest) = some (entryValue item.value) := by
  obtain ⟨body⟩ := zipEntryBody_read rest short
  obtain ⟨first, head, distinct⟩ := item.encode_head rest fits
  obtain ⟨entry, payload⟩ := zipEntry_fields rest body fits bound
  have read := body.read
  rw [← payload] at read
  simpa [ziplistGet, head, distinct, entry] using read

end

theorem ziplistCompare_encode {item : Item} {prevlen : Nat} (rest s : Bytes)
    (fits : item.wide = false → prevlen < zipBigPrevlen) (bound : prevlen < 2 ^ 32)
    (short : item.value.length < 2 ^ 32) :
    ziplistCompare (item.encode prevlen ++ rest) s = some (decide (item.value = s)) := by
  have got := ziplistGet_encode rest fits bound short
  have compared := ziplistCompare_get _ s got
  rwa [toBytes_entryValue] at compared

-- A buffer whose zlbytes field and terminator are right, whatever stands between.
def image (tail count : Nat) (body : Bytes) : Bytes :=
  LittleEndian.encode 4 (body.length + 11) ++
    (LittleEndian.encode 4 tail ++ (LittleEndian.encode 2 count ++ (body ++ [zipEnd])))

def fields (bytes tail count : Nat) : Bytes :=
  LittleEndian.encode 4 bytes ++ (LittleEndian.encode 4 tail ++ LittleEndian.encode 2 count)

@[simp] theorem length_fields (bytes tail count : Nat) : (fields bytes tail count).length = 10 := by
  simp [fields]

theorem image_eq (tail count : Nat) (body : Bytes) :
    image tail count body = fields (body.length + 11) tail count ++ (body ++ [zipEnd]) := by
  simp [image, fields]

@[simp] theorem length_image (tail count : Nat) (body : Bytes) :
    (image tail count body).length = body.length + 11 := by
  simp [image]
  omega

theorem ziplistNew_eq : ziplistNew = image 10 0 [] := rfl

section

variable (tail count : Nat) (body : Bytes)

theorem ziplistBytes_image (bound : body.length + 11 < 2 ^ 32) :
    ziplistBytes (image tail count body) = some (body.length + 11) := by
  have field := read_append [] (LittleEndian.encode 4 (body.length + 11))
    (LittleEndian.encode 4 tail ++ (LittleEndian.encode 2 count ++ (body ++ [zipEnd]))) 0 4 rfl
    (by simp)
  rw [nil_append] at field
  rw [ziplistBytes, image, field, Option.map_some,
    LittleEndian.decode_encode_of_lt (by norm_num; exact bound)]

theorem ziplistTailOffset_mod :
    ziplistTailOffset (image tail count body) = some (tail % 2 ^ 32) := by
  rw [ziplistTailOffset, image, read_append _ _ _ 4 4 (by simp) (by simp), Option.map_some,
    LittleEndian.decode_encode]
  norm_num

theorem ziplistTailOffset_image (bound : tail < 2 ^ 32) :
    ziplistTailOffset (image tail count body) = some tail := by
  rw [ziplistTailOffset_mod, Nat.mod_eq_of_lt bound]

theorem ziplistLength_image (bound : count < 65536) :
    ziplistLength (image tail count body) = some count := by
  rw [ziplistLength, image, ← append_assoc, read_append _ _ _ 8 2 (by simp) (by simp),
    Option.map_some, LittleEndian.decode_encode_of_lt (by norm_num; exact bound)]

end

-- The uint32 field wraps, so an intermediate offset only has to be right modulo 2^32.
theorem setZiplistTailOffset_mod (tail tail' count : Nat) (offset : Int) (body : Bytes)
    (value : offset % 2 ^ 32 = (tail' : Int) % 2 ^ 32) :
    setZiplistTailOffset (image tail count body) offset = some (image tail' count body) := by
  rw [setZiplistTailOffset, LittleEndian.encodeInt_congr (by norm_num at value ⊢; exact value),
    LittleEndian.encodeInt_natCast, image, write_append _ _ _ _ 4 (by simp) (by simp), image]

theorem setZiplistTailOffset_image (tail tail' count : Nat) (offset : Int) (body : Bytes) (value : offset = tail') :
    setZiplistTailOffset (image tail count body) offset = some (image tail' count body) :=
  setZiplistTailOffset_mod tail tail' count offset body (by rw [value])

theorem setZiplistLength_image (tail count : Nat) {count' : Nat} {length : Int} (body : Bytes) (value : length = count') :
    setZiplistLength (image tail count body) length = some (image tail count' body) := by
  rw [setZiplistLength, value, LittleEndian.encodeInt_natCast, image, ← append_assoc,
    write_append _ _ _ _ 8 (by simp) (by simp), append_assoc, image]

theorem drop_image (tail count offset : Nat) (body : Bytes) :
    (image tail count body).drop (10 + offset) = (body ++ [zipEnd]).drop offset := by
  have width := length_fields (body.length + 11) tail count
  rw [image_eq, ← drop_drop]
  conv_lhs => rw [← width, drop_left]

theorem drop_image_append (tail count p : Nat) (front rest : Bytes) (at_front : p = 10 + front.length) :
    (image tail count (front ++ rest)).drop p = rest ++ [zipEnd] := by
  rw [at_front, drop_image, append_assoc, drop_left]

theorem getElem?_image (tail count p : Nat) (front rest : Bytes) (at_front : p = 10 + front.length) :
    (image tail count (front ++ rest))[p]? = (rest ++ [zipEnd]).head? := by
  rw [← drop_image_append tail count p front rest at_front, head?_drop]

theorem write_image (tail count p : Nat) (front old bytes rest : Bytes)
    (at_front : p = 10 + front.length) (same : bytes.length = old.length) :
    write (image tail count (front ++ (old ++ rest))) p bytes =
      some (image tail count (front ++ (bytes ++ rest))) := by
  have length : (front ++ (bytes ++ rest)).length = (front ++ (old ++ rest)).length := by
    simp [same]
  rw [image_eq, image_eq, length]
  have whole (middle : Bytes) :
      fields ((front ++ (old ++ rest)).length + 11) tail count ++ (front ++ (middle ++ rest) ++ [zipEnd]) =
        (fields ((front ++ (old ++ rest)).length + 11) tail count ++ front) ++
          (middle ++ (rest ++ [zipEnd])) := by simp
  rw [whole old, whole bytes]
  exact write_append _ _ _ _ p (by simp [at_front]) same

def slack : Nat → Bytes
  | 0 => []
  | extra + 1 => zipEnd :: List.replicate extra 0

@[simp] theorem length_slack (extra : Nat) : (slack extra).length = extra := by
  cases extra <;> simp [slack]

theorem slack_append (extra : Nat) (front : Bytes) :
    ∃ last, front ++ (zipEnd :: List.replicate extra 0) = front ++ (slack extra ++ [last]) := by
  cases extra with
  | zero => exact ⟨zipEnd, rfl⟩
  | succ extra => exact ⟨0, by rw [replicate_succ']; rfl⟩

theorem setZiplistBytes_fields (bytes bytes' tail count : Nat) (rest : Bytes) :
    setZiplistBytes (fields bytes tail count ++ rest) bytes' =
      some (fields bytes' tail count ++ rest) := by
  have step := write_append [] (LittleEndian.encode 4 bytes) (LittleEndian.encode 4 bytes')
    (LittleEndian.encode 4 tail ++ LittleEndian.encode 2 count ++ rest) 0 rfl (by simp)
  simpa [setZiplistBytes, fields] using step

theorem ziplistResize_grow (tail count len extra : Nat) (body : Bytes) (size : len = body.length + 11 + extra) :
    ziplistResize (image tail count body) len = some (image tail count (body ++ slack extra)) := by
  have grown : realloc 0 (image tail count body) len =
      fields (body.length + 11) tail count ++ (body ++ (zipEnd :: List.replicate extra 0)) := by
    have step := realloc_grow 0 (image tail count body) extra
    rw [length_image, ← size] at step
    rw [step, image_eq]
    simp
  obtain ⟨last, shape⟩ := slack_append extra body
  have same : (body ++ slack extra).length + 11 = len := by simp; omega
  rw [ziplistResize, grown, shape, setZiplistBytes_fields, image_eq, same]
  have final := write_append (fields len tail count ++ (body ++ slack extra)) [last] [zipEnd] []
    (len - 1) (by simp; omega) rfl
  simpa using final

theorem ziplistResize_shrink (tail count len : Nat) (body rest : Bytes) (size : len = body.length + 11) :
    ziplistResize (image tail count (body ++ rest)) len = some (image tail count body) := by
  obtain ⟨last, rest', shape⟩ : ∃ last rest', rest ++ [zipEnd] = last :: rest' := by
    cases rest with
    | nil => exact ⟨zipEnd, [], rfl⟩
    | cons head rest => exact ⟨head, rest ++ [zipEnd], rfl⟩
  have cut : realloc 0 (image tail count (body ++ rest)) len =
      fields ((body ++ rest).length + 11) tail count ++ (body ++ [last]) := by
    rw [image_eq, append_assoc body, shape]
    have step := realloc_shrink 0
      (fields ((body ++ rest).length + 11) tail count ++ (body ++ [last])) rest'
    have length : (fields ((body ++ rest).length + 11) tail count ++ (body ++ [last])).length = len := by
      simp; omega
    rw [length] at step
    rw [← step]
    simp
  rw [ziplistResize, cut, setZiplistBytes_fields, image_eq, ← size]
  have final := write_append (fields len tail count ++ body) [last] [zipEnd] [] (len - 1)
    (by simp; omega) rfl
  simpa using final

theorem split_length (bytes : Bytes) (n : Nat) (within : n ≤ bytes.length) :
    ∃ front rest, bytes = front ++ rest ∧ front.length = n ∧ rest.length = bytes.length - n :=
  ⟨bytes.take n, bytes.drop n, (take_append_drop n bytes).symm, by simp [within], by simp⟩

theorem read_image (tail count source length : Nat) (front bytes rest : Bytes)
    (at_front : source = 10 + front.length) (whole : length = bytes.length) :
    read (image tail count (front ++ (bytes ++ rest))) source length = some bytes := by
  rw [image_eq, append_assoc, append_assoc, ← append_assoc (fields _ _ _)]
  exact read_append _ _ _ source length (by simp [at_front]) whole

-- Growing a prevlen field moves four bytes too many; at the head they come from the header.
theorem read_image_before (tail count source length : Nat) (front bytes rest : Bytes)
    (at_front : source + 4 = 10 + front.length) (whole : length = bytes.length + 4) :
    ∃ junk : Bytes, junk.length = 4 ∧
      read (image tail count (front ++ (bytes ++ rest))) source length = some (junk ++ bytes) := by
  let before := fields ((front ++ (bytes ++ rest)).length + 11) tail count ++ front
  have length_before : before.length = 10 + front.length := by simp [before]
  obtain ⟨start, junk, shape, length_start, length_junk⟩ :=
    split_length before source (by omega)
  have four : junk.length = 4 := by omega
  refine ⟨junk, four, ?_⟩
  have whole_image : image tail count (front ++ (bytes ++ rest)) =
      start ++ ((junk ++ bytes) ++ (rest ++ [zipEnd])) := by
    have regroup : image tail count (front ++ (bytes ++ rest)) =
        before ++ (bytes ++ (rest ++ [zipEnd])) := by
      simp [image_eq, before]
    rw [regroup, shape]
    simp
  rw [whole_image]
  exact read_append _ _ _ source length length_start.symm (by simp; omega)

theorem move_image (tail count target source length : Nat) (front old rest bytes : Bytes)
    (moved : read (image tail count (front ++ (old ++ rest))) source length = some bytes)
    (at_front : target = 10 + front.length) (same : bytes.length = old.length) :
    move (image tail count (front ++ (old ++ rest))) target source length =
      some (image tail count (front ++ (bytes ++ rest))) := by
  rw [move, moved, Option.bind_some]
  exact write_image tail count target front old bytes rest at_front same

end RedisCore.Ziplist
