import RedisCore.Ziplist.Cascade

set_option autoImplicit false

namespace RedisCore.Ziplist

open Buffer List

variable {front : List Item}

def render (count : Nat) (items : List Item) : Bytes :=
  image (10 + itemsLen items.dropLast) count (encodeItems 0 items)

def followItems (width : Item → Bool) : List Item → List Item
  | [] => []
  | next :: items =>
    { next with wide := width next } ::
      (if width next = next.wide then items
        else cascadeItems { next with wide := width next : Item }.rawlen items)

def newItem (prevlen : Nat) (s : Bytes) : Item :=
  { wide := decide (zipBigPrevlen ≤ prevlen), value := s }

-- Shrinking the field would leave no room for a new entry of two or three bytes.
def forceLarge (next : Item) (reqlen : Nat) : Bool := next.wide && decide (reqlen < 4)

def newWidth (reqlen : Nat) (next : Item) : Bool :=
  forceLarge next reqlen || decide (zipBigPrevlen ≤ reqlen)

def insertItems (front rest : List Item) (s : Bytes) : List Item :=
  let item := newItem (lastRawlen 0 front) s
  front ++ item :: followItems (newWidth item.rawlen) rest

theorem fits_follow (width : Item → Bool) {stale rawlen : Nat} {items : List Item}
    (fits : Fits stale items) (small : ∀ next, width next = false → rawlen < zipBigPrevlen) :
    Fits rawlen (followItems width items) := by
  cases items with
  | nil => trivial
  | cons next items =>
    refine ⟨fun narrow => small next narrow, ?_⟩
    split
    next same =>
      have stay : { next with wide := width next : Item } = next := by rw [same]
      rw [stay]
      exact fits.2
    next => exact fits_cascade _ fits.2

theorem map_value_follow (width : Item → Bool) (items : List Item) :
    (followItems width items).map Item.value = items.map Item.value := by
  cases items with
  | nil => rfl
  | cons next items =>
    rw [followItems]
    split <;> simp [map_value_cascade]

theorem newWidth_false (reqlen : Nat) (next : Item) (narrow : newWidth reqlen next = false) :
    reqlen < zipBigPrevlen := by
  have parts := Bool.or_eq_false_iff.mp narrow
  have := of_decide_eq_false parts.2
  omega

theorem fits_insert {rest : List Item} (s : Bytes) (fits : Fits 0 (front ++ rest)) :
    Fits 0 (insertItems front rest s) := by
  obtain ⟨before, after⟩ := (fits_append 0 front rest).mp fits
  refine (fits_append 0 front _).mpr ⟨before, fun narrow => ?_, ?_⟩
  · have := of_decide_eq_false narrow
    omega
  · exact fits_follow _ after (newWidth_false _)

theorem map_value_insert (front rest : List Item) (s : Bytes) :
    (insertItems front rest s).map Item.value = front.map Item.value ++ s :: rest.map Item.value := by
  simp [insertItems, newItem, map_value_follow]

theorem insertPayload_eq (s : Bytes) :
    ∃ data, insertPayload s = some data ∧ insertPayloadSize s = some data.length ∧
      zipEntryBody s = zipStoreEntryEncoding (insertEncoding s) s.length ++ data := by
  cases encoded : zipTryEncoding s with
  | none => exact ⟨s, by simp [insertPayload, encoded], by simp [insertPayloadSize, encoded],
      by simp [zipEntryBody, insertEncoding, encoded]⟩
  | some result =>
    obtain ⟨value, encoding⟩ := result
    obtain ⟨same, range, _⟩ := zipTryEncoding_spec encoded
    obtain ⟨data, saved, size, _⟩ := zipSaveInteger_load range
    rw [← same] at saved size
    exact ⟨data, by simp [insertPayload, encoded, saved], by simp [insertPayloadSize, encoded, size],
      by simp [zipEntryBody, insertEncoding, encoded, saved]⟩

theorem insertReqlen_eq (prevlen : Nat) (s : Bytes) :
    insertReqlen prevlen s = some (newItem prevlen s).rawlen := by
  have width : zipPrevEntryLengthSize prevlen = (newItem prevlen s).prevlensize := by
    rw [zipPrevEntryLengthSize_eq]
    simp [newItem, Item.prevlensize]
  obtain ⟨data, _, size, body⟩ := insertPayload_eq s
  have length := congrArg List.length body
  rw [length_append] at length
  simp only [insertReqlen, size, some_bind, width, Item.rawlen]
  rw [show (newItem prevlen s).value = s from rfl, length]
  exact congrArg some (by omega)

theorem insertWrite_image (tail count : Nat) {p : Nat} (prevlen : Nat) {front : Bytes} (gap rest s : Bytes)
    (at_front : p = 10 + front.length) (room : gap.length = (newItem prevlen s).rawlen) :
    insertWrite (image tail count (front ++ (gap ++ rest))) p prevlen s =
      some (image tail count (front ++ ((newItem prevlen s).encode prevlen ++ rest))) := by
  obtain ⟨data, payload, _, body⟩ := insertPayload_eq s
  let header := zipStoreEntryEncoding (insertEncoding s) s.length
  let prev := zipStorePrevEntryLength prevlen
  have stored : prev = storePrevlen (newItem prevlen s).wide prevlen := zipStorePrevEntryLength_eq prevlen
  have width : prev.length = (newItem prevlen s).prevlensize := by
    rw [stored, length_storePrevlen, Item.prevlensize]
  have total : gap.length = prev.length + header.length + data.length := by
    rw [room, Item.rawlen, width, show (newItem prevlen s).value = s from rfl, body, length_append, Nat.add_assoc]
  obtain ⟨gap₁, gap', shape₁, length₁, rest₁⟩ := split_length gap prev.length (by omega)
  obtain ⟨gap₂, gap₃, shape₂, length₂, rest₂⟩ := split_length gap' header.length (by omega)
  have first := write_image tail count p front gap₁ prev (gap₂ ++ (gap₃ ++ rest)) at_front length₁.symm
  have second := write_image tail count (p + prev.length) (front ++ prev) gap₂ header (gap₃ ++ rest)
    (by simp [at_front]; omega) length₂.symm
  have third := write_image tail count (p + prev.length + header.length) (front ++ prev ++ header)
    gap₃ data rest (by simp [at_front]; omega) (by omega)
  have encode : (newItem prevlen s).encode prevlen = prev ++ (header ++ data) := by
    rw [Item.encode, ← stored, show (newItem prevlen s).value = s from rfl, body]
  rw [insertWrite, shape₁, shape₂, encode]
  simp only [append_assoc] at first second third ⊢
  simp only [Option.bind_eq_bind]
  rw [show zipStorePrevEntryLength prevlen = prev from rfl,
    show zipStoreEntryEncoding (insertEncoding s) s.length = header from rfl, first, Option.bind_some,
    second, Option.bind_some, payload, Option.bind_some, third]

theorem head_encodeItems {prevlen : Nat} {items : List Item} (fits : Fits prevlen items) :
    (encodeItems prevlen items ++ [zipEnd]).head? = some zipEnd ↔ items = [] := by
  cases items with
  | nil => simp [encodeItems]
  | cons item items =>
    obtain ⟨first, head, distinct⟩ :=
      item.encode_head (encodeItems item.rawlen items ++ [zipEnd]) fits.1
    simp [encodeItems, append_assoc, head, distinct]

theorem adjustTail_image (tail tail' count p pr stale : Nat) (nextdiff : Int) (front : Bytes)
    (item : Item) (items : List Item) (fits : item.wide = false → pr < zipBigPrevlen)
    (pr_bound : pr < 2 ^ 32) (short : item.value.length < 2 ^ 32) (stale_fits : Fits stale items)
    (at_front : p = 10 + front.length)
    (moved : (tail' : Int) = if items = [] then (tail : Int) else tail + nextdiff) :
    adjustTail (image tail count (front ++ (item.encode pr ++ encodeItems stale items))) p nextdiff =
      some (image tail' count (front ++ (item.encode pr ++ encodeItems stale items))) := by
  obtain ⟨entry, decoded, _, _, rawlen⟩ :=
    zipEntry_encode (encodeItems stale items ++ [zipEnd]) fits pr_bound short
  have after := getElem?_image tail count (p + item.rawlen) (front ++ item.encode pr)
    (encodeItems stale items) (by simp [at_front]; omega)
  rw [append_assoc] at after
  have at_end := head_encodeItems stale_fits
  rw [adjustTail, drop_image_append tail count p front _ at_front, append_assoc, decoded]
  simp only [some_bind, Nat.add_assoc, rawlen, after, ziplistTailOffset_mod tail count]
  cases items with
  | nil =>
    have same : tail' = tail := by simpa using moved
    simp [encodeItems, same]
  | cons next items =>
    obtain ⟨first, head⟩ : ∃ first, (encodeItems stale (next :: items) ++ [zipEnd]).head? = some first := by
      rw [encodeItems, append_assoc]
      obtain ⟨first, head, _⟩ := next.encode_head (encodeItems next.rawlen items ++ [zipEnd])
        stale_fits.1
      exact ⟨first, head⟩
    have distinct : first ≠ zipEnd := by
      rintro rfl
      exact absurd (at_end.mp head) (by simp)
    rw [head]
    simp only [some_bind, ne_eq, distinct, not_false_eq_true, if_true]
    rw [if_neg (by simp)] at moved
    exact setZiplistTailOffset_mod tail tail' count _ _ (by rw [moved]; push_cast; simp)

def widthDiff (old new : Bool) : Int := (if new then 5 else 1) - (if old then 5 else 1)

theorem read_shifted (tail count p length stale : Nat) {front bytes : Bytes} (rest : Bytes) (old new : Bool)
    (at_front : p = 10 + front.length) (whole : length = (if new then 5 else 1) + bytes.length) :
    ∃ junk : Bytes, junk.length = (if new then 5 else 1) ∧
      read (image tail count (front ++ (storePrevlen old stale ++ (bytes ++ rest))))
        ((p : Int) - widthDiff old new).toNat length = some (junk ++ bytes) := by
  cases old <;> cases new
  · refine ⟨storePrevlen false stale, by simp, ?_⟩
    rw [← append_assoc (storePrevlen _ _)]
    exact read_image tail count _ length front _ rest (by simp [widthDiff, at_front]; omega) (by simpa using whole)
  · obtain ⟨junk, four, read⟩ := read_image_before tail count ((p : Int) - 4).toNat length front
      (storePrevlen false stale ++ bytes) rest (by omega) (by simp at whole ⊢; omega)
    refine ⟨junk ++ storePrevlen false stale, by simp [four], ?_⟩
    rw [← append_assoc (storePrevlen _ _), append_assoc junk]
    simpa [widthDiff] using read
  · obtain ⟨skipped, last, shape, four, one⟩ := split_length (storePrevlen true stale) 4 (by simp)
    refine ⟨last, by simpa using one, ?_⟩
    have read := read_image tail count (p + 4) length (front ++ skipped) (last ++ bytes) rest
      (by simp [at_front, four]; omega) (by simp at whole one ⊢; omega)
    have source : ((p : Int) - widthDiff true false).toNat = p + 4 := by simp [widthDiff]; omega
    rw [shape, source]
    simpa using read
  · refine ⟨storePrevlen true stale, by simp, ?_⟩
    rw [← append_assoc (storePrevlen _ _)]
    exact read_image tail count _ length front _ rest (by simp [widthDiff, at_front]; omega) (by simpa using whole)

theorem insertShift_end (tail count curlen : Nat) {p : Nat} (reqlen : Nat) (nextdiff : Int) (force : Bool)
    {front : Bytes} {rest : Bytes} (at_front : p = 10 + front.length)
    (at_end : (rest ++ [zipEnd]).head? = some zipEnd) :
    insertShift (image tail count (front ++ rest)) curlen p reqlen nextdiff force =
      some (image p count (front ++ rest)) := by
  rw [insertShift, getElem?_image tail count p front rest at_front, at_end]
  simp only [some_bind, ne_eq, not_true_eq_false, if_false]
  exact setZiplistTailOffset_image tail p count p _ rfl

theorem insertShift_image {tail tail' : Nat} (count curlen : Nat) {p reqlen stale : Nat} (force new : Bool)
    (front rest : Bytes) {next : Item} {items : List Item}
    (fits : next.wide = false → stale < zipBigPrevlen)
    (new_fits : new = false → reqlen < zipBigPrevlen) (reqlen_bound : reqlen < 2 ^ 32)
    (short : next.value.length < 2 ^ 32) (rest_fits : Fits next.rawlen items)
    (tail_bound : tail < 2 ^ 32) (at_front : p = 10 + front.length)
    (size : curlen = front.length + next.rawlen + itemsLen items + 11)
    (room : (rest.length : Int) = reqlen + widthDiff next.wide new)
    (store : (if force then zipStorePrevEntryLengthLarge reqlen else zipStorePrevEntryLength reqlen) =
      storePrevlen new reqlen)
    (moved : (tail' : Int) = if items = [] then (tail + reqlen : Int)
      else tail + reqlen + widthDiff next.wide new) :
    ∃ gap : Bytes, gap.length = reqlen ∧ insertShift
          (image tail count (front ++ (next.encode stale ++ (encodeItems next.rawlen items ++ rest))))
          curlen p reqlen (widthDiff next.wide new) force =
        some (image tail' count (front ++ (gap ++
          ({ next with wide := new : Item }.encode reqlen ++ encodeItems next.rawlen items)))) := by
  obtain ⟨first, head, distinct⟩ :=
    next.encode_head (encodeItems next.rawlen items ++ rest ++ [zipEnd]) fits
  have length : (((curlen : Int) - p - 1 + widthDiff next.wide new).toNat) =
      (if new then 5 else 1) + (zipEntryBody next.value ++ encodeItems next.rawlen items).length := by
    simp only [length_append, length_encodeItems]
    simp only [Item.rawlen, Item.prevlensize] at size
    simp only [widthDiff]
    cases new <;> cases wide : next.wide <;> simp [wide] at size ⊢ <;> omega
  obtain ⟨junk, length_junk, read⟩ := read_shifted tail count p _ stale rest next.wide new at_front length
  have total : (next.encode stale ++ (encodeItems next.rawlen items ++ rest)).length =
      reqlen + (junk ++ (zipEntryBody next.value ++ encodeItems next.rawlen items)).length := by
    simp only [length_append, length_encodeItems, length_junk, Item.length_encode, Item.rawlen,
      Item.prevlensize]
    simp only [widthDiff] at room
    cases new <;> cases wide : next.wide <;> simp [wide] at room ⊢ <;> omega
  obtain ⟨gap, old, shape, length_gap, length_old⟩ :=
    split_length (next.encode stale ++ (encodeItems next.rawlen items ++ rest)) reqlen (by omega)
  refine ⟨gap, length_gap, ?_⟩
  have regroup : front ++ (next.encode stale ++ (encodeItems next.rawlen items ++ rest)) =
      (front ++ gap) ++ (old ++ []) := by rw [shape]; simp
  have spread : front ++ (next.encode stale ++ (encodeItems next.rawlen items ++ rest)) =
      front ++ (storePrevlen next.wide stale ++
        ((zipEntryBody next.value ++ encodeItems next.rawlen items) ++ rest)) := by
    simp [Item.encode]
  have move := move_image tail count (p + reqlen) _ _ (front ++ gap) old []
    (junk ++ (zipEntryBody next.value ++ encodeItems next.rawlen items))
    (by rw [← regroup, spread]; exact read) (by simp [at_front, length_gap]; omega) (by omega)
  have write := write_image tail count (p + reqlen) (front ++ gap) junk (storePrevlen new reqlen)
    (zipEntryBody next.value ++ encodeItems next.rawlen items)
    (by simp [at_front, length_gap]; omega) (by simp [length_junk])
  have final := adjustTail_image (tail + reqlen) tail' count (p + reqlen) reqlen next.rawlen
    (widthDiff next.wide new) (front ++ gap) { next with wide := new } items new_fits reqlen_bound
    short rest_fits (by simp [at_front, length_gap]; omega)
    (by simpa using moved)
  rw [insertShift, getElem?_image tail count p front _ at_front, append_assoc, head, regroup]
  simp only [some_bind, ne_eq, distinct, not_false_eq_true, if_true]
  rw [move, some_bind, append_nil, store, write, some_bind,
    ziplistTailOffset_image tail count _ tail_bound, some_bind,
    setZiplistTailOffset_image tail (tail + reqlen) count _ _ (by push_cast; rfl), some_bind]
  simpa [Item.encode] using final

def bumpCount (count : Nat) : Nat := if count < 65535 then count + 1 else count

theorem ziplistIncrLength_image (tail : Nat) {count count' : Nat} {incr : Int} (body : Bytes) (bound : count < 65536)
    (value : (count' : Int) = if count < 65535 then (count : Int) + incr else count) :
    ziplistIncrLength (image tail count body) incr = some (image tail count' body) := by
  rw [ziplistIncrLength, ziplistLength_image tail count body bound, some_bind]
  split at value
  next small =>
    rw [if_pos small]
    exact setZiplistLength_image tail count body value.symm
  next large =>
    have same : count' = count := by exact_mod_cast value
    rw [if_neg large, same]
    rfl

theorem render_append (count : Nat) (front rest : List Item) :
    render count (front ++ rest) = image (10 + itemsLen (front ++ rest).dropLast) count
      (encodeItems 0 front ++ encodeItems (lastRawlen 0 front) rest) := by
  rw [render, encodeItems_append]

theorem lastRawlen_le (front : List Item) : lastRawlen 0 front ≤ itemsLen front := by
  cases front using List.reverseRecOn with
  | nil => exact le_rfl
  | append_singleton front item => simp [lastRawlen]

theorem insertPrevlen_render (count : Nat) (front rest : List Item) (fits : Fits 0 (front ++ rest))
    (bound : itemsLen (front ++ rest) + 11 < 2 ^ 32) :
    insertPrevlen (render count (front ++ rest)) (10 + itemsLen front) = some (lastRawlen 0 front) := by
  have at_front : 10 + itemsLen front = 10 + (encodeItems 0 front).length := by simp
  obtain ⟨before, after⟩ := (fits_append 0 front rest).mp fits
  have last := lastRawlen_le front
  have tail := itemsLen_dropLast_le (front ++ rest)
  rw [itemsLen_append] at bound
  rw [render_append, insertPrevlen, getElem?_image _ count _ _ _ at_front]
  cases rest with
  | nil =>
    simp only [encodeItems, append_nil, nil_append, head?_cons, some_bind, ne_eq, not_true_eq_false, if_false]
    rw [ziplistTailOffset_image _ count _ (by simp at tail; omega), some_bind]
    cases front using List.reverseRecOn with
    | nil =>
      have at_end := getElem?_image 10 count 10 [] [] rfl
      simp only [append_nil, nil_append, head?_cons] at at_end
      change ((image 10 count [])[10]?.bind _) = _
      rw [at_end]
      rfl
    | append_singleton front item =>
      obtain ⟨_, item_fits, _⟩ := (fits_append 0 front [item]).mp before
      have at_item : 10 + itemsLen front = 10 + (encodeItems 0 front).length := by simp
      obtain ⟨first, head, distinct⟩ := item.encode_head [zipEnd] item_fits
      have short : item.value.length < 2 ^ 32 := item.value_short (by
        simp only [itemsLen_append, itemsLen_cons, itemsLen_nil] at bound; omega)
      rw [encodeItems_append, dropLast_concat,
        show encodeItems (lastRawlen 0 front) [item] = item.encode (lastRawlen 0 front) by
          simp [encodeItems],
        getElem?_image _ count _ _ _ at_item, head, drop_image_append _ count _ _ _ at_item,
        zipRawEntryLength_encode _ item_fits short]
      simp [distinct, lastRawlen]
  | cons next items =>
    obtain ⟨first, head, distinct⟩ :=
      next.encode_head (encodeItems next.rawlen items ++ [zipEnd]) after.1
    have decoded := zipDecodePrevlen_store
      (zipEntryBody next.value ++ (encodeItems next.rawlen items ++ [zipEnd])) after.1 (by omega)
    rw [drop_image_append _ count _ _ _ at_front, encodeItems, append_assoc, head]
    simp only [some_bind, ne_eq, distinct, not_false_eq_true, if_true]
    rw [Item.encode, append_assoc, decoded]
    rfl

theorem insertNextdiff_image (tail count : Nat) {p stale : Nat} (reqlen : Nat) (front rest : Bytes) {next : Item}
    (fits : next.wide = false → stale < zipBigPrevlen) (at_front : p = 10 + front.length) :
    insertNextdiff (image tail count (front ++ (next.encode stale ++ rest))) p reqlen =
      some (widthDiff next.wide (newWidth reqlen next), forceLarge next reqlen) := by
  obtain ⟨first, head, distinct⟩ := next.encode_head (rest ++ [zipEnd]) fits
  have size := zipDecodePrevlensize_store
    (zipEntryBody next.value ++ (rest ++ [zipEnd])) fits
  rw [insertNextdiff, getElem?_image tail count p front _ at_front,
    drop_image_append tail count p front _ at_front, append_assoc, head]
  simp only [some_bind, ne_eq, distinct, not_false_eq_true, if_true, zipPrevLenByteDiff]
  rw [Item.encode, append_assoc, size, some_bind, zipPrevEntryLengthSize_eq]
  by_cases small : reqlen < 4
  · have narrow : ¬zipBigPrevlen ≤ reqlen := by simp only [zipBigPrevlen]; omega
    cases wide : next.wide <;> simp [newWidth, forceLarge, widthDiff, wide, small, narrow]
  · cases wide : next.wide <;> by_cases large : zipBigPrevlen ≤ reqlen <;>
      simp [newWidth, forceLarge, widthDiff, wide, small, large]

theorem widthDiff_ne_zero {old new : Bool} (changed : new ≠ old) : widthDiff old new ≠ 0 := by
  cases old <;> cases new <;> simp_all [widthDiff]

theorem cascadeIfChanged_image (count pr p : Nat) (width : Item → Bool) (front : Bytes) {next : Item}
    {items : List Item} (fits : width next = false → pr < zipBigPrevlen) (pr_bound : pr < 2 ^ 32)
    (rest_fits : Fits next.rawlen items) (rest_bound : next.rawlen < 2 ^ 32)
    (bound : front.length + itemsLen (followItems width (next :: items)) + 11 < 2 ^ 32)
    (at_front : p = 10 + front.length) :
    cascadeIfChanged
        (image (10 + front.length + itemsLen ({ next with wide := width next } :: items).dropLast) count
          (front ++ ({ next with wide := width next : Item }.encode pr ++ encodeItems next.rawlen items)))
        p (widthDiff next.wide (width next)) =
      some (image (10 + front.length + itemsLen (followItems width (next :: items)).dropLast) count
        (front ++ encodeItems pr (followItems width (next :: items)))) := by
  by_cases same : width next = next.wide
  · have unchanged : widthDiff next.wide next.wide = 0 := by simp [widthDiff]
    simp [cascadeIfChanged, unchanged, followItems, same, encodeItems]
  · have shape : followItems width (next :: items) = { next with wide := width next } ::
        cascadeItems { next with wide := width next : Item }.rawlen items := by
      rw [followItems, if_neg same]
    rw [shape] at bound ⊢
    rw [cascadeIfChanged, if_pos (widthDiff_ne_zero same), encodeItems]
    exact ziplistCascadeUpdate_image count fits pr_bound rest_fits rest_bound bound at_front

theorem bumpCount_value (count : Nat) :
    (bumpCount count : Int) = if count < 65535 then (count : Int) + 1 else count := by
  unfold bumpCount
  split <;> simp

theorem insert_at_end {count : Nat} (s : Bytes) (fits : Fits 0 front)
    (count_bound : count < 65536) (old_bound : itemsLen front + 11 < 2 ^ 32) :
    __ziplistInsert (render count front) (10 + itemsLen front) s =
      some (render (bumpCount count) (insertItems front [] s)) := by
  let prevlen := lastRawlen 0 front
  let item := newItem prevlen s
  have at_front : 10 + itemsLen front = 10 + (encodeItems 0 front).length := by simp
  have prev : insertPrevlen (render count front) (10 + itemsLen front) = some prevlen := by
    simpa using insertPrevlen_render count front [] (by simpa using fits) (by simpa using old_bound)
  have zl : render count front = image (10 + itemsLen front.dropLast) count (encodeItems 0 front) := rfl
  have at_end : (render count front)[10 + itemsLen front]? = some zipEnd := by
    have read := getElem?_image (10 + itemsLen front.dropLast) count _ (encodeItems 0 front) [] at_front
    simpa [zl] using read
  have diff : insertNextdiff (render count front) (10 + itemsLen front) item.rawlen = some (0, false) := by
    rw [insertNextdiff, at_end]
    rfl
  have grown : ziplistResize (render count front) (((itemsLen front + 11 : Nat) : Int) + item.rawlen + 0).toNat =
        some (image (10 + itemsLen front.dropLast) count (encodeItems 0 front ++ slack item.rawlen)) :=
    ziplistResize_grow _ count _ item.rawlen (encodeItems 0 front) (by simp; omega)
  have slack_head : (slack item.rawlen ++ [zipEnd]).head? = some zipEnd := by
    cases item.rawlen <;> rfl
  have shift := insertShift_end (10 + itemsLen front.dropLast) count (itemsLen front + 11) item.rawlen 0 false at_front slack_head
  have write := insertWrite_image (10 + itemsLen front) count prevlen (slack item.rawlen) [] s at_front (by simp [item])
  rw [append_nil, append_nil] at write
  have result : render (bumpCount count) (insertItems front [] s) =
      image (10 + itemsLen front) (bumpCount count) (encodeItems 0 front ++ item.encode prevlen) := by
    simp [insertItems, followItems, render, encodeItems_append, encodeItems, item, prevlen]
  rw [__ziplistInsert, prev, zl, ziplistBytes_image _ count _ (by simpa using old_bound), ← zl]
  simp only [some_bind, insertReqlen_eq]
  rw [show (newItem prevlen s).rawlen = item.rawlen from rfl, diff]
  simp only [some_bind, length_encodeItems]
  rw [grown, some_bind, shift]
  simp only [some_bind, cascadeIfChanged, ne_eq, not_true_eq_false, if_false]
  rw [write, some_bind, result]
  exact ziplistIncrLength_image _ _ count_bound (bumpCount_value count)

theorem insert_before {count : Nat} {next : Item} {items : List Item} {s : Bytes}
    (fits : Fits 0 (front ++ next :: items)) (count_bound : count < 65536)
    (old_bound : itemsLen (front ++ next :: items) + 11 < 2 ^ 32)
    (bound : itemsLen (insertItems front (next :: items) s) + 11 < 2 ^ 32) :
    __ziplistInsert (render count (front ++ next :: items)) (10 + itemsLen front) s =
      some (render (bumpCount count) (insertItems front (next :: items) s)) := by
  let prevlen := lastRawlen 0 front
  let item := newItem prevlen s
  let new := newWidth item.rawlen next
  let moved : Item := { next with wide := new }
  let follow := followItems (newWidth item.rawlen) (next :: items)
  let F := encodeItems 0 front
  have length_F : F.length = itemsLen front := by simp [F]
  have at_front : 10 + itemsLen front = 10 + F.length := by rw [length_F]
  obtain ⟨before, next_fits, rest_fits⟩ := (fits_append 0 front (next :: items)).mp fits
  have inserted : insertItems front (next :: items) s = front ++ item :: follow := rfl
  have prev := insertPrevlen_render count front (next :: items) fits old_bound
  have last := lastRawlen_le front
  have moved_len : (moved.rawlen : Int) = next.rawlen + widthDiff next.wide new := by
    simp only [Item.rawlen, Item.prevlensize, widthDiff, moved]
    push_cast
    ring
  have enough : 0 ≤ (item.rawlen : Int) + widthDiff next.wide new := by
    have positive := item.rawlen_pos
    by_cases small : item.rawlen < 4
    · cases wide : next.wide
      · simp only [widthDiff, new]
        split
        · simp
          omega
        · simp
      · simp [widthDiff, new, newWidth, forceLarge, wide, small]
    · simp only [widthDiff]
      split <;> split <;> omega
  have follow_le : moved.rawlen + itemsLen items ≤ itemsLen follow := by
    simp only [follow, followItems, itemsLen_cons]
    split
    · exact le_rfl
    · exact Nat.add_le_add_left (itemsLen_le_cascade _ _) _
  rw [inserted] at bound ⊢
  simp only [itemsLen_append, itemsLen_cons] at bound old_bound
  have tail_le := itemsLen_dropLast_le (next :: items)
  rw [itemsLen_cons] at tail_le
  let k := ((item.rawlen : Int) + widthDiff next.wide new).toNat
  have k_value : (k : Int) = item.rawlen + widthDiff next.wide new := Int.toNat_of_nonneg enough
  let T := 10 + itemsLen (front ++ next :: items).dropLast
  have T_value : T = 10 + itemsLen front + itemsLen (next :: items).dropLast := by
    simp only [T, dropLast_append_of_ne_nil (show next :: items ≠ [] by simp), itemsLen_append]
    omega
  have zl : render count (front ++ next :: items) =
      image T count (F ++ (next.encode prevlen ++ encodeItems next.rawlen items)) := by
    rw [render_append, encodeItems]
  have diff := insertNextdiff_image T count item.rawlen F
    (encodeItems next.rawlen items) next_fits at_front
  have grown : ziplistResize (render count (front ++ next :: items))
      (((itemsLen front + (next.rawlen + itemsLen items) + 11 : Nat) : Int) + item.rawlen +
        widthDiff next.wide new).toNat =
      some (image T count (F ++ (next.encode prevlen ++ (encodeItems next.rawlen items ++ slack k)))) := by
    have step := ziplistResize_grow T count
      (((itemsLen front + (next.rawlen + itemsLen items) + 11 : Nat) : Int) + item.rawlen +
        widthDiff next.wide new).toNat k (F ++ (next.encode prevlen ++ encodeItems next.rawlen items))
      (by simp [length_F]; omega)
    rw [zl, step]
    simp
  let T' := 10 + (itemsLen front + item.rawlen) + itemsLen (moved :: items).dropLast
  have tail_moves : (T' : Int) = if items = [] then (T + item.rawlen : Int)
      else T + item.rawlen + widthDiff next.wide new := by
    cases items with
    | nil =>
      simp only [T', T_value, dropLast_singleton, itemsLen_nil, if_true]
      push_cast
      ring
    | cons after items =>
      rw [if_neg (by simp)]
      simp only [T', T_value, dropLast_cons_cons, itemsLen_cons]
      push_cast
      rw [moved_len]
      ring
  obtain ⟨gap, length_gap, shift⟩ := insertShift_image count
    (itemsLen front + (next.rawlen + itemsLen items) + 11)
    (forceLarge next item.rawlen) new F (slack k) next_fits (newWidth_false _ _) (by omega)
    (next.value_short (by omega)) rest_fits (by omega) at_front (by rw [length_F]; omega)
    (by rw [length_slack, k_value])
    (by
      cases force : forceLarge next item.rawlen
      · rw [zipStorePrevEntryLength_eq]
        simp [new, newWidth, force]
      · simp [new, newWidth, force, storePrevlen])
    tail_moves
  have length_front : (F ++ gap).length = itemsLen front + item.rawlen := by
    rw [length_append, length_F, length_gap]
  have cascade := cascadeIfChanged_image count item.rawlen (10 + itemsLen front + item.rawlen)
    (newWidth item.rawlen) (F ++ gap) (newWidth_false _ _) (by omega) rest_fits (by omega)
    (by rw [length_front]; change _ + itemsLen follow + 11 < _; omega) (by rw [length_front]; omega)
  rw [append_assoc, append_assoc, length_front] at cascade
  have final_tail : 10 + (itemsLen front + item.rawlen) + itemsLen follow.dropLast =
      10 + itemsLen (front ++ item :: follow).dropLast := by
    rw [dropLast_append_of_ne_nil (by simp), dropLast_cons_of_ne_nil (by simp [follow, followItems])]
    simp only [itemsLen_append, itemsLen_cons]
    omega
  have write := insertWrite_image (10 + (itemsLen front + item.rawlen) + itemsLen follow.dropLast) count prevlen gap (encodeItems item.rawlen follow) s at_front length_gap
  have result : render (bumpCount count) (front ++ item :: follow) =
      image (10 + (itemsLen front + item.rawlen) + itemsLen follow.dropLast) (bumpCount count)
        (F ++ (item.encode prevlen ++ encodeItems item.rawlen follow)) := by
    rw [render_append, encodeItems, final_tail]
  have bytes : ziplistBytes (render count (front ++ next :: items)) =
      some (itemsLen front + (next.rawlen + itemsLen items) + 11) := by
    rw [render, ziplistBytes_image _ count _ (by simp; omega)]
    simp
  rw [__ziplistInsert, prev, bytes]
  simp only [some_bind, insertReqlen_eq]
  rw [show (newItem (lastRawlen 0 front) s).rawlen = item.rawlen from rfl]
  conv_lhs => rw [zl]
  rw [diff, ← zl]
  simp only [some_bind]
  rw [grown, some_bind, shift, some_bind, cascade, some_bind, write, some_bind, result]
  exact ziplistIncrLength_image _ _ count_bound (bumpCount_value count)

theorem ziplistInsert_render {count : Nat} {rest : List Item} {s : Bytes}
    (fits : Fits 0 (front ++ rest)) (count_bound : count < 65536)
    (old_bound : itemsLen (front ++ rest) + 11 < 2 ^ 32)
    (bound : itemsLen (insertItems front rest s) + 11 < 2 ^ 32) :
    __ziplistInsert (render count (front ++ rest)) (10 + itemsLen front) s =
      some (render (bumpCount count) (insertItems front rest s)) := by
  cases rest with
  | nil =>
    rw [append_nil] at fits old_bound ⊢
    exact insert_at_end s fits count_bound old_bound
  | cons next items => exact insert_before fits count_bound old_bound bound

end RedisCore.Ziplist
