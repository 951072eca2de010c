import RedisCore.Ziplist.Encoding
import RedisCore.Util.Canonical

set_option autoImplicit false

namespace RedisCore.Ziplist

open Util List Option

variable {encoding : UInt8} {s p : Bytes}

-- What __ziplistInsert writes after the prevlen field: encoding header, then payload.
def zipEntryBody (s : Bytes) : Bytes :=
  match zipTryEncoding s with
  | some (value, encoding) =>
    zipStoreEntryEncoding encoding s.length ++ (zipSaveInteger value encoding).getD []
  | none => zipStoreEntryEncoding 0 s.length ++ s

theorem loadBytes_encodeInt (width : Nat) (value : Int) (rest : Bytes)
    (lower : -((256 ^ width : Nat) / 2 : Int) ≤ value)
    (upper : value < (((256 ^ width : Nat) : Int) + 1) / 2) :
    loadBytes width (LittleEndian.encodeInt width value ++ rest) = some value := by
  have enough : ¬(LittleEndian.encodeInt width value ++ rest).length < width := by simp
  have front : (LittleEndian.encodeInt width value ++ rest).take width =
      LittleEndian.encodeInt width value := by
    rw [take_append_of_le_length (by simp), take_of_length_le (by simp)]
  rw [loadBytes, if_neg enough, front, LittleEndian.decodeInt_encodeInt,
    Int.bmod_eq_of_le lower upper]

-- Shifting left by eight bits before storing leaves a zero low byte to drop and restore.
theorem encodeInt_shifted (value : Int) :
    LittleEndian.encodeInt 4 (value * 256) = 0 :: (LittleEndian.encodeInt 4 (value * 256)).drop 1 := by
  have low : UInt8.ofNat (value * 256 % 256 ^ 4).toNat = 0 := by
    apply UInt8.toNat_inj.mp
    rw [UInt8.toNat_ofNat']
    simp
    omega
  simp only [LittleEndian.encodeInt, LittleEndian.encode, drop_succ_cons, drop_zero, low]

theorem zipSaveInteger_load {value : Int} (range : IsInt64 value) :
    ∃ data, zipSaveInteger value (zipIntEncoding value) = some data ∧
      zipIntSize (zipIntEncoding value) = some data.length ∧
      ∀ rest, zipLoadInteger (data ++ rest) (zipIntEncoding value) = some value := by
  obtain ⟨lower, upper⟩ := range
  unfold zipIntEncoding
  split
  next immediate =>
    obtain ⟨n, rfl⟩ := Int.eq_ofNat_of_zero_le immediate.1
    have small : n ≤ 12 := by omega
    refine ⟨[], ?_⟩
    interval_cases n <;> exact ⟨by decide, by decide, fun _ => rfl⟩
  split
  next byte =>
    exact ⟨LittleEndian.encodeInt 1 value, by rfl, by simp; rfl, fun rest =>
      loadBytes_encodeInt 1 value rest (by norm_num; omega) (by norm_num; omega)⟩
  split
  next word =>
    exact ⟨LittleEndian.encodeInt 2 value, by rfl, by simp; rfl, fun rest =>
      loadBytes_encodeInt 2 value rest (by norm_num; omega) (by norm_num; omega)⟩
  split
  next triple =>
    refine ⟨(LittleEndian.encodeInt 4 (value * 256)).drop 1, by rfl, by simp; rfl, fun rest => ?_⟩
    have load := loadBytes_encodeInt 4 (value * 256) rest (by norm_num; omega) (by norm_num; omega)
    rw [encodeInt_shifted] at load
    change (loadBytes 4 (0 :: ((LittleEndian.encodeInt 4 (value * 256)).drop 1 ++ rest))).map (· / 256) = some value
    rw [← cons_append, load, map_some, Int.mul_ediv_cancel _ (by norm_num)]
  split
  next quad =>
    exact ⟨LittleEndian.encodeInt 4 value, by rfl, by simp; rfl, fun rest =>
      loadBytes_encodeInt 4 value rest (by norm_num; omega) (by norm_num; omega)⟩
  next =>
    exact ⟨LittleEndian.encodeInt 8 value, by rfl, by simp; rfl, fun rest =>
      loadBytes_encodeInt 8 value rest (by norm_num; omega) (by norm_num; omega)⟩

theorem zipIntEncoding_not_str (value : Int) : zipIsStr (zipIntEncoding value) = false := by
  unfold zipIntEncoding
  split
  next immediate =>
    obtain ⟨n, rfl⟩ := Int.eq_ofNat_of_zero_le immediate.1
    have small : n ≤ 12 := by omega
    interval_cases n <;> rfl
  repeat' split
  all_goals rfl

theorem not_str_iff (encoding : UInt8) :
    zipIsStr encoding = false ↔ ¬encoding < zipStrMask := by
  revert encoding
  decide +kernel

theorem zipDecodeLength_int (rest : Bytes) {len : Nat}
    (not_str : zipIsStr encoding = false) (size : zipIntSize encoding = some len) :
    zipDecodeLength (encoding :: rest) = some (encoding, 1, len) := by
  have large := (not_str_iff encoding).mp not_str
  simp [zipDecodeLength, large, size]

theorem zipDecodeLength_str {len : Nat} (rest : Bytes) (bound : len < 2 ^ 32) :
    ∃ encoding, zipDecodeLength (zipStoreEntryEncoding 0 len ++ rest) =
        some (encoding, (zipStoreEntryEncoding 0 len).length, len) ∧ zipIsStr encoding = true := by
  have is_str : zipIsStr 0 = true := by decide
  simp only [zipStoreEntryEncoding, is_str, if_true]
  split
  next short =>
    refine ⟨zipStr06B, ?_, by decide⟩
    have small : len < 64 := by omega
    interval_cases len <;> rfl
  split
  next medium =>
    refine ⟨zipStr14B, ?_, by decide⟩
    have small : len / 256 % 64 < 64 := Nat.mod_lt _ (by norm_num)
    have high : ∀ k < 64, (zipStr14B ||| UInt8.ofNat k) < zipStrMask ∧
        (zipStr14B ||| UInt8.ofNat k) &&& zipStrMask = zipStr14B ∧
        (zipStr14B ||| UInt8.ofNat k).toNat % 64 = k := by decide
    obtain ⟨below, masked, value⟩ := high _ small
    simp only [zipDecodeLength, cons_append, below, masked, value, if_true,
      UInt8.toNat_ofNat', nil_append, length_cons, length_nil]
    have join : len / 256 % 64 * 256 + len % 2 ^ 8 = len := by omega
    rw [join]
    rfl
  next long =>
    refine ⟨zipStr32B, ?_, by decide⟩
    have join : len / 16777216 % 2 ^ 8 * 16777216 + len / 65536 % 2 ^ 8 * 65536 +
        len / 256 % 2 ^ 8 * 256 + len % 2 ^ 8 = len := by omega
    simp only [zipDecodeLength, cons_append, nil_append, UInt8.toNat_ofNat', join]
    rfl

theorem zipTryEncoding_spec {value : Int}
    (encoded : zipTryEncoding s = some (value, encoding)) :
    encoding = zipIntEncoding value ∧ IsInt64 value ∧ s = ll2string 32 value := by
  unfold zipTryEncoding at encoded
  split at encoded
  next => cases encoded
  next =>
    obtain ⟨parsed, read, same⟩ := map_eq_some_iff.mp encoded
    cases same
    obtain ⟨range, text⟩ := string2ll_sound read
    exact ⟨rfl, range, by rw [ll2string_eq_llString 32 range (by norm_num)]; exact text⟩

theorem loadBytes_range {width : Nat} {value : Int} (loaded : loadBytes width p = some value) (small : width ≤ 8) :
    IsInt64 value := by
  unfold loadBytes at loaded
  split at loaded
  next => cases loaded
  next enough =>
    cases loaded
    have length : (p.take width).length = width := by simp; omega
    have positive : 0 < 256 ^ width := by positivity
    have power : 256 ^ width ≤ 256 ^ 8 := Nat.pow_le_pow_right (by norm_num) small
    have lower := Int.le_bmod (x := (LittleEndian.decode (p.take width) : Int)) positive
    have upper := Int.bmod_lt (x := (LittleEndian.decode (p.take width) : Int)) positive
    rw [LittleEndian.decodeInt, length]
    norm_num at power
    constructor <;> omega

theorem zipLoadInteger_range {value : Int} (loaded : zipLoadInteger p encoding = some value) :
    IsInt64 value := by
  unfold zipLoadInteger at loaded
  split_ifs at loaded with byte word quad triple octet immediate
  · exact loadBytes_range loaded (by norm_num)
  · exact loadBytes_range loaded (by norm_num)
  · exact loadBytes_range loaded (by norm_num)
  · obtain ⟨shifted, read, rfl⟩ := map_eq_some_iff.mp loaded
    obtain ⟨lower, upper⟩ := loadBytes_range read (by norm_num)
    constructor <;> omega
  · exact loadBytes_range loaded (by norm_num)
  · cases loaded
    have small := UInt8.toNat_lt (encoding &&& zipIntImmMask)
    constructor <;> omega

theorem zipTryEncoding_iff (s : Bytes) {value : Int} (range : IsInt64 value) :
    zipTryEncoding s = some (value, zipIntEncoding value) ↔ s = llString value := by
  constructor
  · intro encoded
    rw [(zipTryEncoding_spec encoded).2.2, ll2string_eq_llString 32 range (by norm_num)]
  · rintro rfl
    obtain ⟨positive, short⟩ := Word.length_llString_le range
    rw [zipTryEncoding, if_neg (by omega), string2ll_complete range]
    rfl

theorem ziplistGet_cases {value : ZlValue} (got : ziplistGet p = some value) :
    p.head? ≠ some zipEnd ∧ ∃ entry, zipEntry p = some entry ∧
      ((zipIsStr entry.encoding = true ∧ entry.len ≤ (p.drop entry.headersize).length ∧
          value = .str ((p.drop entry.headersize).take entry.len)) ∨
        zipIsStr entry.encoding = false ∧ ∃ z, zipLoadInteger (p.drop entry.headersize) entry.encoding = some z ∧
          value = .int z) := by
  unfold ziplistGet at got
  by_cases at_end : p.head? = some zipEnd
  · rw [if_pos at_end] at got
    cases got
  rw [if_neg at_end, bind_eq_bind, bind_eq_some_iff] at got
  obtain ⟨entry, decoded, got⟩ := got
  refine ⟨at_end, entry, decoded, ?_⟩
  cases kind : zipIsStr entry.encoding with
  | true =>
    simp only [kind, if_true] at got
    split at got
    next => cases got
    next enough => exact .inl ⟨rfl, by omega, (Option.some.inj got).symm⟩
  | false =>
    simp only [kind, Bool.false_eq_true, if_false] at got
    obtain ⟨z, loaded, same⟩ := map_eq_some_iff.mp got
    exact .inr ⟨rfl, z, loaded, same.symm⟩

theorem take_ne_of_length {data : Bytes} {len : Nat} (enough : len ≤ data.length) (differs : len ≠ s.length) :
    data.take len ≠ s := by
  rintro rfl
  exact differs (by simp [enough])

theorem toBytes_int_eq_iff {z : Int} (range : IsInt64 z) (s : Bytes) :
    (ZlValue.int z).toBytes = s ↔ zipTryEncoding s = some (z, zipIntEncoding z) := by
  rw [zipTryEncoding_iff s range, ZlValue.toBytes, ll2string_eq_llString 32 range (by norm_num)]
  exact eq_comm

theorem zipTryEncoding_cases (s : Bytes) :
    zipTryEncoding s = none ∨ ∃ z, zipTryEncoding s = some (z, zipIntEncoding z) := by
  cases encoded : zipTryEncoding s with
  | none => exact .inl rfl
  | some result =>
    obtain ⟨z, encoding⟩ := result
    obtain ⟨rfl, _⟩ := zipTryEncoding_spec encoded
    exact .inr ⟨z, rfl⟩

theorem ziplistCompare_get (p s : Bytes) {value : ZlValue} (got : ziplistGet p = some value) :
    ziplistCompare p s = some (decide (value.toBytes = s)) := by
  obtain ⟨inside, entry, decoded, ⟨kind, enough, rfl⟩ | ⟨kind, z, loaded, rfl⟩⟩ := ziplistGet_cases got
  · simp only [ziplistCompare, if_neg inside, decoded, some_bind, kind, if_true]
    by_cases same : entry.len = s.length
    · rw [if_pos same, if_neg (by omega)]
      rfl
    · have unequal : (ZlValue.str ((p.drop entry.headersize).take entry.len)).toBytes ≠ s :=
        take_ne_of_length enough same
      rw [if_neg same, decide_eq_false unequal]
      rfl
  · have equal := toBytes_int_eq_iff (zipLoadInteger_range loaded) s
    simp only [ziplistCompare, if_neg inside, decoded, some_bind, kind, Bool.false_eq_true,
      if_false, loaded, decide_eq_decide.mpr equal]
    rcases zipTryEncoding_cases s with missing | ⟨sval, encoded⟩
    · simp [missing]
    · simp only [encoded, map_some, Option.some.injEq, Prod.mk.injEq, decide_eq_decide]
      constructor
      · rintro rfl
        exact ⟨rfl, rfl⟩
      · rintro ⟨rfl, _⟩
        rfl

def entryValue (s : Bytes) : ZlValue :=
  match zipTryEncoding s with
  | some (value, _) => .int value
  | none => .str s

theorem toBytes_entryValue (s : Bytes) : (entryValue s).toBytes = s := by
  unfold entryValue
  split
  next value encoding encoded => exact (zipTryEncoding_spec encoded).2.2.symm
  next => rfl

theorem entryValue_int {value : Int} (stored : entryValue s = .int value) :
    ∃ encoding, zipTryEncoding s = some (value, encoding) := by
  unfold entryValue at stored
  split at stored
  next found encoding encoded =>
    cases stored
    exact ⟨encoding, encoded⟩
  next => cases stored

structure BodyRead (s : Bytes) (rest : Bytes) where
  encoding : UInt8
  lensize : Nat
  len : Nat
  decoded : zipDecodeLength (zipEntryBody s ++ rest) = some (encoding, lensize, len)
  size : lensize + len = (zipEntryBody s).length
  read : (if zipIsStr encoding then
      if ((zipEntryBody s ++ rest).drop lensize).length < len then none
      else some (ZlValue.str (((zipEntryBody s ++ rest).drop lensize).take len))
    else (zipLoadInteger ((zipEntryBody s ++ rest).drop lensize) encoding).map .int) = some (entryValue s)

theorem zipEntryBody_read (rest : Bytes) (bound : s.length < 2 ^ 32) :
    Nonempty (BodyRead s rest) := by
  cases encoded : zipTryEncoding s with
  | none =>
    have body : zipEntryBody s = zipStoreEntryEncoding 0 s.length ++ s := by
      rw [zipEntryBody, encoded]
    obtain ⟨encoding, decoded, is_str⟩ := zipDecodeLength_str (s ++ rest) bound
    have payload : (zipEntryBody s ++ rest).drop (zipStoreEntryEncoding 0 s.length).length =
        s ++ rest := by
      rw [body, append_assoc, drop_left]
    exact ⟨{
      encoding, lensize := (zipStoreEntryEncoding 0 s.length).length, len := s.length
      decoded := by rw [body, append_assoc]; exact decoded
      size := by rw [body, length_append]
      read := by rw [payload]; simp [is_str, entryValue, encoded] }⟩
  | some result =>
    obtain ⟨value, encoding⟩ := result
    obtain ⟨same, range, _⟩ := zipTryEncoding_spec encoded
    obtain ⟨data, saved, size, load⟩ := zipSaveInteger_load range
    have not_str := zipIntEncoding_not_str value
    subst same
    have body : zipEntryBody s = zipIntEncoding value :: data := by
      rw [zipEntryBody, encoded]
      simp [saved, zipStoreEntryEncoding, not_str]
    exact ⟨{
      encoding := zipIntEncoding value, lensize := 1, len := data.length
      decoded := by rw [body]; exact zipDecodeLength_int _ not_str size
      size := by rw [body, length_cons, Nat.add_comm]
      read := by rw [body]; simp [not_str, load, entryValue, encoded] }⟩

theorem zipEntryBody_length_pos (s : Bytes) : 0 < (zipEntryBody s).length := by
  have header (encoding : UInt8) : 0 < (zipStoreEntryEncoding encoding s.length).length := by
    unfold zipStoreEntryEncoding
    repeat' split
    all_goals simp
  unfold zipEntryBody
  split <;> simp [header]

theorem length_lt_of_body (s : Bytes) (bound : (zipEntryBody s).length < 2 ^ 32) :
    s.length < 2 ^ 32 := by
  cases encoded : zipTryEncoding s with
  | none =>
    rw [zipEntryBody, encoded, length_append] at bound
    omega
  | some result =>
    unfold zipTryEncoding at encoded
    split at encoded
    next => cases encoded
    next short => omega

end RedisCore.Ziplist
