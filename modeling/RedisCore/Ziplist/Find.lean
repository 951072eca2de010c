import RedisCore.Ziplist.Refinement

set_option autoImplicit false

namespace RedisCore.Ziplist

open Util

variable {vencoding : UInt8} {zl : Bytes}

-- vencoding is 0 until the first integer entry is met, and 255 if v is no integer.
def encodeOnce (v : Bytes) (vencoding : UInt8) (vll : Int) : Option (UInt8 × Int) :=
  if vencoding = 0 then
    match zipTryEncoding v with
    | some (value, encoding) => if encoding = 0 then none else some (encoding, value)
    | none => some (255, vll)
  else some (vencoding, vll)

def findCompare (v q : Bytes) (encoding : UInt8) (len : Nat) (vencoding : UInt8) (vll : Int) :
    Option (Bool × UInt8 × Int) :=
  if zipIsStr encoding then
    if len = v.length then
      if q.length < len then none else some (decide (q.take len = v), vencoding, vll)
    else some (false, vencoding, vll)
  else do
    let (vencoding, vll) ← encodeOnce v vencoding vll
    if vencoding = 255 then some (false, vencoding, vll)
    else
      let ll ← zipLoadInteger q encoding
      some (decide (ll = vll), vencoding, vll)

-- skipcnt is an int that is set from the unsigned skip.
def findLoop (zl v : Bytes) (skip : BitVec 32) :
    (fuel p : Nat) → (skipcnt : BitVec 32) → (vencoding : UInt8) → (vll : Int) → Option (Option Nat)
  | 0, _, _, _, _ => none
  | fuel + 1, p, skipcnt, vencoding, vll => do
    if (← zl[p]?) = zipEnd then some none
    else
      let prevlensize ← zipDecodePrevlensize (zl.drop p)
      let (encoding, lensize, len) ← zipDecodeLength (zl.drop (p + prevlensize))
      let q := p + prevlensize + lensize
      if skipcnt = 0 then
        let (found, vencoding, vll) ← findCompare v (zl.drop q) encoding len vencoding vll
        if found then some (some p)
        else findLoop zl v skip fuel (q + len) skip vencoding vll
      else findLoop zl v skip fuel (q + len) (skipcnt - 1) vencoding vll

def ziplistFind (zl : Bytes) (p : Nat) (v : Bytes) (skip : BitVec 32) : Option (Option Nat) :=
  findLoop zl v skip zl.length p 0 0 0

theorem zipDecodePrevlensize_of_prevlen {p : Bytes} {size prevlen : Nat} (decoded : zipDecodePrevlen p = some (size, prevlen)) :
    zipDecodePrevlensize p = some size := by
  cases p with
  | nil => cases decoded
  | cons first rest =>
    simp only [zipDecodePrevlen] at decoded
    simp only [zipDecodePrevlensize]
    split_ifs at decoded ⊢ with small short <;> cases decoded <;> rfl

-- What is kept of v is what zipTryEncoding says of it.
def Knows (v : Bytes) (vencoding : UInt8) (vll : Int) : Prop :=
  vencoding = 0 ∨ (vencoding = 255 ∧ zipTryEncoding v = none) ∨
    vencoding = zipIntEncoding vll ∧ zipTryEncoding v = some (vll, zipIntEncoding vll)

theorem zipIntEncoding_ne (value : Int) : zipIntEncoding value ≠ 0 ∧ zipIntEncoding value ≠ 255 := by
  unfold zipIntEncoding
  split
  next immediate =>
    obtain ⟨n, rfl⟩ := Int.eq_ofNat_of_zero_le immediate.1
    have small : n ≤ 12 := by omega
    interval_cases n <;> decide
  repeat' split
  all_goals decide

theorem encodeOnce_knows {v : Bytes} {vll : Int} (knows : Knows v vencoding vll) :
    ∃ vencoding' vll', encodeOnce v vencoding vll = some (vencoding', vll') ∧
      ((vencoding' = 255 ∧ zipTryEncoding v = none) ∨
        vencoding' = zipIntEncoding vll' ∧ zipTryEncoding v = some (vll', zipIntEncoding vll')) := by
  by_cases fresh : vencoding = 0
  · rcases zipTryEncoding_cases v with missing | ⟨z, encoded⟩
    · exact ⟨255, vll, by simp [encodeOnce, fresh, missing], .inl ⟨rfl, missing⟩⟩
    · exact ⟨_, z, by simp [encodeOnce, fresh, encoded, (zipIntEncoding_ne z).1], .inr ⟨rfl, encoded⟩⟩
  · exact ⟨vencoding, vll, by simp [encodeOnce, fresh], knows.resolve_left fresh⟩

theorem findCompare_get {v p : Bytes} {entry : ZlEntry} {value : ZlValue} {vll : Int}
    (decoded : zipEntry p = some entry) (got : ziplistGet p = some value) (knows : Knows v vencoding vll) :
    ∃ vencoding' vll', findCompare v (p.drop entry.headersize) entry.encoding entry.len vencoding vll =
        some (decide (value.toBytes = v), vencoding', vll') ∧ Knows v vencoding' vll' := by
  obtain ⟨_, same, again, cases⟩ := ziplistGet_cases got
  obtain rfl := Option.some.inj (decoded.symm.trans again)
  rcases cases with ⟨kind, enough, rfl⟩ | ⟨kind, z, loaded, rfl⟩
  · refine ⟨vencoding, vll, ?_, knows⟩
    rw [findCompare, if_pos kind]
    by_cases length : entry.len = v.length
    · rw [if_pos length, if_neg (by omega)]
      rfl
    · have unequal : (ZlValue.str ((p.drop entry.headersize).take entry.len)).toBytes ≠ v :=
        take_ne_of_length enough length
      rw [if_neg length, decide_eq_false unequal]
  · have equal := toBytes_int_eq_iff (zipLoadInteger_range loaded) v
    obtain ⟨vencoding', vll', once, known⟩ := encodeOnce_knows knows
    refine ⟨vencoding', vll', ?_, .inr known⟩
    rw [findCompare, if_neg (by simp [kind]), once]
    simp only [some_bind, loaded]
    rcases known with ⟨rfl, missing⟩ | ⟨rfl, encoded⟩
    · have unequal : (ZlValue.int z).toBytes ≠ v := by
        rw [Ne, equal, missing]
        exact nofun
      rw [if_pos rfl, decide_eq_false unequal]
    · have same : (ZlValue.int z).toBytes = v ↔ z = vll' := by
        rw [equal, encoded, Option.some.injEq, Prod.mk.injEq]
        constructor
        · rintro ⟨rfl, _⟩
          rfl
        · rintro rfl
          exact ⟨rfl, rfl⟩
      rw [if_neg (zipIntEncoding_ne vll').2, decide_eq_decide.mpr same]

def findVisit (v : Bytes) (skip : Nat) : (skipcnt : Nat) → List Visit → Option Visit
  | _, [] => none
  | 0, visit :: rest => if visit.value = v then some visit else findVisit v skip skip rest
  | skipcnt + 1, _ :: rest => findVisit v skip skipcnt rest

theorem findLoop_visit {v : Bytes} (skip : BitVec 32) (fuel rounds p : Nat) (skipcnt : BitVec 32) (vencoding : UInt8)
    (vll : Int) (visited : List Visit) (walk : visitFrom zl fuel p = some visited) (enough : fuel ≤ rounds)
    (knows : Knows v vencoding vll) :
    findLoop zl v skip rounds p skipcnt vencoding vll =
      some ((findVisit v skip.toNat skipcnt.toNat visited).map Visit.offset) := by
  induction fuel generalizing rounds p skipcnt vencoding vll visited with
  | zero => cases walk
  | succ fuel ih =>
    obtain ⟨rounds, rfl⟩ : ∃ less, rounds = less + 1 := ⟨rounds - 1, by omega⟩
    obtain ⟨fewer, same, ⟨at_end, rfl⟩ | ⟨byte, entry, value, rest, read, inside, decoded, got, others, rfl⟩⟩ :=
      visitFrom_cases walk
    · simp [findLoop, at_end, findVisit]
    · obtain rfl : fuel = fewer := by omega
      obtain ⟨prevlen, length, header⟩ := zipEntry_cases decoded
      have size := zipDecodePrevlensize_of_prevlen prevlen
      rw [List.drop_drop] at length
      have at_next : p + entry.prevrawlensize + entry.lensize + entry.len = p + (entry.headersize + entry.len) := by omega
      have at_data : p + entry.prevrawlensize + entry.lensize = p + entry.headersize := by omega
      rw [findLoop]
      simp only [read, some_bind, inside, if_false, size, length, at_next]
      by_cases due : skipcnt = 0
      · obtain ⟨vencoding', vll', compared, known⟩ := findCompare_get decoded got knows
        rw [List.drop_drop] at compared
        subst due
        rw [show (0 : BitVec 32).toNat = 0 from rfl, findVisit]
        simp only [if_true, at_data, compared]
        by_cases hit : value.toBytes = v
        · simp [hit]
        · simp only [hit, decide_false, if_false]
          exact ih rounds _ skip _ _ rest others (by omega) known
      · have positive : skipcnt.toNat ≠ 0 := fun zero => due (BitVec.eq_of_toNat_eq (by simpa using zero))
        have less : skipcnt.toNat = (skipcnt - 1).toNat + 1 := by bv_omega
        rw [if_neg due, less, findVisit]
        exact ih rounds _ _ _ _ rest others (by omega) knows

theorem findVisit_eq_find (v : Bytes) {skip : Nat} (skipcnt from_index : Nat) (visited : List Visit)
    (phase : (from_index + skipcnt) % (skip + 1) = 0) (within : skipcnt ≤ skip) :
    findVisit v skip skipcnt visited =
      ((visited.zipIdx from_index).find? fun entry => decide (entry.2 % (skip + 1) = 0 ∧ entry.1.value = v)).map Prod.fst := by
  induction visited generalizing skipcnt from_index with
  | nil => cases skipcnt <;> rfl
  | cons visit rest ih =>
    rw [List.zipIdx_cons, List.find?_cons]
    cases skipcnt with
    | zero =>
      have due : from_index % (skip + 1) = 0 := by simpa using phase
      rw [findVisit, ih skip (from_index + 1) (by rw [show from_index + 1 + skip = from_index + (skip + 1) by omega]; simp [due]) le_rfl]
      by_cases hit : visit.value = v
      · simp [due, hit]
      · simp [hit]
    | succ skipcnt =>
      have early : from_index % (skip + 1) ≠ 0 := by
        intro due
        rw [Nat.add_mod, due, Nat.zero_add, Nat.mod_mod, Nat.mod_eq_of_lt (by omega)] at phase
        omega
      rw [findVisit, ih skipcnt (from_index + 1) (by rw [← phase]; congr 1; omega) (by omega)]
      simp [early]

theorem visitFrom_from (fuel p : Nat) {front rest : List Visit} {visit : Visit}
    (walk : visitFrom zl fuel p = some (front ++ visit :: rest)) :
    ∃ rounds, rounds ≤ fuel ∧ visitFrom zl rounds visit.offset = some (visit :: rest) := by
  induction front generalizing fuel p with
  | nil =>
    obtain ⟨fewer, rfl, ⟨_, none⟩ | ⟨byte, entry, value, others, _, _, _, _, _, same⟩⟩ := visitFrom_cases walk
    · cases none
    · obtain ⟨rfl, rfl⟩ := List.cons.inj same
      exact ⟨_, le_rfl, walk⟩
  | cons first front ih =>
    obtain ⟨fewer, rfl, ⟨_, none⟩ | ⟨byte, entry, value, others, _, _, _, _, further, same⟩⟩ := visitFrom_cases walk
    · cases none
    · obtain ⟨rfl, rfl⟩ := List.cons.inj same
      obtain ⟨rounds, within, found⟩ := ih fewer _ further
      exact ⟨rounds, by omega, found⟩

theorem WellFormed.values_run {visited : List Visit} (formed : WellFormed zl visited) {ops : List Op}
    (ran : run ops = some zl) (bound : ∀ done, done <+: ops → layoutBytes (layoutRun done) < 2 ^ 32) :
    visited.map Visit.value = listRun ops := by
  obtain ⟨built, again, related⟩ := run_represents bound
  obtain rfl := Option.some.inj (ran.symm.trans again)
  have walk := (related.wellFormed (bound ops (List.prefix_refl ops))).walk
  obtain rfl := Option.some.inj (formed.walk.symm.trans walk)
  rw [map_value_visitSlots, map_value_slot, map_value_layoutRun]

theorem ziplistFind_compare_exact (zl : Bytes) (front rest : List Visit) (start : Visit)
    (formed : WellFormed zl (front ++ start :: rest)) (v : Bytes) :
    (∀ skip : BitVec 32, ziplistFind zl start.offset v skip = some ((((start :: rest).zipIdx.find? fun entry =>
        decide (entry.2 % (skip.toNat + 1) = 0 ∧ entry.1.value = v)).map Prod.fst).map Visit.offset)) ∧
    ziplistCompare (zl.drop start.offset) v = some (decide (start.value = v)) ∧
    ∀ ops, run ops = some zl → (∀ done, done <+: ops → layoutBytes (layoutRun done) < 2 ^ 32) →
      (front ++ start :: rest).map Visit.value = listRun ops := by
  obtain ⟨rounds, within, walk⟩ := visitFrom_from _ _ formed.walk
  refine ⟨?_, ?_, fun ops ran bound => formed.values_run ran bound⟩
  · intro skip
    rw [← findVisit_eq_find v 0 0 (start :: rest) (by simp) (Nat.zero_le _)]
    exact findLoop_visit skip rounds zl.length start.offset 0 0 0 (start :: rest) walk within (.inl rfl)
  · obtain ⟨_, _, ⟨_, none⟩ | ⟨byte, entry, value, others, _, _, _, got, _, same⟩⟩ := visitFrom_cases walk
    · cases none
    · rw [ziplistCompare_get _ v got]
      rw [(List.cons.inj same).1]

-- With skip 1, only the first and the third entry are compared from the first one on.
theorem ziplistFind_compare_exact_built : ∃ zl, run [.push .tail [97], .push .tail [49, 50], .push .tail [98], .push .tail [49, 50]] = some zl ∧
    ziplistFind zl 10 [49, 50] 0 = some (some 13) ∧ ziplistFind zl 13 [49, 50] 1 = some (some 13) ∧
    ziplistFind zl 10 [49, 50] 1 = some none ∧ ziplistFind zl 10 [48, 49, 50] 0 = some none := by
  have small : ∀ done ∈ [Op.push .tail [97], .push .tail [49, 50], .push .tail [98], .push .tail [49, 50]].inits,
      layoutBytes (layoutRun done) < 2 ^ 32 := by decide +kernel
  obtain ⟨zl, ran, related⟩ := run_represents (fun done within => small done ((List.mem_inits _ _).mpr within))
  have formed := related.wellFormed (small _ (by decide))
  have shape : ∀ v, _ := fun v => (ziplistFind_compare_exact zl [] _ _ formed v).1
  have later : ∀ v, _ := fun v => (ziplistFind_compare_exact zl [_] _ _ formed v).1
  refine ⟨zl, ran, ?_, ?_, ?_, ?_⟩
  · exact (shape _ 0).trans (by decide +kernel)
  · exact (later _ 1).trans (by decide +kernel)
  · exact (shape _ 1).trans (by decide +kernel)
  · exact (shape _ 0).trans (by decide +kernel)

end RedisCore.Ziplist
