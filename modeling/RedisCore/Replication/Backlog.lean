import RedisCore.Lib.Ring

set_option autoImplicit false

namespace RedisCore.ReplBacklog

open Lib Buffer List Option

def replBacklogMinSize : Nat := 1024 * 16

structure Server where
  replBacklog : Option (List UInt8)
  replBacklogSize : Nat
  replBacklogHistlen : Nat
  replBacklogIdx : Nat
  replBacklogOff : Int
  masterReplOffset : Int
  deriving DecidableEq, Repr

section

variable (s : Server)

def zmalloc (size : Nat) : List UInt8 := List.replicate size 0

def emptied (s : Server) : Server :=
  { s with
    replBacklog := some (zmalloc s.replBacklogSize)
    replBacklogHistlen := 0
    replBacklogIdx := 0
    replBacklogOff := s.masterReplOffset + 1 }

-- none is a failed assertion.
def createReplicationBacklog : Option Server := if s.replBacklog = none then some (emptied s) else none

def resizeReplicationBacklog (newsize : Int) : Server :=
  let newsize := (max newsize replBacklogMinSize).toNat
  if s.replBacklogSize = newsize then s
  else
    let s := { s with replBacklogSize := newsize }
    if s.replBacklog ≠ none then emptied s else s

def freeReplicationBacklog : Server := { s with replBacklog := none }

end

-- The while loop; none is a memcpy outside of the buffer.
def feedLoop : (fuel : Nat) → (p : List UInt8) → Server → Option Server
  | _, [], s => some s
  | 0, _, _ => none
  | fuel + 1, p, s => do
    let thislen := min (s.replBacklogSize - s.replBacklogIdx) p.length
    let buffer ← s.replBacklog
    let buffer ← write buffer s.replBacklogIdx (p.take thislen)
    let idx := s.replBacklogIdx + thislen
    feedLoop fuel (p.drop thislen)
      { s with
        replBacklog := some buffer
        replBacklogIdx := if idx = s.replBacklogSize then 0 else idx
        replBacklogHistlen := s.replBacklogHistlen + thislen }

def feedReplicationBacklog (s : Server) (p : List UInt8) : Option Server := do
  let s ← feedLoop p.length p { s with masterReplOffset := s.masterReplOffset + p.length }
  let histlen := min s.replBacklogHistlen s.replBacklogSize
  pure { s with replBacklogHistlen := histlen, replBacklogOff := s.masterReplOffset - histlen + 1 }

-- The replies that are queued; none is a read outside of the buffer.
def replyLoop (buffer : List UInt8) (size : Int) : (fuel : Nat) → (j len : Int) → Option (List (List UInt8))
  | fuel, j, len =>
    if len = 0 then some []
    else
      match fuel with
      | 0 => none
      | fuel + 1 => do
        let thislen := if size - j < len then size - j else len
        if j < 0 ∨ thislen < 0 then none
        else
          let reply ← read buffer j.toNat thislen.toNat
          let replies ← replyLoop buffer size fuel 0 (len - thislen)
          pure (reply :: replies)

def addReplyReplicationBacklog (s : Server) (offset : Int) : Option (List (List UInt8) × Int) :=
  if s.replBacklogHistlen = 0 then some ([], 0)
  else do
    let skip := offset - s.replBacklogOff
    let j := ((s.replBacklogIdx : Int) + (s.replBacklogSize - s.replBacklogHistlen)).tmod s.replBacklogSize
    let j := (j + skip).tmod s.replBacklogSize
    let len := s.replBacklogHistlen - skip
    let buffer ← s.replBacklog
    let replies ← replyLoop buffer s.replBacklogSize (len.toNat + 1) j len
    pure (replies, s.replBacklogHistlen - skip)

-- The backlog holds the last bytes of data, which were fed since it was created.
structure Stores (s : Server) (buffer data : List UInt8) : Prop where
  memory : s.replBacklog = some buffer
  positive : 0 < s.replBacklogSize
  length : buffer.length = s.replBacklogSize
  holds : Ring.Holds buffer data
  idx : s.replBacklogIdx = data.length % s.replBacklogSize

variable {s : Server}

theorem Stores.idx_lt {buffer data : List UInt8} (stores : Stores s buffer data) :
    s.replBacklogIdx < s.replBacklogSize := by
  rw [stores.idx]
  exact Nat.mod_lt _ stores.positive

theorem stores_emptied (positive : 0 < s.replBacklogSize) :
    Stores (emptied s) (zmalloc s.replBacklogSize) [] :=
  ⟨rfl, positive, length_replicate, Ring.holds_nil _, rfl⟩

theorem Stores.write (buffer data piece : List UInt8) (stores : Stores s buffer data)
    (room : s.replBacklogIdx + piece.length ≤ s.replBacklogSize) :
    ∃ buffer', write buffer s.replBacklogIdx piece = some buffer' ∧
      Stores { s with
        replBacklog := some buffer'
        replBacklogIdx := if s.replBacklogIdx + piece.length = s.replBacklogSize then 0 else s.replBacklogIdx + piece.length
        replBacklogHistlen := s.replBacklogHistlen + piece.length } buffer' (data ++ piece) := by
  have stored : ∃ buffer', Buffer.write buffer s.replBacklogIdx piece = some buffer' := by
    unfold Buffer.write
    rw [if_pos (by rw [stores.length]; exact room)]
    exact ⟨_, rfl⟩
  obtain ⟨buffer', stored⟩ := stored
  have place : s.replBacklogIdx = data.length % buffer.length := by rw [stores.length, stores.idx]
  refine ⟨buffer', stored, rfl, stores.positive, (length_write stored).trans stores.length, ?_, ?_⟩
  · rw [place] at stored
    exact stores.holds.write (by rw [stores.length]; exact stores.positive) stored
  · have total : (data ++ piece).length % s.replBacklogSize = (s.replBacklogIdx + piece.length) % s.replBacklogSize := by
      rw [length_append, stores.idx, Nat.mod_add_mod]
    dsimp only
    rw [total]
    split
    next full => rw [full, Nat.mod_self]
    next short => rw [Nat.mod_eq_of_lt (by omega)]

theorem feedLoop_ok {fuel : Nat} (s : Server) (buffer data p : List UInt8) (stores : Stores s buffer data) (enough : p.length ≤ fuel) :
    ∃ s' buffer', feedLoop fuel p s = some s' ∧ Stores s' buffer' (data ++ p) ∧ s'.replBacklogSize = s.replBacklogSize ∧
      s'.masterReplOffset = s.masterReplOffset ∧ s'.replBacklogHistlen = s.replBacklogHistlen + p.length := by
  induction fuel generalizing s buffer data p with
  | zero =>
    obtain rfl := length_eq_zero_iff.mp (Nat.le_zero.mp enough)
    exact ⟨s, buffer, rfl, by simpa using stores, rfl, rfl, rfl⟩
  | succ fuel ih =>
    cases p with
    | nil => exact ⟨s, buffer, rfl, by simpa using stores, rfl, rfl, rfl⟩
    | cons b p =>
      have inside := stores.idx_lt
      generalize thislen_eq : min (s.replBacklogSize - s.replBacklogIdx) (b :: p).length = thislen
      have some_bytes : 0 < thislen := by
        rw [← thislen_eq, length_cons]
        omega
      have taken : ((b :: p).take thislen).length = thislen := by
        rw [length_take]
        omega
      obtain ⟨buffer₁, stored, stores₁⟩ := stores.write buffer data ((b :: p).take thislen) (by omega)
      rw [taken] at stores₁
      obtain ⟨s', buffer', loop, stores', size, offset, histlen⟩ := ih _ buffer₁ _ ((b :: p).drop thislen) stores₁ (by
        rw [length_drop]
        omega)
      refine ⟨s', buffer', ?_, ?_, size, offset, ?_⟩
      · simp only [feedLoop, thislen_eq, stores.memory, some_bind, stored, loop]
      · rw [append_assoc, take_append_drop] at stores'
        exact stores'
      · rw [histlen, length_drop]
        dsimp only
        omega

-- The whole invariant of a backlog to which data was fed since it was created.
structure Keeps (s : Server) (data : List UInt8) : Prop where
  stored : ∃ buffer, Stores s buffer data
  histlen : s.replBacklogHistlen = min data.length s.replBacklogSize
  off : s.replBacklogOff = s.masterReplOffset - s.replBacklogHistlen + 1

theorem keeps_emptied (positive : 0 < s.replBacklogSize) : Keeps (emptied s) [] :=
  ⟨⟨_, stores_emptied positive⟩, by simp [emptied], by simp [emptied]⟩

theorem Keeps.feed (data p : List UInt8) (keeps : Keeps s data) :
    ∃ s', feedReplicationBacklog s p = some s' ∧ Keeps s' (data ++ p) ∧ s'.replBacklogSize = s.replBacklogSize ∧
      s'.masterReplOffset = s.masterReplOffset + p.length := by
  obtain ⟨buffer, stores⟩ := keeps.stored
  have moved : Stores { s with masterReplOffset := s.masterReplOffset + p.length } buffer data :=
    ⟨stores.memory, stores.positive, stores.length, stores.holds, stores.idx⟩
  obtain ⟨s', buffer', loop, stores', size, offset, histlen⟩ := feedLoop_ok _ buffer data p moved le_rfl
  refine ⟨{ s' with
    replBacklogHistlen := min s'.replBacklogHistlen s'.replBacklogSize
    replBacklogOff := s'.masterReplOffset - min s'.replBacklogHistlen s'.replBacklogSize + 1 }, ?_,
    ⟨⟨buffer', stores'.memory, stores'.positive, stores'.length, stores'.holds, stores'.idx⟩, ?_, rfl⟩, size, offset⟩
  · simp only [feedReplicationBacklog, loop, some_bind]
    rfl
  · have before := keeps.histlen
    dsimp only at histlen size ⊢
    rw [histlen, size, before, length_append]
    omega

-- The first piece ends at the end of the buffer or of the data.
theorem replyLoop_ok {buffer data : List UInt8} (stores : Stores s buffer data) (fuel start : Nat) (j : Int)
    (inside : start ≤ data.length) (kept : data.length ≤ start + s.replBacklogSize) (enough : data.length - start < fuel)
    (at_start : start = data.length ∨ j = (start % s.replBacklogSize : Nat)) :
    ∃ replies, replyLoop buffer s.replBacklogSize fuel j (data.length - start : Nat) = some replies ∧
      replies.flatten = data.drop start := by
  induction fuel generalizing start j with
  | zero => omega
  | succ fuel ih =>
    rw [replyLoop.eq_def]
    dsimp only
    by_cases last : start = data.length
    · rw [if_pos (by omega)]
      exact ⟨[], rfl, by simp [last]⟩
    · have at_j : j = (start % s.replBacklogSize : Nat) := at_start.resolve_left last
      have low := Nat.mod_lt start stores.positive
      generalize thislen_eq : min (s.replBacklogSize - start % s.replBacklogSize) (data.length - start) = thislen
      have thislen_int : (if (s.replBacklogSize : Int) - j < (data.length - start : Nat) then (s.replBacklogSize : Int) - j
          else (data.length - start : Nat)) = thislen := by
        split <;> omega
      have length := stores.length
      have piece := stores.holds.read start thislen (by omega) (by omega) (by
        rw [length]
        omega)
      rw [length] at piece
      have next : start + thislen = data.length ∨ (0 : Int) = ((start + thislen) % s.replBacklogSize : Nat) := by
        by_cases whole : thislen = data.length - start
        · exact .inl (by omega)
        · have full : start % s.replBacklogSize + thislen = s.replBacklogSize := by omega
          refine .inr ?_
          rw [← Nat.mod_add_mod, full, Nat.mod_self]
          rfl
      obtain ⟨replies, loop, content⟩ := ih (start + thislen) 0 (by omega) (by omega) (by omega) next
      have rest : ((data.length - start : Nat) : Int) - thislen = (data.length - (start + thislen) : Nat) := by omega
      refine ⟨(data.drop start).take thislen :: replies, ?_, ?_⟩
      · rw [if_neg (by omega), thislen_int, if_neg (by omega), at_j, Int.toNat_natCast, Int.toNat_natCast, piece, rest]
        simp only [some_bind, loop]
        rfl
      · rw [flatten_cons, content, ← drop_drop, take_append_drop]

theorem Keeps.reply {data : List UInt8} {offset : Int} (keeps : Keeps s data) (low : s.replBacklogOff ≤ offset)
    (high : offset ≤ s.replBacklogOff + s.replBacklogHistlen) :
    ∃ replies, addReplyReplicationBacklog s offset = some (replies, (replies.flatten.length : Int)) ∧
      replies.flatten = data.drop (data.length - s.replBacklogHistlen + (offset - s.replBacklogOff).toNat) := by
  obtain ⟨buffer, stores⟩ := keeps.stored
  have histlen := keeps.histlen
  have positive := stores.positive
  obtain ⟨skip, skipped⟩ := Int.eq_ofNat_of_zero_le (sub_nonneg.mpr low)
  have within : skip ≤ s.replBacklogHistlen := by omega
  rw [skipped, Int.toNat_natCast]
  unfold addReplyReplicationBacklog
  by_cases empty : s.replBacklogHistlen = 0
  · rw [if_pos empty]
    refine ⟨[], rfl, ?_⟩
    rw [drop_of_length_le (by omega)]
    rfl
  · -- The oldest byte is data.length - histlen bytes behind the first.
    have oldest : ((s.replBacklogIdx : Int) + (s.replBacklogSize - s.replBacklogHistlen)).tmod s.replBacklogSize =
        ((data.length - s.replBacklogHistlen) % s.replBacklogSize : Nat) := by
      have sum : (s.replBacklogIdx : Int) + (s.replBacklogSize - s.replBacklogHistlen) =
          (s.replBacklogIdx + (s.replBacklogSize - s.replBacklogHistlen) : Nat) := by omega
      rw [sum, ← Int.ofNat_tmod, stores.idx, Nat.mod_add_mod,
        show data.length + (s.replBacklogSize - s.replBacklogHistlen) = data.length - s.replBacklogHistlen + s.replBacklogSize by omega,
        Nat.add_mod_right]
    have first : (((data.length - s.replBacklogHistlen) % s.replBacklogSize : Nat) + (skip : Int)).tmod s.replBacklogSize =
        ((data.length - s.replBacklogHistlen + skip) % s.replBacklogSize : Nat) := by
      rw [← Nat.cast_add, ← Int.ofNat_tmod, Nat.mod_add_mod]
    have left : (s.replBacklogHistlen : Int) - skip = (data.length - (data.length - s.replBacklogHistlen + skip) : Nat) := by omega
    obtain ⟨replies, loop, content⟩ := replyLoop_ok stores
      ((s.replBacklogHistlen : Int) - skip).toNat.succ (data.length - s.replBacklogHistlen + skip)
      ((data.length - s.replBacklogHistlen + skip) % s.replBacklogSize : Nat) (by omega) (by omega) (by omega) (.inr rfl)
    rw [← left] at loop
    refine ⟨replies, ?_, content⟩
    rw [if_neg empty, skipped]
    dsimp only
    rw [oldest, first]
    simp only [stores.memory, some_bind]
    rw [loop, some_bind, content, length_drop, ← left]
    rfl

inductive Call where
  | create
  | feed (p : List UInt8)
  | resize (newsize : Int)
  | free
  deriving DecidableEq, Repr

-- Feeding is up to the callers, which all test server.repl_backlog first.
def step (s : Server) : Call → Option Server
  | .create => createReplicationBacklog s
  | .feed p => if s.replBacklog = none then none else feedReplicationBacklog s p
  | .resize newsize => some (resizeReplicationBacklog s newsize)
  | .free => some (freeReplicationBacklog s)

-- A backlog is created where there is none and fed where there is one.
def proper : (exists_now : Bool) → List Call → Bool
  | _, [] => true
  | exists_now, .create :: calls => !exists_now && proper true calls
  | exists_now, .feed _ :: calls => exists_now && proper exists_now calls
  | exists_now, .resize _ :: calls => proper exists_now calls
  | _, .free :: calls => proper false calls

def Call.bytes : Call → List UInt8
  | .feed p => p
  | _ => []

def stream (calls : List Call) : List UInt8 := calls.flatMap Call.bytes

def defaultReplBacklogSize : Nat := 1024 * 1024

-- The offset is 0 or comes from an RDB file.
def initServer (offset : Int) : Server := ⟨none, defaultReplBacklogSize, 0, 0, 0, offset⟩

structure Inv (s : Server) (start : Int) (fed : List UInt8) : Prop where
  positive : 0 < s.replBacklogSize
  offset : s.masterReplOffset = start + fed.length
  keeps : s.replBacklog ≠ none → ∃ older data, fed = older ++ data ∧ Keeps s data

theorem Inv.emptied {start : Int} {fed : List UInt8} (inv : Inv s start fed) : Inv (emptied s) start fed :=
  ⟨inv.positive, inv.offset, fun _ => ⟨fed, [], (append_nil fed).symm, keeps_emptied inv.positive⟩⟩

theorem Inv.resize (start newsize : Int) {fed : List UInt8} (inv : Inv s start fed) :
    Inv (resizeReplicationBacklog s newsize) start fed ∧
      ((resizeReplicationBacklog s newsize).replBacklog = none ↔ s.replBacklog = none) := by
  unfold resizeReplicationBacklog
  have positive : 0 < (max newsize replBacklogMinSize).toNat := by
    unfold replBacklogMinSize
    omega
  dsimp only
  split
  next => exact ⟨inv, Iff.rfl⟩
  next =>
    split
    next present =>
      refine ⟨⟨positive, inv.offset, fun _ => ⟨fed, [], (append_nil fed).symm, keeps_emptied positive⟩⟩, ?_⟩
      simpa [ReplBacklog.emptied] using present
    next absent => exact ⟨⟨positive, inv.offset, fun present => absurd present absent⟩, Iff.rfl⟩

theorem Inv.feed {start : Int} (fed p : List UInt8) (inv : Inv s start fed) (present : s.replBacklog ≠ none) :
    ∃ s', feedReplicationBacklog s p = some s' ∧ Inv s' start (fed ++ p) ∧ s'.replBacklog ≠ none := by
  obtain ⟨older, data, rfl, keeps⟩ := inv.keeps present
  obtain ⟨s', ran, keeps', size, offset⟩ := keeps.feed data p
  refine ⟨s', ran, ⟨by rw [size]; exact inv.positive, ?_, fun _ => ⟨older, data ++ p, append_assoc older data p, keeps'⟩⟩, ?_⟩
  · simp only [offset, inv.offset, length_append]
    push_cast
    omega
  · obtain ⟨buffer, stores⟩ := keeps'.stored
    rw [stores.memory]
    nofun

-- The induction is on the calls, with what was fed before.
theorem run_ok {calls : List Call} (s : Server) {start : Int} (fed : List UInt8) (inv : Inv s start fed)
    (called : proper s.replBacklog.isSome calls = true) :
    ∃ s', calls.foldlM step s = some s' ∧ Inv s' start (fed ++ stream calls) := by
  induction calls generalizing s fed with
  | nil => exact ⟨s, rfl, by simpa [stream] using inv⟩
  | cons call calls ih =>
    cases call with
    | create =>
      simp only [proper, Bool.and_eq_true, Bool.not_eq_true', isSome_eq_false_iff, isNone_iff_eq_none] at called
      obtain ⟨s', ran, inv'⟩ := ih (emptied s) fed (inv.emptied) called.2
      refine ⟨s', ?_, by simpa [stream, Call.bytes] using inv'⟩
      simp [foldlM_cons, step, createReplicationBacklog, called.1, ran]
    | feed p =>
      simp only [proper, Bool.and_eq_true, isSome_iff_ne_none] at called
      obtain ⟨s₁, fed₁, inv₁, present⟩ := inv.feed fed p called.1
      obtain ⟨s', ran, inv'⟩ := ih s₁ (fed ++ p) inv₁ (by
        rw [isSome_iff_ne_none.mpr called.1] at called
        rw [isSome_iff_ne_none.mpr present]
        exact called.2)
      refine ⟨s', ?_, by simpa [stream, Call.bytes] using inv'⟩
      simp [foldlM_cons, step, called.1, fed₁, ran]
    | resize newsize =>
      obtain ⟨inv₁, same⟩ := inv.resize start newsize
      have exists_eq : (resizeReplicationBacklog s newsize).replBacklog.isSome = s.replBacklog.isSome := by
        rw [Bool.eq_iff_iff, isSome_iff_ne_none, isSome_iff_ne_none, not_iff_not, same]
      obtain ⟨s', ran, inv'⟩ := ih _ fed inv₁ (by rw [exists_eq]; exact called)
      exact ⟨s', ran, by simpa [stream, Call.bytes] using inv'⟩
    | free =>
      obtain ⟨s', ran, inv'⟩ := ih (freeReplicationBacklog s) fed ⟨inv.positive, inv.offset, fun present => absurd rfl present⟩ called
      exact ⟨s', ran, by simpa [stream, Call.bytes] using inv'⟩

theorem backlog_serves_stream (start : Int) (calls : List Call) (called : proper false calls = true) :
    ∃ s, calls.foldlM step (initServer start) = some s ∧ (s.replBacklog ≠ none →
      s.replBacklogIdx < s.replBacklogSize ∧ s.replBacklogHistlen ≤ s.replBacklogSize ∧
      s.replBacklogOff = s.masterReplOffset - s.replBacklogHistlen + 1 ∧ s.masterReplOffset = start + (stream calls).length ∧
      ∀ offset, s.replBacklogOff ≤ offset → offset ≤ s.replBacklogOff + s.replBacklogHistlen →
        ∃ replies, addReplyReplicationBacklog s offset = some (replies, (replies.flatten.length : Int)) ∧
          replies.flatten = (stream calls).drop (offset - (start + 1)).toNat) := by
  have init : Inv (initServer start) start [] := ⟨Nat.mul_pos (by decide) (by decide), by simp [initServer], fun present => absurd rfl present⟩
  obtain ⟨s, ran, inv⟩ := run_ok (initServer start) [] init called
  refine ⟨s, ran, fun present => ?_⟩
  obtain ⟨older, data, split, keeps⟩ := inv.keeps present
  obtain ⟨buffer, stores⟩ := keeps.stored
  have offset_eq := inv.offset
  have off := keeps.off
  have histlen := keeps.histlen
  rw [nil_append] at split offset_eq
  refine ⟨stores.idx_lt, by omega, off, offset_eq, fun offset low high => ?_⟩
  obtain ⟨replies, sent, content⟩ := keeps.reply low high
  refine ⟨replies, sent, ?_⟩
  have total : (stream calls).length = older.length + data.length := by rw [split, length_append]
  rw [content, split, show (offset - (start + 1)).toNat =
    older.length + (data.length - s.replBacklogHistlen + (offset - s.replBacklogOff).toNat) by omega,
    drop_length_add_append]

theorem backlog_serves_stream_resized :
    ∃ s, [Call.create, .feed [1, 2, 3], .resize 5, .feed [4], .feed [5, 6]].foldlM step (initServer 7) = some s ∧
      (s.replBacklog ≠ none → s.replBacklogIdx < s.replBacklogSize ∧ s.replBacklogHistlen ≤ s.replBacklogSize ∧
        s.replBacklogOff = s.masterReplOffset - s.replBacklogHistlen + 1 ∧ s.masterReplOffset = 7 + 6 ∧
        ∀ offset, s.replBacklogOff ≤ offset → offset ≤ s.replBacklogOff + s.replBacklogHistlen →
          ∃ replies, addReplyReplicationBacklog s offset = some (replies, (replies.flatten.length : Int)) ∧
            replies.flatten = [1, 2, 3, 4, 5, 6].drop (offset - (7 + 1)).toNat) :=
  backlog_serves_stream 7 _ (by decide)

end RedisCore.ReplBacklog
