import RedisCore.Networking.Client
import RedisCore.Lib.Outcome

set_option autoImplicit false

namespace RedisCore.Networking

open Util List

variable {c : Client} {n : Nat} {s : Bytes} {ll : Int} {obj : StringObject}

def StringObject.text : StringObject → Bytes
  | .raw s => s
  | .int v => llString v.toInt

theorem int64_range (v : Int64) : IsInt64 v.toInt := ⟨v.le_toInt, v.toInt_lt⟩

def nodeContent (node : ReplyNode) : List (Option UInt8) :=
  match node.value with
  | some s => s.map some
  | none => [none]

def nodeLength (node : ReplyNode) : Nat := (node.value.getD []).length

def content (c : Client) : List (Option UInt8) := c.buf.map some ++ c.reply.flatMap nodeContent

def output (c : Client) : List (Option UInt8) := (content c).drop c.sentlen

def holes (c : Client) : List Nat := (c.reply.filter (·.value.isNone)).map (·.addr)

structure Valid (c : Client) : Prop where
  room : c.buf.length ≤ protoReplyChunkBytes
  sent : c.sentlen = 0 ∨ c.sentlen < c.buf.length ∨
    c.buf = [] ∧ ∃ addr o rest, c.reply = ⟨addr, some o⟩ :: rest ∧ c.sentlen < o.length
  bytes : c.replyBytes = ((c.reply.map nodeLength).sum : Nat)
  addrs : ∀ addr ∈ c.reply.map (·.addr), addr < c.nextAddr
  distinct : (c.reply.map (·.addr)).Nodup

def acceptsReplies (c : Client) : Bool :=
  (c.flags.lua || c.flags.module ||
    (!c.flags.replyOff && !c.flags.replySkip && (!c.flags.master || c.flags.masterForceReply) && decide (0 < c.fd))) &&
    !c.flags.closeAfterReply

structure Frame (c c' : Client) : Prop where
  fd : c'.fd = c.fd
  flags : ∃ pendingWrite, c'.flags = { c.flags with pendingWrite := pendingWrite }
  replstate : c'.replstate = c.replstate
  replPutOnlineOnAck : c'.replPutOnlineOnAck = c.replPutOnlineOnAck

structure Queued (c c' : Client) (s : Bytes) : Prop where
  valid : Valid c'
  content : content c' = content c ++ s.map some
  sentlen : c'.sentlen = c.sentlen
  holes : holes c' = holes c
  frame : Frame c c'

theorem Frame.refl (c : Client) : Frame c c := ⟨rfl, ⟨_, rfl⟩, rfl, rfl⟩

theorem Frame.trans {c₁ c₂ : Client} (first : Frame c c₁) (second : Frame c₁ c₂) : Frame c c₂ := by
  obtain ⟨b₁, flags₁⟩ := first.flags
  obtain ⟨b₂, flags₂⟩ := second.flags
  exact ⟨second.fd.trans first.fd, ⟨b₂, by rw [flags₂, flags₁]⟩, second.replstate.trans first.replstate,
    second.replPutOnlineOnAck.trans first.replPutOnlineOnAck⟩

theorem Frame.accepts {c' : Client} (frame : Frame c c') : acceptsReplies c' = acceptsReplies c := by
  obtain ⟨b, flags⟩ := frame.flags
  simp only [acceptsReplies, flags, frame.fd]

theorem Frame.closeAfterReply {c' : Client} (frame : Frame c c') : c'.flags.closeAfterReply = c.flags.closeAfterReply := by
  obtain ⟨b, flags⟩ := frame.flags
  rw [flags]

theorem Queued.trans {c₁ c₂ : Client} {t : Bytes} (first : Queued c c₁ s) (second : Queued c₁ c₂ t) :
    Queued c c₂ (s ++ t) where
  valid := second.valid
  content := by rw [second.content, first.content, map_append, append_assoc]
  sentlen := second.sentlen.trans first.sentlen
  holes := second.holes.trans first.holes
  frame := first.frame.trans second.frame

theorem acceptsReplies_open (accepts : acceptsReplies c = true) : c.flags.closeAfterReply = false := by
  simp only [acceptsReplies, Bool.and_eq_true, Bool.not_eq_true'] at accepts
  exact accepts.2

theorem prepareClientToWrite_accepts (valid : Valid c) (accepts : acceptsReplies c = true) :
    ∃ c', prepareClientToWrite c = some c' ∧ Queued c c' [] := by
  have unchanged : Queued c c [] := ⟨valid, by simp, rfl, rfl, .refl c⟩
  simp only [acceptsReplies, Bool.and_eq_true, Bool.or_eq_true, Bool.not_eq_true', decide_eq_true_eq] at accepts
  unfold prepareClientToWrite
  split_ifs with internal muted master fake schedules
  · exact ⟨c, rfl, unchanged⟩
  · simp_all
  · simp_all
  · simp_all
    omega
  · exact ⟨_, rfl, ⟨valid.room, valid.sent, valid.bytes, valid.addrs, valid.distinct⟩, by simp [content], rfl, rfl,
      rfl, ⟨true, rfl⟩, rfl, rfl⟩
  · exact ⟨c, rfl, unchanged⟩

theorem queued_buffer {c' : Client} (valid : Valid c) (stays : c.flags.closeAfterReply = false)
    (added : addReplyToBuffer c s = some c') : Queued c c' s := by
  simp only [addReplyToBuffer, stays, Bool.false_eq_true, if_false] at added
  split_ifs at added with listed full
  cases added
  have empty : c.reply = [] := not_not.mp listed
  have room := valid.room
  constructor
  · refine ⟨?_, ?_, valid.bytes, valid.addrs, valid.distinct⟩
    · rw [length_append]
      omega
    · rcases valid.sent with zero | inside | ⟨_, addr, o, rest, head, _⟩
      · exact .inl zero
      · refine .inr (.inl ?_)
        simp only [length_append]
        omega
      · rw [empty] at head
        cases head
  · simp [content, empty]
  · rfl
  · rfl
  · exact ⟨rfl, ⟨_, rfl⟩, rfl, rfl⟩

theorem queued_appendNode (s : Bytes) (valid : Valid c) : Queued c (appendNode c s) s where
  valid :=
    { room := valid.room
      sent := by
        rcases valid.sent with zero | inside | ⟨empty, addr, o, rest, head, inside⟩
        · exact .inl zero
        · exact .inr (.inl inside)
        · exact .inr (.inr ⟨empty, addr, o, rest ++ [⟨c.nextAddr, some s⟩], by simp [appendNode, head], inside⟩)
      bytes := by simp [appendNode, valid.bytes, nodeLength]
      addrs := by
        intro addr member
        simp only [appendNode, map_append, map_cons, map_nil, mem_append, mem_singleton] at member ⊢
        rcases member with old | rfl
        · exact Nat.lt_succ_of_lt (valid.addrs addr old)
        · exact Nat.lt_succ_self _
      distinct := by
        simp only [appendNode, map_append, map_cons, map_nil]
        refine nodup_append.mpr ⟨valid.distinct, nodup_singleton _, ?_⟩
        intro addr old _ new
        rw [mem_singleton.mp new]
        exact (valid.addrs addr old).ne }
  content := by simp [content, appendNode, nodeContent]
  sentlen := rfl
  holes := by simp [holes, appendNode]
  frame := ⟨rfl, ⟨_, rfl⟩, rfl, rfl⟩

theorem growTail_some {node : ReplyNode} (grown : growTail c s = some node) :
    ∃ front addr tail, c.reply = front ++ [⟨addr, some tail⟩] ∧ node = ⟨addr, some (tail ++ s)⟩ := by
  unfold growTail at grown
  split at grown
  next addr tail last =>
    split_ifs at grown
    cases grown
    obtain ⟨front, shape⟩ := getLast?_eq_some_iff.mp last
    exact ⟨front, addr, tail, shape, rfl⟩
  next => cases grown

theorem queued_list (s : Bytes) (valid : Valid c) (stays : c.flags.closeAfterReply = false) :
    Queued c (addReplyToList c s) s := by
  simp only [addReplyToList, stays, Bool.false_eq_true, if_false]
  cases grown : growTail c s with
  | none => exact queued_appendNode s valid
  | some node =>
    obtain ⟨front, addr, tail, shape, rfl⟩ := growTail_some grown
    have front_eq : c.reply.dropLast = front := by rw [shape, dropLast_concat]
    dsimp only
    rw [front_eq]
    constructor
    · constructor
      · exact valid.room
      · rcases valid.sent with zero | inside | ⟨empty, addr', o, rest, head, inside⟩
        · exact .inl zero
        · exact .inr (.inl inside)
        · refine .inr (.inr ⟨empty, ?_⟩)
          cases front with
          | nil =>
            rw [shape] at head
            cases head
            refine ⟨addr, tail ++ s, [], rfl, ?_⟩
            rw [length_append]
            exact Nat.lt_add_right _ inside
          | cons first front =>
            rw [shape] at head
            cases head
            exact ⟨addr', o, _, rfl, inside⟩
      · have bytes := valid.bytes
        rw [shape] at bytes
        simp [bytes, nodeLength]
        omega
      · have addrs := valid.addrs
        rw [shape] at addrs
        simpa using addrs
      · have distinct := valid.distinct
        rw [shape] at distinct
        simpa using distinct
    · simp [content, shape, nodeContent]
    · rfl
    · simp [holes, shape]
    · exact ⟨rfl, ⟨_, rfl⟩, rfl, rfl⟩

def Emits (f : Client → Client) (s : Bytes) : Prop := ∀ c, Valid c → acceptsReplies c = true → Queued c (f c) s

theorem Emits.comp {f g : Client → Client} {t : Bytes} (first : Emits f s) (second : Emits g t) :
    Emits (fun c => g (f c)) (s ++ t) := by
  intro c valid accepts
  have queued := first c valid accepts
  exact queued.trans (second (f c) queued.valid (queued.frame.accepts.trans accepts))

theorem emits_addReplyString (s : Bytes) : Emits (addReplyString · s) s := by
  intro c valid accepts
  obtain ⟨c', prepared, marked⟩ := prepareClientToWrite_accepts valid accepts
  have stays : c'.flags.closeAfterReply = false := marked.frame.closeAfterReply.trans (acceptsReplies_open accepts)
  simp only [addReplyString, prepared]
  refine marked.trans ?_
  cases added : addReplyToBuffer c' s with
  | some c₂ => exact queued_buffer marked.valid stays added
  | none => exact queued_list s marked.valid stays

theorem emits_addReplySds (s : Bytes) : Emits (addReplySds · s) s := emits_addReplyString s

theorem emits_addReply_raw (s : Bytes) : Emits (addReply · (.raw s)) s := emits_addReplyString s

theorem emits_addReply (obj : StringObject) : Emits (addReply · obj) obj.text := by
  cases obj with
  | raw s => exact emits_addReply_raw s
  | int v =>
    intro c valid accepts
    have text : ll2string 32 v.toInt = llString v.toInt := ll2string_eq_llString 32 (int64_range v) (by decide)
    have decoded : addReply c (.int v) = addReply c (.raw (llString v.toInt)) := by
      obtain ⟨c', prepared, marked⟩ := prepareClientToWrite_accepts valid accepts
      simp only [addReply, prepared, getDecodedObject, text]
      split_ifs with fits
      · cases added : addReplyToBuffer c' (llString v.toInt) with
        | some c₂ => simp [addReplyObject, added]
        | none => rfl
      · rfl
    simp only [decoded]
    exact emits_addReply_raw _ c valid accepts

theorem emits_addReplyErrorLength (s : Bytes) :
    Emits (addReplyErrorLength · s) ([45, 69, 82, 82, 32] ++ s ++ crlf) :=
  ((emits_addReplyString _).comp (emits_addReplyString s)).comp (emits_addReplyString crlf)

theorem emits_addReplyStatusLength (s : Bytes) : Emits (addReplyStatusLength · s) ([43] ++ s ++ crlf) :=
  ((emits_addReplyString _).comp (emits_addReplyString s)).comp (emits_addReplyString crlf)

theorem emits_addReplyLongLongWithPrefix (mark : UInt8) (range : IsInt64 ll) :
    Emits (addReplyLongLongWithPrefix · ll mark) (header mark ll) := by
  unfold addReplyLongLongWithPrefix
  split_ifs with multi bulk
  · obtain ⟨rfl, _, nonneg⟩ := multi
    rw [sharedMbulkhdr, Int.toNat_of_nonneg nonneg]
    exact emits_addReply_raw _
  · obtain ⟨rfl, _, nonneg⟩ := bulk
    rw [sharedBulkhdr, Int.toNat_of_nonneg nonneg]
    exact emits_addReply_raw _
  · rw [header, ← ll2string_eq_llString 127 range (by decide)]
    exact emits_addReplyString _

theorem emits_addReplyLongLong (range : IsInt64 ll) : Emits (addReplyLongLong · ll) (header 58 ll) := by
  unfold addReplyLongLong
  split_ifs with zero one
  · subst zero
    exact emits_addReply_raw _
  · subst one
    exact emits_addReply_raw _
  · exact emits_addReplyLongLongWithPrefix 58 range

theorem asLongLong_of_lt (small : n < 2 ^ 63) : asLongLong n = n := if_pos small

theorem isInt64_natCast (small : n < 2 ^ 63) : IsInt64 n := by
  constructor <;> omega

theorem emits_length (small : n < 2 ^ 63) (mark : UInt8) :
    Emits (addReplyLongLongWithPrefix · (asLongLong n) mark) (header mark n) := by
  rw [asLongLong_of_lt small]
  exact emits_addReplyLongLongWithPrefix mark (isInt64_natCast small)

theorem emits_addReplyMultiBulkLen (small : n < 2 ^ 63) : Emits (addReplyMultiBulkLen · n) (header 42 n) := by
  unfold addReplyMultiBulkLen
  split_ifs with shared
  · exact emits_addReply_raw _
  · exact emits_length small 42

theorem digitsLoop_eq (rounds len : Nat) (n : Int) (bound : n.natAbs < 10 ^ (rounds + 1)) :
    digitsLoop rounds n len = len + Nat.log 10 n.natAbs := by
  induction rounds generalizing n len with
  | zero => rw [digitsLoop, Nat.log_of_lt (by simpa using bound), Nat.add_zero]
  | succ rounds ih =>
    have quotient : (n.tdiv 10).natAbs = n.natAbs / 10 := Int.natAbs_tdiv n 10
    rw [digitsLoop]
    split_ifs with more
    · have large : 10 ≤ n.natAbs := by
        by_contra small
        have : (n.tdiv 10).natAbs = 0 := by omega
        exact more (Int.natAbs_eq_zero.mp this)
      rw [ih (len + 1) (n.tdiv 10) (by rw [quotient]; omega), quotient,
        Nat.log_of_one_lt_of_le (by decide) large]
      omega
    · have : n.natAbs / 10 = 0 := by rw [← quotient, not_not.mp more, Int.natAbs_zero]
      rw [Nat.log_of_lt (by omega), Nat.add_zero]

theorem decimal_length (n : Nat) : (decimal n).length = Nat.log 10 n + 1 := by
  unfold decimal
  split_ifs with zero
  · simp [zero]
  · simp [Nat.length_digits 10 n (by decide) zero]

theorem stringObjectLen_eq (obj : StringObject) : stringObjectLen obj = obj.text.length := by
  cases obj with
  | raw s => rfl
  | int v =>
    obtain ⟨low, high⟩ := int64_range v
    have same : (negLong v.toInt).natAbs = v.toInt.natAbs := by
      unfold negLong
      split_ifs <;> simp
    have bound : v.toInt.natAbs < 10 ^ 20 := by omega
    simp only [stringObjectLen, StringObject.text, llString]
    split_ifs with negative
    · rw [digitsLoop_eq 19 2 _ (by rw [same]; exact bound), same, length_append, decimal_length]
      simp
      omega
    · rw [digitsLoop_eq 19 1 _ bound, nil_append, decimal_length]
      omega

theorem emits_addReplyBulkLen (small : obj.text.length < 2 ^ 63) :
    Emits (addReplyBulkLen · obj) (header 36 obj.text.length) := by
  unfold addReplyBulkLen
  rw [stringObjectLen_eq]
  split_ifs with shared
  · exact emits_addReply_raw _
  · exact emits_length small 36

def bulk (s : Bytes) : Bytes := header 36 s.length ++ s ++ crlf

theorem emits_addReplyBulk (small : obj.text.length < 2 ^ 63) :
    Emits (addReplyBulk · obj) (bulk obj.text) :=
  ((emits_addReplyBulkLen small).comp (emits_addReply obj)).comp (emits_addReply_raw crlf)

theorem emits_addReplyBulkCBuffer {p : Bytes} (small : p.length < 2 ^ 63) : Emits (addReplyBulkCBuffer · p) (bulk p) :=
  ((emits_length small 36).comp (emits_addReplyString p)).comp (emits_addReply_raw crlf)

theorem emits_addReplyBulkSds (small : s.length < 2 ^ 63) : Emits (addReplyBulkSds · s) (bulk s) :=
  ((emits_length small 36).comp (emits_addReplySds s)).comp (emits_addReply_raw crlf)

theorem llString_length {v : Int} (range : IsInt64 v) : (llString v).length < 2 ^ 63 := by
  obtain ⟨low, high⟩ := range
  have digits : Nat.log 10 v.natAbs < 20 := Nat.log_lt_of_lt_pow' (by decide) (by omega)
  rw [llString, length_append, decimal_length]
  split_ifs <;> simp <;> omega

theorem emits_addReplyBulkLongLong (range : IsInt64 ll) :
    Emits (addReplyBulkLongLong · ll) (bulk (llString ll)) := by
  unfold addReplyBulkLongLong
  rw [ll2string_eq_llString 64 range (by decide)]
  exact emits_addReplyBulkCBuffer (llString_length range)

inductive Reply where
  | addReply (obj : StringObject)
  | addReplySds (s : Bytes)
  | addReplyString (s : Bytes)
  | addReplyErrorLength (s : Bytes)
  | addReplyError (err : Bytes)
  | addReplyErrorFormat (s : Bytes)
  | addReplyStatusLength (s : Bytes)
  | addReplyStatus (status : Bytes)
  | addReplyStatusFormat (s : Bytes)
  | addReplyLongLongWithPrefix (ll : Int64) (mark : UInt8)
  | addReplyLongLong (ll : Int64)
  | addReplyMultiBulkLen (length : Nat)
  | addReplyBulkLen (obj : StringObject)
  | addReplyBulk (obj : StringObject)
  | addReplyBulkCBuffer (p : Bytes)
  | addReplyBulkSds (s : Bytes)
  | addReplyBulkCString (s : Option Bytes)
  | addReplyBulkLongLong (ll : Int64)
  | addReplyDouble (d : DoubleText)
  | addReplyHumanLongDouble (text : Bytes)

def Reply.apply : Reply → Client → Client
  | .addReply obj, c => Networking.addReply c obj
  | .addReplySds s, c => Networking.addReplySds c s
  | .addReplyString s, c => Networking.addReplyString c s
  | .addReplyErrorLength s, c => Networking.addReplyErrorLength c s
  | .addReplyError err, c => Networking.addReplyError c err
  | .addReplyErrorFormat s, c => Networking.addReplyErrorFormat c s
  | .addReplyStatusLength s, c => Networking.addReplyStatusLength c s
  | .addReplyStatus status, c => Networking.addReplyStatus c status
  | .addReplyStatusFormat s, c => Networking.addReplyStatusFormat c s
  | .addReplyLongLongWithPrefix ll mark, c => Networking.addReplyLongLongWithPrefix c ll.toInt mark
  | .addReplyLongLong ll, c => Networking.addReplyLongLong c ll.toInt
  | .addReplyMultiBulkLen length, c => Networking.addReplyMultiBulkLen c length
  | .addReplyBulkLen obj, c => Networking.addReplyBulkLen c obj
  | .addReplyBulk obj, c => Networking.addReplyBulk c obj
  | .addReplyBulkCBuffer p, c => Networking.addReplyBulkCBuffer c p
  | .addReplyBulkSds s, c => Networking.addReplyBulkSds c s
  | .addReplyBulkCString s, c => Networking.addReplyBulkCString c s
  | .addReplyBulkLongLong ll, c => Networking.addReplyBulkLongLong c ll.toInt
  | .addReplyDouble d, c => Networking.addReplyDouble c d
  | .addReplyHumanLongDouble text, c => Networking.addReplyHumanLongDouble c text

def errorText (s : Bytes) : Bytes := [45, 69, 82, 82, 32] ++ s ++ crlf
def statusText (s : Bytes) : Bytes := [43] ++ s ++ crlf
def withoutNewlines (s : Bytes) : Bytes := s.map fun byte => if byte = 13 ∨ byte = 10 then 32 else byte

def Reply.bytes : Reply → Bytes
  | .addReply obj => obj.text
  | .addReplySds s => s
  | .addReplyString s => s
  | .addReplyErrorLength s => errorText s
  | .addReplyError err => errorText (strlenPart err)
  | .addReplyErrorFormat s => errorText (withoutNewlines s)
  | .addReplyStatusLength s => statusText s
  | .addReplyStatus status => statusText (strlenPart status)
  | .addReplyStatusFormat s => statusText s
  | .addReplyLongLongWithPrefix ll mark => header mark ll.toInt
  | .addReplyLongLong ll => header 58 ll.toInt
  | .addReplyMultiBulkLen length => header 42 length
  | .addReplyBulkLen obj => header 36 obj.text.length
  | .addReplyBulk obj => bulk obj.text
  | .addReplyBulkCBuffer p => bulk p
  | .addReplyBulkSds s => bulk s
  | .addReplyBulkCString none => header 36 (-1)
  | .addReplyBulkCString (some s) => bulk (strlenPart s)
  | .addReplyBulkLongLong ll => bulk (llString ll.toInt)
  | .addReplyDouble (.inf positive) => bulk (infText positive)
  | .addReplyDouble (.finite dbuf) => bulk dbuf
  | .addReplyHumanLongDouble text => bulk text

-- The lengths in a reply are those of objects in memory.
def Reply.inMemory : Reply → Bool
  | .addReplyMultiBulkLen length => decide (length < 2 ^ 63)
  | .addReplyBulkLen obj => decide (obj.text.length < 2 ^ 63)
  | .addReplyBulk obj => decide (obj.text.length < 2 ^ 63)
  | .addReplyBulkCBuffer p => decide (p.length < 2 ^ 63)
  | .addReplyBulkSds s => decide (s.length < 2 ^ 63)
  | .addReplyBulkCString (some s) => decide (s.length < 2 ^ 63)
  | .addReplyHumanLongDouble text => decide (text.length < 2 ^ 63)
  | _ => true

theorem Reply.emits (r : Reply) (fits : r.inMemory = true) : Emits r.apply r.bytes := by
  cases r with
  | addReply obj => exact emits_addReply obj
  | addReplySds s => exact emits_addReplySds s
  | addReplyString s => exact emits_addReplyString s
  | addReplyErrorLength s => exact emits_addReplyErrorLength s
  | addReplyError err => exact emits_addReplyErrorLength _
  | addReplyErrorFormat s => exact emits_addReplyErrorLength _
  | addReplyStatusLength s => exact emits_addReplyStatusLength s
  | addReplyStatus status => exact emits_addReplyStatusLength _
  | addReplyStatusFormat s => exact emits_addReplyStatusLength s
  | addReplyLongLongWithPrefix ll mark => exact emits_addReplyLongLongWithPrefix mark (int64_range ll)
  | addReplyLongLong ll => exact emits_addReplyLongLong (int64_range ll)
  | addReplyMultiBulkLen length => exact emits_addReplyMultiBulkLen (of_decide_eq_true fits)
  | addReplyBulkLen obj => exact emits_addReplyBulkLen (of_decide_eq_true fits)
  | addReplyBulk obj => exact emits_addReplyBulk (of_decide_eq_true fits)
  | addReplyBulkCBuffer p => exact emits_addReplyBulkCBuffer (of_decide_eq_true fits)
  | addReplyBulkSds s => exact emits_addReplyBulkSds (of_decide_eq_true fits)
  | addReplyBulkCString s =>
    cases s with
    | none => exact emits_addReply_raw _
    | some s =>
      have whole : s.length < 2 ^ 63 := of_decide_eq_true fits
      exact emits_addReplyBulkCBuffer (( takeWhile_prefix _).length_le.trans_lt whole)
  | addReplyBulkLongLong ll => exact emits_addReplyBulkLongLong (int64_range ll)
  | addReplyDouble d =>
    cases d with
    | inf positive => cases positive <;> exact emits_addReplyBulkCBuffer (by decide)
    | finite dbuf => exact emits_addReplyString (bulk dbuf)
  | addReplyHumanLongDouble text => exact emits_addReplyBulk (of_decide_eq_true fits)

end RedisCore.Networking
