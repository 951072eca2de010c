import RedisCore.Networking.Output

set_option autoImplicit false

namespace RedisCore.Networking

open Util List

variable {c : Client} {addr : Nat} {front : List Nat}

theorem addDeferredMultiBulkLength_spec (valid : Valid c) (accepts : acceptsReplies c = true) :
    ∃ c' addr, addDeferredMultiBulkLength c = (c', some addr) ∧ Valid c' ∧ content c' = content c ++ [none] ∧
      c'.sentlen = c.sentlen ∧ holes c' = holes c ++ [addr] ∧ Frame c c' := by
  obtain ⟨c₁, prepared, marked⟩ := prepareClientToWrite_accepts valid accepts
  refine ⟨{ c₁ with reply := c₁.reply ++ [⟨c₁.nextAddr, none⟩], nextAddr := c₁.nextAddr + 1 }, c₁.nextAddr,
    by simp only [addDeferredMultiBulkLength, prepared], ?_, ?_, marked.sentlen, ?_, ?_⟩
  · have node := queued_appendNode [] marked.valid
    refine ⟨node.valid.room, ?_, ?_, ?_, ?_⟩
    · rcases marked.valid.sent with zero | inside | ⟨empty, addr, o, rest, head, inside⟩
      · exact .inl zero
      · exact .inr (.inl inside)
      · exact .inr (.inr ⟨empty, addr, o, rest ++ [⟨c₁.nextAddr, none⟩], by simp [head], inside⟩)
    · simp [marked.valid.bytes, nodeLength]
    · simpa [appendNode] using node.valid.addrs
    · simpa [appendNode] using node.valid.distinct
  · have same := marked.content
    rw [map_nil, append_nil] at same
    rw [← same]
    simp [content, nodeContent]
  · rw [← marked.holes]
    simp [holes]
  · exact marked.frame.trans ⟨rfl, ⟨_, rfl⟩, rfl, rfl⟩

def fillLast (header : Bytes) : List (Option UInt8) → List (Option UInt8)
  | [] => []
  | some byte :: rest => some byte :: fillLast header rest
  | none :: rest => if none ∈ rest then none :: fillLast header rest else header.map some ++ rest

theorem fillLast_append (header : Bytes) (front : List (Option UInt8)) {rest : List (Option UInt8)} (last : none ∉ rest) :
    fillLast header (front ++ none :: rest) = front ++ (header.map some ++ rest) := by
  induction front with
  | nil => rw [nil_append, fillLast, if_neg last, nil_append]
  | cons first front ih =>
    cases first with
    | some byte => rw [cons_append, fillLast, ih, cons_append]
    | none => rw [cons_append, fillLast, if_pos (by simp), ih, cons_append]

section

variable (addr : Nat) (len : Bytes)

section

variable (rest : List ReplyNode)

theorem glueNext_content :
    (glueNext addr len rest).flatMap nodeContent = len.map some ++ rest.flatMap nodeContent := by
  unfold glueNext
  split <;> simp [nodeContent]

theorem glueNext_length :
    ((glueNext addr len rest).map nodeLength).sum = len.length + (rest.map nodeLength).sum := by
  unfold glueNext
  split <;> simp [nodeLength, Nat.add_assoc]

theorem glueNext_addrs :
    ((glueNext addr len rest).map (·.addr)).Sublist (addr :: rest.map (·.addr)) := by
  unfold glueNext
  split
  · exact List.Sublist.cons_cons _ (sublist_cons_self _ _)
  · exact List.Sublist.refl _

theorem glueNext_holes :
    (glueNext addr len rest).filter (·.value.isNone) = rest.filter (·.value.isNone) := by
  unfold glueNext
  split <;> simp

end

theorem fillNode_eq (front rest : List ReplyNode) (value : Option Bytes) (absent : addr ∉ front.map (·.addr)) :
    fillNode addr len (front ++ ⟨addr, value⟩ :: rest) = some (front ++ glueNext addr len rest) := by
  induction front with
  | nil => rw [nil_append, fillNode, if_pos rfl, nil_append]
  | cons node front ih =>
    simp only [map_cons, mem_cons, not_or] at absent
    rw [cons_append, fillNode, if_neg (Ne.symm absent.1), ih absent.2, Option.map_some, cons_append]

end

theorem last_hole {reply : List ReplyNode}
    (open_holes : (reply.filter (·.value.isNone)).map (·.addr) = front ++ [addr]) :
    ∃ before after, reply = before ++ ⟨addr, none⟩ :: after ∧ (∀ node ∈ after, node.value.isNone = false) ∧
      (before.filter (·.value.isNone)).map (·.addr) = front := by
  obtain ⟨fronts, lasts, split_filter, fronts_eq, lasts_eq⟩ := map_eq_append_iff.mp open_holes
  obtain ⟨before, tail, rfl, before_eq, tail_eq⟩ := filter_eq_append_iff.mp split_filter
  obtain ⟨node, none_left, rfl, node_addr, nil_left⟩ := map_eq_cons_iff.mp lasts_eq
  obtain rfl := map_eq_nil_iff.mp nil_left
  obtain ⟨between, after, rfl, filled, hole, after_eq⟩ := filter_eq_cons_iff.mp tail_eq
  refine ⟨before ++ between, after, ?_, ?_, ?_⟩
  · obtain ⟨node_addr', value⟩ := node
    simp only at node_addr hole
    rw [Option.isNone_iff_eq_none.mp hole, node_addr, append_assoc]
  · intro other member
    by_contra is_hole
    have : other ∈ after.filter (·.value.isNone) := mem_filter.mpr ⟨member, by simpa using is_hole⟩
    rw [after_eq] at this
    cases this
  · rw [filter_append, filter_eq_nil_iff.mpr filled, append_nil, before_eq, fronts_eq]

section

variable {c : Client} (valid : Valid c)

include valid

theorem sent_before {before rest : List ReplyNode}
    (shape : c.reply = before ++ ⟨addr, none⟩ :: rest) :
    c.sentlen ≤ (c.buf.map some ++ before.flatMap nodeContent).length := by
  rcases valid.sent with zero | inside | ⟨empty, addr', o, tail, head, inside⟩
  · omega
  · rw [length_append, length_map]
    omega
  · cases before with
    | nil =>
      rw [shape] at head
      cases head
    | cons first before =>
      rw [shape] at head
      cases head
      simp only [empty, map_nil, nil_append, flatMap_cons, nodeContent, length_append, length_map]
      omega

theorem setDeferredMultiBulkLength_spec (length : Int)
    (open_holes : holes c = front ++ [addr]) :
    ∃ c', setDeferredMultiBulkLength c (some addr) length = .ok c' ∧ Valid c' ∧ holes c' = front ∧ Frame c c' ∧
      ∀ delivered : Bytes, delivered.map some ++ output c' = fillLast (header 42 length) (delivered.map some ++ output c) := by
  obtain ⟨before, after, shape, filled, before_holes⟩ := last_hole open_holes
  have distinct := valid.distinct
  rw [shape, map_append, map_cons] at distinct
  have absent : addr ∉ before.map (·.addr) := by
    intro member
    exact (nodup_append.mp distinct).2.2 addr member addr mem_cons_self rfl
  have sublist := (glueNext_addrs addr (header 42 length) after).append_left (before.map (·.addr))
  let next : Client :=
    { c with
      reply := before ++ glueNext addr (header 42 length) after
      replyBytes := c.replyBytes + (header 42 length).length }
  refine ⟨next, ?_, ⟨valid.room, ?_, ?_, ?_, ?_⟩, ?_, ⟨rfl, ⟨_, rfl⟩, rfl, rfl⟩, ?_⟩
  · simp only [setDeferredMultiBulkLength, shape, fillNode_eq addr (header 42 length) before after none absent, next]
  · rcases valid.sent with zero | inside | ⟨empty, addr', o, tail, head, inside⟩
    · exact .inl zero
    · exact .inr (.inl inside)
    · cases before with
      | nil =>
        rw [shape] at head
        cases head
      | cons first before =>
        rw [shape] at head
        cases head
        exact .inr (.inr ⟨empty, addr', o, _, rfl, inside⟩)
  · have bytes := valid.bytes
    rw [shape] at bytes
    simp only [next, bytes, map_append, map_cons, sum_append, sum_cons, glueNext_length, nodeLength,
      Option.getD_none, length_nil]
    omega
  · intro other member
    rw [map_append] at member
    have within := sublist.subset member
    apply valid.addrs
    rw [shape, map_append, map_cons]
    exact within
  · rw [map_append]
    exact distinct.sublist sublist
  · have none_after : after.filter (·.value.isNone) = [] := filter_eq_nil_iff.mpr fun node member => by
      simp [filled node member]
    simp [next, holes, glueNext_holes, none_after, before_holes]
  · intro delivered
    have no_hole : none ∉ after.flatMap nodeContent := by
      intro member
      obtain ⟨node, inside, hole⟩ := mem_flatMap.mp member
      have value := filled node inside
      unfold nodeContent at hole
      split at hole
      · simp at hole
      · simp_all
    have sent := sent_before valid shape
    have before_eq : content c = (c.buf.map some ++ before.flatMap nodeContent) ++ none :: after.flatMap nodeContent := by
      simp [content, shape, nodeContent]
    have after_eq : content next =
        (c.buf.map some ++ before.flatMap nodeContent) ++ ((header 42 length).map some ++ after.flatMap nodeContent) := by
      simp [next, content, glueNext_content]
    have fill := fillLast_append (header 42 length)
      (delivered.map some ++ (c.buf.map some ++ before.flatMap nodeContent).drop c.sentlen) no_hole
    rw [append_assoc, append_assoc] at fill
    rw [output, output, before_eq, after_eq, drop_append_of_le_length sent, drop_append_of_le_length sent, fill]

theorem skipEmptyNodes_spec :
    Valid (skipEmptyNodes c) ∧ output (skipEmptyNodes c) = output c ∧ holes (skipEmptyNodes c) = holes c ∧
      Frame c (skipEmptyNodes c) := by
  unfold skipEmptyNodes
  split_ifs with empty
  · have dropped : ∀ reply : List ReplyNode,
        (reply.dropWhile fun node => node.value = some []).flatMap nodeContent = reply.flatMap nodeContent ∧
        ((reply.dropWhile fun node => node.value = some []).map nodeLength).sum = (reply.map nodeLength).sum ∧
        (reply.dropWhile fun node => node.value = some []).filter (·.value.isNone) = reply.filter (·.value.isNone) := by
      intro reply
      induction reply with
      | nil => exact ⟨rfl, rfl, rfl⟩
      | cons node rest ih =>
        by_cases is_empty : node.value = some [] <;> simp_all [nodeContent, nodeLength]
    obtain ⟨same_content, same_length, same_holes⟩ := dropped c.reply
    have sublist := (dropWhile_sublist (l := c.reply) fun node => decide (node.value = some [])).map (·.addr)
    refine ⟨⟨valid.room, ?_, ?_, ?_, valid.distinct.sublist sublist⟩, ?_, ?_, ⟨rfl, ⟨_, rfl⟩, rfl, rfl⟩⟩
    · rcases valid.sent with zero | inside | ⟨_, addr, o, rest, head, inside⟩
      · exact .inl zero
      · simp [empty] at inside
      · refine .inr (.inr ⟨empty, addr, o, rest, ?_, inside⟩)
        have nonempty : o ≠ [] := by
          rintro rfl
          simp at inside
        simp [head, nonempty]
    · exact valid.bytes.trans (congrArg _ same_length.symm)
    · exact fun addr member => valid.addrs addr (sublist.subset member)
    · simp only [output, content, same_content]
    · simp only [holes, same_holes]
  · exact ⟨valid, rfl, rfl, .refl c⟩

theorem advance_spec (filled : holes c = []) (pending : clientHasPendingReplies c = true) :
    ∃ chunk, nextChunk c = .ok chunk ∧ chunk.map some <+: output c ∧
      ∀ n, 0 < n → n ≤ chunk.length → ∃ c', advance c n = .ok c' ∧ Valid c' ∧ output c' = (output c).drop n ∧
        holes c' = [] ∧ Frame c c' := by
  by_cases empty : c.buf = []
  · obtain ⟨⟨addr, value⟩, rest, shape⟩ : ∃ node rest, c.reply = node :: rest := by
      cases reply : c.reply with
      | nil => simp [clientHasPendingReplies, empty, reply] at pending
      | cons node rest => exact ⟨node, rest, rfl⟩
    cases value with
    | none => simp [holes, shape] at filled
    | some o =>
      have within : c.sentlen ≤ o.length := by
        rcases valid.sent with zero | inside | ⟨_, _, _, _, head, inside⟩
        · omega
        · simp [empty] at inside
        · rw [shape] at head
          cases head
          omega
      have whole : content c = o.map some ++ rest.flatMap nodeContent := by simp [content, empty, shape, nodeContent]
      have out : output c = (o.drop c.sentlen).map some ++ rest.flatMap nodeContent := by
        rw [output, whole, drop_append_of_le_length (by simpa using within), map_drop]
      have bytes := valid.bytes
      rw [shape, map_cons, sum_cons] at bytes
      have length : nodeLength ⟨addr, some o⟩ = o.length := rfl
      rw [length] at bytes
      refine ⟨o.drop c.sentlen, by simp [nextChunk, empty, shape], ⟨_, out.symm⟩, ?_⟩
      intro n positive fits
      rw [length_drop] at fits
      by_cases last : c.sentlen + n = o.length
      · have no_failure : ¬(rest = [] ∧ c.replyBytes - o.length ≠ 0) := by
          rintro ⟨rfl, nonzero⟩
          simp [bytes] at nonzero
        refine ⟨{ c with reply := rest, sentlen := 0, replyBytes := c.replyBytes - o.length }, ?_, ⟨valid.room, .inl rfl, ?_, ?_, ?_⟩,
          ?_, ?_, ⟨rfl, ⟨_, rfl⟩, rfl, rfl⟩⟩
        · simp [advance, empty, shape, last, removeHead, no_failure]
        · simp only [bytes]
          omega
        · intro other member
          exact valid.addrs other (by rw [shape]; exact mem_cons_of_mem _ member)
        · have distinct := valid.distinct
          rw [shape, map_cons] at distinct
          exact (nodup_cons.mp distinct).2
        · rw [out, drop_left' (by rw [length_map, length_drop]; omega)]
          simp [output, content, empty]
        · simpa [holes, shape] using filled
      · refine ⟨{ c with sentlen := c.sentlen + n }, by simp [advance, empty, shape, last],
          ⟨valid.room, .inr (.inr ⟨empty, addr, o, rest, shape, ?_⟩), valid.bytes, valid.addrs, valid.distinct⟩, ?_, filled,
          ⟨rfl, ⟨_, rfl⟩, rfl, rfl⟩⟩
        · change c.sentlen + n < o.length
          omega
        · rw [output, output, drop_drop]
          rfl
  · have inside : c.sentlen < c.buf.length := by
      rcases valid.sent with zero | inside | ⟨is_empty, _⟩
      · rw [zero]
        exact length_pos_iff.mpr empty
      · exact inside
      · exact absurd is_empty empty
    have out : output c = (c.buf.drop c.sentlen).map some ++ c.reply.flatMap nodeContent := by
      rw [output, content, drop_append_of_le_length (by simpa using inside.le), map_drop]
    refine ⟨c.buf.drop c.sentlen, by simp [nextChunk, empty], ⟨_, out.symm⟩, ?_⟩
    intro n positive fits
    rw [length_drop] at fits
    by_cases last : c.sentlen + n = c.buf.length
    · refine ⟨{ c with buf := [], sentlen := 0 }, by simp [advance, empty, last],
        ⟨Nat.zero_le _, .inl rfl, valid.bytes, valid.addrs, valid.distinct⟩, ?_, filled, ⟨rfl, ⟨_, rfl⟩, rfl, rfl⟩⟩
      rw [out, drop_left' (by rw [length_map, length_drop]; omega)]
      simp [output, content]
    · refine ⟨{ c with sentlen := c.sentlen + n }, by simp [advance, empty, last],
        ⟨valid.room, .inr (.inl ?_), valid.bytes, valid.addrs, valid.distinct⟩, ?_, filled, ⟨rfl, ⟨_, rfl⟩, rfl, rfl⟩⟩
      · change c.sentlen + n < c.buf.length
        omega
      · rw [output, output, drop_drop]
        rfl

end

def fails (inputs : List WriteInput) : Bool := inputs.any fun input => match input.result with
  | .error => true
  | _ => false

theorem writeLoop_spec (inputs : List WriteInput) (totwritten : Nat) (c : Client) (valid : Valid c) (filled : holes c = []) :
    ∃ c' bytes stop, writeLoop inputs totwritten c = .ok (c', bytes, stop) ∧ Valid c' ∧
      bytes.map some ++ output c' = output c ∧ holes c' = [] ∧ Frame c c' ∧ (stop = .failed → fails inputs = true) := by
  induction inputs generalizing totwritten c with
  | nil =>
    obtain ⟨skipped, same, same_holes, frame⟩ := skipEmptyNodes_spec valid
    refine ⟨skipEmptyNodes c, [], .stopped, ?_, skipped, same, same_holes.trans filled, frame, nofun⟩
    rw [writeLoop]
    split_ifs with pending
    · obtain ⟨chunk, next, _⟩ := advance_spec skipped (same_holes.trans filled) pending
      rw [next]
      rfl
    · rfl
  | cons input inputs ih =>
    obtain ⟨skipped, same, same_holes, frame⟩ := skipEmptyNodes_spec valid
    have no_holes := same_holes.trans filled
    rw [writeLoop]
    split_ifs with pending
    · obtain ⟨chunk, next, ⟨later, out⟩, advances⟩ := advance_spec skipped no_holes pending
      rw [next]
      cases result : input.result with
      | error => exact ⟨_, [], .failed, by simp, skipped, same, no_holes, frame, fun _ => by simp [fails, result]⟩
      | again => exact ⟨_, [], .stopped, by simp, skipped, same, no_holes, frame, nofun⟩
      | accepted n =>
        by_cases none_taken : min n chunk.length = 0
        · exact ⟨_, [], .stopped, by simp [bind, Except.bind, none_taken], skipped, same, no_holes, frame, nofun⟩
        · obtain ⟨c₁, advanced, valid₁, out₁, holes₁, frame₁⟩ := advances (min n chunk.length) (by omega) (min_le_right _ _)
          have accepted : chunk.take n = chunk.take (min n chunk.length) := take_eq_take_min
          have taken : (chunk.take n).map some ++ output c₁ = output c := by
            rw [out₁, ← same, ← out, drop_append_of_le_length (by simp), accepted, ← append_assoc, map_take,
              take_append_drop]
          cases pause : takesBreak c₁ (totwritten + min n chunk.length) input.memoryLeft with
          | true => exact ⟨c₁, chunk.take n, .stopped, by simp [bind, Except.bind, none_taken, advanced, pause], valid₁, taken, holes₁,
              frame.trans frame₁, nofun⟩
          | false =>
            obtain ⟨c', bytes, stop, looped, valid', out', holes', frame', failing⟩ :=
              ih (totwritten + min n chunk.length) c₁ valid₁ holes₁
            refine ⟨c', chunk.take n ++ bytes, stop, by simp [bind, Except.bind, none_taken, advanced, pause, looped], valid', ?_,
              holes', (frame.trans frame₁).trans frame', ?_⟩
            · rw [map_append, append_assoc, out', taken]
            · intro failed
              have later := failing failed
              simp only [fails, any_cons, Bool.or_eq_true] at later ⊢
              exact .inr later
    · exact ⟨_, [], .stopped, rfl, skipped, same, no_holes, frame, nofun⟩

theorem writeToClient_spec (inputs : List WriteInput) (valid : Valid c) (accepts : acceptsReplies c = true)
    (filled : holes c = []) :
    ∃ client bytes, writeToClient c inputs = .ok (client, bytes) ∧ (client = none → fails inputs = true) ∧
      ∀ c', client = some c' →
        Valid c' ∧ bytes.map some ++ output c' = output c ∧ holes c' = [] ∧ Frame c c' := by
  obtain ⟨c₁, bytes, stop, looped, valid₁, out, holes₁, frame, failing⟩ := writeLoop_spec inputs 0 c valid filled
  have stays : c₁.flags.closeAfterReply = false := frame.closeAfterReply.trans (acceptsReplies_open accepts)
  refine ⟨finishWrite c₁ stop, bytes, by simp [writeToClient, looped], ?_, ?_⟩
  · intro freed
    cases stop with
    | failed => exact failing rfl
    | stopped =>
      simp only [finishWrite, stays, Bool.false_eq_true, if_false] at freed
      split_ifs at freed
  · intro c' kept
    cases stop with
    | failed => cases kept
    | stopped =>
      simp only [finishWrite, stays, Bool.false_eq_true, if_false] at kept
      split_ifs at kept with pending
      · cases kept
        exact ⟨valid₁, out, holes₁, frame⟩
      · cases kept
        simp only [clientHasPendingReplies, Bool.or_eq_true, Bool.not_eq_true', isEmpty_eq_false_iff, not_or, not_not] at pending
        refine ⟨⟨valid₁.room, .inl rfl, valid₁.bytes, valid₁.addrs, valid₁.distinct⟩, ?_, holes₁,
          frame.trans ⟨rfl, ⟨_, rfl⟩, rfl, rfl⟩⟩
        rw [← out]
        simp [output, content, pending.1, pending.2]

structure Session where
  client : Option Client
  deferred : List (Option Nat)
  delivered : Bytes

inductive Call where
  | reply (r : Reply)
  | addDeferredMultiBulkLength
  | setDeferredMultiBulkLength (length : Int)
  | writeToClient (inputs : List WriteInput)

def closeHeader (s : Session) (c : Client) (length : Int) : Except Fault Session :=
  match s.deferred with
  | [] => .ok s
  | node :: deferred => do
    let c ← Networking.setDeferredMultiBulkLength c node length
    .ok { s with client := some c, deferred := deferred }

-- A freed client gets no more calls.
def Session.step (s : Session) (call : Call) : Except Fault Session :=
  match s.client with
  | none => .ok s
  | some c =>
    match call with
    | .reply r => .ok { s with client := some (r.apply c) }
    | .addDeferredMultiBulkLength =>
      let (c, node) := Networking.addDeferredMultiBulkLength c
      .ok { s with client := some c, deferred := node :: s.deferred }
    | .setDeferredMultiBulkLength length => closeHeader s c length
    | .writeToClient inputs => do
      let (client, bytes) ← Networking.writeToClient c inputs
      .ok { s with client := client, delivered := s.delivered ++ bytes }

def Session.start (fd : Int) (flags : Flags) : Session := ⟨some (createClient fd flags), [], []⟩

def properlyNested : Nat → List Call → Bool
  | _, [] => true
  | depth, .reply _ :: calls => properlyNested depth calls
  | depth, .addDeferredMultiBulkLength :: calls => properlyNested (depth + 1) calls
  | 0, .setDeferredMultiBulkLength _ :: _ => false
  | depth + 1, .setDeferredMultiBulkLength _ :: calls => properlyNested depth calls
  | 0, .writeToClient _ :: calls => properlyNested 0 calls
  | _ + 1, .writeToClient _ :: _ => false

def Call.inMemory : Call → Bool
  | .reply r => r.inMemory
  | _ => true

def Call.fails : Call → Bool
  | .writeToClient inputs => Networking.fails inputs
  | _ => false

def replyStep (out : List (Option UInt8)) : Call → List (Option UInt8)
  | .reply r => out ++ r.bytes.map some
  | .addDeferredMultiBulkLength => out ++ [none]
  | .setDeferredMultiBulkLength length => fillLast (header 42 length) out
  | .writeToClient _ => out

def replies (calls : List Call) : List (Option UInt8) := calls.foldl replyStep []

structure Delivers (s : Session) (c : Client) (out : List (Option UInt8)) : Prop where
  valid : Valid c
  accepts : acceptsReplies c = true
  deferred : s.deferred.reverse = (holes c).map some
  output : s.delivered.map some ++ output c = out

theorem output_append {c' : Client} (valid : Valid c) {s : List (Option UInt8)} (appended : content c' = content c ++ s)
    (sentlen : c'.sentlen = c.sentlen) : output c' = output c ++ s := by
  have sent : c.sentlen ≤ (content c).length := by
    rcases valid.sent with zero | inside | ⟨empty, addr, o, rest, shape, inside⟩
    · omega
    · rw [content, length_append, length_map]
      omega
    · simp only [content, empty, shape, map_nil, nil_append, flatMap_cons, nodeContent, length_append, length_map]
      omega
  rw [output, output, appended, sentlen, drop_append_of_le_length sent]

theorem step_delivers {s : Session} {out : List (Option UInt8)} {call : Call} {calls : List Call}
    (client : s.client = some c) (delivers : Delivers s c out) (nested : properlyNested s.deferred.length (call :: calls) = true)
    (fits : call.inMemory = true) :
    ∃ s', s.step call = .ok s' ∧ (s'.client = none → call.fails = true) ∧
      ∀ c', s'.client = some c' → Delivers s' c' (replyStep out call) ∧ properlyNested s'.deferred.length calls = true := by
  cases call with
  | reply r =>
    have queued := r.emits fits c delivers.valid delivers.accepts
    refine ⟨{ s with client := some (r.apply c) }, by simp only [Session.step, client], nofun, ?_⟩
    intro c' kept
    cases kept
    refine ⟨⟨queued.valid, queued.frame.accepts.trans delivers.accepts, by rw [queued.holes]; exact delivers.deferred, ?_⟩,
      by simpa [properlyNested] using nested⟩
    rw [output_append delivers.valid queued.content queued.sentlen, ← append_assoc, delivers.output, replyStep]
  | addDeferredMultiBulkLength =>
    obtain ⟨c₁, addr, added, valid₁, content₁, sentlen₁, holes₁, frame₁⟩ :=
      addDeferredMultiBulkLength_spec delivers.valid delivers.accepts
    refine ⟨{ s with client := some c₁, deferred := some addr :: s.deferred }, by simp only [Session.step, client, added],
      nofun, ?_⟩
    intro c' kept
    cases kept
    refine ⟨⟨valid₁, frame₁.accepts.trans delivers.accepts, ?_, ?_⟩, by simpa [properlyNested] using nested⟩
    · rw [reverse_cons, delivers.deferred, holes₁, map_append, map_cons, map_nil]
    · rw [output_append delivers.valid content₁ sentlen₁, ← append_assoc, delivers.output, replyStep]
  | setDeferredMultiBulkLength length =>
    cases deferred : s.deferred with
    | nil => simp [deferred, properlyNested] at nested
    | cons node rest =>
      have stack := delivers.deferred
      rw [deferred, reverse_cons] at stack
      obtain ⟨front, last, holes_eq, front_eq, last_eq⟩ := map_eq_append_iff.mp stack.symm
      obtain ⟨addr, none_left, rfl, rfl, nil_left⟩ := map_eq_cons_iff.mp last_eq
      obtain rfl := map_eq_nil_iff.mp nil_left
      obtain ⟨c₁, filled, valid₁, holes₁, frame₁, fill⟩ :=
        setDeferredMultiBulkLength_spec delivers.valid length holes_eq
      refine ⟨{ s with client := some c₁, deferred := rest },
        by simp only [Session.step, client, closeHeader, deferred, filled, ok_bind], nofun, ?_⟩
      intro c' kept
      cases kept
      refine ⟨⟨valid₁, frame₁.accepts.trans delivers.accepts, by rw [holes₁, front_eq], ?_⟩,
        by simpa [deferred, properlyNested] using nested⟩
      rw [fill, delivers.output, replyStep]
  | writeToClient inputs =>
    cases deferred : s.deferred with
    | cons node rest => simp [deferred, properlyNested] at nested
    | nil =>
      have closed : holes c = [] := by simpa [deferred] using delivers.deferred
      obtain ⟨client', bytes, written, freed, kept⟩ := writeToClient_spec inputs delivers.valid delivers.accepts closed
      refine ⟨{ s with client := client', delivered := s.delivered ++ bytes },
        by simp only [Session.step, client, written, ok_bind], freed, ?_⟩
      intro c' still
      obtain ⟨valid', out', holes', frame'⟩ := kept c' still
      refine ⟨⟨valid', frame'.accepts.trans delivers.accepts, by rw [holes']; simp [deferred], ?_⟩,
        by simpa [deferred, properlyNested] using nested⟩
      rw [map_append, append_assoc, out', delivers.output, replyStep]

theorem freed_run {s : Session} (calls : List Call) (freed : s.client = none) : calls.foldlM Session.step s = .ok s := by
  induction calls with
  | nil => rfl
  | cons call calls ih =>
    have stays : s.step call = .ok s := by simp only [Session.step, freed]
    rw [foldlM_cons, stays]
    exact ih

theorem run_delivers {calls : List Call} (s : Session) (c : Client) (out : List (Option UInt8)) (client : s.client = some c)
    (delivers : Delivers s c out) (nested : properlyNested s.deferred.length calls = true)
    (fits : ∀ call ∈ calls, call.inMemory = true) :
    ∃ s', calls.foldlM Session.step s = .ok s' ∧ (s'.client = none → ∃ call ∈ calls, call.fails = true) ∧
      ∀ c', s'.client = some c' → Delivers s' c' (calls.foldl replyStep out) := by
  induction calls generalizing s c out with
  | nil =>
    refine ⟨s, rfl, fun freed => (by rw [client] at freed; cases freed), ?_⟩
    intro c' kept
    rw [client] at kept
    cases kept
    exact delivers
  | cons call calls ih =>
    obtain ⟨s₁, stepped, freed, kept⟩ := step_delivers client delivers nested (fits call mem_cons_self)
    rw [foldlM_cons, stepped]
    cases client₁ : s₁.client with
    | none => exact ⟨s₁, freed_run calls client₁, fun _ => ⟨call, mem_cons_self, freed client₁⟩,
        fun c' still => by rw [client₁] at still; cases still⟩
    | some c₁ =>
      obtain ⟨delivers₁, nested₁⟩ := kept c₁ client₁
      obtain ⟨s', run, freed', kept'⟩ := ih s₁ c₁ (replyStep out call) client₁ delivers₁ nested₁
        fun later member => fits later (mem_cons_of_mem _ member)
      refine ⟨s', run, ?_, kept'⟩
      intro gone
      obtain ⟨later, member, failed⟩ := freed' gone
      exact ⟨later, mem_cons_of_mem _ member, failed⟩

theorem start_delivers {fd : Int} {flags : Flags} (accepts : acceptsReplies (createClient fd flags) = true) :
    Delivers (Session.start fd flags) (createClient fd flags) [] where
  valid := ⟨Nat.zero_le _, .inl rfl, rfl, nofun, nodup_nil⟩
  accepts := accepts
  deferred := rfl
  output := rfl

theorem client_output_delivered (fd : Int) (flags : Flags) (accepts : acceptsReplies (createClient fd flags) = true)
    (calls : List Call) (nested : properlyNested 0 calls = true) (fits : ∀ call ∈ calls, call.inMemory = true) :
    ∃ s, calls.foldlM Session.step (Session.start fd flags) = .ok s ∧
      (s.client = none → ∃ call ∈ calls, call.fails = true) ∧
      ∀ c, s.client = some c → s.delivered.map some ++ output c = replies calls ∧
        c.replyBytes = ((c.reply.map nodeLength).sum : Nat) := by
  obtain ⟨s, run, freed, kept⟩ := run_delivers (Session.start fd flags) (createClient fd flags) [] rfl
    (start_delivers accepts) nested fits
  exact ⟨s, run, freed, fun c still => ⟨(kept c still).output, (kept c still).valid.bytes⟩⟩

def plainFlags : Flags :=
  { lua := false, module := false, replyOff := false, replySkip := false, master := false, masterForceReply := false,
    slave := false, closeAfterReply := false, pendingWrite := false }

def nestedReplies : List Call :=
  [.addDeferredMultiBulkLength, .reply (.addReplyBulk (.raw [97])), .addDeferredMultiBulkLength, .reply (.addReplyLongLong 5),
   .setDeferredMultiBulkLength 1, .setDeferredMultiBulkLength 2, .writeToClient [⟨.accepted 7, true⟩, ⟨.again, true⟩],
   .reply (.addReplyString [43, 13, 10])]

theorem nested_replies_delivered :
    ∃ s, nestedReplies.foldlM Session.step (Session.start 7 plainFlags) = .ok s ∧
      (s.client = none → ∃ call ∈ nestedReplies, call.fails = true) ∧
      ∀ c, s.client = some c → s.delivered.map some ++ output c = replies nestedReplies ∧
        c.replyBytes = ((c.reply.map nodeLength).sum : Nat) :=
  client_output_delivered 7 plainFlags (by decide) nestedReplies (by decide) (by decide)

end RedisCore.Networking
