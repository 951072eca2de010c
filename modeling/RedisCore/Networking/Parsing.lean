import RedisCore.Networking.Output
import RedisCore.Networking.Request

set_option autoImplicit false

namespace RedisCore.Networking

open Util List

variable {limits : Limits} {pos : Nat} {left args : List Bytes} {c : Input} {later after body querybuf : Bytes} {commands : List (List Bytes)}

def encodeCommand (argv : List Bytes) : Bytes := header 42 argv.length ++ argv.flatMap bulk

def encode (commands : List (List Bytes)) : Bytes := commands.flatMap encodeCommand

structure IsCommand (limits : Limits) (argv : List Bytes) : Prop where
  nonempty : argv ≠ []
  count : argv.length ≤ 1024 * 1024
  sizes : ∀ arg ∈ argv, arg.length ≤ limits.protoMaxBulkLen

theorem strchr_append {ch : UInt8} {before : Bytes} (rest : Bytes) (free : ∀ byte ∈ before, byte ≠ ch ∧ byte ≠ 0) :
    strchr ch (before ++ ch :: rest) = some before.length := by
  induction before with
  | nil => simp [strchr]
  | cons byte before ih =>
    obtain ⟨differs, nonzero⟩ := free byte mem_cons_self
    rw [cons_append, strchr, if_neg differs, if_neg nonzero,
      ih fun other member => free other (mem_cons_of_mem _ member), Option.map_some, length_cons]

theorem strchr_absent {ch : UInt8} {s : Bytes} (free : ∀ byte ∈ s, byte ≠ ch) : strchr ch s = none := by
  induction s with
  | nil => rfl
  | cons byte s ih =>
    rw [strchr, if_neg (free byte mem_cons_self), ih fun other member => free other (mem_cons_of_mem _ member)]
    split_ifs <;> rfl

theorem decimal_bytes {n : Nat} {byte : UInt8} (member : byte ∈ decimal n) : byte ≠ 13 ∧ byte ≠ 0 := by
  have digit_byte : ∀ d < 10, UInt8.ofNat (48 + d) ≠ 13 ∧ UInt8.ofNat (48 + d) ≠ 0 := by decide
  unfold decimal at member
  split_ifs at member with zero
  · rw [mem_singleton.mp member]
    decide
  · obtain ⟨d, digit, rfl⟩ := mem_map.mp member
    exact digit_byte d (Nat.digits_lt_base (by decide) (mem_reverse.mp digit))

theorem llString_bytes {v : Int} {byte : UInt8} (member : byte ∈ llString v) : byte ≠ 13 ∧ byte ≠ 0 := by
  rw [llString] at member
  split_ifs at member with negative
  · rcases mem_append.mp member with sign | digits
    · rw [mem_singleton.mp sign]
      decide
    · exact decimal_bytes digits
  · exact decimal_bytes (by simpa using member)

theorem asInt_of_lt {n : Nat} (small : n < 2 ^ 31) : asInt n = n := by
  have same : n % 2 ^ 32 = n := Nat.mod_eq_of_lt (by omega)
  rw [asInt, same, if_pos small]

inductive LineAt (querybuf : Bytes) (pos : Nat) (mark : UInt8) (v : Int) (later rest : Bytes) : Prop where
  | cut (unended : ∀ newline, findLine querybuf pos ≠ .ended newline)
      (short : (querybuf.drop pos).length < (header mark v).length) (starved : later ≠ [])
  | whole (after : Bytes) (found : findLine querybuf pos = .ended (pos + (1 + (llString v).length)))
      (shape : querybuf.drop pos = header mark v ++ after) (tail : after ++ later = rest)

section

variable {querybuf : Bytes} {pos : Nat} {mark : UInt8} (v : Int)

theorem line_free (is_mark : mark ≠ 13 ∧ mark ≠ 0) : ∀ byte ∈ mark :: llString v, byte ≠ 13 ∧ byte ≠ 0 := by
  intro byte member
  rcases mem_cons.mp member with rfl | digit
  · exact is_mark
  · exact llString_bytes digit

variable {v}

theorem findLine_whole (is_mark : mark ≠ 13 ∧ mark ≠ 0) (bound : querybuf.length < 2 ^ 31)
    (shape : querybuf.drop pos = header mark v ++ after) :
    findLine querybuf pos = .ended (pos + (1 + (llString v).length)) := by
  have found : strchr 13 (querybuf.drop pos) = some (mark :: llString v).length := by
    rw [shape, header, crlf, append_assoc]
    exact strchr_append (10 :: after) (line_free v is_mark)
  have length := congrArg List.length shape
  simp only [header, crlf, length_drop, length_append, length_cons, length_nil] at length
  simp only [findLine, found, asInt_of_lt bound, length_cons]
  rw [if_neg (by omega), Nat.add_comm 1]

theorem findLine_cut {missing : Bytes} (is_mark : mark ≠ 13 ∧ mark ≠ 0) (bound : querybuf.length < 2 ^ 31)
    (some_missing : missing ≠ []) (cut : header mark v = querybuf.drop pos ++ missing) (newline : Nat) :
    findLine querybuf pos ≠ .ended newline := by
  have parts : querybuf.drop pos ++ missing = (mark :: llString v) ++ [13, 10] := by rw [← cut]; rfl
  rcases append_eq_append_iff.mp parts with ⟨digits, before, _⟩ | ⟨line_end, shape, ending⟩
  · have absent : strchr 13 (querybuf.drop pos) = none := strchr_absent fun byte member =>
      (line_free v is_mark byte (by rw [before]; exact mem_append_left _ member)).1
    simp [findLine, absent]
  · cases line_end with
    | nil =>
      have absent : strchr 13 (querybuf.drop pos) = none := strchr_absent fun byte member =>
        (line_free v is_mark byte (by rw [shape] at member; simpa using member)).1
      simp [findLine, absent]
    | cons first line_end =>
      obtain ⟨rfl, linefeed⟩ : 13 = first ∧ [10] = line_end ++ missing := cons_eq_cons.mp ending
      cases line_end with
      | cons second line_end =>
        have nothing : line_end ++ missing = [] := (cons_eq_cons.mp linefeed).2.symm
        exact absurd (append_eq_nil_iff.mp nothing).2 some_missing
      | nil =>
        have found : strchr 13 (querybuf.drop pos) = some (mark :: llString v).length := by
          rw [shape]
          exact strchr_append [] (line_free v is_mark)
        have length := congrArg List.length shape
        simp only [length_drop, length_append, length_cons, length_nil] at length
        simp only [findLine, found, asInt_of_lt bound, length_cons]
        rw [if_pos (by omega)]
        simp

theorem lineAt {rest : Bytes} (stream : querybuf.drop pos ++ later = header mark v ++ rest)
    (is_mark : mark ≠ 13 ∧ mark ≠ 0) (bound : querybuf.length < 2 ^ 31) : LineAt querybuf pos mark v later rest := by
  rcases append_eq_append_iff.mp stream with ⟨missing, cut, later_eq⟩ | ⟨after, shape, tail⟩
  · by_cases nothing : missing = []
    · subst nothing
      have shape : querybuf.drop pos = header mark v ++ [] := by rw [cut, append_nil, append_nil]
      exact .whole [] (findLine_whole is_mark bound shape) shape later_eq
    · refine .cut (findLine_cut is_mark bound nothing cut) ?_ ?_
      · rw [cut, length_append]
        have := length_pos_iff.mpr nothing
        omega
      · rw [later_eq]
        exact append_ne_nil_of_left_ne_nil nothing rest
  · exact .whole after (findLine_whole is_mark bound shape) shape tail.symm

end

theorem header_length (mark : UInt8) {n : Nat} (small : n < 2 ^ 63) : (header mark n).length < 32 := by
  have digits : Nat.log 10 n < 20 := Nat.log_lt_of_lt_pow' (by decide) (by omega)
  have sign : ¬(n : Int) < 0 := by omega
  simp only [header, crlf, llString, if_neg sign, nil_append, Int.natAbs_natCast, length_append, length_cons,
    length_nil, decimal_length]
  omega

theorem line_digits {mark : UInt8} {v : Int}
    (shape : querybuf.drop pos = header mark v ++ after) :
    (querybuf.take (pos + (1 + (llString v).length))).drop (pos + 1) = llString v ∧ querybuf.getD pos 0 = mark ∧
      querybuf.drop (pos + (1 + (llString v).length) + 2) = after := by
  have line : querybuf.drop pos = mark :: (llString v ++ 13 :: 10 :: after) := by rw [shape]; simp [header, crlf]
  refine ⟨?_, ?_, ?_⟩
  · have next : querybuf.drop (pos + 1) = llString v ++ 13 :: 10 :: after := by
      rw [← drop_drop, line]
      rfl
    rw [drop_take, next, show pos + (1 + (llString v).length) - (pos + 1) = (llString v).length by omega, take_left]
  · rw [getD_eq_getElem?_getD, ← head?_drop, line]
    rfl
  · have length : (header mark v).length = 1 + (llString v).length + 2 := by
      simp only [header, crlf, length_append, length_cons, length_nil]
      omega
    rw [Nat.add_assoc, ← drop_drop, shape]
    exact drop_left' length

-- What the arguments still to read look like, the first one possibly without its length line.
inductive ArgBytes : Option Nat → List Bytes → Bytes → Prop where
  | fresh (args : List Bytes) : ArgBytes none args (args.flatMap bulk)
  | inside (arg : Bytes) (args : List Bytes) : ArgBytes (some arg.length) (arg :: args) (arg ++ crlf ++ args.flatMap bulk)

-- The buffer is short, or is part of one big argument.
def Fits (querybuf : Bytes) (bulklen : Option Nat) (pos : Nat) : Prop :=
  querybuf.length ≤ protoInlineMaxSize ∨
    ∃ ll, bulklen = some ll ∧ protoMbulkBigArg ≤ ll ∧ pos = 0 ∧ querybuf.length ≤ ll + 2

theorem bulkLength_whole {arg : Bytes}
    (size : arg.length ≤ limits.protoMaxBulkLen) (shape : querybuf.drop pos = header 36 arg.length ++ after)
    (bound : querybuf.length < 2 ^ 31) :
    bulkLength limits querybuf pos = .length arg.length (pos + (1 + (llString arg.length).length) + 2) ∧
      querybuf.drop (pos + (1 + (llString arg.length).length) + 2) = after := by
  obtain ⟨digits, first, rest⟩ := line_digits shape
  have found := findLine_whole (by decide) bound shape
  have parsed : string2ll (llString arg.length) = some (arg.length : Int) :=
    string2ll_complete (isInt64_natCast (size.trans_lt limits.bulkLenFits))
  have in_range : ¬((arg.length : Int) < 0 ∨ (limits.protoMaxBulkLen : Int) < arg.length) := by omega
  refine ⟨?_, rest⟩
  simp only [bulkLength, found, first, digits, parsed, if_neg in_range]
  simp

theorem argHeader_spec {arg : Bytes} {tail : Bytes}
    (size : arg.length ≤ limits.protoMaxBulkLen) (awaits : ArgBytes c.bulklen (arg :: args) body)
    (stream : c.querybuf.drop pos ++ later = body ++ tail) (fits : Fits c.querybuf c.bulklen pos) :
    (argHeader limits c pos = .wait ∧ c.bulklen = none ∧ (c.querybuf.drop pos).length < 32 ∧ later ≠ []) ∨
    ∃ querybuf next, argHeader limits c pos = .known { c with querybuf := querybuf, bulklen := some arg.length } arg.length next ∧
      querybuf.drop next ++ later = arg ++ crlf ++ args.flatMap bulk ++ tail ∧ Fits querybuf (some arg.length) next ∧
      (querybuf.drop next).length ≤ (c.querybuf.drop pos).length := by
  cases bulklen : c.bulklen with
  | some ll =>
    rw [bulklen] at awaits
    cases awaits
    refine .inr ⟨c.querybuf, pos, ?_, stream, by rw [← bulklen]; exact fits, le_rfl⟩
    simp only [argHeader, bulklen]
    rw [← bulklen]
  | none =>
    rw [bulklen] at awaits
    cases awaits
    have short : c.querybuf.length ≤ protoInlineMaxSize := by
      rcases fits with short | ⟨ll, known, _⟩
      · exact short
      · rw [bulklen] at known
        cases known
    have bound : c.querybuf.length < 2 ^ 31 := by
      simp only [protoInlineMaxSize] at short
      omega
    have small : arg.length < 2 ^ 63 := size.trans_lt limits.bulkLenFits
    have stream' : c.querybuf.drop pos ++ later = header 36 arg.length ++ (arg ++ crlf ++ args.flatMap bulk ++ tail) := by
      rw [stream]
      simp [bulk]
    cases lineAt stream' (by decide) bound with
    | cut unended cut_short starved =>
      refine .inl ⟨?_, rfl, cut_short.trans (header_length 36 small), starved⟩
      simp only [argHeader, bulklen, bulkLength]
      cases found : findLine c.querybuf pos with
      | missing => simp [not_lt.mpr short]
      | incomplete => rfl
      | ended newline => exact absurd found (unended newline)
    | whole after found shape after_eq =>
      obtain ⟨length, rest⟩ := bulkLength_whole size shape bound
      have after_length : after.length ≤ (c.querybuf.drop pos).length := by
        rw [shape, length_append]
        omega
      refine .inr ?_
      by_cases big : protoMbulkBigArg ≤ arg.length
      · refine ⟨after, 0, ?_, after_eq, .inl ?_, after_length⟩
        · simp only [argHeader, bulklen, length, setBulkLength, if_pos big, rest]
        · refine after_length.trans (le_trans ?_ short)
          rw [length_drop]
          omega
      · refine ⟨c.querybuf, pos + (1 + (llString arg.length).length) + 2, ?_, by rw [rest]; exact after_eq, .inl short,
          by rw [rest]; exact after_length⟩
        simp only [argHeader, bulklen, length, setBulkLength, if_neg big]

theorem takeArg_spec (c : Input) (pos : Nat) (arg rest later : Bytes)
    (stream : c.querybuf.drop pos ++ later = arg ++ crlf ++ rest) (fits : Fits c.querybuf (some arg.length) pos)
    (whole : arg.length + 2 ≤ (c.querybuf.drop pos).length) :
    ∃ querybuf next, takeArg c arg.length pos = ({ c with querybuf := querybuf, argv := c.argv ++ [arg], bulklen := none }, next) ∧
      querybuf.drop next ++ later = rest ∧ Fits querybuf none next ∧
      (querybuf.drop next).length ≤ (c.querybuf.drop pos).length := by
  obtain ⟨after, shape, rest_eq⟩ : ∃ after, c.querybuf.drop pos = arg ++ crlf ++ after ∧ rest = after ++ later := by
    rcases append_eq_append_iff.mp stream with ⟨missing, cut, later_eq⟩ | found
    · have length := congrArg List.length cut
      rw [length_append, length_append, crlf, length_cons, length_cons, length_nil] at length
      have nothing : missing = [] := length_eq_zero_iff.mp (by omega)
      subst nothing
      exact ⟨[], by rw [cut, append_nil, append_nil], later_eq.symm⟩
    · exact found
  have arg_eq : (c.querybuf.drop pos).take arg.length = arg := by
    rw [shape, append_assoc, take_left]
  have after_eq : c.querybuf.drop (pos + (arg.length + 2)) = after := by
    rw [← drop_drop, shape]
    exact drop_left' (by simp [crlf])
  unfold takeArg
  split_ifs with stolen
  · obtain ⟨rfl, _, exact_length⟩ := stolen
    have nothing : after = [] := by
      rw [← after_eq]
      exact drop_eq_nil_of_le (by omega)
    refine ⟨[], 0, ?_, ?_, .inl (Nat.zero_le _), Nat.zero_le _⟩
    · rw [drop_zero] at arg_eq
      rw [arg_eq]
    · rw [rest_eq, nothing]
      rfl
  · refine ⟨c.querybuf, pos + (arg.length + 2), by rw [arg_eq], by rw [after_eq, rest_eq], .inl ?_, ?_⟩
    · rcases fits with short | ⟨ll, known, big, rfl, length⟩
      · exact short
      · cases known
        rw [drop_zero] at whole
        exact absurd ⟨rfl, big, by omega⟩ stolen
    · rw [after_eq, shape, length_append]
      omega

def Waits (bulklen : Option Nat) (unparsed : Bytes) : Prop := unparsed.length < (bulklen.map (· + 2)).getD 32

theorem readArgs_spec (limits : Limits) (c : Input) (pos : Nat) (body : Bytes) {tail : Bytes}
    (sizes : ∀ arg ∈ args, arg.length ≤ limits.protoMaxBulkLen) (awaits : ArgBytes c.bulklen args body)
    (stream : c.querybuf.drop pos ++ later = body ++ tail) (fits : Fits c.querybuf c.bulklen pos) :
    ∃ querybuf next bulklen done left body', done ++ left = args ∧ readArgs limits args.length c pos =
        ({ c with querybuf := querybuf, bulklen := bulklen, argv := c.argv ++ done, multibulklen := left.length }, next, true) ∧
      ArgBytes bulklen left body' ∧ querybuf.drop next ++ later = body' ++ tail ∧
      (left ≠ [] → Waits bulklen (querybuf.drop next) ∧ later ≠ []) ∧
      (querybuf.drop next).length ≤ (c.querybuf.drop pos).length := by
  induction args generalizing c pos body with
  | nil =>
    refine ⟨c.querybuf, pos, c.bulklen, [], [], body, rfl, by simp [readArgs], awaits, stream, fun waits => absurd rfl waits, le_rfl⟩
  | cons arg args ih =>
    rw [length_cons, readArgs]
    rcases argHeader_spec (sizes arg mem_cons_self) awaits stream fits with
      ⟨waits, unknown, short, starved⟩ | ⟨querybuf, next, known, stream₁, fits₁, shrinks⟩
    · rw [waits]
      exact ⟨c.querybuf, pos, c.bulklen, [], arg :: args, body, rfl, by simp, awaits, stream,
        fun _ => ⟨by rw [Waits, unknown]; exact short, starved⟩, le_rfl⟩
    · rw [known]
      dsimp only
      split_ifs with short
      · rw [← length_drop] at short
        have starved : later ≠ [] := by
          rintro rfl
          have lengths := congrArg List.length stream₁
          simp only [append_nil, length_append, crlf, length_cons, length_nil] at lengths
          omega
        exact ⟨querybuf, next, some arg.length, [], arg :: args, _, rfl, by simp, .inside arg args, stream₁,
          fun _ => ⟨short, starved⟩, shrinks⟩
      · rw [← length_drop, not_lt] at short
        obtain ⟨querybuf₂, next₂, taken, stream₂, fits₂, shrinks₂⟩ :=
          takeArg_spec { c with querybuf := querybuf, bulklen := some arg.length } next arg (args.flatMap bulk ++ tail) later
            (by rw [stream₁, append_assoc]) fits₁ short
        rw [taken]
        obtain ⟨querybuf₃, next₃, bulklen, done, left, body', split, read, awaits', stream₃, waits, shrinks₃⟩ :=
          ih { c with querybuf := querybuf₂, argv := c.argv ++ [arg], bulklen := none } next₂ (args.flatMap bulk)
            (fun other member => sizes other (mem_cons_of_mem _ member)) (.fresh args) stream₂ fits₂
        refine ⟨querybuf₃, next₃, bulklen, arg :: done, left, body', by rw [cons_append, split], ?_, awaits', stream₃, waits,
          shrinks₃.trans (shrinks₂.trans shrinks)⟩
        rw [read]
        simp

-- rest is what is still to come of the commands, the first of which may be read in part.
inductive Expects (c : Input) (commands : List (List Bytes)) (rest : Bytes) : Prop where
  | fresh (count : c.multibulklen = 0) (unknown : c.bulklen = none) (empty : c.argv = []) (typed : c.reqtype ≠ .inline)
      (bytes : rest = encode commands)
  | partly (left : List Bytes) (others : List (List Bytes)) (body : Bytes) (some_left : left ≠ [])
      (count : c.multibulklen = left.length) (typed : c.reqtype = .multibulk) (split : commands = (c.argv ++ left) :: others)
      (awaits : ArgBytes c.bulklen left body) (bytes : rest = body ++ encode others)

def SameFlags (c c' : Input) : Prop :=
  c'.blocked = c.blocked ∧ c'.closeAfterReply = c.closeAfterReply ∧ c'.protocolError = c.protocolError

theorem argBytes_length {bulklen : Option Nat} (awaits : ArgBytes bulklen left body)
    (some_left : left ≠ []) : (bulklen.map (· + 2)).getD 1 ≤ body.length := by
  cases awaits with
  | fresh args =>
    cases left with
    | nil => exact absurd rfl some_left
    | cons arg args =>
      simp [bulk, header]
  | inside arg args =>
    simp [crlf]

inductive Parsed (limits : Limits) (c : Input) (commands : List (List Bytes)) (later : Bytes) : Prop where
  | waits (c' : Input) (result : parseRequest limits c = (c', false)) (expects : Expects c' commands (c'.querybuf ++ later))
      (waiting : Waits c'.bulklen c'.querybuf) (starved : later ≠ []) (flags : SameFlags c c') (shrinks : c'.querybuf.length ≤ c.querybuf.length)
  | ready (c' : Input) (command : List Bytes) (others : List (List Bytes)) (first : commands = command :: others)
      (result : parseRequest limits c = (c', true)) (argv : c'.argv = command) (bytes : c'.querybuf ++ later = encode others)
      (flags : SameFlags c c') (short : c'.querybuf.length ≤ protoInlineMaxSize)
      (shrinks : c'.querybuf.length < c.querybuf.length)

theorem fits_after (unparsed : Nat) (some_left : left ≠ [])
    (awaits : ArgBytes c.bulklen left body) (fits : Fits c.querybuf c.bulklen pos)
    (used : unparsed + body.length ≤ c.querybuf.length) : unparsed ≤ protoInlineMaxSize := by
  rcases fits with short | ⟨ll, known, _, _, length⟩
  · omega
  · have := argBytes_length awaits some_left
    rw [known] at this
    simp at this
    omega

-- c is the client once the count of arguments is known, c₀ the client before the call.
theorem parsed_args {c₀ : Input} {others : List (List Bytes)}
    {body later : Bytes} (called : parseRequest limits c₀ = finishArgs (readArgs limits left.length c pos))
    (buffer : c.querybuf = c₀.querybuf) (flags : SameFlags c₀ c) (some_left : left ≠ []) (typed : c.reqtype = .multibulk)
    (command : IsCommand limits (c.argv ++ left)) (awaits : ArgBytes c.bulklen left body)
    (stream : c.querybuf.drop pos ++ later = body ++ encode others) (fits : Fits c.querybuf c.bulklen pos) :
    Parsed limits c₀ ((c.argv ++ left) :: others) later := by
  obtain ⟨querybuf, next, bulklen, done, left', body', split, read, awaits', stream', waits, shrinks⟩ :=
    readArgs_spec limits c pos body
      (fun arg member => command.sizes arg (mem_append_right _ member)) awaits stream fits
  have dropped : (c.querybuf.drop pos).length ≤ c.querybuf.length := by
    rw [length_drop]
    omega
  let c' : Input := trim { c with querybuf := querybuf, bulklen := bulklen, argv := c.argv ++ done, multibulklen := left'.length } next
  rw [read] at called
  by_cases complete : left' = []
  · subst complete
    cases awaits'
    rw [append_nil] at split
    subst split
    have lengths := congrArg List.length stream
    have lengths' := congrArg List.length stream'
    simp only [length_append, flatMap_nil, length_nil] at lengths lengths'
    have positive : 1 ≤ body.length := by
      have body_length := argBytes_length awaits some_left
      cases bulklen_eq : c.bulklen with
      | none => simpa [bulklen_eq] using body_length
      | some ll =>
        simp [bulklen_eq] at body_length
        omega
    refine .ready c' (c.argv ++ done) others rfl (called.trans (by simp [finishArgs, c'])) rfl stream' flags
      (fits_after _ some_left awaits fits ?_) ?_
    · simp only [c', trim]
      omega
    · rw [← buffer]
      simp only [c', trim]
      omega
  · refine .waits c' (called.trans (by simp [finishArgs, c', complete])) ?_ (waits complete).1 (waits complete).2 flags ?_
    · refine .partly left' others body' complete rfl typed ?_ awaits' stream'
      simp only [c', trim]
      rw [append_assoc, split]
    · rw [← buffer]
      exact shrinks.trans dropped

theorem parsed_fresh (count : c.multibulklen = 0)
    (unknown : c.bulklen = none) (empty : c.argv = []) (typed : c.reqtype ≠ .inline) (some_input : c.querybuf ≠ [])
    (valid : ∀ command ∈ commands, IsCommand limits command) (stream : c.querybuf ++ later = encode commands)
    (short : c.querybuf.length ≤ protoInlineMaxSize) : Parsed limits c commands later := by
  cases commands with
  | nil => exact absurd (append_eq_nil_iff.mp stream).1 some_input
  | cons command others =>
    have is_command := valid command mem_cons_self
    have small : command.length < 2 ^ 63 := by
      have := is_command.count
      omega
    have stream' : c.querybuf.drop 0 ++ later = header 42 command.length ++ (command.flatMap bulk ++ encode others) := by
      rw [drop_zero, stream]
      simp [encode, encodeCommand]
    have head : c.querybuf.head? = some 42 := by
      cases querybuf : c.querybuf with
      | nil => exact absurd querybuf some_input
      | cons first rest =>
        rw [querybuf] at stream'
        exact congrArg some (cons_eq_cons.mp stream').1
    have type_eq : requestType c = .multibulk := by
      unfold requestType
      split_ifs with is_unknown
      · rfl
      · cases reqtype : c.reqtype with
        | unknown => exact absurd reqtype is_unknown
        | inline => exact absurd reqtype typed
        | multibulk => rfl
    have called : parseRequest limits c = processMultibulkBuffer limits { c with reqtype := .multibulk } := by
      rw [parseRequest, type_eq, if_neg (by decide)]
    have bound : c.querybuf.length < 2 ^ 31 := by
      simp only [protoInlineMaxSize] at short
      omega
    cases lineAt stream' (by decide) bound with
    | cut unended cut_short starved =>
      have waits : multibulkCount c.querybuf = .wait := by
        unfold multibulkCount
        cases found : findLine c.querybuf 0 with
        | missing => simp [not_lt.mpr short]
        | incomplete => rfl
        | ended newline => exact absurd found (unended newline)
      refine .waits { c with reqtype := .multibulk } ?_ (.fresh count unknown empty (by simp) stream) ?_ starved
        ⟨rfl, rfl, rfl⟩ le_rfl
      · rw [called, processMultibulkBuffer, if_pos count, waits]
      · rw [Waits, unknown]
        exact cut_short.trans (header_length 42 small)
    | whole after found shape after_eq =>
      obtain ⟨digits, _, rest⟩ := line_digits shape
      have parsed : string2ll (llString command.length) = some (command.length : Int) :=
        string2ll_complete (isInt64_natCast small)
      have positive : 0 < command.length := length_pos_iff.mpr is_command.nonempty
      have not_many : ¬(1024 * 1024 < (command.length : Int)) := by
        have := is_command.count
        omega
      have counted : multibulkCount c.querybuf = .args command.length (0 + (1 + (llString command.length).length) + 2) := by
        simp only [multibulkCount, found, digits, parsed, if_neg not_many]
        rw [if_neg (by omega), Int.toNat_natCast]
      have typed_call : parseRequest limits c = finishArgs (readArgs limits command.length { c with reqtype := .multibulk }
          (0 + (1 + (llString command.length).length) + 2)) := by
        rw [called, processMultibulkBuffer, if_pos count, counted]
      have awaits : ArgBytes c.bulklen command (command.flatMap bulk) := by
        rw [unknown]
        exact .fresh command
      have result := parsed_args typed_call rfl
        ⟨rfl, rfl, rfl⟩ is_command.nonempty rfl (by simpa [empty] using is_command) awaits (by rw [rest]; exact after_eq) (.inl short)
      simpa only [empty, nil_append] using result

theorem parseRequest_spec
    (valid : ∀ command ∈ commands, IsCommand limits command) (some_input : c.querybuf ≠ [])
    (expects : Expects c commands (c.querybuf ++ later)) (fits : Fits c.querybuf c.bulklen 0) :
    Parsed limits c commands later := by
  cases expects with
  | fresh count unknown empty typed bytes =>
    have short : c.querybuf.length ≤ protoInlineMaxSize := by
      rcases fits with short | ⟨ll, known, _⟩
      · exact short
      · rw [unknown] at known
        cases known
    exact parsed_fresh count unknown empty typed some_input valid bytes short
  | partly left others body some_left count typed split awaits bytes =>
    subst split
    have nonzero : c.multibulklen ≠ 0 := by
      rw [count]
      exact (length_pos_iff.mpr some_left).ne'
    have type_eq : requestType c = .multibulk := by rw [requestType, typed]; rfl
    have same : ({ c with reqtype := requestType c } : Input) = c := by rw [type_eq, ← typed]
    have called : parseRequest limits c = finishArgs (readArgs limits left.length c 0) := by
      rw [parseRequest, same, type_eq, if_neg (by decide), processMultibulkBuffer, if_neg nonzero, count]
    exact parsed_args called rfl ⟨rfl, rfl, rfl⟩ some_left typed
      (valid _ mem_cons_self) awaits bytes fits

end RedisCore.Networking
