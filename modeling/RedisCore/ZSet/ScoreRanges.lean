import RedisCore.ZSet.ZiplistRanges
import RedisCore.Dict.Refinement

set_option autoImplicit false

namespace RedisCore.ZSet

open Util Ziplist SkipList OrderedSplit HashTable List

def digitScores : ScoreType (Fin 10) where
  d2string := fun score => [48 + UInt8.ofNat score.val]
  strtod := fun s => Fin.ofNat 10 ((s.headD 48).toNat - 48)
  ofLongLong := fun v => Fin.ofNat 10 (((Util.ll2string 32 v).headD 48).toNat - 48)
  strtod_d2string := by decide
  strtod_ll2string := fun _ _ => rfl
  d2string_fits := by simp

section

variable {S : Type} [LinearOrder S] {scores : ScoreType S} {zl : Bytes} {members : List (Member S)}
  (holds : Holds zl (flat scores members)) (small : widest (flat scores members) < 2 ^ 32)

theorem members_scores (sorted : members.Pairwise Member.Lt) : members.Pairwise fun a b => a.score ≤ b.score := by
  refine sorted.imp fun {a b} less => ?_
  rcases less with below | ⟨same, _⟩
  · exact below.le
  · exact same.le

section

include holds small

omit [LinearOrder S] in
theorem members_few : members.length < 2 ^ 31 := by
  have entries := holds.entries_le zl _
  have size := holds.length_le zl _
  rw [length_flat] at entries
  omega

variable {range : Zrangespec S} {below within above : List (Member S)} (shape : members = below ++ (within ++ above))
  (parts : Parts (fun m : Member S => zslValueGteMin m.score range) (fun m => zslValueLteMax m.score range) below within above)

include shape parts

-- The tests on the ends never reject a range that holds something; what they accept has both ends on the right side.
theorem zzlIsInRange_ok : ∃ answer, zzlIsInRange scores range zl = some answer ∧ (answer = false → within = []) := by
  rw [zzlIsInRange]
  split
  next empty => exact ⟨false, rfl, fun _ => parts.empty fun m => emptyRange_sound empty m.score⟩
  next =>
    cases members using List.reverseRecOn with
    | nil =>
      have nothing := shape.symm
      simp only [append_eq_nil_iff] at nothing
      exact ⟨false, by rw [index_empty holds small (-1) rfl]; rfl, fun _ => nothing.2.1⟩
    | append_singleton init m =>
      obtain ⟨last, _, to_last, at_last⟩ := stands_last holds small rfl
      have reaches := parts.last_low m (by rw [← shape, getLast?_concat])
      obtain ⟨d, others, starts⟩ := exists_cons_of_ne_nil (append_ne_nil_of_right_ne_nil init (cons_ne_nil m []))
      obtain ⟨first, _, to_first, at_first⟩ := stands_first holds small starts
      simp only [to_last, to_first, some_bind, at_last.readScore small, at_first.readScore small]
      cases tested : zslValueGteMin m.score range with
      | false =>
        have none_left : within ++ above = [] := by simpa [tested] using reaches
        exact ⟨false, rfl, fun _ => (append_eq_nil_iff.mp none_left).1⟩
      | true => exact ⟨_, rfl, parts.first_high d (by rw [← shape, starts]; rfl)⟩

theorem zzlFirstInRange_parts : ∃ p, zzlFirstInRange scores zl range = some (if within = [] then none else some p) ∧
    (within ≠ [] → Cursor zl (flat scores below) (flat scores (within ++ above)) p) := by
  obtain ⟨answer, tested, rejected⟩ := zzlIsInRange_ok holds small shape parts
  have first := holds.first small
  simp only [zzlFirstInRange, first, tested, some_bind]
  cases answer with
  | false => exact ⟨0, by rw [if_pos (rejected rfl)]; rfl, fun some_within => absurd (rejected rfl) some_within⟩
  | true =>
    have starts : ∀ m ∈ (within ++ above).head?, zslValueGteMin m.score range = true := by
      intro m head
      rcases mem_append.mp (mem_of_mem_head? head) with inside | after
      · exact (parts.both m inside).1
      · exact (parts.past m after).1
    have fuel := Holds.fuel scores holds
    rw [shape] at fuel
    obtain ⟨p, cursor, ran⟩ := firstLoop_ok small [] zl.length 10 shape (by rw [← shape]; exact holds.start) parts.before starts fuel
    rw [← shape] at ran
    refine ⟨p, ?_, fun _ => cursor⟩
    rw [if_pos rfl, ran]
    cases within with
    | nil =>
      cases above with
      | nil => rfl
      | cons m above => simp [(parts.past m mem_cons_self).2]
    | cons m others => simp [(parts.both m mem_cons_self).2]

end

variable (sorted : members.Pairwise Member.Lt) (range : Zrangespec S)

section

include holds small sorted

theorem zzlFirstInRange_ok : ∃ found, zzlFirstInRange scores zl range = some found ∧
    found.map (ziplistGetObject zl) = ((members.filter (scoreInside range Member.score)).head?.map fun m => some m.ele) := by
  have ordered := ordered_scores range (members_scores sorted)
  obtain ⟨below, within, above, shape, parts⟩ := ordered.parts
  obtain ⟨p, ran, cursor⟩ := zzlFirstInRange_parts holds small shape parts
  refine ⟨_, ran, ?_⟩
  rw [scoreInside, shape, parts.filter]
  cases within with
  | nil => rfl
  | cons m others =>
    obtain ⟨q, _, stands⟩ := stands_of_cursor small below (others ++ above) m p shape (cursor (cons_ne_nil m others))
    exact congrArg some (stands.object small)

theorem zzlLastInRange_ok : ∃ found, zzlLastInRange scores zl range = some found ∧
    found.map (ziplistGetObject zl) = ((members.filter (scoreInside range Member.score)).getLast?.map fun m => some m.ele) := by
  have ordered := ordered_scores range (members_scores sorted)
  obtain ⟨below, within, above, shape, parts⟩ := ordered.parts
  obtain ⟨answer, tested, rejected⟩ := zzlIsInRange_ok holds small shape parts
  have filtered : members.filter (scoreInside range Member.score) = within := by rw [scoreInside, shape, parts.filter]
  rw [filtered]
  cases members using List.reverseRecOn with
  | nil =>
    have nothing := shape.symm
    simp only [append_eq_nil_iff] at nothing
    rw [nothing.2.1]
    simp only [zzlLastInRange, index_empty holds small (-2) rfl, tested, some_bind]
    refine ⟨none, ?_, rfl⟩
    cases answer
    · rfl
    · cases zl.length <;> rfl
  | append_singleton init x =>
    obtain ⟨pair, to_last, _, stands⟩ := stands_last holds small rfl
    have fuel := Holds.fuel scores holds
    rw [length_append, length_singleton] at fuel
    simp only [zzlLastInRange, to_last, tested, some_bind]
    cases answer with
    | false =>
      rw [rejected rfl]
      exact ⟨none, rfl, rfl⟩
    | true =>
      rw [if_pos rfl]
      -- The search ends where the upper test first fails, which is behind the last element inside if there is one.
      have split := takeWhile_append_dropWhile (p := fun m : Member S => zslValueLteMax m.score range) (l := init ++ [x])
      have passed (y : Member S) (member : y ∈ (init ++ [x]).takeWhile fun m => zslValueLteMax m.score range) :=
        mem_takeWhile_imp (p := fun m : Member S => zslValueLteMax m.score range) member
      obtain ⟨found, ran, object⟩ := lastLoop_ok small _ _ init [] x zl.length pair split stands (dropWhile_fails _ ordered.upper)
        (fun y last => passed y (mem_of_mem_getLast? last)) fuel
      refine ⟨found, ran, object.trans (congrArg (Option.map _) ?_)⟩
      cases within using List.reverseRecOn with
      | nil =>
        refine Option.filter_eq_none_iff.mpr fun y last => ?_
        simpa using parts.prefix_below _ (shape.symm.trans split.symm) passed y (mem_of_mem_getLast? last)
      | append_singleton front m =>
        have reached : ∀ y ∈ below ++ (front ++ [m]), zslValueLteMax y.score range = true := by
          intro y member
          rcases mem_append.mp member with before | inside
          · exact parts.reached (by simp) y before
          · exact (parts.both y inside).2
        rw [shape, ← append_assoc, takeWhile_split reached fun y member => (parts.past y member).2, ← append_assoc, getLast?_concat,
          getLast?_concat, Option.filter_some, if_pos (parts.both m (by simp)).1]

theorem zcount_ziplist : zcountCommand scores (.ziplist zl) range =
    some ((members.filter (scoreInside range Member.score)).length : Int) := by
  have ordered := ordered_scores range (members_scores sorted)
  obtain ⟨below, within, above, shape, parts⟩ := ordered.parts
  obtain ⟨p, ran, cursor⟩ := zzlFirstInRange_parts holds small shape parts
  have filtered : members.filter (scoreInside range Member.score) = within := by rw [scoreInside, shape, parts.filter]
  rw [filtered, zcountCommand, ran]
  cases within with
  | nil => rfl
  | cons m others =>
    obtain ⟨q, to_score, stands⟩ := stands_of_cursor small below (others ++ above) m p shape (cursor (cons_ne_nil m others))
    have fuel := Holds.fuel scores holds
    have few := members_few holds small
    rw [shape, length_append, length_append, length_cons] at fuel few
    have counted := countLoop_ok range small stands zl.length 0 (by rw [length_append]; omega)
    rw [← cons_append, takeWhile_split (fun m member => (parts.both m member).2) fun m member => (parts.past m member).2, Nat.zero_add] at counted
    have fits : ((m :: others).length : Int).bmod (2 ^ 32) = (m :: others).length := by
      rw [length_cons]
      exact Int.bmod_eq_of_le (by omega) (by omega)
    rw [if_neg (cons_ne_nil m others)]
    simp only [some_bind, to_score, stands.readScore small, (parts.both m mem_cons_self).2, if_true, counted, fits]
    rfl

end

theorem zzlDeleteLoop_ok {front within above : List (Member S)} (fuel num p : Nat) (zl : Bytes)
    (inside : ∀ m ∈ within, zslValueLteMax m.score range = true) (outside : ∀ m ∈ above, zslValueLteMax m.score range = false)
    (cursor : Cursor zl (flat scores front) (flat scores (within ++ above)) p)
    (small : widest (flat scores (front ++ (within ++ above))) < 2 ^ 32) (enough : within.length < fuel) :
    ∃ zl', zzlDeleteLoop scores range fuel zl p num = some (zl', num + within.length) ∧ Holds zl' (flat scores (front ++ above)) := by
  induction within generalizing fuel num p zl with
  | nil =>
    obtain ⟨fuel, rfl⟩ : ∃ rest, fuel = rest + 1 := ⟨fuel - 1, by omega⟩
    refine ⟨zl, ?_, by rw [flat_append]; exact cursor.holds⟩
    cases above with
    | nil =>
      have ended := cursor.at_end p (by simpa using small)
      simp [zzlDeleteLoop, ziplistNext, ended]
    | cons m rest =>
      obtain ⟨q, to_score, stands⟩ := stands_of_cursor small front rest m p rfl cursor
      simp [zzlDeleteLoop, to_score, stands.readScore small, outside m mem_cons_self]
  | cons m within ih =>
    obtain ⟨fuel, rfl⟩ : ∃ rest, fuel = rest + 1 := ⟨fuel - 1, by omega⟩
    obtain ⟨q, to_score, stands⟩ := stands_of_cursor small front (within ++ above) m p rfl cursor
    obtain ⟨zl₁, deleted₁, cursor₁⟩ := stands.element.delete (stands.sizes small).1
    have small₁ : widest (flat scores front ++ scores.d2string m.score :: flat scores (within ++ above)) < 2 ^ 32 :=
      lt_of_le_of_lt (widest_sublist _ _ ((List.Sublist.refl _).append (sublist_cons_self _ _))) (stands.sizes small).1
    obtain ⟨zl₂, deleted₂, cursor₂⟩ := cursor₁.delete small₁
    have small₂ : widest (flat scores (front ++ (within ++ above))) < 2 ^ 32 := by
      rw [flat_append]
      exact lt_of_le_of_lt (widest_sublist _ _ ((List.Sublist.refl _).append (sublist_cons_self _ _))) small₁
    obtain ⟨zl', ran, holds'⟩ := ih fuel (num + 1) p zl₂ (fun x member => inside x (mem_cons_of_mem m member)) cursor₂ small₂
      (by simpa using enough)
    refine ⟨zl', ?_, holds'⟩
    simp only [zzlDeleteLoop, to_score, stands.readScore small, inside m mem_cons_self, some_bind, if_true, deleted₁, deleted₂, ran, length_cons]
    congr 2
    omega

end

section

variable {S : Type} [LinearOrder S]

/-- ZREMRANGEBYSCORE on a ziplist removes the members in the range and no others, and returns their number. -/
theorem zremrangebyscore_ziplist {scores : ScoreType S} {zl : Bytes} {members : List (Member S)} (holds : Holds zl (flat scores members))
    (small : widest (flat scores members) < 2 ^ 32) (sorted : members.Pairwise Member.Lt) (range : Zrangespec S) : ∃ zl',
    zzlDeleteRangeByScore scores zl range = some (zl', (members.filter (scoreInside range Member.score)).length) ∧
      Holds zl' (flat scores (members.filter fun m => !scoreInside range Member.score m)) := by
  have ordered := ordered_scores range (members_scores sorted)
  obtain ⟨below, within, above, rfl, parts⟩ := ordered.parts
  obtain ⟨p, ran, cursor⟩ := zzlFirstInRange_parts holds small rfl parts
  rw [scoreInside, parts.filter, parts.filter_not, zzlDeleteRangeByScore, ran]
  by_cases nothing : within = []
  · subst nothing
    exact ⟨zl, rfl, holds⟩
  · have fuel := Holds.fuel scores holds
    rw [length_append, length_append] at fuel
    obtain ⟨zl', deleted, holds'⟩ := zzlDeleteLoop_ok range zl.length 0 p zl (fun m member => (parts.both m member).2)
      (fun m member => (parts.past m member).2) (cursor nothing) small (by omega)
    rw [Nat.zero_add] at deleted
    rw [if_neg nothing]
    exact ⟨zl', deleted, holds'⟩

theorem zcount_skiplist (scores : ScoreType S) (d : Dict Bytes Nat) {zsl : Zskiplist S Bytes} {cells : List (Cell S Bytes)}
    (intact : Intact zsl cells) (range : Zrangespec S) :
    zcountCommand scores (.skiplist d zsl) range =
      some (((cells.filter (scoreInside range fun c => c.node.score)).length : Int).bmod (2 ^ 32)) := by
  have first := zslFirstInRange_ok intact range
  have last := zslLastInRange_ok intact range
  have total := intact.good.linked.length
  obtain ⟨below, within, above, rfl, parts⟩ := (ordered_scores range (scores_sorted intact.good.sorted)).parts
  rw [scoreInside, parts.filter] at first last ⊢
  cases within using List.reverseRecOn with
  | nil =>
    simp only [zcountCommand, first]
    rw [length_nil, Nat.cast_zero, Int.zero_bmod]
    rfl
  | append_singleton init e =>
    obtain ⟨c, others, starts⟩ := exists_cons_of_ne_nil (append_ne_nil_of_right_ne_nil init (cons_ne_nil e []))
    have node_c := intact.good.linked.nodes c (by rw [starts]; simp)
    have node_e := intact.good.linked.nodes e (by simp)
    have rank_c := zslGetRank_intact intact below (others ++ above) c (by rw [starts]; simp)
    have rank_e := zslGetRank_intact intact (below ++ init) above e (by simp)
    have head : (init ++ [e]).head? = some c := by rw [starts]; rfl
    simp only [zcountCommand, first, last, head, getLast?_concat, Option.map_some, some_bind, node_c, rank_c, node_e,
      rank_e, total, length_append, length_singleton, Option.pure_def]
    rw [Int.bmod_sub_bmod]
    refine congrArg (fun n : Int => some (n.bmod (2 ^ 32))) ?_
    push_cast
    ring

/-- What the score and rank queries answer on a sorted set in either encoding. -/
structure ScoreQueries (scores : ScoreType S) (d : Dict Bytes Nat) (zsl : Zskiplist S Bytes) (cells : List (Cell S Bytes))
    (zl : Bytes) (members : List (Member S)) (range : Zrangespec S) : Prop where
  first : zslFirstInRange zsl range = some ((cells.filter (scoreInside range fun c => c.node.score)).head?.map Cell.id)
  last : zslLastInRange zsl range = some ((cells.filter (scoreInside range fun c => c.node.score)).getLast?.map Cell.id)
  rank : ∀ front c rest, cells = front ++ c :: rest → zslGetRank zsl c.node.score c.node.ele = some (front.length + 1)
  element : ∀ front c rest, cells = front ++ c :: rest → zslGetElementByRank zsl (front.length + 1) = some (some (some c.id))
  beyond : ∀ rank, cells.length < rank → zslGetElementByRank zsl rank = some none
  count : zcountCommand scores (.skiplist d zsl) range = some ((cells.filter (scoreInside range fun c => c.node.score)).length : Int) ↔
    (cells.filter (scoreInside range fun c => c.node.score)).length < 2 ^ 31
  firstZiplist : ∃ found, zzlFirstInRange scores zl range = some found ∧
    found.map (ziplistGetObject zl) = (members.filter (scoreInside range Member.score)).head?.map fun m => some m.ele
  lastZiplist : ∃ found, zzlLastInRange scores zl range = some found ∧
    found.map (ziplistGetObject zl) = (members.filter (scoreInside range Member.score)).getLast?.map fun m => some m.ele
  countZiplist : zcountCommand scores (.ziplist zl) range = some ((members.filter (scoreInside range Member.score)).length : Int)

theorem score_queries_exact (scores : ScoreType S) (d : Dict Bytes Nat) (zsl : Zskiplist S Bytes) (cells : List (Cell S Bytes))
    (intact : Intact zsl cells) (zl : Bytes) (members : List (Member S)) (sorted : members.Pairwise Member.Lt)
    (holds : Holds zl (flat scores members)) (small : widest (flat scores members) < 2 ^ 32) (range : Zrangespec S) :
    ScoreQueries scores d zsl cells zl members range where
  first := zslFirstInRange_ok intact range
  last := zslLastInRange_ok intact range
  rank := fun front c rest => zslGetRank_intact intact front rest c
  element := by
    intro front c rest shape
    have taken : cells.take (front.length + 1) = front ++ [c] := by
      rw [shape, ← singleton_append, ← append_assoc]
      exact take_left' (by simp)
    rw [zslGetElementByRank_ok intact.good.linked intact.spanned _ (Nat.succ_pos _), taken, lastRef_concat,
      if_pos (by rw [shape]; simp)]
  beyond := by
    intro rank above
    rw [zslGetElementByRank_ok intact.good.linked intact.spanned rank (by omega), if_neg (by omega)]
  count := by
    rw [zcount_skiplist scores d intact range, Option.some_inj]
    refine ⟨fun same => ?_, fun few => Int.bmod_eq_of_le (by omega) (by omega)⟩
    have below := Int.bmod_lt (x := (cells.filter (scoreInside range fun c => c.node.score)).length) (m := 2 ^ 32) (by decide)
    omega
  firstZiplist := zzlFirstInRange_ok holds small sorted range
  lastZiplist := zzlLastInRange_ok holds small sorted range
  countZiplist := zcount_ziplist holds small sorted range

end

theorem filled_skiplist (n : Nat) (few : n ≤ 2 ^ 32) :
    ∃ (zsl : Zskiplist (Fin 10) Bytes) (cells : List (Cell (Fin 10) Bytes)), Good zsl cells ∧ cells.length = n ∧
      (cells.map fun c => c.node.ele).Nodup ∧ ∀ c ∈ cells, c.node.score = 0 ∧ ∃ k < n, c.node.ele = LittleEndian.encode 4 k := by
  induction n with
  | zero => exact ⟨zslCreate, [], good_create, rfl, nodup_nil, by simp⟩
  | succ n ih =>
    obtain ⟨zsl, cells, good, length, distinct, all⟩ := ih (by omega)
    have absent : ∀ c ∈ cells, c.node.ele ≠ LittleEndian.encode 4 n := by
      intro c member same
      obtain ⟨_, k, less, ele⟩ := all c member
      have equal := congrArg LittleEndian.decode (ele.symm.trans same)
      rw [LittleEndian.decode_encode_of_lt (by norm_num; omega), LittleEndian.decode_encode_of_lt (by norm_num; omega)] at equal
      omega
    obtain ⟨zsl', front, after, _, rfl, good', _⟩ := good.insert 0 absent le_rfl (by decide)
    refine ⟨zsl', _, good', ?_, ?_, ?_⟩
    · simp only [length_append, length_cons] at length ⊢
      omega
    · rw [map_append, map_cons, (perm_middle).nodup_iff, nodup_cons, ← map_append]
      refine ⟨fun member => ?_, distinct⟩
      obtain ⟨c, inside, same⟩ := mem_map.mp member
      exact absent c inside same
    · intro c member
      rcases mem_append.mp member with before | rest
      · obtain ⟨score, k, less, ele⟩ := all c (mem_append_left _ before)
        exact ⟨score, k, by omega, ele⟩
      · rcases mem_cons.mp rest with rfl | behind
        · exact ⟨rfl, n, Nat.lt_succ_self n, rfl⟩
        · obtain ⟨score, k, less, ele⟩ := all c (mem_append_right _ behind)
          exact ⟨score, k, by omega, ele⟩

local instance ten_digits : NeZero 10 := ⟨by decide⟩

def anyDigit : Zrangespec (Fin 10) := ⟨0, 9, false, false⟩

def threeMembers : List (Member (Fin 10)) := [⟨[97], 1⟩, ⟨[98], 3⟩, ⟨[99, 99], 5⟩]

theorem threeMembers_sorted : threeMembers.Pairwise Member.Lt := by simp [threeMembers, Member.Lt]

theorem threeMembers_held : ∃ zl, Holds zl (flat digitScores threeMembers) := by
  obtain ⟨zl, _, first⟩ := insertAt_end_ok digitScores ziplistNew [] ⟨[97], 1⟩ holds_new (by decide +kernel) (by decide)
  obtain ⟨zl, _, second⟩ := insertAt_end_ok digitScores zl _ ⟨[98], 3⟩ first (by decide +kernel) (by decide)
  obtain ⟨zl, _, third⟩ := insertAt_end_ok digitScores zl _ ⟨[99, 99], 5⟩ second (by decide +kernel) (by decide)
  exact ⟨zl, third⟩

theorem score_queries_three : ∃ zsl cells zl, cells.length = 3 ∧
    ScoreQueries digitScores dictCreate zsl cells zl threeMembers anyDigit := by
  obtain ⟨zsl, cells, good, length, distinct, _⟩ := filled_skiplist 3 (by decide)
  obtain ⟨zl, holds⟩ := threeMembers_held
  exact ⟨zsl, cells, zl, length, score_queries_exact digitScores dictCreate zsl cells
    ⟨good, spanned_of_length zsl cells (by rw [length]; decide), distinct⟩ zl threeMembers threeMembers_sorted holds
    (by decide +kernel) anyDigit⟩

-- The scores above 1 and up to 3.
theorem zremrangebyscore_middle : ∃ zl zl', Holds zl (flat digitScores threeMembers) ∧
    zzlDeleteRangeByScore digitScores zl ⟨1, 3, true, false⟩ = some (zl', 1) ∧
      Holds zl' (flat digitScores [⟨[97], 1⟩, ⟨[99, 99], 5⟩]) := by
  obtain ⟨zl, holds⟩ := threeMembers_held
  obtain ⟨zl', ran, left⟩ := zremrangebyscore_ziplist holds (by decide +kernel) threeMembers_sorted ⟨1, 3, true, false⟩
  exact ⟨zl, zl', holds, ran, left⟩

-- The reply is an int.
theorem zcount_overflows : ∃ zsl cells, Intact zsl cells ∧
    (cells.filter (scoreInside anyDigit fun c => c.node.score)).length = 2 ^ 31 ∧
    zcountCommand digitScores (.skiplist dictCreate zsl) anyDigit = some (-2147483648) := by
  obtain ⟨zsl, cells, good, length, distinct, all⟩ := filled_skiplist (2 ^ 31) (by norm_num)
  have intact : Intact zsl cells := ⟨good, spanned_of_length zsl cells (by rw [length]; norm_num), distinct⟩
  have everything : cells.filter (scoreInside anyDigit fun c => c.node.score) = cells := by
    refine filter_eq_self.mpr fun c member => ?_
    simp only [scoreInside, inside, (all c member).1]
    decide
  refine ⟨zsl, cells, intact, by rw [everything, length], ?_⟩
  rw [zcount_skiplist digitScores dictCreate intact anyDigit, everything, length]
  rfl

end RedisCore.ZSet
