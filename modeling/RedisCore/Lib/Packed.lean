import RedisCore.Lib.Buffer

set_option autoImplicit false

namespace RedisCore.Packed

open Buffer List

variable {A B : Type}

/-- An array of cells of one width, laid out one after the other. -/
def pack (encode : B → List A) (values : List B) : List A := values.flatMap encode

section

variable (encode : B → List A)

@[simp] theorem pack_nil : pack encode [] = [] := rfl

@[simp] theorem pack_cons (b : B) (values : List B) : pack encode (b :: values) = encode b ++ pack encode values := rfl

@[simp] theorem pack_append (front rest : List B) : pack encode (front ++ rest) = pack encode front ++ pack encode rest :=
  flatMap_append

theorem length_pack {width : Nat} (values : List B) (sized : ∀ b, (encode b).length = width) :
    (pack encode values).length = values.length * width := by
  induction values with
  | nil => simp
  | cons b values ih =>
    rw [pack_cons, length_append, ih, sized, length_cons, Nat.succ_mul]
    exact Nat.add_comm _ _

theorem read_cell {width : Nat} (sized : ∀ b, (encode b).length = width) (front rest : List B) (b : B) (behind : List A) :
    read (pack encode (front ++ b :: rest) ++ behind) (front.length * width) width = some (encode b) := by
  rw [pack_append, pack_cons, append_assoc, append_assoc]
  exact read_append _ _ _ _ _ (length_pack encode front sized).symm (sized b).symm

end

/-- The bytes at the end move up by one cell. -/
theorem move_up (front rest spare : List A) : ∃ gap, gap.length = spare.length ∧
    move (front ++ (rest ++ spare)) (front.length + spare.length) front.length rest.length = some (front ++ (gap ++ rest)) := by
  have split : (rest ++ spare).take spare.length ++ (rest ++ spare).drop spare.length = rest ++ spare := take_append_drop _ _
  have length : ((rest ++ spare).take spare.length).length = spare.length := by simp
  have replaced : ((rest ++ spare).drop spare.length).length = rest.length := by simp
  refine ⟨_, length, ?_⟩
  have written := write_append (front ++ (rest ++ spare).take spare.length) ((rest ++ spare).drop spare.length) rest []
    (front.length + spare.length) (by rw [length_append, length]) replaced.symm
  rw [append_nil, append_nil, append_assoc, split, append_assoc] at written
  rw [move, read_append front rest spare _ _ rfl rfl, Option.bind_some, written]

/-- The bytes behind a cell move down over it. -/
theorem move_down (front old rest : List A) : ∃ left, left.length = old.length ∧
    move (front ++ (old ++ rest)) front.length (front.length + old.length) rest.length = some (front ++ (rest ++ left)) := by
  have split : (old ++ rest).take rest.length ++ (old ++ rest).drop rest.length = old ++ rest := take_append_drop _ _
  have length : ((old ++ rest).take rest.length).length = rest.length := by simp
  have left : ((old ++ rest).drop rest.length).length = old.length := by simp
  refine ⟨_, left, ?_⟩
  have found := read_append (front ++ old) rest [] (front.length + old.length) rest.length (by simp) rfl
  rw [append_nil, append_assoc] at found
  have written := write_append front ((old ++ rest).take rest.length) rest ((old ++ rest).drop rest.length) front.length rfl length.symm
  rw [split] at written
  rw [move, found, Option.bind_some, written]

end RedisCore.Packed
