import RedisCore.Lib.Outcome

set_option autoImplicit false

namespace RedisCore.Buffer

variable {A : Type}

def read (buffer : List A) (offset length : Nat) : Option (List A) :=
  if offset + length ≤ buffer.length then some ((buffer.drop offset).take length) else none

def write (buffer : List A) (offset : Nat) (bytes : List A) : Option (List A) :=
  if offset + bytes.length ≤ buffer.length then
    some (buffer.take offset ++ (bytes ++ buffer.drop (offset + bytes.length)))
  else none

-- The source range is read whole before the first byte is written, as memmove does.
def move (buffer : List A) (target source length : Nat) : Option (List A) :=
  (read buffer source length).bind (write buffer target)

def realloc (fill : A) (buffer : List A) (length : Nat) : List A :=
  buffer.take length ++ List.replicate (length - buffer.length) fill

theorem read_append (front bytes rest : List A) (offset length : Nat)
    (at_front : offset = front.length) (whole : length = bytes.length) :
    read (front ++ (bytes ++ rest)) offset length = some bytes := by
  subst at_front whole
  simp [read]

theorem write_append (front old bytes rest : List A) (offset : Nat)
    (at_front : offset = front.length) (same : bytes.length = old.length) :
    write (front ++ (old ++ rest)) offset bytes = some (front ++ (bytes ++ rest)) := by
  subst at_front
  have tail : (front ++ (old ++ rest)).drop (front.length + bytes.length) = rest := by
    rw [← List.drop_drop, List.drop_left, same, List.drop_left]
  rw [write, if_pos (by simp [same]), tail, List.take_left]

theorem realloc_grow (fill : A) (buffer : List A) (extra : Nat) :
    realloc fill buffer (buffer.length + extra) = buffer ++ List.replicate extra fill := by
  simp [realloc, List.take_of_length_le]

theorem realloc_shrink (fill : A) (buffer rest : List A) :
    realloc fill (buffer ++ rest) buffer.length = buffer := by
  simp [realloc]

theorem length_write {buffer bytes result : List A} {offset : Nat}
    (written : write buffer offset bytes = some result) : result.length = buffer.length := by
  unfold write at written
  split at written
  next within =>
    cases written
    simp
    omega
  next => cases written

end RedisCore.Buffer
