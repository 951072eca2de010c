import Mathlib

set_option autoImplicit false

namespace RedisCore.Lib

open List

section

variable {α β : Type} [DecidableEq α]

def keyCount (p : α → Bool) (map : AList fun _ : α => β) : Nat := map.keys.countP p

omit [DecidableEq α] in
@[simp] theorem keyCount_empty (p : α → Bool) : keyCount p (∅ : AList fun _ : α => β) = 0 := rfl

theorem keyCount_insert_of_mem (p : α → Bool) (map : AList fun _ : α => β) (a : α) (b : β) (present : a ∈ map) :
    keyCount p (map.insert a b) = keyCount p map := by
  unfold keyCount
  rw [AList.keys_insert]
  exact ((List.perm_cons_erase present).symm.countP_eq p)

theorem keyCount_insert_of_notMem (p : α → Bool) {map : AList fun _ : α => β} {a : α} (b : β) (absent : a ∉ map) :
    keyCount p (map.insert a b) = keyCount p map + if p a then 1 else 0 := by
  unfold keyCount
  rw [AList.keys_insert, List.erase_of_not_mem absent, List.countP_cons]

theorem keyCount_erase (p : α → Bool) {map : AList fun _ : α => β} {a : α} (present : a ∈ map) :
    keyCount p (map.erase a) + (if p a then 1 else 0) = keyCount p map := by
  unfold keyCount
  rw [AList.keys_erase, (List.perm_cons_erase present).countP_eq p, List.countP_cons]

omit [DecidableEq α] in
theorem keyCount_pos (p : α → Bool) (map : AList fun _ : α => β) : keyCount p map ≠ 0 ↔ ∃ a ∈ map, p a = true := by
  rw [← Nat.pos_iff_ne_zero]
  exact List.countP_pos_iff

theorem erase_of_notMem {map : AList fun _ : α => β} {a : α} (absent : a ∉ map) : map.erase a = map := by
  apply AList.ext
  exact List.kerase_of_notMem_keys absent

end

variable {α : Type} [LinearOrder α]
variable {a : α}

structure SortedSet (α : Type) [LinearOrder α] where
  items : List α
  sorted : items.Pairwise (· ≤ ·)
  nodup : items.Nodup
  deriving DecidableEq

namespace SortedSet

instance : Membership α (SortedSet α) := ⟨fun s a => a ∈ s.items⟩

instance (a : α) (s : SortedSet α) : Decidable (a ∈ s) := inferInstanceAs (Decidable (a ∈ s.items))

theorem mem_items (a : α) (s : SortedSet α) : a ∈ s.items ↔ a ∈ s := Iff.rfl

def empty : SortedSet α := ⟨[], .nil, .nil⟩

@[simp] theorem notMem_empty (a : α) : a ∉ (empty : SortedSet α) := not_mem_nil

def size (s : SortedSet α) : Nat := s.items.length

@[simp] theorem size_empty : (empty : SortedSet α).size = 0 := rfl

theorem nodup_orderedInsert {l : List α} (nodup : l.Nodup) (absent : a ∉ l) :
    (l.orderedInsert (· ≤ ·) a).Nodup :=
  (perm_orderedInsert (· ≤ ·) a l).nodup_iff.mpr (nodup_cons.mpr ⟨absent, nodup⟩)

def insert (a : α) (s : SortedSet α) : SortedSet α :=
  if absent : a ∈ s.items then s
  else ⟨s.items.orderedInsert (· ≤ ·) a, s.sorted.orderedInsert a s.items, nodup_orderedInsert s.nodup absent⟩

def erase (a : α) (s : SortedSet α) : SortedSet α :=
  ⟨s.items.erase a, s.sorted.sublist erase_sublist, s.nodup.erase a⟩

@[simp] theorem mem_insert (a b : α) (s : SortedSet α) : b ∈ s.insert a ↔ b = a ∨ b ∈ s := by
  unfold insert
  split_ifs with present
  · exact ⟨Or.inr, fun either => either.elim (fun same => same ▸ present) id⟩
  · exact mem_orderedInsert (· ≤ ·)

@[simp] theorem mem_erase (a b : α) (s : SortedSet α) : b ∈ s.erase a ↔ b ≠ a ∧ b ∈ s :=
  s.nodup.mem_erase_iff

theorem size_insert {s : SortedSet α} (absent : a ∉ s) : (s.insert a).size = s.size + 1 := by
  have outside : a ∉ s.items := absent
  simp only [insert, dif_neg outside, size, orderedInsert_length]

theorem size_erase {s : SortedSet α} (present : a ∈ s) : (s.erase a).size + 1 = s.size := by
  have positive := length_pos_of_mem present
  have shorter : (s.items.erase a).length = s.items.length - 1 := length_erase_of_mem present
  simp only [size, erase]
  omega

theorem orderedInsert_between {front rest : List α} (below : ∀ b ∈ front, b < a) (above : ∀ b ∈ rest, a ≤ b) :
    (front ++ rest).orderedInsert (· ≤ ·) a = front ++ a :: rest := by
  induction front with
  | nil =>
    cases rest with
    | nil => rfl
    | cons b rest => rw [nil_append, List.orderedInsert, if_pos (above b mem_cons_self), nil_append]
  | cons b front ih =>
    rw [cons_append, List.orderedInsert, if_neg (not_le_of_gt (below b mem_cons_self)),
      ih fun c member => below c (mem_cons_of_mem b member), cons_append]

theorem items_insert (s : SortedSet α) (front rest : List α) (shape : s.items = front ++ rest) (below : ∀ b ∈ front, b < a)
    (above : ∀ b ∈ rest, a ≤ b) (absent : a ∉ s) : (s.insert a).items = front ++ a :: rest := by
  have outside : a ∉ s.items := absent
  rw [insert, dif_neg outside]
  change s.items.orderedInsert (· ≤ ·) a = front ++ a :: rest
  rw [shape, orderedInsert_between below above]

theorem items_erase (s : SortedSet α) {front rest : List α} (shape : s.items = front ++ a :: rest) (below : ∀ b ∈ front, b < a) :
    (s.erase a).items = front ++ rest := by
  have outside : a ∉ front := fun member => lt_irrefl a (below a member)
  simp only [erase, shape, erase_append_right _ outside, erase_cons_head]

theorem increasing (s : SortedSet α) : s.items.Pairwise (· < ·) :=
  (pairwise_and_iff.mpr ⟨s.sorted, s.nodup⟩).imp fun both => lt_of_le_of_ne both.1 both.2

theorem ext_mem (s t : SortedSet α) (same : ∀ a, a ∈ s ↔ a ∈ t) : s = t := by
  have perm := (perm_ext_iff_of_nodup s.nodup t.nodup).mpr same
  have items := perm.eq_of_pairwise (fun _ _ _ _ => le_antisymm) s.sorted t.sorted
  cases s
  cases t
  cases items
  rfl

theorem erase_of_notMem (s : SortedSet α) (absent : a ∉ s) : s.erase a = s := by
  apply ext_mem
  intro b
  rw [mem_erase]
  exact ⟨And.right, fun member => ⟨fun same => absent (same ▸ member), member⟩⟩

theorem size_eq_zero (s : SortedSet α) : s.size = 0 ↔ ∀ a, a ∉ s := by
  unfold size
  rw [length_eq_zero_iff, eq_nil_iff_forall_not_mem]
  rfl

end SortedSet

end RedisCore.Lib
