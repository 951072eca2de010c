import RedisCore.Ziplist.Cells

set_option autoImplicit false

namespace RedisCore.Ziplist

open Buffer List

def Item.cell (item : Item) : Cell := ⟨item.wide, zipEntryBody item.value⟩

theorem encodeItems_cells (prevlen : Nat) (items : List Item) :
    encodeItems prevlen items = encodeCells prevlen (items.map Item.cell) := by
  induction items generalizing prevlen with
  | nil => rfl
  | cons item items ih =>
    rw [encodeItems, ih]
    rfl

theorem itemsLen_cells (items : List Item) : itemsLen items = cellsLen (items.map Item.cell) := by
  rw [itemsLen, cellsLen, map_map]
  rfl

theorem fits_cells (prevlen : Nat) (items : List Item) : Fits prevlen items ↔ CellsFit prevlen (items.map Item.cell) := by
  induction items generalizing prevlen with
  | nil => exact Iff.rfl
  | cons item items ih => exact and_congr Iff.rfl (ih item.rawlen)

theorem Item.decodes (item : Item) (short : item.value.length < 2 ^ 32) : Decodes item.cell.body := by
  intro rest
  obtain ⟨body⟩ := zipEntryBody_read rest short
  exact ⟨body.encoding, body.lensize, body.len, body.decoded, body.size⟩

def Item.widen (item : Item) : Item := { item with wide := true }

def cascadeItems : Nat → List Item → List Item
  | _, [] => []
  | rawlen, item :: items =>
    if item.wide = false ∧ zipBigPrevlen ≤ rawlen then
      item.widen :: cascadeItems item.widen.rawlen items
    else item :: items

theorem map_cell_cascade (rawlen : Nat) (items : List Item) :
    (cascadeItems rawlen items).map Item.cell = cascadeCells rawlen (items.map Item.cell) := by
  induction items generalizing rawlen with
  | nil => rfl
  | cons item items ih =>
    by_cases grows : item.wide = false ∧ zipBigPrevlen ≤ rawlen
    · have grows' : item.cell.wide = false ∧ zipBigPrevlen ≤ rawlen := grows
      rw [cascadeItems, if_pos grows, map_cons, ih, map_cons, cascadeCells, if_pos grows']
      rfl
    · have stays : ¬(item.cell.wide = false ∧ zipBigPrevlen ≤ rawlen) := grows
      rw [cascadeItems, if_neg grows, map_cons, cascadeCells, if_neg stays]

theorem itemsLen_dropLast_le (items : List Item) : itemsLen items.dropLast ≤ itemsLen items := by
  rw [itemsLen_cells, itemsLen_cells, map_dropLast]
  exact cellsLen_dropLast_le _

theorem itemsLen_le_cascade (rawlen : Nat) (items : List Item) :
    itemsLen items ≤ itemsLen (cascadeItems rawlen items) := by
  rw [itemsLen_cells, itemsLen_cells, map_cell_cascade]
  exact cellsLen_le_cascade rawlen _

theorem fits_cascade {stale : Nat} (rawlen : Nat) {items : List Item} (fits : Fits stale items) :
    Fits rawlen (cascadeItems rawlen items) := by
  rw [fits_cells, map_cell_cascade]
  exact cellsFit_cascade stale rawlen ((fits_cells stale items).mp fits)

theorem map_value_cascade (rawlen : Nat) (items : List Item) :
    (cascadeItems rawlen items).map Item.value = items.map Item.value := by
  induction items generalizing rawlen with
  | nil => rfl
  | cons item items ih =>
    rw [cascadeItems]
    split
    · simp [Item.widen, ih]
    · rfl

theorem Item.value_short (item : Item) (bound : item.rawlen < 2 ^ 32) :
    item.value.length < 2 ^ 32 := by
  apply length_lt_of_body
  unfold Item.rawlen at bound
  omega

theorem decode_items {items : List Item} (bound : itemsLen items < 2 ^ 32) :
    ∀ cell ∈ items.map Item.cell, Decodes cell.body := by
  intro cell inside
  obtain ⟨item, member, rfl⟩ := mem_map.mp inside
  have within : item.rawlen ≤ itemsLen items := single_le_sum (by simp) _ (mem_map_of_mem member)
  exact item.decodes (item.value_short (by omega))

theorem length_le_itemsLen (items : List Item) : items.length ≤ itemsLen items := by
  induction items with
  | nil => exact le_rfl
  | cons item items ih =>
    have positive := item.rawlen_pos
    simp only [length_cons, itemsLen_cons]
    omega

theorem ziplistCascadeUpdate_image (count : Nat) {pr stale p : Nat} {front : Bytes} {item : Item}
    {items : List Item} (fits : item.wide = false → pr < zipBigPrevlen) (pr_bound : pr < 2 ^ 32)
    (stale_fits : Fits stale items) (stale_bound : stale < 2 ^ 32)
    (bound : front.length + itemsLen (item :: cascadeItems item.rawlen items) + 11 < 2 ^ 32)
    (at_front : p = 10 + front.length) :
    __ziplistCascadeUpdate (image (10 + front.length + itemsLen (item :: items).dropLast) count
          (front ++ (item.encode pr ++ encodeItems stale items))) p =
      some (image (10 + front.length + itemsLen (item :: cascadeItems item.rawlen items).dropLast) count
        (front ++ (item.encode pr ++ encodeItems item.rawlen (cascadeItems item.rawlen items)))) := by
  have grown := itemsLen_le_cascade item.rawlen items
  have small : itemsLen (item :: items) < 2 ^ 32 := by
    simp only [itemsLen_cons] at bound ⊢
    omega
  rw [itemsLen_cells, map_cons, map_cell_cascade] at bound
  have cascade := ziplistCascadeUpdate_cells count p front fits pr_bound
    ((fits_cells stale items).mp stale_fits) stale_bound (decode_items small) bound at_front
  rw [itemsLen_cells, itemsLen_cells, encodeItems_cells, encodeItems_cells, map_dropLast, map_dropLast,
    map_cons, map_cons, map_cell_cascade]
  exact cascade

end RedisCore.Ziplist
