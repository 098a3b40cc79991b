import Mathlib.Data.List.Nodup
import Mathlib.Data.List.Perm.Subperm
import Mathlib.Data.List.Range
import RingDeque.Proofs.Block
import RingDeque.Ring.Access

/-!
A ring as a row of cells.

`Ring.cell` numbers the slots of a ring from its first element on, all the way round the block. In
this numbering a well formed ring has its elements in the cells below the length and nothing in the
others, and an operation on slots is an operation on cell numbers without any wrapping.
-/

namespace RingDeque.Ring

variable {α : Type} {ring after : Ring α} {index first second slot : Nat} {item : Item α}

/-- The slot of a cell. -/
def place (ring : Ring α) (index : Nat) : Nat :=
  Slot.wrapped ring.capacity (ring.start + index)

/-- What a cell holds. -/
def cell (ring : Ring α) (index : Nat) : Option (Item α) :=
  ring.block.get? (ring.place index)

/-- The first slot exists and each slot has a counter. This much holds at any point inside an
operation, also while some of the elements are on the move. -/
structure Sited (ring : Ring α) : Prop where
  starts : ring.start < max ring.capacity 1
  stamped : ring.registry.stamps.size = ring.capacity

theorem WellFormed.sited (wellFormed : ring.WellFormed) : ring.Sited :=
  ⟨wellFormed.starts, wellFormed.stamped⟩

theorem capacity_lt_word (ring : Ring α) : ring.capacity < Word.limit :=
  ring.block.size_lt_word

theorem Sited.capacity_lt_limit (sited : ring.Sited) : ring.capacity < Stamps.limit :=
  sited.stamped ▸ ring.registry.stamps.bounded

theorem Sited.capacity_double_lt_word (sited : ring.Sited) : 2 * ring.capacity < Word.limit := by
  have bounded := sited.capacity_lt_limit
  simp only [Stamps.limit, Word.limit] at *
  omega

theorem WellFormed.capacity_double_lt_word (wellFormed : ring.WellFormed) :
    2 * ring.capacity < Word.limit :=
  wellFormed.sited.capacity_double_lt_word

theorem slotOf_eq (sited : ring.Sited) (index : Nat) :
    ring.slotOf index = .ok (ring.place index) :=
  Slot.forward_eq sited.starts ring.capacity_lt_word

theorem place_lt (sited : ring.Sited) (inside : index < ring.capacity) :
    ring.place index < ring.capacity :=
  Slot.wrapped_lt (by have := sited.starts; omega)

theorem place_lt_slots (sited : ring.Sited) (inside : index < ring.capacity) :
    ring.place index < ring.block.slots.size :=
  place_lt sited inside

theorem place_eq_mod (sited : ring.Sited) (inside : index < ring.capacity) :
    ring.place index = (ring.start + index) % ring.capacity :=
  Slot.wrapped_eq_mod (by have := sited.starts; omega)

theorem place_injective (firstInside : first < ring.capacity)
    (secondInside : second < ring.capacity) (same : ring.place first = ring.place second) :
    first = second := by
  unfold place Slot.wrapped at same
  split at same <;> split at same <;> omega

theorem exists_place (sited : ring.Sited) (inside : slot < ring.capacity) :
    ∃ index < ring.capacity, ring.place index = slot := by
  have starts := sited.starts
  by_cases before : slot < ring.start
  · refine ⟨slot + (ring.capacity - ring.start), by omega, ?_⟩
    unfold place Slot.wrapped
    split <;> omega
  · refine ⟨slot - ring.start, by omega, ?_⟩
    unfold place Slot.wrapped
    split <;> omega

theorem place_zero (sited : ring.Sited) : ring.place 0 = ring.start := by
  have starts := sited.starts
  unfold place Slot.wrapped
  split <;> omega

/-- The ring with another content in one of its cells. -/
def putCell (ring : Ring α) (index : Nat) (content : Option (Item α))
    (inside : ring.place index < ring.block.slots.size) : Ring α :=
  { ring with block := ring.block.put (ring.place index) content inside }

section

variable {content : Option (Item α)} {inside : ring.place first < ring.block.slots.size}

theorem putCell_capacity : (ring.putCell first content inside).capacity = ring.capacity :=
  Block.size_put

theorem putCell_place (index : Nat) :
    (ring.putCell first content inside).place index = ring.place index :=
  congrArg (Slot.wrapped · (ring.start + index)) putCell_capacity

theorem Sited.putCell (sited : ring.Sited) : (ring.putCell first content inside).Sited :=
  ⟨sited.starts.trans_eq (by rw [putCell_capacity]), sited.stamped.trans putCell_capacity.symm⟩

theorem get?_putCell_of_ne (distinct : slot ≠ ring.place first) :
    (ring.putCell first content inside).block.get? slot = ring.block.get? slot := by
  rw [putCell, Block.get?_put, if_neg distinct]

theorem cell_putCell (firstInside : first < ring.capacity) (indexInside : index < ring.capacity) :
    (ring.putCell first content inside).cell index =
      if index = first then content else ring.cell index := by
  rw [cell, putCell_place, putCell, Block.get?_put]
  by_cases same : index = first
  · rw [if_pos (by rw [same]), if_pos same]
  · rw [if_neg fun samePlace => same (place_injective indexInside firstInside samePlace),
      if_neg same, cell]

end

theorem holds_iff (sited : ring.Sited) (fits : ring.len ≤ ring.capacity) :
    ring.Holds slot ↔ ∃ index < ring.len, slot = ring.place index := by
  constructor
  · intro given
    obtain ⟨index, inside, rfl⟩ := given
    exact ⟨index, inside, (place_eq_mod sited (by omega)).symm⟩
  · intro given
    obtain ⟨index, inside, rfl⟩ := given
    exact ⟨index, inside, place_eq_mod sited (by omega)⟩

theorem wellFormed_iff :
    ring.WellFormed ↔ ring.Sited ∧ ring.len ≤ ring.capacity ∧
      ∀ index < ring.capacity, (ring.cell index).isSome ↔ index < ring.len := by
  constructor
  · intro wellFormed
    refine ⟨wellFormed.sited, wellFormed.fits, ?_⟩
    intro index inside
    rw [cell, wellFormed.filled _ (place_lt wellFormed.sited inside),
      holds_iff wellFormed.sited wellFormed.fits]
    constructor
    · intro given
      obtain ⟨other, otherInside, same⟩ := given
      have := wellFormed.fits
      rwa [place_injective inside (by omega) same]
    · intro held
      exact ⟨index, held, rfl⟩
  · intro given
    obtain ⟨sited, fits, cells⟩ := given
    refine ⟨fits, sited.starts, sited.stamped, ?_⟩
    intro slot inside
    obtain ⟨index, indexInside, rfl⟩ := exists_place sited inside
    rw [holds_iff sited fits]
    refine (cells index indexInside).trans ⟨fun held => ⟨index, held, rfl⟩, ?_⟩
    intro given
    obtain ⟨other, otherInside, same⟩ := given
    rwa [place_injective indexInside (by omega) same]

theorem WellFormed.isSome_cell (wellFormed : ring.WellFormed) (inside : index < ring.capacity) :
    (ring.cell index).isSome ↔ index < ring.len :=
  (wellFormed_iff.mp wellFormed).2.2 index inside

theorem WellFormed.cell_vacant (wellFormed : ring.WellFormed) (beyond : ring.len ≤ index)
    (inside : index < ring.capacity) : ring.cell index = none := by
  rw [← Option.not_isSome_iff_eq_none, wellFormed.isSome_cell inside]
  omega

theorem WellFormed.get?_place (wellFormed : ring.WellFormed) (inside : index < ring.len) :
    ring.cell index = some ((ring.cell index).get
      ((wellFormed.isSome_cell (by have := wellFormed.fits; omega)).mpr inside)) :=
  (Option.some_get _).symm

/-- The elements of a well formed ring are what its cells below the length hold. -/
theorem WellFormed.map_some_toList (wellFormed : ring.WellFormed) :
    ring.toList.map some = (List.range ring.len).map ring.cell := by
  have cells : ring.toList = (List.range ring.len).filterMap ring.cell := by
    apply List.filterMap_congr
    intro index inside
    have := wellFormed.fits
    rw [cell, place_eq_mod wellFormed.sited (by simp only [List.mem_range] at inside; omega)]
  have all : ∀ indices : List Nat, (∀ index ∈ indices, index < ring.len) →
      (indices.filterMap ring.cell).map some = indices.map ring.cell := by
    intro indices inside
    induction indices with
    | nil => rfl
    | cons index rest ih =>
        have held := wellFormed.get?_place (inside index (by simp))
        rw [List.filterMap_cons_some held, List.map_cons, List.map_cons, ← held,
          ih fun other member => inside other (by simp [member])]
  rw [cells, all _ fun index member => List.mem_range.mp member]

@[simp] theorem WellFormed.length_toList (wellFormed : ring.WellFormed) :
    ring.toList.length = ring.len := by
  simpa using congrArg List.length wellFormed.map_some_toList

theorem WellFormed.cell_eq (wellFormed : ring.WellFormed) (inside : index < ring.len) :
    ring.cell index = ring.toList[index]? := by
  have listed := congrArg (fun cells => cells[index]?) wellFormed.map_some_toList
  rw [List.getElem?_map, List.getElem?_map, List.getElem?_range inside, Option.map_some,
    List.getElem?_eq_getElem (by simpa [wellFormed] using inside), Option.map_some,
    Option.some_inj] at listed
  rw [List.getElem?_eq_getElem (by simpa [wellFormed] using inside), listed]

theorem WellFormed.cell_eq_getElem? (wellFormed : ring.WellFormed)
    (inside : index < ring.capacity) : ring.cell index = ring.toList[index]? := by
  by_cases held : index < ring.len
  · exact wellFormed.cell_eq held
  · rw [wellFormed.cell_vacant (by omega) inside, List.getElem?_eq_none]
    rw [wellFormed.length_toList]
    omega

/-- A ring whose cells hold the entries of a list is well formed, and that list is its contents. -/
theorem wellFormed_of_cells (ring : Ring α) (items : List (Item α)) (sited : ring.Sited)
    (length : ring.len = items.length) (fits : items.length ≤ ring.capacity)
    (cells : ∀ index < ring.capacity, ring.cell index = items[index]?) :
    ring.WellFormed ∧ ring.toList = items := by
  have wellFormed : ring.WellFormed := by
    refine wellFormed_iff.mpr ⟨sited, by omega, ?_⟩
    intro index inside
    rw [cells index inside, length]
    simp
  refine ⟨wellFormed, ?_⟩
  apply List.ext_getElem?
  intro index
  by_cases inside : index < ring.capacity
  · rw [← wellFormed.cell_eq_getElem? inside, cells index inside]
  · rw [List.getElem?_eq_none (by rw [wellFormed.length_toList]; omega),
      List.getElem?_eq_none (by omega)]

/-- A ring whose elements lie in the first slots of its block, in order. -/
theorem wellFormed_of_slots (ring : Ring α) (items : List (Item α)) (start : ring.start = 0)
    (length : ring.len = items.length) (fits : items.length ≤ ring.capacity)
    (stamped : ring.registry.stamps.size = ring.capacity)
    (contents : ∀ slot < ring.capacity, ring.block.get? slot = items[slot]?) :
    ring.WellFormed ∧ ring.toList = items := by
  apply wellFormed_of_cells ring items ⟨by rw [start]; omega, stamped⟩ length fits
  intro index inside
  rw [cell, place, start, Nat.zero_add, Slot.wrapped, if_pos inside, contents index inside]

/-- Different cells have different slots. -/
theorem places_nodup {count : Nat} (inside : count ≤ ring.capacity) :
    ((List.range count).map ring.place).Nodup := by
  refine List.Nodup.map_on ?_ List.nodup_range
  intro first firstInside second secondInside same
  rw [List.mem_range] at firstInside secondInside
  exact place_injective (by omega) (by omega) same

/-- The elements of a well formed ring are those of its block, in another order. -/
theorem WellFormed.toList_perm_items (wellFormed : ring.WellFormed) :
    ring.toList.Perm ring.block.items := by
  have fits := wellFormed.fits
  have listed : ring.toList = (List.range ring.capacity).filterMap ring.cell := by
    have vacant : ((List.range (ring.capacity - ring.len)).map (ring.len + ·)).filterMap
        ring.cell = [] := by
      rw [List.filterMap_eq_nil_iff]
      intro index member
      obtain ⟨offset, inside, rfl⟩ := List.mem_map.mp member
      rw [List.mem_range] at inside
      exact wellFormed.cell_vacant (by omega) (by omega)
    rw [← Nat.add_sub_cancel' fits, List.range_add, List.filterMap_append, vacant,
      List.append_nil]
    apply List.filterMap_congr
    intro index inside
    rw [cell, place_eq_mod wellFormed.sited (by simp only [List.mem_range] at inside; omega)]
  have turned : ((List.range ring.capacity).map ring.place).Perm (List.range ring.capacity) := by
    apply List.Subperm.perm_of_length_le
    · apply List.subperm_of_subset
      · exact places_nodup (Nat.le_refl _)
      · intro slot member
        obtain ⟨index, inside, rfl⟩ := List.mem_map.mp member
        exact List.mem_range.mpr (place_lt wellFormed.sited (List.mem_range.mp inside))
    · simp
  rw [listed, Block.items_eq_range]
  have mapped := turned.filterMap ring.block.get?
  rw [List.filterMap_map] at mapped
  exact mapped

end RingDeque.Ring
