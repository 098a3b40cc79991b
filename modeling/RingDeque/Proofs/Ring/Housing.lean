import RingDeque.Proofs.Ring.Reading
import RingDeque.Proofs.Rotation
import RingDeque.Ring.Storage

/-!
Emptying a ring, moving its elements to another block, and turning its block.

Each of these starts a new generation, so nothing has to be said about single counters. The contents
are the ones before, less those that a smaller block has no room for.
-/

namespace RingDeque.Ring

variable {α : Type} {ring other after : Ring α} {index count : Nat} {item : Item α}
  {items : List (Item α)} {target : Block (Item α)} {stamps : Stamps} {written : Prop}

/-- A ring some of whose elements were moved out of the block. -/
structure MovedOut (before after : Ring α) (index count : Nat) : Prop where
  sited : after.Sited
  capacity : after.capacity = before.capacity
  start : after.start = before.start
  len : after.len = before.len
  registry : after.registry = before.registry
  cells : ∀ cell < before.capacity, after.cell cell =
    if index ≤ cell ∧ cell < index + count then none else before.cell cell

theorem moveOut_exists (index : Nat) (items : List (Item α)) (sited : ring.Sited)
    (bound : index + items.length ≤ ring.capacity)
    (held : ∀ cell < items.length, ring.cell (index + cell) = items[cell]?) :
    ∃ after, ring.moveOut index items.length = .ok (items, after) ∧
      ring.MovedOut after index items.length := by
  -- After the first element has left, what `held` says of the others is counted from the next cell.
  induction items generalizing ring index with
  | nil =>
      refine ⟨ring, rfl, sited, rfl, rfl, rfl, rfl, ?_⟩
      intro cell _
      rw [if_neg (by simp only [List.length_nil]; omega)]
  | cons item rest ih =>
      simp only [List.length_cons] at bound held
      have word := ring.capacity_lt_word
      have slotInside := place_lt_slots sited (show index < ring.capacity by omega)
      have first : ring.block.get? (ring.place index) = some item := held 0 (by omega)
      obtain ⟨after, moved, out⟩ := @ih (ring.putCell index none slotInside) (index + 1) sited.putCell
        (by rw [putCell_capacity]; omega) (by
          intro cell cellInside
          have further := held (cell + 1) (by omega)
          rw [List.getElem?_cons_succ] at further
          rw [cell_putCell (by omega) (by omega), if_neg (by omega), ← further]
          congr 1
          omega)
      refine ⟨after, ?_, out.sited, out.capacity.trans putCell_capacity, out.start, out.len,
        out.registry, ?_⟩
      · simp only [List.length_cons, moveOut, slotOf_eq sited, Checked.ok_bind,
          Block.take_eq slotInside first, Word.add_eq (show index + 1 < Word.limit by omega)]
        simp only [putCell] at moved
        rw [moved, Checked.ok_bind, Checked.pure_eq_ok]
      · intro cell cellInside
        rw [out.cells cell (by rw [putCell_capacity]; exact cellInside),
          cell_putCell (by omega) cellInside, List.length_cons]
        by_cases first : cell = index
        · rw [if_neg (by omega), if_pos first, if_pos (by omega)]
        · by_cases within : index ≤ cell ∧ cell < index + (rest.length + 1)
          · rw [if_pos (by omega), if_pos within]
          · rw [if_neg (by omega), if_neg first, if_neg within]

theorem WellFormed.moveOut_exists (wellFormed : ring.WellFormed) (index count : Nat)
    (bound : index + count ≤ ring.len) :
    ∃ after, ring.moveOut index count = .ok ((ring.toList.drop index).take count, after) ∧
      ring.MovedOut after index count := by
  have length := wellFormed.length_toList
  have fits := wellFormed.fits
  have counted : ((ring.toList.drop index).take count).length = count := by
    rw [List.length_take, List.length_drop]
    omega
  have moved := Ring.moveOut_exists index ((ring.toList.drop index).take count)
    wellFormed.sited (by omega) (by
      intro cell inside
      rw [wellFormed.cell_eq (by omega), List.getElem?_take, List.getElem?_drop,
        if_pos (by omega)])
  rwa [counted] at moved

/-- A ring whose block is empty, in any position. -/
theorem wellFormed_of_vacant (ring : Ring α) (sited : ring.Sited) (empty : ring.len = 0)
    (vacant : ∀ slot, ring.block.get? slot = none) : ring.WellFormed ∧ ring.toList = [] := by
  refine wellFormed_of_cells ring [] sited empty (Nat.zero_le _) ?_
  intro index _
  exact vacant _

/-- Besides the slots of the elements there are only empty ones. -/
theorem WellFormed.get?_elsewhere {slot : Nat} (wellFormed : ring.WellFormed)
    (elsewhere : slot ∉ (List.range ring.len).map ring.place) : ring.block.get? slot = none := by
  by_cases inside : slot < ring.capacity
  · obtain ⟨index, indexInside, rfl⟩ := exists_place wellFormed.sited inside
    apply wellFormed.cell_vacant _ indexInside
    by_contra live
    exact elsewhere (List.mem_map_of_mem (List.mem_range.mpr (Nat.lt_of_not_le live)))
  · exact Block.get?_eq_none_of_le (Nat.le_of_not_lt inside)

/-- The runs that an emptied ring gives up are its contents, and every slot is empty afterwards. -/
theorem emptied_exists (written : Prop) (wellFormed : ring.WellFormed) :
    ∃ front back after, ring.emptied = .ok ((front, back), after) ∧ front ++ back = ring.toList ∧
      ring.TurnsInto written after ring.capacity [] ∧
      after.registry = ring.registry.invalidateAll := by
  obtain ⟨frontSlots, backSlots, front, back, split, places, parts, frontCells, backCells⟩ :=
    wellFormed.slots_hold
  have distinct : (frontSlots ++ backSlots).Nodup := by
    rw [places]
    exact places_nodup wellFormed.fits
  obtain ⟨block, taken, sized, contents⟩ :=
    Block.takeRuns_exists split distinct frontCells backCells
  have vacant : ∀ slot, block.get? slot = none := by
    intro slot
    rw [contents]
    split
    · rfl
    · rename_i elsewhere
      rw [places] at elsewhere
      exact wellFormed.get?_elsewhere elsewhere
  obtain ⟨valid, listed⟩ := wellFormed_of_vacant
    { block, start := 0, len := 0, registry := ring.registry.invalidateAll }
    ⟨show 0 < max _ 1 by omega, wellFormed.stamped.trans sized.symm⟩ rfl vacant
  refine ⟨front, back, _, ?_, parts, ⟨valid, listed, sized,
    .of_generation rfl (Nat.lt_succ_self _) (Nat.le_succ _)⟩, rfl⟩
  simp only [emptied, taken, Checked.ok_bind, Checked.pure_eq_ok]

/-- Elements beside those that were moved out can still be read. -/
theorem MovedOut.runs_exists {first given : Nat} (out : ring.MovedOut after index count)
    (wellFormed : ring.WellFormed) (inside : first + given ≤ ring.len)
    (apart : index + count ≤ first ∨ first + given ≤ index) :
    ∃ front back, after.block.wrappedRuns (ring.place first) given = .ok (front, back) ∧
      front ++ back = (ring.toList.drop first).take given := by
  have fits := wellFormed.fits
  have counted : ((ring.toList.drop first).take given).length = given := by
    rw [List.length_take, List.length_drop, wellFormed.length_toList]
    omega
  have read := wrappedRuns_exists first ((ring.toList.drop first).take given) out.sited
    (by rw [out.capacity]; omega)
    (by
      intro cell cellInside
      rw [out.cells _ (by omega), if_neg (by omega), wellFormed.cell_eq (by omega),
        List.getElem?_take, List.getElem?_drop, if_pos (by omega)])
  have samePlace : after.place first = ring.place first := by
    rw [place, place, out.capacity, out.start]
  rwa [samePlace, counted] at read

/-- Moving to another block keeps what fits there, less what lies at the end `trim`. -/
theorem rehouse_exists (written : Prop) (wellFormed : ring.WellFormed) (trim : End)
    (vacant : ∀ slot, target.get? slot = none) (stamped : stamps.size = target.size) :
    ∃ front back after, ring.rehouse trim target stamps = .ok ((front, back), after) ∧
      front ++ back = trim.trimmed (ring.len - target.size) ring.toList ∧
      ring.TurnsInto written after target.size (trim.trim (ring.len - target.size) ring.toList) ∧
      after.start = 0 ∧ after.registry = { ring.registry with stamps }.invalidateElements := by
  have length := wellFormed.length_toList
  have given : ring.len - min ring.len target.size = ring.len - target.size := by omega
  have parts : min ring.len target.size + (ring.len - target.size) = ring.toList.length := by omega
  have keptLength : (trim.trim (ring.len - target.size) ring.toList).length =
      min ring.len target.size := by
    rw [End.length_trim]
    omega
  obtain ⟨source, moved, out⟩ := wellFormed.moveOut_exists
    (trim.keptFrom (ring.len - target.size)) (min ring.len target.size)
    (by cases trim <;> simp only [End.keptFrom] <;> omega)
  rw [trim.take_drop_keptFrom parts] at moved
  obtain ⟨block, filled, sized, contents⟩ :=
    Block.writeRun_exists target 0 (trim.trim (ring.len - target.size) ring.toList) (by omega)
      fun slot _ _ => vacant slot
  obtain ⟨front, back, read, trimmed⟩ := out.runs_exists wellFormed
    (show trim.trimmedFrom (min ring.len target.size) + (ring.len - target.size) ≤ ring.len by
      cases trim <;> simp only [End.trimmedFrom] <;> omega)
    (by cases trim <;> simp only [End.keptFrom, End.trimmedFrom] <;> omega)
  rw [trim.take_drop_trimmedFrom parts] at trimmed
  obtain ⟨valid, listed⟩ := wellFormed_of_slots
    { block, start := 0, len := min ring.len target.size
      registry := { ring.registry with stamps }.invalidateElements }
    (trim.trim (ring.len - target.size) ring.toList) rfl keptLength.symm
    (by rw [keptLength]; exact (Nat.min_le_right _ _).trans_eq sized.symm)
    (stamped.trans sized.symm)
    (by
      intro slot _
      rw [contents slot]
      by_cases within : slot < (trim.trim (ring.len - target.size) ring.toList).length
      · rw [if_pos (by omega), Nat.sub_zero]
      · rw [if_neg (by omega), vacant, List.getElem?_eq_none (by omega)])
  refine ⟨front, back, _, ?_, trimmed, ⟨valid, listed, sized,
    .of_generation rfl (Nat.lt_succ_self _) (Nat.le_refl _)⟩, rfl, rfl⟩
  cases trim with
  | front =>
      simp only [End.keptFrom, End.trimmedFrom] at moved read
      simp only [rehouse, Word.sub_eq (Nat.min_le_left ring.len target.size), Checked.ok_bind,
        given, moved, filled, slotOf_eq wellFormed.sited, read, Checked.pure_eq_ok]
  | back =>
      simp only [End.keptFrom, End.trimmedFrom] at moved read
      simp only [rehouse, Word.sub_eq (Nat.min_le_left ring.len target.size), Checked.ok_bind,
        given, moved, filled, slotOf_eq wellFormed.sited, read, Checked.pure_eq_ok]

theorem WellFormed.turnable (wellFormed : ring.WellFormed) : ring.block.Turnable ring.start :=
  Block.turnable_of_size_le _ (Nat.le_of_lt wellFormed.capacity_double_lt_word) _

/-- Turning the block until the first element comes to the first slot. -/
theorem rotated_exists (written : Prop) (wellFormed : ring.WellFormed) :
    ∃ moved block, ring.block.rotateLeft ring.start = .ok (moved, block) ∧
      ring.TurnsInto written
        { ring with block, start := 0, registry := ring.registry.invalidateElements }
        ring.capacity ring.toList := by
  obtain ⟨block, rotated, sized, contents⟩ :=
    Block.rotateLeft_exists ring.block ring.start wellFormed.turnable
  obtain ⟨valid, listed⟩ := wellFormed_of_cells
    { ring with block, start := 0, registry := ring.registry.invalidateElements } _
    ⟨show 0 < max _ 1 by omega, wellFormed.stamped.trans sized.symm⟩
    wellFormed.length_toList.symm
    (by
      rw [wellFormed.length_toList]
      exact wellFormed.fits.trans_eq sized.symm)
    (by
      intro cell inside
      have cellInside : cell < ring.capacity := inside.trans_eq sized
      rw [← wellFormed.cell_eq_getElem? cellInside, Ring.cell, Ring.cell,
        place_eq_mod wellFormed.sited cellInside]
      simp only [Ring.place, Ring.capacity, sized, Nat.zero_add, Slot.wrapped]
      rw [if_pos (show cell < ring.block.size from cellInside), contents cell cellInside,
        Nat.add_comm])
  exact ⟨_, block, rotated, valid, listed, sized,
    .of_generation rfl (Nat.lt_succ_self _) (Nat.le_refl _)⟩

/-- The elements of a ring that starts in the first slot lie in one run. -/
theorem WellFormed.runs_of_start (wellFormed : ring.WellFormed)
    (linear : ring.start + ring.len ≤ ring.capacity) : ring.runs = .ok (ring.toList, []) := by
  have starts : ring.start < max ring.block.size 1 := wellFormed.starts
  obtain ⟨front, back, read, parts⟩ := wellFormed.runs_exists
  have sized : ring.len - (ring.block.size - ring.start) = 0 := by
    simp only [Ring.capacity] at linear
    omega
  have opened := read
  simp only [runs, Block.wrappedRuns, Block.wrappedSlots_eq starts wellFormed.fits, sized, Checked.ok_bind] at opened
  cases frontRead : (List.range' ring.start (min ring.len (ring.block.size - ring.start))).mapM
      ring.block.read with
  | error fault =>
      rw [frontRead] at opened
      cases opened
  | ok found =>
      rw [frontRead] at opened
      cases opened
      rw [read, ← parts, List.reverse_nil, List.append_nil]

theorem adopt_turnsInto (ring : Ring α) (written : Prop) (otherWellFormed : other.WellFormed) :
    ring.TurnsInto written (ring.adopt other).voided other.capacity other.toList :=
  ⟨⟨otherWellFormed.fits, otherWellFormed.starts, otherWellFormed.stamped, otherWellFormed.filled⟩,
    rfl, rfl, .of_generation rfl (Nat.lt_succ_self _) (Nat.le_succ _)⟩

end RingDeque.Ring
