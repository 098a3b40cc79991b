import RingDeque.Proofs.Ring.Moves

/-!
Gathering the elements of a range at an end.

Erasure moves the doomed elements past the shorter side of the ring, to the end where they are
popped. The survivors keep their order; the doomed elements arrive in some order.
-/

namespace RingDeque

/-- A list with further entries at an end. -/
def End.flank {β : Type} (side : End) (more items : List β) : List β :=
  match side with
  | .front => more ++ items
  | .back => items ++ more

namespace End

variable {β : Type} {items more : List β}

theorem perm_flank (side : End) : (side.flank more items).Perm (more ++ items) := by
  cases side with
  | front => exact List.Perm.refl _
  | back => exact List.perm_append_comm

theorem trim_flank (side : End) : side.trim more.length (side.flank more items) = items := by
  cases side <;> simp [trim, flank]

end End

namespace Ring

variable {α : Type} {ring before after : Ring α} {index count : Nat} {items : List (Item α)}

/-- The contents without the `count` elements from the logical index `index` on. -/
def without (ring : Ring α) (index count : Nat) : List (Item α) :=
  ring.toList.take index ++ ring.toList.drop (index + count)

/-- The `count` elements from the logical index `index` on. -/
def doomed (ring : Ring α) (index count : Nat) : List (Item α) :=
  (ring.toList.drop index).take count

theorem perm_doomed_without (ring : Ring α) (index count : Nat) :
    ring.toList.Perm (ring.doomed index count ++ ring.without index count) := by
  have parts : ring.toList = ring.toList.take index ++
      (ring.doomed index count ++ ring.toList.drop (index + count)) := by
    rw [doomed, ← List.drop_drop, List.take_append_drop, List.take_append_drop]
  have moved : (ring.toList.take index ++
      (ring.doomed index count ++ ring.toList.drop (index + count))).Perm
        (ring.doomed index count ++ ring.without index count) := by
    rw [without, ← List.append_assoc, ← List.append_assoc]
    exact List.perm_append_comm.append_right _
  exact (List.Perm.of_eq parts).trans moved

/-- Exchanging elements within a ring keeps it well formed if the same cells are filled. -/
theorem Moves.wellFormed (wellFormed : ring.WellFormed) (moves : ring.Moves after)
    (filled : ∀ index < ring.capacity, (after.cell index).isSome ↔ index < ring.len) :
    after.WellFormed ∧ after.toList.Perm ring.toList := by
  have valid : after.WellFormed := by
    refine wellFormed_iff.mpr ⟨moves.sited, ?_, ?_⟩
    · rw [moves.len, moves.capacity]
      exact wellFormed.fits
    · intro index inside
      rw [moves.capacity] at inside
      rw [filled index inside, moves.len]
  exact ⟨valid,
    valid.toList_perm_items.trans (moves.items.trans wellFormed.toList_perm_items.symm)⟩

/-- What arrives at an end beside the survivors are the doomed elements. -/
theorem exists_flank_of_perm (side : End) (index : Nat) (trimmed : side.trim count after.toList =
      ring.without index count)
    (perm : after.toList.Perm ring.toList) :
    ∃ gathered, after.toList = side.flank gathered (ring.without index count) ∧
      gathered.Perm (ring.doomed index count) := by
  have parts : after.toList = side.flank (side.trimmed count after.toList)
      (ring.without index count) := by
    rw [← trimmed]
    cases side with
    | front => exact (List.take_append_drop _ _).symm
    | back => exact (List.take_append_drop _ _).symm
  -- Both lists split into the survivors and the others, so the others agree up to their order.
  refine ⟨_, parts, ?_⟩
  have gathered := (List.Perm.of_eq parts).symm.trans (perm.trans (ring.perm_doomed_without index count))
  exact (List.perm_append_right_iff _).mp (side.perm_flank.symm.trans gathered)

theorem ShiftedBack.isSome_cell (wellFormed : ring.WellFormed) (bound : index + count ≤ ring.len)
    (shifted : ring.ShiftedBack after 0 index count) (cell : Nat) (inside : cell < ring.capacity) :
    (after.cell cell).isSome ↔ cell < ring.len := by
  have fits := wellFormed.fits
  by_cases front : cell < count
  · obtain ⟨ahead, lower, upper, same⟩ := shifted.crossed cell (by omega) (by omega)
    rw [same, wellFormed.isSome_cell (by omega)]
    omega
  by_cases moved : cell < index + count
  · have arrived := shifted.stretch (cell - count) (by omega) (by omega)
    rw [Nat.sub_add_cancel (by omega)] at arrived
    rw [arrived, wellFormed.isSome_cell (by omega)]
    omega
  · rw [shifted.beyond cell (by omega) inside, wellFormed.isSome_cell inside]

/-- The survivors of a range lie behind what was shifted out of the way to the front. -/
theorem ShiftedBack.drop_eq_without (wellFormed : ring.WellFormed)
    (bound : index + count ≤ ring.len) (shifted : ring.ShiftedBack after 0 index count)
    (valid : after.WellFormed) : after.toList.drop count = ring.without index count := by
  have fits := wellFormed.fits
  have length := wellFormed.length_toList
  apply List.ext_getElem?
  intro place
  rw [without, List.getElem?_drop, List.getElem?_append, List.length_take, List.getElem?_take,
    List.getElem?_drop, length, Nat.min_eq_left (by omega)]
  by_cases inside : count + place < ring.capacity
  · rw [← valid.cell_eq_getElem? (by rw [shifted.moves.capacity]; exact inside)]
    by_cases front : place < index
    · have arrived := shifted.stretch place (by omega) (by omega)
      rw [if_pos front, if_pos front, Nat.add_comm, arrived,
        wellFormed.cell_eq_getElem? (by omega)]
    · rw [if_neg front, shifted.beyond _ (by omega) inside, wellFormed.cell_eq_getElem? inside]
      congr 1
      omega
  · rw [List.getElem?_eq_none (by rw [valid.length_toList, shifted.moves.len]; omega),
      if_neg (by omega), List.getElem?_eq_none (by omega)]

theorem gatherFront_exists (wellFormed : ring.WellFormed) (bound : index + count ≤ ring.len) :
    ∃ after gathered, ring.shiftBack count (List.range index).reverse = .ok after ∧
      ring.Becomes after (End.front.flank gathered (ring.without index count)) ∧
      gathered.Perm (ring.doomed index count) := by
  have fits := wellFormed.fits
  obtain ⟨after, ran, shifted⟩ := shiftBack_exists 0 index count wellFormed.sited (by omega)
  rw [← List.range_eq_range'] at ran
  obtain ⟨valid, perm⟩ :=
    shifted.moves.wellFormed wellFormed (shifted.isSome_cell wellFormed bound)
  obtain ⟨gathered, contents, same⟩ :=
    exists_flank_of_perm .front index (shifted.drop_eq_without wellFormed bound valid) perm
  exact ⟨after, gathered, ran, ⟨valid, contents, shifted.moves.capacity, shifted.moves.ages⟩, same⟩

theorem ShiftedFront.isSome_cell (wellFormed : ring.WellFormed) (bound : index + count ≤ ring.len)
    (shifted : ring.ShiftedFront after (index + count) (ring.len - index - count) count)
    (cell : Nat) (inside : cell < ring.capacity) : (after.cell cell).isSome ↔ cell < ring.len := by
  have fits := wellFormed.fits
  by_cases front : cell < index
  · rw [shifted.untouched cell (by omega), wellFormed.isSome_cell inside]
  by_cases moved : cell < ring.len - count
  · have arrived := shifted.stretch (cell + count) (by omega) (by omega)
    rw [Nat.add_sub_cancel] at arrived
    rw [arrived, wellFormed.isSome_cell (by omega)]
    omega
  by_cases gathered : cell < ring.len
  · obtain ⟨ahead, lower, upper, same⟩ := shifted.crossed cell (by omega) (by omega)
    rw [same, wellFormed.isSome_cell (by omega)]
    omega
  · rw [shifted.beyond cell (by omega) inside, wellFormed.isSome_cell inside]

/-- The survivors of a range lie before what was shifted out of the way to the back. -/
theorem ShiftedFront.take_eq_without (wellFormed : ring.WellFormed)
    (bound : index + count ≤ ring.len)
    (shifted : ring.ShiftedFront after (index + count) (ring.len - index - count) count)
    (valid : after.WellFormed) :
    after.toList.take (after.toList.length - count) = ring.without index count := by
  have fits := wellFormed.fits
  have length := wellFormed.length_toList
  apply List.ext_getElem?
  intro place
  rw [without, List.getElem?_take, List.getElem?_append, List.length_take, List.getElem?_take,
    List.getElem?_drop, length, valid.length_toList, shifted.moves.len,
    Nat.min_eq_left (by omega)]
  by_cases kept : place < ring.len - count
  · rw [if_pos kept, ← valid.cell_eq_getElem? (by rw [shifted.moves.capacity]; omega)]
    by_cases front : place < index
    · rw [if_pos front, if_pos front, shifted.untouched place (by omega),
        wellFormed.cell_eq_getElem? (by omega)]
    · have arrived := shifted.stretch (place + count) (by omega) (by omega)
      rw [Nat.add_sub_cancel] at arrived
      rw [if_neg front, arrived, wellFormed.cell_eq_getElem? (by omega)]
      congr 1
      omega
  · rw [if_neg kept, if_neg (by omega), List.getElem?_eq_none (by omega)]

theorem gatherBack_exists (wellFormed : ring.WellFormed) (bound : index + count ≤ ring.len) :
    ∃ after gathered, ring.shiftFront count (List.range' (index + count)
        (ring.len - index - count)) = .ok after ∧
      ring.Becomes after (End.back.flank gathered (ring.without index count)) ∧
      gathered.Perm (ring.doomed index count) := by
  have fits := wellFormed.fits
  obtain ⟨after, ran, shifted⟩ := shiftFront_exists (index + count) (ring.len - index - count) count
    wellFormed.sited (by omega) (by omega)
  obtain ⟨valid, perm⟩ :=
    shifted.moves.wellFormed wellFormed (shifted.isSome_cell wellFormed bound)
  obtain ⟨gathered, contents, same⟩ :=
    exists_flank_of_perm .back index (shifted.take_eq_without wellFormed bound valid) perm
  exact ⟨after, gathered, ran, ⟨valid, contents, shifted.moves.capacity, shifted.moves.ages⟩, same⟩

end Ring

end RingDeque
