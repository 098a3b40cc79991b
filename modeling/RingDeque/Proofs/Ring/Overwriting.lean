import RingDeque.Proofs.Ring.Reading

/-!
Overwriting elements in place.

The element in a slot gives way to another one and no counter changes, so cursors to the slot go on
to denote it. Main statement: `Ring.reverseRuns` leaves a permutation of the contents.
-/

namespace RingDeque.Ring

variable {α : Type} {ring before middle after : Ring α} {index slot : Nat} {item old : Item α}
  {items rest : List (Item α)}

theorem TurnsInto.trans {written : Prop} {capacity finalCapacity : Nat}
    (first : before.TurnsInto written middle capacity items)
    (second : middle.TurnsInto written after finalCapacity rest) :
    before.TurnsInto written after finalCapacity rest :=
  ⟨second.wellFormed, second.toList, second.sized, first.ages.trans second.ages⟩

theorem TurnsInto.refl (written : Prop) (wellFormed : ring.WellFormed) :
    ring.TurnsInto written ring ring.capacity ring.toList :=
  ⟨wellFormed, rfl, rfl, .refl ring⟩

/-- Another element in the place of the one in a cell. -/
theorem turnsInto_putCell (wellFormed : ring.WellFormed) (inside : index < ring.len)
    (slotInside : ring.place index < ring.block.slots.size) (item : Item α) :
    ring.TurnsInto True (ring.putCell index (some item) slotInside) ring.capacity
      (ring.toList.set index item) := by
  have fits := wellFormed.fits
  have length : (ring.toList.set index item).length = ring.len := by
    rw [List.length_set, wellFormed.length_toList]
  obtain ⟨valid, contents⟩ := wellFormed_of_cells (ring.putCell index (some item) slotInside)
    (ring.toList.set index item) wellFormed.sited.putCell length.symm
    (by rw [length, putCell_capacity]; exact fits) (by
      intro cell cellInside
      rw [putCell_capacity] at cellInside
      rw [cell_putCell (by omega) cellInside, List.getElem?_set]
      by_cases same : index = cell
      · rw [if_pos same.symm, if_pos same, if_pos (by rw [wellFormed.length_toList]; exact inside)]
      · rw [if_neg (Ne.symm same), if_neg same, wellFormed.cell_eq_getElem? cellInside])
  refine ⟨valid, contents, putCell_capacity, .of_tenants rfl ?_⟩
  intro slot tenant held
  by_cases changed : slot = ring.place index
  · refine ⟨item, ?_, .inr trivial⟩
    rw [putCell, Block.get?_put, if_pos changed]
  · exact ⟨tenant, (get?_putCell_of_ne changed).trans held, .inl rfl⟩

theorem overwrite_exists (wellFormed : ring.WellFormed) (found : ring.toList[index]? = some old)
    (item : Item α) :
    ∃ after, ring.overwrite index item = .ok (old, after) ∧
      ring.TurnsInto True after ring.capacity (ring.toList.set index item) := by
  have length := wellFormed.length_toList
  have fits := wellFormed.fits
  obtain ⟨bound, entry⟩ := List.getElem?_eq_some_iff.mp found
  have slotInside := place_lt_slots wellFormed.sited (show index < ring.capacity by omega)
  have held := wellFormed.get?_place_eq (show index < ring.len by omega)
  rw [entry] at held
  refine ⟨_, ?_, turnsInto_putCell wellFormed (by omega) slotInside item⟩
  simp only [overwrite, slotOf_eq wellFormed.sited, Checked.ok_bind,
    Block.replace_eq slotInside held, Checked.pure_eq_ok, putCell]

theorem perm_set {β : Type} {entries : List β} {entry other : β} (found : entries[index]? = some entry) :
    (other :: entries).Perm (entry :: entries.set index other) := by
  obtain ⟨inside, rfl⟩ := List.getElem?_eq_some_iff.mp found
  calc other :: entries
      _ |>.Perm (other :: entries[index] :: entries.eraseIdx index) :=
        (List.getElem_cons_eraseIdx_perm inside).symm.cons other
      _ |>.Perm (entries[index] :: other :: entries.eraseIdx index) := .swap _ _ _
      _ |>.Perm (entries[index] :: entries.set index other) :=
        (List.set_perm_cons_eraseIdx inside other).symm.cons _

theorem overwriteSlot_eq (slotInside : slot < ring.block.slots.size)
    (found : ring.block.get? slot = some old) (item : Item α) :
    ring.overwriteSlot slot item =
      .ok (old, { ring with block := ring.block.put slot (some item) slotInside }) := by
  simp only [overwriteSlot, Block.replace_eq slotInside found, Checked.ok_bind, Checked.pure_eq_ok]

theorem overwriteSlot_exists (wellFormed : ring.WellFormed)
    (found : ring.block.get? slot = some old) (item : Item α) :
    ∃ after, ring.overwriteSlot slot item = .ok (old, after) ∧
      (∃ items, ring.TurnsInto True after ring.capacity items ∧
        (item :: ring.toList).Perm (old :: items)) ∧
      ∀ other, (ring.block.get? other).isSome → (after.block.get? other).isSome := by
  have slotInside : slot < ring.block.slots.size := Block.lt_size_of_get? found
  obtain ⟨index, indexInside, rfl⟩ := exists_place wellFormed.sited slotInside
  have live : index < ring.len := by
    rw [← wellFormed.isSome_cell indexInside, cell, found]
    rfl
  have listed : ring.toList[index]? = some old := by
    rw [← wellFormed.cell_eq live]
    exact found
  refine ⟨_, overwriteSlot_eq slotInside found item,
    ⟨_, turnsInto_putCell wellFormed live slotInside item, perm_set listed⟩, ?_⟩
  intro other held
  rw [Block.get?_put]
  split
  · rfl
  · exact held

theorem overwriteFrom_exists (index : Nat) (items : List (Item α)) (wellFormed : ring.WellFormed)
    (bound : index + items.length ≤ ring.len) :
    ∃ after, ring.overwriteFrom index items = .ok after ∧
      ring.TurnsInto True after ring.capacity
        (ring.toList.take index ++ items ++ ring.toList.drop (index + items.length)) := by
  induction items generalizing ring index with
  | nil => exact ⟨ring, rfl, by simpa using TurnsInto.refl True wellFormed⟩
  | cons item rest ih =>
      have length := wellFormed.length_toList
      have word := ring.capacity_lt_word
      have fits := wellFormed.fits
      rw [List.length_cons] at bound
      obtain ⟨middle, replaced, turns⟩ := overwrite_exists wellFormed
        (List.getElem?_eq_getElem (show index < ring.toList.length by omega)) item
      have sameLength : middle.len = ring.len := by
        rw [← turns.wellFormed.length_toList, turns.toList, List.length_set, length]
      obtain ⟨after, written, further⟩ := ih (index + 1) turns.wellFormed (by omega)
      refine ⟨after, ?_, ?_⟩
      · simp only [overwriteFrom, replaced, Checked.ok_bind,
          Word.add_eq (show index + 1 < Word.limit by omega), written]
      · have whole := turns.trans further
        rw [turns.toList, turns.sized, List.take_set, List.drop_set, if_pos (by omega)] at whole
        have parts : (ring.toList.take (index + 1)).set index item = ring.toList.take index ++ [item] := by
          rw [List.take_add_one, List.set_append_right _ _ (by rw [List.length_take]; omega)]
          rw [List.getElem?_eq_getElem (by omega), List.length_take, Nat.min_eq_left (by omega),
            Nat.sub_self]
          rfl
        have behind : index + (item :: rest).length = index + 1 + rest.length := by
          rw [List.length_cons]
          omega
        rw [behind]
        simpa [parts] using whole

theorem reverseRuns_exists (wellFormed : ring.WellFormed) :
    ∃ after items, ring.reverseRuns = .ok after ∧
      ring.TurnsInto True after ring.capacity items ∧ items.Perm ring.toList := by
  obtain ⟨front, back, read, parts⟩ := wellFormed.runs_exists
  have length : front.length + back.length = ring.len := by
    rw [← wellFormed.length_toList, ← parts, List.length_append]
  obtain ⟨after, written, turns⟩ := overwriteFrom_exists 0 (front.reverse ++ back.reverse) wellFormed
    (by simp only [List.length_append, List.length_reverse]; omega)
  rw [List.take_zero, List.nil_append, List.drop_eq_nil_of_le (by
    simp only [List.length_append, List.length_reverse, wellFormed.length_toList]; omega),
    List.append_nil] at turns
  refine ⟨after, _, ?_, turns, ?_⟩
  · simp only [reverseRuns, read, Checked.ok_bind, written]
  · rw [← parts]
    exact front.reverse_perm.append back.reverse_perm

end RingDeque.Ring
