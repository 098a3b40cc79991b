import Mathlib.Data.List.Range
import RingDeque.Proofs.Ring.Ends
import RingDeque.Ring.Insertion

/-!
Moving elements within a ring.

A shift exchanges the elements of a stretch of cells, one after the other, with what lies `width`
cells away. The stretch arrives there in its order, and the cells that the stretch moved across are
left with what lay ahead of it: nothing when a gap is opened, the elements of a range that is on its
way to an end otherwise.
-/

namespace RingDeque.Ring

variable {α : Type} {ring before middle after : Ring α} {index width count : Nat}
  {items : List (Item α)}

namespace Ages

/-- A ring whose block differs in two slots at most, the cursors to which are void. -/
theorem of_touch_touch {written : Prop} {source target : Nat}
    (registry : after.registry = (before.registry.touch source).touch target)
    (contents : ∀ slot, slot ≠ source → slot ≠ target →
      after.block.get? slot = before.block.get? slot) : Ages written before after where
  owner := by rw [registry]; rfl
  generation := by rw [registry]; rfl
  endGeneration := by rw [registry]; rfl
  tenants := by
    intro _ slot stamp found
    rw [registry, Registry.touch_stamps, Registry.touch_stamps, found]
    by_cases isTarget : target = slot
    · refine ⟨if source = slot then stamp + 1 + 1 else stamp + 1, ?_, ?_, ?_⟩
      · rw [if_pos isTarget]
        split <;> rfl
      · split <;> omega
      · split <;> intro unmoved <;> omega
    · by_cases isSource : source = slot
      · refine ⟨stamp + 1, by rw [if_neg isTarget, if_pos isSource]; rfl, by omega, ?_⟩
        intro unmoved
        omega
      · refine ⟨stamp, by rw [if_neg isTarget, if_neg isSource], Nat.le_refl _, ?_⟩
        intro _ item held
        rw [contents slot (Ne.symm isSource) (Ne.symm isTarget)]
        exact ⟨item, held, .inl rfl⟩

end Ages

/-- A ring whose elements changed places within the block. -/
structure Moves (before after : Ring α) : Prop where
  sited : after.Sited
  capacity : after.capacity = before.capacity
  len : after.len = before.len
  start : after.start = before.start
  items : after.block.items.Perm before.block.items
  ages : Ages False before after

theorem Moves.refl (sited : ring.Sited) : ring.Moves ring :=
  ⟨sited, rfl, rfl, rfl, .refl _, .refl ring⟩

theorem Moves.trans (first : before.Moves middle) (second : middle.Moves after) :
    before.Moves after :=
  ⟨second.sited, second.capacity.trans first.capacity, second.len.trans first.len,
    second.start.trans first.start, second.items.trans first.items, first.ages.trans second.ages⟩

theorem Moves.place (moves : before.Moves after) (index : Nat) :
    after.place index = before.place index := by
  rw [Ring.place, Ring.place, moves.start, moves.capacity]

theorem relocate_exists {source target : Nat} (sited : ring.Sited)
    (sourceInside : source < ring.capacity) (targetInside : target < ring.capacity) :
    ∃ after, ring.relocate (ring.place source) (ring.place target) = .ok after ∧
      ring.Moves after ∧ ∀ index < ring.capacity, after.cell index =
        if index = source then ring.cell target
        else if index = target then ring.cell source
        else ring.cell index := by
  obtain ⟨block, swapped, size, perm, contents⟩ := Block.swap_exists
    (place_lt sited sourceInside) (place_lt sited targetInside)
  simp only [relocate, swapped, Checked.ok_bind, Checked.pure_eq_ok]
  refine ⟨_, rfl, ⟨⟨?_, ?_⟩, size, rfl, rfl, perm, .of_touch_touch rfl ?_⟩, ?_⟩
  · simpa only [capacity, size] using sited.starts
  · simpa only [capacity, size, Registry.size_touch] using sited.stamped
  · intro slot notSource notTarget
    simp only [contents, if_neg notSource, if_neg notTarget]
  · intro index inside
    have samePlace : Ring.place
        { ring with
          block, registry := (ring.registry.touch (ring.place source)).touch (ring.place target) }
        index = ring.place index := by
      simp only [place, capacity, size]
    simp only [cell, samePlace, contents]
    by_cases isSource : index = source
    · rw [if_pos isSource, if_pos (by rw [isSource])]
    · rw [if_neg isSource,
        if_neg fun same => isSource (place_injective inside sourceInside same)]
      by_cases isTarget : index = target
      · rw [if_pos isTarget, if_pos (by rw [isTarget])]
      · rw [if_neg isTarget,
          if_neg fun same => isTarget (place_injective inside targetInside same)]

/-- The `count` cells from `first` on have moved `width` cells towards the back, and what lay behind
them is in the cells that they moved across. -/
structure ShiftedBack (before after : Ring α) (first count width : Nat) : Prop where
  moves : before.Moves after
  untouched : ∀ index < first, after.cell index = before.cell index
  stretch : ∀ index, first ≤ index → index < first + count →
    after.cell (index + width) = before.cell index
  beyond : ∀ index, first + count + width ≤ index → index < before.capacity →
    after.cell index = before.cell index
  crossed : ∀ index, first ≤ index → index < first + width →
    ∃ ahead, first + count ≤ ahead ∧ ahead < first + count + width ∧
      after.cell index = before.cell ahead

theorem ShiftedBack.refl (first width : Nat) (sited : ring.Sited) :
    ring.ShiftedBack ring first 0 width where
  moves := .refl sited
  untouched := fun _ _ => rfl
  stretch := by
    intro index lower upper
    omega
  beyond := fun _ _ _ => rfl
  crossed := fun index lower upper => ⟨index, by omega, by omega, rfl⟩

/-- The last cell of the stretch goes first, and the rest of the stretch after it. -/
theorem ShiftedBack.of_last {first : Nat} (bound : first + (count + 1) + width ≤ before.capacity)
    (moves : before.Moves middle)
    (cells : ∀ index < before.capacity, middle.cell index =
      if index = first + count then before.cell (first + count + width)
      else if index = first + count + width then before.cell (first + count)
      else before.cell index)
    (rest : middle.ShiftedBack after first count width) :
    before.ShiftedBack after first (count + 1) width where
  moves := moves.trans rest.moves
  untouched := by
    intro index below
    rw [rest.untouched index below, cells index (by omega), if_neg (by omega), if_neg (by omega)]
  stretch := by
    intro index lower upper
    by_cases final : index = first + count
    · rw [final, rest.beyond _ (by omega) (by rw [moves.capacity]; omega), cells _ (by omega)]
      by_cases still : width = 0
      · rw [if_pos (by omega), still, Nat.add_zero]
      · rw [if_neg (by omega), if_pos rfl]
    · rw [rest.stretch index lower (by omega), cells index (by omega), if_neg final,
        if_neg (by omega)]
  beyond := by
    intro index lower upper
    rw [rest.beyond index (by omega) (by rw [moves.capacity]; omega), cells index upper,
      if_neg (by omega), if_neg (by omega)]
  crossed := by
    intro index lower upper
    obtain ⟨ahead, aheadLower, aheadUpper, same⟩ := rest.crossed index lower upper
    by_cases left : ahead = first + count
    · refine ⟨first + count + width, by omega, by omega, ?_⟩
      rw [same, cells ahead (by omega), if_pos left]
    · refine ⟨ahead, by omega, by omega, ?_⟩
      rw [same, cells ahead (by omega), if_neg left, if_neg (by omega)]

/-- Moving the cells from `first` on towards the back, the last of them first. -/
theorem shiftBack_exists (first count width : Nat) (sited : ring.Sited)
    (bound : first + count + width ≤ ring.capacity) :
    ∃ after, ring.shiftBack width (List.range' first count).reverse = .ok after ∧
      ring.ShiftedBack after first count width := by
  induction count generalizing ring with
  | zero => exact ⟨ring, rfl, .refl first width sited⟩
  | succ count ih =>
      have word := ring.capacity_lt_word
      obtain ⟨middle, relocated, moves, cells⟩ := relocate_exists sited
        (show first + count < ring.capacity by omega)
        (show first + count + width < ring.capacity by omega)
      obtain ⟨after, shifted, rest⟩ := ih moves.sited (by rw [moves.capacity]; omega)
      refine ⟨after, ?_, .of_last bound moves cells rest⟩
      rw [List.range'_concat, List.reverse_append, Nat.one_mul]
      simp only [shiftBack, List.reverse_singleton, List.singleton_append, List.foldlM_cons,
        slotOf_eq sited, Checked.ok_bind,
        Word.add_eq (show first + count + width < Word.limit by omega), relocated]
      exact shifted

/-- The `count` cells from `first` on have moved `width` cells towards the front, and what lay before
them is in the cells that they moved across. -/
structure ShiftedFront (before after : Ring α) (first count width : Nat) : Prop where
  moves : before.Moves after
  untouched : ∀ index, index + width < first → after.cell index = before.cell index
  stretch : ∀ index, first ≤ index → index < first + count →
    after.cell (index - width) = before.cell index
  beyond : ∀ index, first + count ≤ index → index < before.capacity →
    after.cell index = before.cell index
  crossed : ∀ index, first + count ≤ index + width → index < first + count →
    ∃ ahead, first ≤ ahead + width ∧ ahead < first ∧ after.cell index = before.cell ahead

theorem ShiftedFront.refl (first width : Nat) (sited : ring.Sited) :
    ring.ShiftedFront ring first 0 width where
  moves := .refl sited
  untouched := fun _ _ => rfl
  stretch := by
    intro index lower upper
    omega
  beyond := fun _ _ _ => rfl
  crossed := fun index lower upper => ⟨index, by omega, by omega, rfl⟩

/-- The first cell of the stretch goes first, and the rest of the stretch after it. -/
theorem ShiftedFront.of_first {first : Nat} (apart : width ≤ first)
    (bound : first + (count + 1) ≤ before.capacity) (moves : before.Moves middle)
    (cells : ∀ index < before.capacity, middle.cell index =
      if index = first then before.cell (first - width)
      else if index = first - width then before.cell first
      else before.cell index)
    (rest : middle.ShiftedFront after (first + 1) count width) :
    before.ShiftedFront after first (count + 1) width where
  moves := moves.trans rest.moves
  untouched := by
    intro index below
    rw [rest.untouched index (by omega), cells index (by omega), if_neg (by omega),
      if_neg (by omega)]
  stretch := by
    intro index lower upper
    by_cases initial : index = first
    · rw [initial]
      by_cases still : width = 0
      · rw [still, Nat.sub_zero, rest.untouched first (by omega), cells first (by omega),
          if_pos rfl, still, Nat.sub_zero]
      · rw [rest.untouched _ (by omega), cells _ (by omega), if_neg (by omega), if_pos rfl]
    · rw [rest.stretch index (by omega) (by omega), cells index (by omega), if_neg initial,
        if_neg (by omega)]
  beyond := by
    intro index lower upper
    rw [rest.beyond index (by omega) (by rw [moves.capacity]; omega), cells index upper,
      if_neg (by omega), if_neg (by omega)]
  crossed := by
    intro index lower upper
    obtain ⟨ahead, aheadLower, aheadUpper, same⟩ := rest.crossed index (by omega) (by omega)
    by_cases left : ahead = first
    · refine ⟨first - width, by omega, by omega, ?_⟩
      rw [same, cells ahead (by omega), if_pos left]
    · refine ⟨ahead, by omega, by omega, ?_⟩
      rw [same, cells ahead (by omega), if_neg left, if_neg (by omega)]

/-- Moving the cells from `first` on towards the front, the first of them first. -/
theorem shiftFront_exists (first count width : Nat) (sited : ring.Sited) (apart : width ≤ first)
    (bound : first + count ≤ ring.capacity) :
    ∃ after, ring.shiftFront width (List.range' first count) = .ok after ∧
      ring.ShiftedFront after first count width := by
  induction count generalizing ring first with
  | zero => exact ⟨ring, rfl, .refl first width sited⟩
  | succ count ih =>
      obtain ⟨middle, relocated, moves, cells⟩ := relocate_exists sited
        (show first < ring.capacity by omega) (show first - width < ring.capacity by omega)
      obtain ⟨after, shifted, rest⟩ :=
        ih (first + 1) moves.sited (by omega) (by rw [moves.capacity]; omega)
      refine ⟨after, ?_, .of_first apart bound moves cells rest⟩
      rw [List.range'_succ]
      simp only [shiftFront, List.foldlM_cons, slotOf_eq sited, Checked.ok_bind,
        Word.sub_eq apart, relocated]
      exact shifted

end RingDeque.Ring
