import RingDeque.Proofs.Ring.Moves

/-!
Opening, filling and closing a gap.

Whichever side moves to open a gap, the cells before the gap and those behind it hold what they
held, and the gap is empty. Main statement: `Ring.splice` puts the given elements between the two
parts of the contents, however much of the gap they fill.
-/

namespace RingDeque.Ring

variable {α : Type} {ring before middle after : Ring α} {index width count : Nat}
  {items : List (Item α)}

theorem relocate_start {source target : Nat} (relocated : ring.relocate source target = .ok after) :
    after.start = ring.start ∧ after.capacity = ring.capacity := by
  simp only [relocate, Block.swap] at relocated
  split at relocated
  · cases relocated
    exact ⟨rfl, by simp [capacity, Block.size]⟩
  · cases relocated

/-- A ring with the same block that is read from another slot on. -/
def readFrom (ring : Ring α) (start : Nat) : Ring α :=
  { ring with start }

theorem readFrom_relocate (ring : Ring α) (start source target : Nat) :
    (ring.readFrom start).relocate source target =
      (ring.relocate source target).map (·.readFrom start) := by
  simp only [relocate, readFrom]
  cases ring.block.swap source target <;> rfl

/-- The start of a ring whose front part begins `width` slots earlier. -/
def earlierStart (ring : Ring α) (width : Nat) : Nat :=
  Slot.wrapped ring.capacity (ring.start + (ring.capacity - width))

theorem earlierStart_lt (sited : ring.Sited) (fits : width ≤ ring.capacity) :
    ring.earlierStart width < max ring.capacity 1 := by
  have starts := sited.starts
  unfold earlierStart Slot.wrapped
  split <;> omega

theorem readFrom_sited (sited : ring.Sited) (fits : width ≤ ring.capacity) :
    (ring.readFrom (ring.earlierStart width)).Sited :=
  ⟨earlierStart_lt sited fits, sited.stamped⟩

theorem place_readFrom (sited : ring.Sited) (fits : width ≤ ring.capacity)
    (inside : index < ring.capacity) :
    (ring.readFrom (ring.earlierStart width)).place index =
      ring.place (if width ≤ index then index - width else index + (ring.capacity - width)) := by
  have starts := sited.starts
  simp only [readFrom, earlierStart, place, capacity, Slot.wrapped] at *
  grind

theorem cell_readFrom (sited : ring.Sited) (fits : width ≤ ring.capacity)
    (inside : index < ring.capacity) :
    (ring.readFrom (ring.earlierStart width)).cell index =
      ring.cell (if width ≤ index then index - width else index + (ring.capacity - width)) := by
  rw [cell, cell, place_readFrom sited fits inside]
  rfl

/-- The exchanges of the front part, each cell with the one `width` cells earlier on. They leave the
start alone and do not depend on it, so they may as well run in a ring that is read from the earlier
start on. -/
theorem slide_eq (sited : ring.Sited) (fits : width ≤ ring.capacity) (indices : List Nat)
    (current : Ring α) (start : current.start = ring.start)
    (capacity : current.capacity = ring.capacity)
    (inside : ∀ index ∈ indices, index + width ≤ ring.capacity) :
    (do
      let moved ← indices.foldlM (fun current index => do
          let source ← current.slotOf index
          let target ← Slot.forward (ring.earlierStart width) index current.capacity
          current.relocate source target) current
      return moved.readFrom (ring.earlierStart width) : Checked (Ring α)) =
    (current.readFrom (ring.earlierStart width)).shiftFront width (indices.map (width + ·)) := by
  have starts := sited.starts
  have word := ring.capacity_lt_word
  have earlier := earlierStart_lt sited fits
  -- Every turn exchanges the same two slots on either side, however the cells are counted.
  induction indices generalizing current with
  | nil => rfl
  | cons index rest ih =>
      have indexInside := inside index List.mem_cons_self
      have source : current.slotOf index = .ok (ring.place index) := by
        rw [slotOf, start, capacity]
        exact slotOf_eq sited index
      have readSource : (current.readFrom (ring.earlierStart width)).slotOf (width + index) =
          .ok (ring.place index) := by
        change Slot.forward (ring.earlierStart width) (width + index) current.capacity = _
        rw [capacity, Slot.forward_eq earlier word]
        simp only [place, earlierStart, Slot.wrapped]
        grind
      have target : Slot.forward (ring.earlierStart width) index current.capacity =
          .ok (Slot.wrapped ring.capacity (ring.earlierStart width + index)) := by
        rw [capacity, Slot.forward_eq earlier word]
      have readTarget : (current.readFrom (ring.earlierStart width)).slotOf index =
          .ok (Slot.wrapped ring.capacity (ring.earlierStart width + index)) := target
      simp only [List.foldlM_cons, List.map_cons, shiftFront, source, readSource, target,
        readTarget, Word.sub_eq (Nat.le_add_right width index), Nat.add_sub_cancel_left,
        Checked.ok_bind, readFrom_relocate]
      cases relocated : current.relocate (ring.place index)
          (Slot.wrapped ring.capacity (ring.earlierStart width + index)) with
      | error fault => rfl
      | ok moved =>
          obtain ⟨sameStart, sameCapacity⟩ := relocate_start relocated
          exact ih moved (sameStart.trans start) (sameCapacity.trans capacity)
            fun other member => inside other (List.mem_cons_of_mem _ member)

/-- Sliding the front part is shifting it in a ring that is read from the earlier start on. -/
theorem slideFront_eq (sited : ring.Sited) (bound : count + width ≤ ring.capacity) :
    ring.slideFront count width =
      (ring.readFrom (ring.earlierStart width)).shiftFront width (List.range' width count) := by
  have whole := slide_eq sited (show width ≤ ring.capacity by omega) (List.range count) ring rfl rfl
    (by
      intro index member
      have := List.mem_range.mp member
      omega)
  rw [← List.range'_eq_map_range] at whole
  simp only [slideFront, Slot.backward_eq (show width ≤ ring.capacity by omega)
    ring.capacity_lt_word, Checked.ok_bind]
  exact whole

/-- A ring on its way through an insertion: the same elements as before in the cells that the
insertion has not touched, and known contents in all of them. -/
structure Shows (before after : Ring α) (cells : Nat → Option (Item α)) : Prop where
  sited : after.Sited
  capacity : after.capacity = before.capacity
  ages : Ages False before after
  cells : ∀ index < before.capacity, after.cell index = cells index

/-- What the cells hold when the entries from `index` on have made room for `width` others. -/
def gapped (items : List (Item α)) (index width cell : Nat) : Option (Item α) :=
  if cell < index then items[cell]?
  else if cell < index + width then none
  else items[cell - width]?

theorem ShiftedBack.gaps (wellFormed : ring.WellFormed) (inside : index ≤ ring.len)
    (bound : ring.len + width ≤ ring.capacity)
    (shifted : ring.ShiftedBack after index (ring.len - index) width) :
    ring.Shows after (gapped ring.toList index width) where
  sited := shifted.moves.sited
  capacity := shifted.moves.capacity
  ages := shifted.moves.ages
  cells := by
    intro cell cellInside
    have length := wellFormed.length_toList
    unfold gapped
    by_cases front : cell < index
    · rw [if_pos front, shifted.untouched cell front, wellFormed.cell_eq_getElem? cellInside]
    rw [if_neg front]
    by_cases gap : cell < index + width
    · obtain ⟨ahead, lower, upper, same⟩ := shifted.crossed cell (by omega) gap
      rw [if_pos gap, same, wellFormed.cell_vacant (by omega) (by omega)]
    rw [if_neg gap]
    by_cases moved : cell < ring.len + width
    · have arrived := shifted.stretch (cell - width) (by omega) (by omega)
      rw [Nat.sub_add_cancel (by omega)] at arrived
      rw [arrived, wellFormed.cell_eq_getElem? (by omega)]
    · rw [shifted.beyond cell (by omega) cellInside, wellFormed.cell_vacant (by omega) cellInside,
        List.getElem?_eq_none (by omega)]

/-- Read from the earlier start on, a ring has its elements `width` cells further on. -/
theorem ShiftedFront.gaps (wellFormed : ring.WellFormed) (inside : index ≤ ring.len)
    (bound : ring.len + width ≤ ring.capacity)
    (shifted : (ring.readFrom (ring.earlierStart width)).ShiftedFront after width index width) :
    ring.Shows after (gapped ring.toList index width) where
  sited := shifted.moves.sited
  capacity := shifted.moves.capacity
  ages := by
    have reread : Ages False ring (ring.readFrom (ring.earlierStart width)) :=
      .of_tenants rfl fun _ item held => ⟨item, held, .inl rfl⟩
    exact reread.trans shifted.moves.ages
  cells := by
    intro cell cellInside
    have sited := wellFormed.sited
    unfold gapped
    by_cases front : cell < index
    · have arrived := shifted.stretch (cell + width) (by omega) (by omega)
      rw [Nat.add_sub_cancel, cell_readFrom sited (by omega) (by omega), if_pos (by omega),
        Nat.add_sub_cancel] at arrived
      rw [if_pos front, arrived, wellFormed.cell_eq_getElem? cellInside]
    rw [if_neg front]
    by_cases gap : cell < index + width
    · obtain ⟨ahead, lower, upper, same⟩ := shifted.crossed cell (by omega) (by omega)
      rw [if_pos gap, same, cell_readFrom sited (by omega) (by omega), if_neg (by omega),
        wellFormed.cell_vacant (by omega) (by omega)]
    · rw [if_neg gap, shifted.beyond cell (by omega) cellInside,
        cell_readFrom sited (by omega) cellInside, if_pos (by omega),
        wellFormed.cell_eq_getElem? (by omega)]

theorem openGap_exists (wellFormed : ring.WellFormed) (tie : End) (inside : index ≤ ring.len)
    (bound : ring.len + width ≤ ring.capacity) :
    ∃ after, ring.openGap index width tie = .ok after ∧
      ring.Shows after (gapped ring.toList index width) := by
  have sited := wellFormed.sited
  simp only [openGap, Word.sub_eq inside, Checked.ok_bind]
  cases End.shorter index (ring.len - index) tie with
  | back =>
      obtain ⟨after, ran, shifted⟩ :=
        shiftBack_exists index (ring.len - index) width sited (by omega)
      exact ⟨after, ran, shifted.gaps wellFormed inside bound⟩
  | front =>
      simp only [slideFront_eq sited (show index + width ≤ ring.capacity by omega)]
      obtain ⟨after, ran, shifted⟩ := shiftFront_exists width index width
        (readFrom_sited sited (show width ≤ ring.capacity by omega)) (Nat.le_refl _)
        (show width + index ≤ ring.capacity by omega)
      exact ⟨after, ran, shifted.gaps wellFormed inside bound⟩

theorem fillGap_exists (index : Nat) (items : List (Item α)) (sited : ring.Sited)
    (bound : index + items.length ≤ ring.capacity)
    (vacant : ∀ cell, index ≤ cell → cell < index + items.length → ring.cell cell = none) :
    ∃ after, ring.fillGap index items = .ok after ∧
      ring.Shows after (fun cell =>
        if index ≤ cell ∧ cell < index + items.length then items[cell - index]?
        else ring.cell cell) := by
  -- Filling a vacant slot voids no cursor, so the ring ages through the writes one after the other.
  induction items generalizing ring index with
  | nil =>
      refine ⟨ring, rfl, sited, rfl, .refl ring, ?_⟩
      intro cell _
      rw [if_neg (by simp only [List.length_nil]; omega)]
  | cons item rest ih =>
      simp only [List.length_cons] at bound vacant
      have word := ring.capacity_lt_word
      have slotInside := place_lt_slots sited (show index < ring.capacity by omega)
      have empty : ring.block.get? (ring.place index) = none := vacant index (by omega) (by omega)
      have sameRegistry : (ring.putCell index (some item) slotInside).registry = ring.registry := rfl
      have filledAges : Ages False ring (ring.putCell index (some item) slotInside) :=
        .of_vacant sameRegistry empty fun _ => get?_putCell_of_ne
      obtain ⟨after, filled, shows⟩ := @ih (ring.putCell index (some item) slotInside) (index + 1)
        sited.putCell (by rw [putCell_capacity]; omega)
        (by
          intro cell lower upper
          rw [cell_putCell (by omega) (by omega), if_neg (by omega)]
          exact vacant cell (by omega) (by omega))
      refine ⟨after, ?_, shows.sited, shows.capacity.trans putCell_capacity,
        filledAges.trans shows.ages, ?_⟩
      · simp only [fillGap, slotOf_eq sited, Checked.ok_bind, Block.write_eq slotInside empty,
          Word.add_eq (show index + 1 < Word.limit by omega)]
        exact filled
      · intro cell cellInside
        rw [shows.cells cell (by rw [putCell_capacity]; exact cellInside),
          cell_putCell (by omega) cellInside, List.length_cons]
        by_cases first : cell = index
        · rw [if_neg (by omega), if_pos first, if_pos (by omega), first, Nat.sub_self]
          rfl
        · by_cases within : index ≤ cell ∧ cell < index + (rest.length + 1)
          · have shift : cell - index = cell - (index + 1) + 1 := by omega
            rw [if_pos (by omega), if_pos within, shift, List.getElem?_cons_succ]
          · rw [if_neg (by omega), if_neg first, if_neg within]

/-- Closing a gap counts the elements behind it, and shifts them by its width. -/
theorem closing_eq (index width : Nat) (offsets : List Nat) (ring : Ring α)
    (words : ∀ offset ∈ offsets, index + width + offset < Word.limit) :
    offsets.foldlM (fun ring offset => do
        let source ← ring.slotOf (← Word.add (index + width) offset)
        let target ← ring.slotOf (← Word.add index offset)
        ring.relocate source target) ring =
      ring.shiftFront width (offsets.map (index + width + ·)) := by
  induction offsets generalizing ring with
  | nil => rfl
  | cons offset rest ih =>
      have word := words offset List.mem_cons_self
      have back : index + width + offset - width = index + offset := by omega
      simp only [List.foldlM_cons, List.map_cons, shiftFront, Word.add_eq word,
        Word.add_eq (show index + offset < Word.limit by omega),
        Word.sub_eq (show width ≤ index + width + offset by omega), back, Checked.ok_bind]
      exact bind_congr fun moved => ih moved fun other member =>
        words other (List.mem_cons_of_mem _ member)

theorem closeGap_exists (index width tail : Nat) (sited : ring.Sited)
    (bound : index + width + tail ≤ ring.capacity)
    (vacant : ∀ cell, index ≤ cell → cell < index + width → ring.cell cell = none)
    (beyond : ∀ cell, index + width + tail ≤ cell → cell < ring.capacity →
      ring.cell cell = none) :
    ∃ after, ring.closeGap index width tail = .ok after ∧
      ring.Shows after (fun cell =>
        if cell < index then ring.cell cell
        else if cell < index + tail then ring.cell (cell + width)
        else none) := by
  have word := ring.capacity_lt_word
  simp only [closeGap]
  by_cases closed : width = 0
  · rw [if_pos closed]
    refine ⟨ring, rfl, sited, rfl, .refl ring, ?_⟩
    intro cell cellInside
    by_cases front : cell < index
    · rw [if_pos front]
    · by_cases behind : cell < index + tail
      · rw [if_neg front, if_pos behind, closed, Nat.add_zero]
      · rw [if_neg front, if_neg behind, beyond cell (by omega) cellInside]
  · rw [if_neg closed, Word.add_eq (show index + width < Word.limit by omega), Checked.ok_bind,
      closing_eq index width (List.range tail) ring fun offset member => by
        have := List.mem_range.mp member
        omega, ← List.range'_eq_map_range]
    obtain ⟨after, ran, shifted⟩ :=
      shiftFront_exists (index + width) tail width sited (by omega) (by omega)
    refine ⟨after, ran, shifted.moves.sited, shifted.moves.capacity, shifted.moves.ages, ?_⟩
    intro cell cellInside
    by_cases front : cell < index
    · rw [if_pos front, shifted.untouched cell (by omega)]
    rw [if_neg front]
    by_cases behind : cell < index + tail
    · have arrived := shifted.stretch (cell + width) (by omega) (by omega)
      rw [Nat.add_sub_cancel] at arrived
      rw [if_pos behind, arrived]
    rw [if_neg behind]
    by_cases vacated : cell < index + width + tail
    · obtain ⟨ahead, lower, upper, same⟩ := shifted.crossed cell (by omega) (by omega)
      rw [same, vacant ahead (by omega) (by omega)]
    · rw [shifted.beyond cell (by omega) cellInside, beyond cell (by omega) cellInside]

theorem Shows.becomes {cells : Nat → Option (Item α)} (shows : before.Shows after cells)
    (length : after.len = items.length) (fits : items.length ≤ before.capacity)
    (entries : ∀ index < before.capacity, cells index = items[index]?) :
    before.Becomes after items := by
  obtain ⟨wellFormed, contents⟩ := wellFormed_of_cells after items shows.sited length
    (by rw [shows.capacity]; exact fits) fun index inside => by
      rw [shows.capacity] at inside
      rw [shows.cells index inside, entries index inside]
  exact ⟨wellFormed, contents, shows.capacity, shows.ages⟩

theorem getElem?_spliced {β : Type} {front new : List β} (inside : index ≤ front.length) (cell : Nat) :
    (front.take index ++ new ++ front.drop index)[cell]? =
      if cell < index then front[cell]?
      else if cell < index + new.length then new[cell - index]?
      else front[cell - new.length]? := by
  have length : (front.take index).length = index := by
    rw [List.length_take]
    omega
  rw [List.append_assoc, List.getElem?_append, List.getElem?_append, length, List.getElem?_take,
    List.getElem?_drop]
  split
  · rfl
  · by_cases within : cell < index + new.length
    · rw [if_pos (by omega), if_pos within]
    · rw [if_neg (by omega), if_neg within]
      congr 1
      omega

/-- A gap that the elements do not fill is closed by reading what lies behind it from further on. -/
theorem closed_gap_eq {front new : List (Item α)} {filled : Nat → Option (Item α)}
    (inside : index ≤ front.length) (fits : new.length ≤ width)
    (contents : ∀ cell < front.length + width, filled cell =
      if index ≤ cell ∧ cell < index + new.length then new[cell - index]?
      else gapped front index width cell)
    (cell : Nat) :
    (if cell < index + new.length then filled cell
      else if cell < index + new.length + (front.length - index) then
        filled (cell + (width - new.length))
      else none) = (front.take index ++ new ++ front.drop index)[cell]? := by
  rw [getElem?_spliced inside]
  by_cases ahead : cell < index
  · rw [if_pos (by omega), contents cell (by omega), if_neg (by omega), gapped, if_pos ahead,
      if_pos ahead]
  rw [if_neg ahead]
  by_cases among : cell < index + new.length
  · rw [if_pos among, contents cell (by omega), if_pos ⟨by omega, among⟩, if_pos among]
  rw [if_neg among, if_neg among]
  by_cases behind : cell < index + new.length + (front.length - index)
  · have shift : cell + (width - new.length) - width = cell - new.length := by omega
    rw [if_pos behind, contents _ (by omega), if_neg (by omega), gapped, if_neg (by omega),
      if_neg (by omega), shift]
  · rw [if_neg behind, List.getElem?_eq_none (by omega)]

/-- Splicing puts the elements between the two parts of the contents. -/
theorem splice_exists (wellFormed : ring.WellFormed) (tie : End) (inside : index ≤ ring.len)
    (bound : ring.len + width ≤ ring.capacity) (fits : items.length ≤ width) :
    ∃ after, ring.splice index width tie items = .ok after ∧
      ring.Becomes after (ring.toList.take index ++ items ++ ring.toList.drop index) := by
  have word := wellFormed.capacity_double_lt_word
  have length := wellFormed.length_toList
  obtain ⟨opened, isOpened, openedShows⟩ := openGap_exists wellFormed tie inside bound
  obtain ⟨filled, isFilled, filledShows⟩ :=
    fillGap_exists index items openedShows.sited
      (by rw [openedShows.capacity]; omega)
      (by
        intro cell lower upper
        rw [openedShows.cells cell (by omega), gapped, if_neg (by omega), if_pos (by omega)])
  have sameCapacity := filledShows.capacity.trans openedShows.capacity
  have filledCell : ∀ cell < ring.capacity, filled.cell cell =
      if index ≤ cell ∧ cell < index + items.length then items[cell - index]?
      else gapped ring.toList index width cell := by
    intro cell cellInside
    rw [filledShows.cells cell (by rw [openedShows.capacity]; exact cellInside),
      openedShows.cells cell cellInside]
  obtain ⟨closed, isClosed, closedShows⟩ :=
    closeGap_exists (index + items.length) (width - items.length) (ring.len - index)
      filledShows.sited (by omega)
      (by
        intro cell lower upper
        rw [filledCell cell (by omega), if_neg (by omega), gapped, if_neg (by omega),
          if_pos (by omega)])
      (by
        intro cell lower upper
        rw [filledCell cell (by omega), if_neg (by omega), gapped, if_neg (by omega),
          if_neg (by omega), List.getElem?_eq_none (by omega)])
  have shows : ring.Shows { closed with len := index + items.length + (ring.len - index) } _ :=
    ⟨⟨closedShows.sited.starts, closedShows.sited.stamped⟩,
      closedShows.capacity.trans sameCapacity,
      (openedShows.ages.trans (filledShows.ages.trans closedShows.ages)).withLen _,
      fun cell cellInside => closedShows.cells cell (by omega)⟩
  refine ⟨_, ?_, shows.becomes ?_ ?_ ?_⟩
  · simp only [splice, Word.sub_eq inside, Checked.ok_bind, isOpened, isFilled,
      Word.add_eq (show index + items.length < Word.limit by omega), Word.sub_eq fits, isClosed,
      Word.add_eq (show index + items.length + (ring.len - index) < Word.limit by omega),
      Checked.pure_eq_ok]
  · simp only [List.length_append, List.length_take, List.length_drop]
    omega
  · simp only [List.length_append, List.length_take, List.length_drop]
    omega
  · intro cell _
    rw [← length] at bound inside ⊢
    exact closed_gap_eq inside fits (fun cell within => filledCell cell (by omega)) cell

end RingDeque.Ring
