import RingDeque.Proofs.Ring.Inserting

/-!
Which slots a step on a ring spares.

A cursor to an element is void once the counter of its slot has gone up, or the generation. The
steps below void exactly the cursors to the elements they remove or move: whichever side of a gap
does not move is spared, and so are the elements that stay when others go at an end.
-/

namespace RingDeque

/-- Whether an element stays where it is when those at an end move, up to a logical index. -/
def End.Spares (moved : End) (index place : Nat) : Prop :=
  match moved with
  | .front => index ≤ place
  | .back => place < index

/-- Whether one of `length` elements is left when `count` of them go at an end. -/
def End.Leaves (side : End) (length count place : Nat) : Prop :=
  match side with
  | .front => count ≤ place
  | .back => place < length - count

namespace Ring

open Checked

variable {α : Type} {written : Prop} {ring before middle after : Ring α} {slot index width : Nat}
  {items : List (Item α)} {found : Option (Item α)}

/-- What cursors to a slot are checked against has not changed. -/
structure Retains (before after : Ring α) (slot : Nat) : Prop where
  owner : after.registry.owner = before.registry.owner
  generation : after.registry.generation = before.registry.generation
  stamp : after.registry.stamps.get? slot = before.registry.stamps.get? slot

theorem Retains.of_registry (same : after.registry = before.registry) :
    before.Retains after slot :=
  ⟨by rw [same], by rw [same], by rw [same]⟩

theorem retains_congr {other : Ring α} (same : after.registry = other.registry) :
    before.Retains after slot ↔ before.Retains other slot := by
  constructor
  · rintro ⟨owner, generation, stamp⟩
    rw [same] at owner generation stamp
    exact ⟨owner, generation, stamp⟩
  · rintro ⟨owner, generation, stamp⟩
    rw [← same] at owner generation stamp
    exact ⟨owner, generation, stamp⟩

/-- Reading a ring from another slot on does not touch its counters. -/
theorem readFrom_retains {start : Nat} :
    ring.Retains after slot ↔ (ring.readFrom start).Retains after slot :=
  ⟨fun retains => ⟨retains.owner, retains.generation, retains.stamp⟩,
    fun retains => ⟨retains.owner, retains.generation, retains.stamp⟩⟩

/-- Counters only grow, so what is retained in the end was retained all along. -/
theorem retains_trans (first : Ages written before middle) (second : Ages written middle after)
    (known : slot < before.registry.stamps.size) :
    before.Retains after slot ↔ before.Retains middle slot ∧ middle.Retains after slot := by
  constructor
  · -- Equal counters at both ends leave no room for other ones in between.
    rintro ⟨-, generation, stamp⟩
    have firstGeneration := first.generation
    have secondGeneration := second.generation
    have sameFirst : middle.registry.generation = before.registry.generation := by omega
    have sameSecond : after.registry.generation = middle.registry.generation := by omega
    obtain ⟨firstStamp, found⟩ := Stamps.exists_get? known
    obtain ⟨middleStamp, middleFound, firstBound, -⟩ := first.tenants sameFirst slot _ found
    obtain ⟨laterStamp, laterFound, secondBound, -⟩ :=
      second.tenants sameSecond slot _ middleFound
    have unmoved : laterStamp = firstStamp := by
      rw [laterFound, found, Option.some_inj] at stamp
      exact stamp
    have middleSame : middleStamp = firstStamp := by omega
    refine ⟨⟨first.owner, sameFirst, ?_⟩, second.owner, sameSecond, ?_⟩
    · rw [middleFound, found, middleSame]
    · rw [laterFound, middleFound, unmoved, middleSame]
  · rintro ⟨first, second⟩
    exact ⟨second.owner.trans first.owner, second.generation.trans first.generation,
      second.stamp.trans first.stamp⟩

theorem retains_touch {touched : Nat} (registry : after.registry = before.registry.touch touched)
    (known : slot < before.registry.stamps.size) :
    before.Retains after slot ↔ slot ≠ touched := by
  obtain ⟨_, found⟩ := Stamps.exists_get? known
  constructor
  · rintro ⟨-, -, stamp⟩ rfl
    rw [registry, Registry.touch_stamps, if_pos rfl, found, Option.map_some, Option.some_inj]
      at stamp
    omega
  · intro distinct
    refine ⟨by rw [registry]; rfl, by rw [registry]; rfl, ?_⟩
    rw [registry, Registry.touch_stamps, if_neg (Ne.symm distinct)]

theorem relocate_retains {source target : Nat}
    (relocated : ring.relocate source target = .ok after)
    (known : slot < ring.registry.stamps.size) :
    ring.Retains after slot ↔ slot ≠ source ∧ slot ≠ target := by
  have registry : after.registry = (ring.registry.touch source).touch target := by
    simp only [relocate, Block.swap] at relocated
    split at relocated
    · cases relocated
      rfl
    · cases relocated
  obtain ⟨_, found⟩ := Stamps.exists_get? known
  constructor
  · rintro ⟨-, -, stamp⟩
    rw [registry, Registry.touch_stamps, Registry.touch_stamps, found] at stamp
    constructor
    · rintro rfl
      simp only [if_true, Option.map_some] at stamp
      split at stamp <;> simp only [Option.some_inj] at stamp <;> omega
    · rintro rfl
      rw [if_pos rfl] at stamp
      split at stamp <;> simp only [Option.map_some, Option.some_inj] at stamp <;> omega
  · rintro ⟨notSource, notTarget⟩
    refine ⟨by rw [registry]; rfl, by rw [registry]; rfl, ?_⟩
    rw [registry, Registry.touch_stamps, Registry.touch_stamps, if_neg (Ne.symm notTarget),
      if_neg (Ne.symm notSource)]

/-- A series of exchanges voids the cursors to the slots that it touches, and no others. -/
theorem relocations_retain (source target : Nat → Nat)
    {step : Ring α → Nat → Checked (Ring α)} {indices : List Nat} (sited : ring.Sited)
    (steps : ∀ current, ring.Moves current → ∀ index ∈ indices, step current index =
      current.relocate (current.place (source index)) (current.place (target index)))
    (bound : ∀ index ∈ indices, source index < ring.capacity ∧ target index < ring.capacity)
    (moved : indices.foldlM step ring = .ok after) :
    ring.Moves after ∧ ∀ slot < ring.capacity, (ring.Retains after slot ↔
      ∀ index ∈ indices, slot ≠ ring.place (source index) ∧ slot ≠ ring.place (target index)) := by
  -- Exchanges move no place, so the rest of them touch the slots that they would touch at first.
  induction indices generalizing ring with
  | nil =>
      cases moved
      exact ⟨.refl sited, fun slot _ => ⟨fun _ => List.forall_mem_nil _, fun _ => .of_registry rfl⟩⟩
  | cons index rest ih =>
      obtain ⟨sourceInside, targetInside⟩ := bound index List.mem_cons_self
      obtain ⟨middle, relocated, moves, -⟩ := relocate_exists sited sourceInside targetInside
      rw [List.foldlM_cons, steps ring (.refl sited) index List.mem_cons_self, relocated,
        Checked.ok_bind] at moved
      obtain ⟨rests, retains⟩ := ih moves.sited
        (fun current further other member =>
          steps current (moves.trans further) other (List.mem_cons_of_mem _ member))
        (fun other member => by
          rw [moves.capacity]
          exact bound other (List.mem_cons_of_mem _ member)) moved
      refine ⟨moves.trans rests, fun slot inside => ?_⟩
      have known : slot < ring.registry.stamps.size := by
        rw [sited.stamped]
        exact inside
      rw [retains_trans moves.ages rests.ages known, relocate_retains relocated known,
        retains slot (by rw [moves.capacity]; exact inside), List.forall_mem_cons]
      simp only [moves.place]

theorem shiftBack_retains {indices : List Nat} (sited : ring.Sited)
    (bound : ∀ index ∈ indices, index + width < ring.capacity)
    (shifted : ring.shiftBack width indices = .ok after) :
    ring.Moves after ∧ ∀ slot < ring.capacity, (ring.Retains after slot ↔
      ∀ index ∈ indices, slot ≠ ring.place index ∧ slot ≠ ring.place (index + width)) := by
  have word := ring.capacity_lt_word
  refine relocations_retain (fun index => index) (· + width) sited ?_ ?_ shifted
  · intro current moves index member
    have within := bound index member
    simp only [slotOf_eq moves.sited, Checked.ok_bind,
      Word.add_eq (show index + width < Word.limit by omega)]
  · intro index member
    have within := bound index member
    exact ⟨by omega, within⟩

theorem shiftFront_retains {indices : List Nat} (sited : ring.Sited)
    (bound : ∀ index ∈ indices, width ≤ index ∧ index < ring.capacity)
    (shifted : ring.shiftFront width indices = .ok after) :
    ring.Moves after ∧ ∀ slot < ring.capacity, (ring.Retains after slot ↔
      ∀ index ∈ indices, slot ≠ ring.place index ∧ slot ≠ ring.place (index - width)) := by
  refine relocations_retain (fun index => index) (· - width) sited ?_ ?_ shifted
  · intro current moves index member
    have within := bound index member
    simp only [slotOf_eq moves.sited, Checked.ok_bind, Word.sub_eq within.1]
  · intro index member
    have within := bound index member
    exact ⟨within.2, by omega⟩

/-- Opening a gap spares the side that does not move. -/
theorem openGap_retains (wellFormed : ring.WellFormed) {tie : End} {cell : Nat}
    (inside : index ≤ ring.len) (bound : ring.len + width ≤ ring.capacity)
    (opened : ring.openGap index width tie = .ok after) (held : cell < ring.len) :
    ring.Retains after (ring.place cell) ↔
      (End.shorter index (ring.len - index) tie).Spares index cell := by
  have sited := wellFormed.sited
  have slotInside : ring.place cell < ring.capacity := place_lt sited (by omega)
  simp only [openGap, Word.sub_eq inside, Checked.ok_bind] at opened
  cases side : End.shorter index (ring.len - index) tie with
  | back =>
      simp only [side] at opened
      obtain ⟨-, retains⟩ := shiftBack_retains sited (by
        intro other member
        simp only [List.mem_reverse, List.mem_range'_1] at member
        omega) opened
      rw [retains _ slotInside]
      simp only [List.mem_reverse, List.mem_range'_1, End.Spares]
      constructor
      · intro apart
        by_contra behind
        exact (apart cell (by omega)).1 rfl
      · intro front other between
        refine ⟨fun same => ?_, fun same => ?_⟩
        · have := place_injective (by omega) (by omega) same
          omega
        · have := place_injective (by omega) (by omega) same
          omega
  | front =>
      -- The front part moves in a ring that is read from `width` slots earlier on.
      simp only [side, slideFront_eq sited (show index + width ≤ ring.capacity by omega)] at opened
      obtain ⟨-, retains⟩ := shiftFront_retains
        (readFrom_sited sited (show width ≤ ring.capacity by omega)) (by
          intro other member
          simp only [List.mem_range'_1] at member
          change width ≤ other ∧ other < ring.capacity
          omega) opened
      have places : ∀ other < ring.capacity, (ring.readFrom (ring.earlierStart width)).place other =
          ring.place (if width ≤ other then other - width else other + (ring.capacity - width)) :=
        fun other => place_readFrom sited (by omega)
      rw [readFrom_retains, retains (ring.place cell) slotInside]
      simp only [List.mem_range'_1, End.Spares]
      constructor
      · intro apart
        by_contra front
        apply (apart (cell + width) (by omega)).1
        rw [places _ (by omega), if_pos (by omega), Nat.add_sub_cancel]
      · intro behind other between
        rw [places other (by omega), if_pos between.1, places (other - width) (by omega)]
        refine ⟨fun same => ?_, fun same => ?_⟩
        · have := place_injective (by omega) (by omega) same
          omega
        · have := place_injective (by omega) (by split <;> omega) same
          split at this <;> omega

theorem fillGap_registry (index : Nat) (items : List (Item α)) :
    (ring.fillGap index items).Gives fun after => after.registry = ring.registry := by
  induction items generalizing ring index with
  | nil => exact .of_ok rfl
  | cons item rest ih => exact .past fun slot => .past fun block => .past fun next => ih next

/-- Splicing elements into a gap that they fill spares the side that does not move. -/
theorem splice_retains (wellFormed : ring.WellFormed) {tie : End} {cell : Nat}
    (inside : index ≤ ring.len) (bound : ring.len + items.length ≤ ring.capacity)
    (held : cell < ring.len) :
    (ring.splice index items.length tie items).Gives fun after =>
      (ring.Retains after (ring.place cell) ↔
        (End.shorter index (ring.len - index) tie).Spares index cell) := by
  have opening : (ring.openGap index items.length tie).Gives _ :=
    fun opened isOpened => openGap_retains wellFormed inside bound isOpened held
  refine .past fun tail => opening.bind fun opened kept => ?_
  refine (fillGap_registry index items).bind fun filled same => .past fun behind => ?_
  simp only [Word.sub_eq (Nat.le_refl items.length), Nat.sub_self, closeGap, if_true,
    Checked.ok_bind, Checked.pure_eq_ok]
  refine .past fun len => .of_ok ?_
  have sameLast : Ring.registry { filled with len } = opened.registry := same
  rw [retains_congr sameLast]
  exact kept

theorem WellFormed.slot_known (wellFormed : ring.WellFormed) (inside : index < ring.len) :
    ring.place index < ring.registry.stamps.size := by
  have fits := wellFormed.fits
  rw [wellFormed.stamped]
  exact place_lt wellFormed.sited (by omega)

/-- A ring that has given up `count` elements at an end. -/
structure Trims (side : End) (count : Nat) (before after : Ring α) : Prop where
  wellFormed : after.WellFormed
  ages : Ages False before after
  capacity : after.capacity = before.capacity
  len : after.len = before.len - count
  retains : ∀ cell < before.len,
    (before.Retains after (before.place cell) ↔ side.Leaves before.len count cell)
  places : ∀ cell < before.len, side.Leaves before.len count cell →
    after.place (side.shifted cell count) = before.place cell

namespace Trims

variable {side : End} {first second : Nat}

theorem refl (wellFormed : ring.WellFormed) (side : End) : Trims side 0 ring ring where
  wellFormed := wellFormed
  ages := .refl ring
  capacity := rfl
  len := rfl
  retains := fun cell held => ⟨fun _ => by cases side <;> simp [End.Leaves, held],
    fun _ => .of_registry rfl⟩
  places := fun cell _ _ => by rw [End.shifted_zero]

/-- A ring without elements gives up none, however many are asked for. -/
theorem of_empty (wellFormed : ring.WellFormed) (empty : ring.len = 0) (side : End) (count : Nat) :
    Trims side count ring ring where
  wellFormed := wellFormed
  ages := .refl ring
  capacity := rfl
  len := by omega
  retains := fun cell held => by omega
  places := fun cell held => by omega

theorem trans (wellFormed : ring.WellFormed) (before : Trims side first ring middle)
    (later : Trims side second middle after) : Trims side (first + second) ring after := by
  have fewer := before.len
  have step : ∀ cell < ring.len, side.Leaves ring.len first cell →
      side.shifted cell first < middle.len ∧
        (side.Leaves middle.len second (side.shifted cell first) ↔
          side.Leaves ring.len (first + second) cell) := by
    intro cell held left
    cases side <;> simp only [End.Leaves, End.shifted] at * <;> omega
  refine ⟨later.wellFormed, before.ages.trans later.ages, later.capacity.trans before.capacity,
    by rw [later.len, before.len, Nat.sub_sub], ?_, ?_⟩
  · intro cell held
    rw [retains_trans before.ages later.ages (wellFormed.slot_known held), before.retains cell held]
    constructor
    · rintro ⟨left, retained⟩
      obtain ⟨inside, same⟩ := step cell held left
      rw [← before.places cell held left, later.retains _ inside] at retained
      exact same.mp retained
    · intro left
      have leftFirst : side.Leaves ring.len first cell := by
        cases side <;> simp only [End.Leaves] at * <;> omega
      obtain ⟨inside, same⟩ := step cell held leftFirst
      rw [← before.places cell held leftFirst, later.retains _ inside]
      exact ⟨leftFirst, same.mpr left⟩
  · intro cell held left
    have leftFirst : side.Leaves ring.len first cell := by
      cases side <;> simp only [End.Leaves] at * <;> omega
    obtain ⟨inside, same⟩ := step cell held leftFirst
    have moved := later.places _ inside (same.mpr left)
    rw [before.places cell held leftFirst] at moved
    rw [← moved]
    congr 1
    cases side with
    | front => exact (Nat.sub_sub cell first second).symm
    | back => rfl

end Trims

theorem popBack_registry (sited : ring.Sited) (occupied : ring.len ≠ 0) :
    ring.popBack.Gives fun popped =>
      popped.2.registry = ring.registry.touch (ring.place (ring.len - 1)) ∧
        popped.2.start = ring.start := by
  simp only [popBack, isEmpty, beq_iff_eq, if_neg occupied,
    Word.sub_eq (show 1 ≤ ring.len by omega), Checked.ok_bind, slotOf_eq sited]
  exact .past fun taken => .of_ok ⟨rfl, rfl⟩

theorem popFront_registry (sited : ring.Sited) (inside : 0 < ring.capacity) (occupied : ring.len ≠ 0) :
    ring.popFront.Gives fun popped =>
      popped.2.registry = ring.registry.touch (ring.place 0) ∧
        popped.2.start = ring.place 1 := by
  have starts := sited.starts
  simp only [popFront, isEmpty, beq_iff_eq, if_neg occupied, place_zero sited,
    Slot.next_eq (show ring.start < ring.capacity by omega) ring.capacity_lt_word, Checked.ok_bind]
  exact .past fun len => .past fun taken => .of_ok ⟨rfl, rfl⟩

theorem pop_empty (side : End) (empty : ring.len = 0) : pop side ring = .ok (none, ring) := by
  cases side with
  | front => simp only [pop, popFront, isEmpty, empty, beq_self_eq_true, if_true, Checked.pure_eq_ok]
  | back => simp only [pop, popBack, isEmpty, empty, beq_self_eq_true, if_true, Checked.pure_eq_ok]

theorem place_inj {first second : Nat} (firstInside : first < ring.capacity)
    (secondInside : second < ring.capacity) :
    ring.place first = ring.place second ↔ first = second :=
  ⟨place_injective firstInside secondInside, congrArg ring.place⟩

theorem popBack_trims (wellFormed : ring.WellFormed) (occupied : ring.len ≠ 0)
    (popped : ring.popBack = .ok (found, after))
    (becomes : ring.Becomes after (End.back.popped ring.toList).2) :
    Trims .back 1 ring after := by
  have fits := wellFormed.fits
  obtain ⟨registry, start⟩ := popBack_registry wellFormed.sited occupied _ popped
  refine ⟨becomes.wellFormed, becomes.ages, becomes.capacity, ?_, ?_, ?_⟩
  · rw [becomes.len, End.popped, End.length_trim, wellFormed.length_toList]
  · intro cell held
    rw [retains_touch registry (wellFormed.slot_known held), ne_eq,
      place_inj (by omega) (by omega), End.Leaves]
    omega
  · intro cell _ _
    have sameStart : after.start = ring.start := start
    simp only [place, becomes.capacity, sameStart, End.shifted]

theorem popFront_trims (wellFormed : ring.WellFormed) (occupied : ring.len ≠ 0)
    (popped : ring.popFront = .ok (found, after))
    (becomes : ring.Becomes after (End.front.popped ring.toList).2) :
    Trims .front 1 ring after := by
  have fits := wellFormed.fits
  have sited := wellFormed.sited
  obtain ⟨registry, start⟩ := popFront_registry sited (by omega) occupied _ popped
  refine ⟨becomes.wellFormed, becomes.ages, becomes.capacity, ?_, ?_, ?_⟩
  · rw [becomes.len, End.popped, End.length_trim, wellFormed.length_toList]
  · intro cell held
    rw [retains_touch registry (wellFormed.slot_known held), ne_eq,
      place_inj (by omega) (by omega), End.Leaves]
    omega
  · intro cell held left
    simp only [End.Leaves] at left
    have same : Slot.wrapped ring.capacity (End.front.shifted cell 1 + 1) = cell := by
      change Slot.wrapped ring.capacity (cell - 1 + 1) = cell
      rw [Nat.sub_add_cancel left, Slot.wrapped, if_pos (by omega)]
    rw [place_of_turn sited becomes.capacity start (by omega) (by simp only [End.shifted]; omega),
      same]

/-- Popping spares all elements but the one that it hands out. -/
theorem pop_trims (wellFormed : ring.WellFormed) (side : End) :
    ∃ found after, pop side ring = .ok (found, after) ∧ Trims side 1 ring after ∧
      (found = none → ring.len = 0) := by
  by_cases empty : ring.len = 0
  · exact ⟨none, ring, pop_empty side empty, .of_empty wellFormed empty side 1, fun _ => empty⟩
  · obtain ⟨after, popped, becomes⟩ := pop_exists wellFormed side
    refine ⟨_, after, popped, ?_, ?_⟩
    · cases side with
      | front => exact popFront_trims wellFormed empty popped becomes
      | back => exact popBack_trims wellFormed empty popped becomes
    · intro nothing
      rw [End.popped, End.last?_eq_none_iff] at nothing
      rw [← wellFormed.length_toList, nothing, List.length_nil]

theorem pushBack_retains (wellFormed : ring.WellFormed) (item : Item α) :
    (ring.pushBack item).Gives fun pushed => ∀ cell < ring.len,
      (ring.Retains pushed.2 (ring.place cell) ↔
        ring.len < ring.capacity ∨ End.front.Leaves ring.len 1 cell) := by
  have fits := wellFormed.fits
  simp only [pushBack, isFull, beq_iff_eq]
  by_cases empty : ring.capacity = 0
  · rw [if_pos empty]
    exact .of_ok fun cell held => by omega
  rw [if_neg empty]
  by_cases full : ring.len = ring.capacity
  · rw [if_pos full]
    refine .past fun start => .past fun replaced => .of_ok fun cell held => ?_
    rw [retains_touch rfl (wellFormed.slot_known held), ← place_zero wellFormed.sited, ne_eq,
      place_inj (by omega) (by omega), End.Leaves]
    omega
  · rw [if_neg full]
    refine .past fun slot => .past fun block => .past fun len => .of_ok fun cell held => ?_
    exact ⟨fun _ => .inl (by omega), fun _ => .of_registry rfl⟩

theorem pushFront_retains (wellFormed : ring.WellFormed) (item : Item α) :
    (ring.pushFront item).Gives fun pushed => ∀ cell < ring.len,
      (ring.Retains pushed.2 (ring.place cell) ↔
        ring.len < ring.capacity ∨ End.back.Leaves ring.len 1 cell) := by
  have fits := wellFormed.fits
  simp only [pushFront, isFull, beq_iff_eq]
  by_cases empty : ring.capacity = 0
  · rw [if_pos empty]
    exact .of_ok fun cell held => by omega
  rw [if_neg empty, previous_start wellFormed.sited (by omega), Checked.ok_bind]
  by_cases full : ring.len = ring.capacity
  · rw [if_pos full]
    refine .past fun replaced => .of_ok fun cell held => ?_
    rw [retains_touch rfl (wellFormed.slot_known held), ne_eq, place_inj (by omega) (by omega),
      End.Leaves]
    omega
  · rw [if_neg full]
    refine .past fun block => .past fun len => .of_ok fun cell held => ?_
    exact ⟨fun _ => .inl (by omega), fun _ => .of_registry rfl⟩

/-- Pushing spares all elements but the one that has to give way. -/
theorem push_retains (wellFormed : ring.WellFormed) (side : End) (item : Item α) :
    (push side ring item).Gives fun pushed => ∀ cell < ring.len,
      (ring.Retains pushed.2 (ring.place cell) ↔
        ring.len < ring.capacity ∨ side.opposite.Leaves ring.len 1 cell) := by
  cases side with
  | front => exact pushFront_retains wellFormed item
  | back => exact pushBack_retains wellFormed item

end Ring

end RingDeque
