import RingDeque.Proofs.Outcome
import RingDeque.Proofs.Ring.Ends
import RingDeque.Ring.Comparison
import RingDeque.Ring.Iteration

/-!
Reading a ring.

On a well formed ring every reading succeeds, whatever the layout, and agrees with the contents.
Cursors that a ring issues are those it vouches for, and a cursor that it vouches for can be asked
about without a fault.
-/

namespace RingDeque

namespace Ring

variable {α : Type} {ring other : Ring α} {index count first : Nat} {items : List (Item α)}
  {cursor : Cursor}

theorem WellFormed.get?_eq (wellFormed : ring.WellFormed) (index : Nat) :
    ring.get? index = .ok ring.toList[index]? := by
  have length := wellFormed.length_toList
  simp only [get?]
  by_cases inside : index < ring.len
  · rw [if_pos inside]
    simp only [slotOf_eq wellFormed.sited, Checked.ok_bind,
      Block.read_eq (wellFormed.get?_place_eq inside), Checked.pure_eq_ok]
    rw [List.getElem?_eq_getElem]
  · rw [if_neg inside, List.getElem?_eq_none (by omega)]
    rfl

theorem WellFormed.peek_eq (wellFormed : ring.WellFormed) (side : End) :
    ring.peek side = .ok (side.last? ring.toList) := by
  have length := wellFormed.length_toList
  cases side with
  | front => simp only [peek, wellFormed.get?_eq, End.last?, List.head?_eq_getElem?]
  | back =>
      simp only [peek, lastIndex?, End.last?, List.getLast?_eq_getElem?, length]
      by_cases empty : ring.len = 0
      · rw [if_pos empty, List.getElem?_eq_none (by omega)]
      · rw [if_neg empty]
        exact wellFormed.get?_eq _

theorem place_lt_max (sited : ring.Sited) (inside : index ≤ ring.capacity) :
    ring.place index < max ring.capacity 1 := by
  have starts := sited.starts
  unfold place Slot.wrapped
  split <;> omega

theorem wrapped_place (sited : ring.Sited) (inside : first + index < ring.capacity) :
    Slot.wrapped ring.capacity (ring.place first + index) = ring.place (first + index) := by
  have starts := sited.starts
  simp only [place, Slot.wrapped]
  split <;> split <;> split <;> omega

/-- The slots of consecutive cells, in two runs, and what they hold. -/
theorem wrappedSlots_hold (first : Nat) (items : List (Item α)) (sited : ring.Sited)
    (bound : first + items.length ≤ ring.capacity)
    (held : ∀ index < items.length, ring.cell (first + index) = items[index]?) :
    ∃ frontSlots backSlots front back,
      ring.block.wrappedSlots (ring.place first) items.length = .ok (frontSlots, backSlots) ∧
      frontSlots ++ backSlots =
        (List.range items.length).map (fun index => ring.place (first + index)) ∧
      front ++ back = items ∧ frontSlots.map ring.block.get? = front.map some ∧
      backSlots.map ring.block.get? = back.map some := by
  have starts : ring.place first < max ring.block.size 1 := place_lt_max sited (by omega)
  have slots := Block.wrappedSlots_append items.length starts
  have places : (List.range items.length).map (fun index =>
      Slot.wrapped ring.block.size (ring.place first + index)) =
        (List.range items.length).map fun index => ring.place (first + index) :=
    List.map_congr_left fun index member =>
      wrapped_place sited (by have := List.mem_range.mp member; omega)
  have cells : ((List.range items.length).map fun index => ring.place (first + index)).map
      ring.block.get? = items.map some := by
    rw [List.map_map]
    apply List.ext_getElem?
    intro index
    simp only [List.getElem?_map]
    by_cases inside : index < items.length
    · rw [List.getElem?_range inside, List.getElem?_eq_getElem inside]
      have same := held index inside
      rw [List.getElem?_eq_getElem inside] at same
      exact congrArg some same
    · rw [List.getElem?_eq_none (by simpa using inside),
        List.getElem?_eq_none (by simpa using inside)]
      rfl
  rw [← places, ← slots, List.map_append] at cells
  obtain ⟨front, back, parts, frontCells, backCells⟩ := List.append_eq_map_iff.mp cells
  have fits : items.length ≤ ring.block.size := Nat.le_of_add_left_le bound
  exact ⟨_, _, front, back, Block.wrappedSlots_eq starts fits, slots.trans places, parts.symm,
    frontCells.symm, backCells.symm⟩

/-- Reading consecutive cells yields what they hold, in two runs. -/
theorem wrappedRuns_exists (first : Nat) (items : List (Item α)) (sited : ring.Sited)
    (bound : first + items.length ≤ ring.capacity)
    (held : ∀ index < items.length, ring.cell (first + index) = items[index]?) :
    ∃ front back, ring.block.wrappedRuns (ring.place first) items.length = .ok (front, back) ∧
      front ++ back = items := by
  obtain ⟨frontSlots, backSlots, front, back, split, -, parts, frontCells, backCells⟩ :=
    wrappedSlots_hold first items sited bound held
  exact ⟨front, back, Block.wrappedRuns_eq split frontCells backCells, parts⟩

/-- The slots of the elements, in two runs, and the elements in them. -/
theorem WellFormed.slots_hold (wellFormed : ring.WellFormed) :
    ∃ frontSlots backSlots front back,
      ring.block.wrappedSlots ring.start ring.len = .ok (frontSlots, backSlots) ∧
      frontSlots ++ backSlots = (List.range ring.len).map ring.place ∧
      front ++ back = ring.toList ∧ frontSlots.map ring.block.get? = front.map some ∧
      backSlots.map ring.block.get? = back.map some := by
  have fits := wellFormed.fits
  have length := wellFormed.length_toList
  have held := wrappedSlots_hold 0 ring.toList wellFormed.sited (by omega) (by
    intro index inside
    rw [Nat.zero_add, wellFormed.cell_eq (by omega)])
  simpa only [place_zero wellFormed.sited, length, Nat.zero_add] using held

theorem WellFormed.runs_exists (wellFormed : ring.WellFormed) :
    ∃ front back, ring.runs = .ok (front, back) ∧ front ++ back = ring.toList := by
  obtain ⟨frontSlots, backSlots, front, back, split, -, parts, frontCells, backCells⟩ :=
    wellFormed.slots_hold
  exact ⟨front, back, Block.wrappedRuns_eq split frontCells backCells, parts⟩

/-- The first run goes as far as there are elements, and not beyond the end of the block. -/
theorem WellFormed.length_front {front back : List (Item α)} (wellFormed : ring.WellFormed)
    (read : ring.runs = .ok (front, back)) :
    front.length = min ring.len (ring.capacity - ring.start) := by
  obtain ⟨frontSlots, backSlots, front', back', split, -, -, frontCells, backCells⟩ :=
    wellFormed.slots_hold
  cases read.symm.trans (Block.wrappedRuns_eq split frontCells backCells)
  cases split.symm.trans (Block.wrappedSlots_eq wellFormed.starts wellFormed.fits)
  have lengths := congrArg List.length frontCells
  rw [List.length_map, List.length_map, List.length_range'] at lengths
  exact lengths.symm

theorem WellFormed.length_lt_word (wellFormed : ring.WellFormed) :
    ring.toList.length < Word.limit :=
  wellFormed.length_toList.trans_lt (Nat.lt_of_le_of_lt wellFormed.fits ring.capacity_lt_word)

theorem WellFormed.contents_eq (wellFormed : ring.WellFormed) : ring.contents = .ok ring.toList := by
  obtain ⟨front, back, read, parts⟩ := wellFormed.runs_exists
  simp only [contents, read, Checked.ok_bind, parts, Checked.pure_eq_ok]

theorem WellFormed.values_eq (wellFormed : ring.WellFormed) :
    ring.values = .ok (ring.toList.map Item.value) := by
  simp only [values, wellFormed.contents_eq, Checked.ok_bind, Checked.pure_eq_ok]

theorem WellFormed.iterate_exists (wellFormed : ring.WellFormed) :
    ∃ walk, ring.iterate = .ok walk ∧ walk.toList = ring.toList := by
  obtain ⟨front, back, read, parts⟩ := wellFormed.runs_exists
  exact ⟨⟨front, back⟩, by simp only [iterate, read, Checked.ok_bind, Checked.pure_eq_ok], parts⟩

theorem WellFormed.isLinear_exists (wellFormed : ring.WellFormed) :
    ∃ linear, ring.isLinear = .ok linear ∧
      (linear = true ↔ ring.start + ring.len ≤ ring.capacity) := by
  have starts := wellFormed.starts
  have fits := wellFormed.fits
  have word := wellFormed.capacity_double_lt_word
  refine ⟨decide (ring.start + ring.len ≤ ring.capacity), ?_, decide_eq_true_iff⟩
  simp only [isLinear, Word.add_eq (show ring.start + ring.len < Word.limit by omega),
    Checked.ok_bind, Checked.pure_eq_ok]

theorem WellFormed.remaining_eq (wellFormed : ring.WellFormed) :
    ring.remaining = .ok (ring.capacity - ring.len) :=
  Word.sub_eq wellFormed.fits

theorem mapM_place_eq {slots : List Nat} (held : slots.map ring.block.get? = items.map some) :
    slots.mapM (places.place ring) = .ok (List.zipWith Placed.mk slots items) := by
  induction slots generalizing items with
  | nil => rfl
  | cons slot rest ih =>
      cases items with
      | nil => cases held
      | cons item items =>
          rw [List.map_cons, List.map_cons, List.cons.injEq] at held
          obtain ⟨found, others⟩ := held
          simp only [List.mapM_cons, places.place, Block.read_eq found, Checked.ok_bind,
            Checked.pure_eq_ok, ih others, List.zipWith_cons_cons]

/-- An element in the slot of its position. -/
def placed (ring : Ring α) (entry : Item α × Nat) : Placed α :=
  ⟨ring.place entry.2, entry.1⟩

/-- A walk over places is a walk over the elements with the slots they lie in, in order. -/
theorem WellFormed.places_exists (wellFormed : ring.WellFormed) :
    ∃ walk, ring.places = .ok walk ∧ walk.toList = ring.toList.zipIdx.map ring.placed := by
  have length := wellFormed.length_toList
  obtain ⟨frontSlots, backSlots, front, back, split, slots, parts, frontCells, backCells⟩ :=
    wellFormed.slots_hold
  have sameLength : frontSlots.length = front.length := by
    simpa using congrArg List.length frontCells
  refine ⟨⟨List.zipWith Placed.mk frontSlots front, List.zipWith Placed.mk backSlots back⟩, ?_, ?_⟩
  · simp only [places, split, Checked.ok_bind, mapM_place_eq frontCells,
      mapM_place_eq backCells, Checked.pure_eq_ok]
  · rw [Traversal.toList, ← List.zipWith_append sameLength, slots, ← length, parts]
    apply List.ext_getElem
    · simp
    · intro index inLeft inRight
      simp [placed]

/-- The places of a walk are slots of elements. -/
theorem held_of_placed {entry : Placed α} (wellFormed : ring.WellFormed)
    (member : entry ∈ ring.toList.zipIdx.map ring.placed) :
    ring.block.get? entry.slot = some entry.item := by
  obtain ⟨⟨item, index⟩, found, rfl⟩ := List.mem_map.mp member
  have listed := List.mem_zipIdx_iff_getElem?.mp found
  have inside : index < ring.len := by
    rw [← wellFormed.length_toList]
    exact (List.getElem?_eq_some_iff.mp listed).1
  exact (wellFormed.cell_eq inside).trans listed

end Ring

end RingDeque
