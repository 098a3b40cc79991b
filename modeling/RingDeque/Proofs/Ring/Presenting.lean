import RingDeque.Proofs.Ring.Iterating
import RingDeque.Proofs.Ring.Locating

/-!
One list behind all readings of a ring.

An element can be asked for by its index, through a cursor, at an end, in the two runs and on a walk.
Each of these computes the slot in its own way, and all of them answer from the same list. Main
statements: `WellFormed.reads`, and `WellFormed.writes_exists` for the ways of overwriting an element.
-/

namespace RingDeque

/-- The logical index of the element that is named, in a ring of `len` elements. -/
def Reach.index (len : Nat) : Reach → Nat
  | .get index | .element index | .demand index => index
  | .peek .front => 0
  | .peek .back => len - 1

namespace Ring

variable {α : Type} {ring after : Ring α} {index : Nat} {item old : Item α}
  {items : List (Item α)}

/-- Whoever asks for the element at a logical index is given `item`. -/
structure Presents (ring : Ring α) (index : Nat) (item : Item α) : Prop where
  get? : ring.get? index = .ok (some item)
  element : ring.element index = .ok item
  demand : ring.demand index = .ok item
  under : ∃ cursor, ring.cursorAt index = .ok cursor ∧ ring.elementUnder cursor = .ok item

/-- Whoever asks for an element at a logical index learns that there is none. The length has a cursor,
and no other such index does. -/
structure Lacks (ring : Ring α) (index : Nat) : Prop where
  get? : ring.get? index = .ok none
  element : ring.element index = .error (.refused (.indexOutOfRange index ring.len))
  demand : ring.demand index = .error (.interrupted (.indexOutOfRange index ring.len))
  finish : index = ring.len → ∃ cursor, ring.cursorAt index = .ok cursor ∧
    ring.elementUnder cursor = .error (.refused .endOfBuffer)
  beyond : ring.len < index →
    ring.cursorAt index = .error (.refused (.indexOutOfRange index ring.len))

/-- All readings of a ring agree with one list. -/
structure Reads (ring : Ring α) (items : List (Item α)) : Prop where
  length : items.length = ring.len
  present : ∀ index item, items[index]? = some item → ring.Presents index item
  absent : ∀ index, items.length ≤ index → ring.Lacks index
  first : ring.peek .front = .ok items.head?
  last : ring.peek .back = .ok items.getLast?
  runs : ∃ front back linear, ring.runs = .ok (front, back) ∧ front ++ back = items ∧
    (0 < items.length → front ≠ []) ∧ ring.isLinear = .ok linear ∧ (back = [] ↔ linear = true)
  /-- The entry that a walk yields after `count` others, from either end. -/
  walk : ∃ walk, ring.iterate = .ok walk ∧ ∀ count,
    (∃ walked, walk.after (List.replicate count .next) = .ok walked ∧
      walked.next.1 = items[count]?) ∧
    ∃ walked, walk.after (List.replicate count .nextBack) = .ok walked ∧
      walked.nextBack.1 = items.reverse[count]?

/-- Whichever way the element `old` at a logical index is reached, overwriting it there leads to the
ring `after`, which differs in its block only and reads as the list `items` does with one entry
exchanged. -/
structure Writes (ring : Ring α) (items : List (Item α)) (index : Nat) (old item : Item α)
    (after : Ring α) : Prop where
  reach : ∀ reach : Reach, reach.index ring.len = index →
    ring.reach reach = .ok (some (index, old))
  locate : ∀ cursor, ring.resolve cursor = .ok index → ring.locate cursor = .ok (index, old)
  overwrite : ring.overwrite index item = .ok (old, after)
  /-- The slots are those of the two runs, one after the other. -/
  overwriteSlot : ∃ front back slot, ring.block.wrappedSlots ring.start ring.len = .ok (front, back) ∧
    (front ++ back)[index]? = some slot ∧ ring.overwriteSlot slot item = .ok (old, after)
  block : after = { ring with block := after.block }
  reads : after.Reads (items.set index item)

theorem WellFormed.presents (wellFormed : ring.WellFormed)
    (listed : ring.toList[index]? = some item) : ring.Presents index item := by
  have inside : index < ring.len := by
    rw [← wellFormed.length_toList]
    exact (List.getElem?_eq_some_iff.mp listed).1
  have got : ring.get? index = .ok (some item) := by rw [wellFormed.get?_eq, listed]
  obtain ⟨cursor, given, points⟩ := wellFormed.cursorAt_points (Nat.le_of_lt inside)
  refine ⟨got, ?_, ?_, cursor, given, wellFormed.elementUnder_eq (points.resolve wellFormed) listed⟩
  · simp only [Ring.element, got, Query.liftM_ok, pure_bind]
    rfl
  · simp only [Ring.demand, got, Query.liftM_ok, pure_bind]
    rfl

theorem WellFormed.lacks (wellFormed : ring.WellFormed) (outside : ring.len ≤ index) :
    ring.Lacks index := by
  have got : ring.get? index = .ok none := by
    rw [wellFormed.get?_eq, List.getElem?_eq_none (by rwa [wellFormed.length_toList])]
  refine ⟨got, ?_, ?_, ?_, cursorAt_refused⟩
  · simp only [Ring.element, got, Query.liftM_ok, pure_bind]
    rfl
  · simp only [Ring.demand, got, Query.liftM_ok, pure_bind]
    rfl
  · rintro rfl
    obtain ⟨cursor, given, points⟩ := wellFormed.cursorAt_points (Nat.le_refl _)
    exact ⟨cursor, given, wellFormed.elementUnder_refused (points.resolve wellFormed)⟩

/-- The first run is empty only in an empty ring, and the second one exactly if the elements do not
reach beyond the end of the block. -/
theorem WellFormed.runs_split (wellFormed : ring.WellFormed) :
    ∃ front back linear, ring.runs = .ok (front, back) ∧ front ++ back = ring.toList ∧
      (0 < ring.toList.length → front ≠ []) ∧ ring.isLinear = .ok linear ∧
      (back = [] ↔ linear = true) := by
  have starts := wellFormed.starts
  have fits := wellFormed.fits
  obtain ⟨front, back, read, parts⟩ := wellFormed.runs_exists
  obtain ⟨linear, asked, holds⟩ := wellFormed.isLinear_exists
  have whole := wellFormed.length_toList
  have frontLength := wellFormed.length_front read
  rw [← parts, List.length_append] at whole
  refine ⟨front, back, linear, read, parts, ?_, asked, ?_⟩
  · intro some
    rw [← parts, List.length_append] at some
    exact List.ne_nil_of_length_pos (by omega)
  · rw [holds, ← List.length_eq_zero_iff]
    omega

theorem WellFormed.reads (wellFormed : ring.WellFormed) : ring.Reads ring.toList := by
  have length := wellFormed.length_toList
  constructor
  case length => exact length
  case present => exact fun _ _ => wellFormed.presents
  case absent => exact fun _ outside => wellFormed.lacks (length ▸ outside)
  case first => exact wellFormed.peek_eq .front
  case last => exact wellFormed.peek_eq .back
  case runs => exact wellFormed.runs_split
  case walk =>
    obtain ⟨walk, iterated, listed⟩ := wellFormed.iterate_exists
    have bounded : walk.toList.length < Word.limit := listed ▸ wellFormed.length_lt_word
    refine ⟨walk, iterated, fun count => ?_⟩
    rw [← listed]
    exact ⟨walk.next_after bounded count, walk.nextBack_after bounded count⟩

theorem WellFormed.reach_eq (wellFormed : ring.WellFormed) (listed : ring.toList[index]? = some old)
    (reach : Reach) (named : reach.index ring.len = index) :
    ring.reach reach = .ok (some (index, old)) := by
  have presents := wellFormed.presents listed
  cases reach with
  | get place =>
      obtain rfl : place = index := named
      simp only [Ring.reach, presents.get?]
      rfl
  | element place =>
      obtain rfl : place = index := named
      simp only [Ring.reach, presents.element]
      rfl
  | demand place =>
      obtain rfl : place = index := named
      simp only [Ring.reach, presents.demand]
      rfl
  | peek side =>
      have ending : side.last? ring.toList = some old := by
        cases side with
        | front =>
            obtain rfl : 0 = index := named
            rw [End.last?, List.head?_eq_getElem?, listed]
        | back =>
            obtain rfl : ring.len - 1 = index := named
            rw [End.last?, List.getLast?_eq_getElem?, wellFormed.length_toList, listed]
      subst named
      simp only [Ring.reach, wellFormed.peek_eq, ending]
      cases side <;> rfl

theorem WellFormed.writes_exists (wellFormed : ring.WellFormed)
    (listed : ring.toList[index]? = some old) (item : Item α) :
    ∃ after, ring.Writes ring.toList index old item after := by
  have inside : index < ring.len := by
    rw [← wellFormed.length_toList]
    exact (List.getElem?_eq_some_iff.mp listed).1
  obtain ⟨after, replaced, congruent, written⟩ := overwriteSlot_place wellFormed listed item
  refine ⟨after, ?_⟩
  constructor
  case reach => exact wellFormed.reach_eq listed
  case locate =>
    intro cursor resolved
    simp only [Ring.locate, resolved, Query.ok_bind, wellFormed.get?_eq, listed, Query.liftM_ok,
      pure_bind]
    rfl
  case overwrite =>
    -- The slot of an index is computed and not looked up; both ways lead to the same place.
    simp only [Ring.overwrite, slotOf_eq wellFormed.sited, Checked.ok_bind]
    exact replaced
  case overwriteSlot =>
    obtain ⟨frontSlots, backSlots, -, -, split, slots, -⟩ := wellFormed.slots_hold
    refine ⟨frontSlots, backSlots, ring.place index, split, ?_, replaced⟩
    rw [slots, List.getElem?_map, List.getElem?_range inside, Option.map_some]
  case block =>
    cases after
    cases congruent.start
    cases congruent.len
    cases congruent.registry
    rfl
  case reads => exact written ▸ congruent.wellFormed.reads

end Ring

end RingDeque
