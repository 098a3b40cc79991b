import RingDeque.Proofs.Ring.Aging
import RingDeque.Ring.Ends

/-!
Pushing and popping against lists.

`End.pushed` and `End.popped` are the operations on a list of bounded length that `Ring.push` and
`Ring.pop` carry out on the contents of a ring, in every layout.
-/

namespace RingDeque

namespace End

variable {β : Type}

/-- A list without `count` entries at an end. -/
def trim (side : End) (count : Nat) (items : List β) : List β :=
  match side with
  | .front => items.drop count
  | .back => items.take (items.length - count)

/-- The entries that `trim` leaves out. -/
def trimmed (side : End) (count : Nat) (items : List β) : List β :=
  match side with
  | .front => items.take count
  | .back => items.drop (items.length - count)

/-- A list with one more entry at an end. -/
def attach (side : End) (item : β) (items : List β) : List β :=
  match side with
  | .front => item :: items
  | .back => items ++ [item]

/-- The entry at an end. -/
def last? (side : End) (items : List β) : Option β :=
  match side with
  | .front => items.head?
  | .back => items.getLast?

/-- What is handed out and what remains when an entry is added to at most `capacity` entries. -/
def pushed (side : End) (capacity : Nat) (items : List β) (item : β) : Option β × List β :=
  if capacity = 0 then
    (some item, items)
  else if items.length < capacity then
    (none, side.attach item items)
  else
    (side.opposite.last? items, side.attach item (side.opposite.trim 1 items))

/-- What is handed out and what remains when an entry is removed. -/
def popped (side : End) (items : List β) : Option β × List β :=
  (side.last? items, side.trim 1 items)

theorem length_trim (side : End) (count : Nat) (items : List β) :
    (side.trim count items).length = items.length - count := by
  cases side <;> simp [trim]

theorem trim_zero (side : End) (items : List β) : side.trim 0 items = items := by
  cases side <;> simp [trim]

theorem trim_nil (side : End) (count : Nat) : side.trim count ([] : List β) = [] := by
  cases side <;> simp [trim]

theorem trim_trim (side : End) (first second : Nat) (items : List β) :
    side.trim second (side.trim first items) = side.trim (first + second) items := by
  cases side with
  | front => simp [trim]
  | back =>
      simp only [trim, List.length_take, List.take_take]
      congr 1
      omega

/-- Where the entries begin that stay when `count` of them go at an end. -/
def keptFrom (side : End) (count : Nat) : Nat :=
  match side with
  | .front => count
  | .back => 0

/-- Where the entries begin that go at an end when `kept` others stay. -/
def trimmedFrom (side : End) (kept : Nat) : Nat :=
  match side with
  | .front => 0
  | .back => kept

/-- The index at which a row of `len` entries ends, seen from an end. -/
def farIndex (side : End) (len : Nat) : Nat :=
  match side with
  | .front => len
  | .back => 0

theorem take_drop_keptFrom (side : End) {kept count : Nat} {items : List β}
    (parts : kept + count = items.length) :
    (items.drop (side.keptFrom count)).take kept = side.trim count items := by
  cases side with
  | front => rw [keptFrom, trim, List.take_of_length_le (by rw [List.length_drop]; omega)]
  | back =>
      rw [keptFrom, trim, List.drop_zero, ← parts, Nat.add_sub_cancel]

theorem take_drop_trimmedFrom (side : End) {kept count : Nat} {items : List β}
    (parts : kept + count = items.length) :
    (items.drop (side.trimmedFrom kept)).take count = side.trimmed count items := by
  cases side with
  | front => rw [trimmedFrom, trimmed, List.drop_zero]
  | back =>
      rw [trimmedFrom, trimmed, ← parts, Nat.add_sub_cancel,
        List.take_of_length_le (by rw [List.length_drop]; omega)]

theorem last?_eq_none_iff (side : End) (items : List β) : side.last? items = none ↔ items = [] := by
  cases side <;> simp [last?]

theorem perm_of_last? {side : End} {items : List β} {item : β}
    (found : side.last? items = some item) : items.Perm (item :: side.trim 1 items) := by
  cases side with
  | front =>
      cases items with
      | nil => simp [last?] at found
      | cons first rest =>
          simp only [last?, List.head?_cons, Option.some.injEq] at found
          simp [trim, found]
  | back =>
      simp only [last?, List.getLast?_eq_some_iff] at found
      obtain ⟨rest, rfl⟩ := found
      simp only [trim, List.length_append, List.length_singleton, Nat.add_sub_cancel,
        List.take_left']
      exact List.perm_append_singleton _ _

theorem perm_attach (side : End) (item : β) (items : List β) :
    (side.attach item items).Perm (item :: items) := by
  cases side with
  | front => exact List.Perm.refl _
  | back => exact List.perm_append_singleton _ _

end End

namespace Ring

variable {α : Type} {ring before middle after : Ring α} {index : Nat} {item : Item α}
  {items rest : List (Item α)}

/-- A ring that came to hold other elements in a block of the same size. -/
structure Becomes (before after : Ring α) (items : List (Item α)) : Prop where
  wellFormed : after.WellFormed
  toList : after.toList = items
  capacity : after.capacity = before.capacity
  ages : Ages False before after

theorem Becomes.refl (wellFormed : ring.WellFormed) : ring.Becomes ring ring.toList :=
  ⟨wellFormed, rfl, rfl, .refl ring⟩

theorem Becomes.trans (first : before.Becomes middle items) (second : middle.Becomes after rest) :
    before.Becomes after rest :=
  ⟨second.wellFormed, second.toList, second.capacity.trans first.capacity,
    first.ages.trans second.ages⟩

theorem Becomes.len (becomes : before.Becomes after items) : after.len = items.length := by
  rw [← becomes.toList, becomes.wellFormed.length_toList]

/-- A ring that came to hold other elements in a block of any size, where elements may have been
`written` over in place. -/
structure TurnsInto (written : Prop) (before after : Ring α) (capacity : Nat)
    (items : List (Item α)) : Prop where
  wellFormed : after.WellFormed
  toList : after.toList = items
  sized : after.capacity = capacity
  ages : Ages written before after

theorem Becomes.turnsInto {written : Prop} (becomes : before.Becomes after items) :
    before.TurnsInto written after before.capacity items :=
  ⟨becomes.wellFormed, becomes.toList, becomes.capacity, becomes.ages.mono False.elim⟩

theorem WellFormed.get?_place_eq (wellFormed : ring.WellFormed) (inside : index < ring.len) :
    ring.block.get? (ring.place index) = some (getElem ring.toList index (by
      rw [wellFormed.length_toList]; exact inside)) := by
  have held := wellFormed.cell_eq inside
  rw [List.getElem?_eq_getElem (by rw [wellFormed.length_toList]; exact inside)] at held
  exact held

theorem place_of_turn {turn : Nat} (sited : ring.Sited) (capacity : after.capacity = ring.capacity)
    (start : after.start = Slot.wrapped ring.capacity (ring.start + turn))
    (bound : turn ≤ ring.capacity) (inside : index < ring.capacity) :
    after.place index = ring.place (Slot.wrapped ring.capacity (index + turn)) := by
  have starts := sited.starts
  simp only [place, capacity, start, Slot.wrapped]
  split <;> split <;> split <;> split <;> omega

/-- A ring that differs in what one cell holds, and whose first element may be another one. -/
theorem Becomes.of_put {turn changed : Nat} {content : Option (Item α)}
    (wellFormed : ring.WellFormed) (turnBound : turn ≤ ring.capacity)
    (known : changed < ring.capacity) (inside : ring.place changed < ring.block.slots.size)
    (block : after.block = ring.block.put (ring.place changed) content inside)
    (start : after.start = Slot.wrapped ring.capacity (ring.start + turn))
    (registry : after.registry = ring.registry.touch (ring.place changed) ∨
      after.registry = ring.registry ∧ ring.cell changed = none)
    (length : after.len = items.length) (fits : items.length ≤ ring.capacity)
    (entries : ∀ index < ring.capacity, items[index]? =
      if Slot.wrapped ring.capacity (index + turn) = changed then content
      else ring.toList[Slot.wrapped ring.capacity (index + turn)]?) :
    ring.Becomes after items := by
  have starts := wellFormed.starts
  have sameCapacity : after.capacity = ring.capacity := by
    change after.block.size = ring.block.size
    rw [block, Block.size_put]
  have sited : after.Sited := by
    refine ⟨?_, ?_⟩
    · have := Slot.wrapped_lt (show ring.start + turn < 2 * ring.capacity by omega)
      rw [start]
      omega
    · rcases registry with touched | ⟨same, -⟩
      · rw [touched, Registry.size_touch, wellFormed.stamped, sameCapacity]
      · rw [same, wellFormed.stamped, sameCapacity]
  have cells : ∀ index < after.capacity, after.cell index = items[index]? := by
    intro index indexInside
    rw [sameCapacity] at indexInside
    have turned : Slot.wrapped ring.capacity (index + turn) < ring.capacity :=
      Slot.wrapped_lt (by omega)
    have put : after.cell index =
        (ring.putCell changed content inside).cell (Slot.wrapped ring.capacity (index + turn)) := by
      rw [cell, cell, putCell_place, block,
        place_of_turn wellFormed.sited sameCapacity start turnBound indexInside, putCell]
    rw [put, cell_putCell known turned, entries index indexInside,
      wellFormed.cell_eq_getElem? turned]
  obtain ⟨valid, contents⟩ := wellFormed_of_cells after items sited length
    (by rw [sameCapacity]; exact fits) cells
  refine ⟨valid, contents, sameCapacity, ?_⟩
  have others : ∀ other ≠ ring.place changed,
      after.block.get? other = ring.block.get? other := by
    intro other distinct
    rw [block, Block.get?_put, if_neg distinct]
  rcases registry with touched | ⟨same, vacant⟩
  · exact .of_touch touched others
  · exact .of_vacant same vacant others

theorem start_eq_wrapped (sited : ring.Sited) (positive : 0 < ring.capacity) :
    ring.start = Slot.wrapped ring.capacity (ring.start + 0) := by
  have starts := sited.starts
  rw [Slot.wrapped, if_pos (by omega), Nat.add_zero]

theorem pushBack_exists (wellFormed : ring.WellFormed) (item : Item α) :
    ∃ after, ring.pushBack item = .ok ((End.back.pushed ring.capacity ring.toList item).1, after) ∧
      ring.Becomes after (End.back.pushed ring.capacity ring.toList item).2 := by
  have fits := wellFormed.fits
  have starts := wellFormed.starts
  have word := wellFormed.capacity_double_lt_word
  have sited := wellFormed.sited
  have length := wellFormed.length_toList
  simp only [pushBack, End.pushed, length, isFull, beq_iff_eq]
  by_cases empty : ring.capacity = 0
  · rw [if_pos empty, if_pos empty]
    exact ⟨ring, rfl, .refl wellFormed⟩
  rw [if_neg empty, if_neg empty]
  by_cases full : ring.len = ring.capacity
  · have first := wellFormed.get?_place_eq (show 0 < ring.len by omega)
    have inside := place_lt_slots sited (show 0 < ring.capacity by omega)
    rw [if_pos full, if_neg (by omega), ← place_zero sited]
    simp only [Slot.next_eq (place_lt sited (show 0 < ring.capacity by omega))
      ring.capacity_lt_word, Checked.ok_bind, Block.replace_eq inside first, Checked.pure_eq_ok,
      End.opposite, End.last?, End.attach, End.trim, List.head?_eq_getElem?]
    rw [List.getElem?_eq_getElem (by omega)]
    refine ⟨_, rfl, .of_put wellFormed (show 1 ≤ ring.capacity by omega) (by omega) inside rfl ?_ (.inl rfl)
      ?_ ?_ ?_⟩
    · exact congrArg (fun slot => Slot.wrapped ring.capacity (slot + 1)) (place_zero sited)
    · simp only [List.length_append, List.length_drop, List.length_singleton]
      omega
    · simp only [List.length_append, List.length_drop, List.length_singleton]
      omega
    · intro index indexInside
      grind [Slot.wrapped]
  · have vacant := wellFormed.cell_vacant (Nat.le_refl _) (show ring.len < ring.capacity by omega)
    have inside := place_lt_slots sited (show ring.len < ring.capacity by omega)
    rw [if_neg full, if_pos (by omega)]
    simp only [slotOf_eq sited, Checked.ok_bind, Block.write_eq inside vacant,
      Word.add_eq (show ring.len + 1 < Word.limit by omega), Checked.pure_eq_ok, End.attach]
    refine ⟨_, rfl, .of_put wellFormed (by omega) (by omega) inside rfl
      (start_eq_wrapped sited (by omega)) (.inr ⟨rfl, vacant⟩) ?_ ?_ ?_⟩
    · simp only [List.length_append, List.length_singleton, length]
    · simp only [List.length_append, List.length_singleton, length]
      omega
    · intro index indexInside
      grind [Slot.wrapped]

theorem previous_start (sited : ring.Sited) (positive : 0 < ring.capacity) :
    Slot.previous ring.start ring.capacity = .ok (ring.place (ring.capacity - 1)) := by
  have starts := sited.starts
  exact Slot.previous_eq (by omega)

theorem pushFront_exists (wellFormed : ring.WellFormed) (item : Item α) :
    ∃ after, ring.pushFront item = .ok ((End.front.pushed ring.capacity ring.toList item).1, after) ∧
      ring.Becomes after (End.front.pushed ring.capacity ring.toList item).2 := by
  have fits := wellFormed.fits
  have word := wellFormed.capacity_double_lt_word
  have sited := wellFormed.sited
  have length := wellFormed.length_toList
  simp only [pushFront, End.pushed, length, isFull, beq_iff_eq]
  by_cases empty : ring.capacity = 0
  · rw [if_pos empty, if_pos empty]
    exact ⟨ring, rfl, .refl wellFormed⟩
  have inside := place_lt_slots sited (show ring.capacity - 1 < ring.capacity by omega)
  simp only [if_neg empty, previous_start sited (show 0 < ring.capacity by omega), Checked.ok_bind]
  by_cases full : ring.len = ring.capacity
  · have last := wellFormed.get?_place_eq (show ring.capacity - 1 < ring.len by omega)
    have final : ring.toList.getLast? = some (ring.toList[ring.capacity - 1]) := by
      rw [List.getLast?_eq_getElem?, List.getElem?_eq_getElem (by omega)]
      simp only [length, full]
    rw [if_pos full, if_neg (by omega)]
    simp only [Block.replace_eq inside last, Checked.ok_bind, Checked.pure_eq_ok, End.opposite,
      End.last?, End.attach, End.trim, final]
    refine ⟨_, rfl, .of_put wellFormed (by omega)
      (by omega) inside rfl rfl (.inl rfl) ?_ ?_ ?_⟩
    · simp only [List.length_cons, List.length_take]
      omega
    · simp only [List.length_cons, List.length_take]
      omega
    · intro index indexInside
      grind [Slot.wrapped]
  · have vacant := wellFormed.cell_vacant (show ring.len ≤ ring.capacity - 1 by omega)
      (by omega)
    simp only [if_neg full, if_pos (show ring.len < ring.capacity by omega), Checked.ok_bind,
      Block.write_eq inside vacant, Word.add_eq (show ring.len + 1 < Word.limit by omega),
      Checked.pure_eq_ok, End.attach]
    refine ⟨_, rfl, .of_put wellFormed (by omega) (by omega) inside rfl
      rfl (.inr ⟨rfl, vacant⟩) ?_ ?_ ?_⟩
    · simp only [List.length_cons, length]
    · simp only [List.length_cons, length]
      omega
    · intro index indexInside
      grind [Slot.wrapped]

theorem popBack_exists (wellFormed : ring.WellFormed) :
    ∃ after, ring.popBack = .ok ((End.back.popped ring.toList).1, after) ∧
      ring.Becomes after (End.back.popped ring.toList).2 := by
  have fits := wellFormed.fits
  have sited := wellFormed.sited
  have length := wellFormed.length_toList
  simp only [popBack, End.popped, End.last?, End.trim, isEmpty, beq_iff_eq]
  by_cases empty : ring.len = 0
  · have nothing : ring.toList = [] := List.eq_nil_of_length_eq_zero (by omega)
    rw [if_pos empty, nothing]
    refine ⟨ring, rfl, ?_⟩
    simpa [nothing] using Becomes.refl wellFormed
  · have last := wellFormed.get?_place_eq (show ring.len - 1 < ring.len by omega)
    have inside := place_lt_slots sited (show ring.len - 1 < ring.capacity by omega)
    simp only [if_neg empty, Word.sub_eq (show 1 ≤ ring.len by omega), Checked.ok_bind,
      slotOf_eq sited, Block.take_eq inside last, Checked.pure_eq_ok, List.getLast?_eq_getElem?,
      length]
    rw [List.getElem?_eq_getElem (by omega)]
    refine ⟨_, rfl, .of_put wellFormed (by omega) (by omega) inside rfl
      (start_eq_wrapped sited (by omega)) (.inl rfl) ?_ ?_ ?_⟩
    · simp only [List.length_take]
      omega
    · simp only [List.length_take]
      omega
    · intro index indexInside
      grind [Slot.wrapped]

theorem popFront_exists (wellFormed : ring.WellFormed) :
    ∃ after, ring.popFront = .ok ((End.front.popped ring.toList).1, after) ∧
      ring.Becomes after (End.front.popped ring.toList).2 := by
  have fits := wellFormed.fits
  have sited := wellFormed.sited
  have length := wellFormed.length_toList
  simp only [popFront, End.popped, End.last?, End.trim, isEmpty, beq_iff_eq]
  by_cases empty : ring.len = 0
  · have nothing : ring.toList = [] := List.eq_nil_of_length_eq_zero (by omega)
    rw [if_pos empty, nothing]
    refine ⟨ring, rfl, ?_⟩
    simpa [nothing] using Becomes.refl wellFormed
  · have first := wellFormed.get?_place_eq (show 0 < ring.len by omega)
    have inside := place_lt_slots sited (show 0 < ring.capacity by omega)
    rw [if_neg empty, ← place_zero sited]
    simp only [Slot.next_eq (place_lt sited (show 0 < ring.capacity by omega))
      ring.capacity_lt_word, Word.sub_eq (show 1 ≤ ring.len by omega), Checked.ok_bind,
      Block.take_eq inside first, Checked.pure_eq_ok, List.head?_eq_getElem?]
    rw [List.getElem?_eq_getElem (by omega)]
    refine ⟨_, rfl, .of_put wellFormed (show 1 ≤ ring.capacity by omega) (by omega) inside rfl ?_ (.inl rfl)
      ?_ ?_ ?_⟩
    · exact congrArg (fun slot => Slot.wrapped ring.capacity (slot + 1)) (place_zero sited)
    · simp only [List.length_drop]
      omega
    · simp only [List.length_drop]
      omega
    · intro index indexInside
      grind [Slot.wrapped]

theorem push_exists (wellFormed : ring.WellFormed) (side : End) (item : Item α) :
    ∃ after, push side ring item = .ok ((side.pushed ring.capacity ring.toList item).1, after) ∧
      ring.Becomes after (side.pushed ring.capacity ring.toList item).2 := by
  cases side with
  | front => exact pushFront_exists wellFormed item
  | back => exact pushBack_exists wellFormed item

theorem pop_exists (wellFormed : ring.WellFormed) (side : End) :
    ∃ after, pop side ring = .ok ((side.popped ring.toList).1, after) ∧
      ring.Becomes after (side.popped ring.toList).2 := by
  cases side with
  | front => exact popFront_exists wellFormed
  | back => exact popBack_exists wellFormed

end Ring

end RingDeque
