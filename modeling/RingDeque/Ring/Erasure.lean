import RingDeque.Ring.Insertion

/-!
Removal from the middle of a ring.

The doomed elements are moved to one end, past the side with fewer elements, and then destroyed
one by one. A destruction that fails leaves the elements not yet destroyed at that end.
-/

namespace RingDeque.Ring

variable {α : Type}

/-- Removes `count` elements from the logical index `index` on. If both sides are equally long,
the side `tie` moves. -/
def removeRange (index count : Nat) (tie : End) : Act (Ring α) α Unit := do
  if count = 0 then
    return
  let ring ← Act.buffer
  let behind ← Word.sub (← Word.sub ring.len index) count
  let side := End.shorter index behind tie
  match side with
  | .front => Act.alter (·.shiftBack count (List.range index).reverse)
  | .back =>
      let first ← Word.add index count
      Act.alter (·.shiftFront count (List.range' first behind))
  evict side count

/-- The cursor that an erasure at the logical index `index` returns: towards the back, the cursor
to what followed; towards the front, the one to what came before, or else to the first element. -/
def cursorBeside (ring : Ring α) (toward : End) (index : Nat) : Checked Cursor :=
  match toward with
  | .back => ring.cursorFor index
  | .front => ring.cursorFor (index - 1)

/-- Removes the element under a cursor. Returns the cursor to its neighbour towards the end
`toward`. -/
def erase (toward : End) (cursor : Cursor) : Act (Ring α) α Cursor := do
  let index ← (← Act.buffer).resolveElement cursor
  removeRange index 1 toward
  (← Act.buffer).cursorBeside toward index

/-- Removes the elements from one cursor up to another one. Returns the cursor to their neighbour
towards the end `toward`; if there are none, the first cursor. -/
def eraseRange (toward : End) (first last : Cursor) : Act (Ring α) α Cursor := do
  let (source, target) ← (← Act.buffer).resolveRange first last
  if source = target then
    return ← (← Act.buffer).cursorFor source
  let count ← Word.sub target source
  removeRange source count toward
  (← Act.buffer).cursorBeside toward source

end RingDeque.Ring
