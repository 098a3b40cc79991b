import RingDeque.Ring.Access

/-!
Cursors of a ring: issuing them, resolving them to logical indices, and moving them.

Arithmetic on cursors is arithmetic on logical indices, where the place one past the last element
has the length as its index.
-/

namespace RingDeque.Ring

variable {α : Type}

/-- The cursor to a logical index, or the one past the last element for an index beyond. -/
def cursorFor (ring : Ring α) (index : Nat) : Checked Cursor := do
  if ring.len ≤ index then
    return ring.registry.endCursor
  else
    return ring.registry.slotCursor (← ring.slotOf index)

/-- The cursor to the first element. -/
def begin (ring : Ring α) : Checked Cursor :=
  ring.cursorFor 0

/-- The cursor one past the last element. -/
def finish (ring : Ring α) : Cursor :=
  ring.registry.endCursor

/-- The cursor to a logical index, which may be the length. -/
def cursorAt (ring : Ring α) (index : Nat) : Query Cursor := do
  if ring.len < index then
    refuse (.indexOutOfRange index ring.len)
  else
    ring.cursorFor index

/-- The logical index of a cursor that the ring accepts. -/
def resolve (ring : Ring α) (cursor : Cursor) : Query Nat := do
  if ring.registry.accepts cursor then
    Slot.positionIndex cursor.slot ring.start ring.len ring.capacity
  else
    refuse .invalidCursor

/-- The logical index of a cursor to an element. -/
def resolveElement (ring : Ring α) (cursor : Cursor) : Query Nat := do
  let index ← ring.resolve cursor
  if index = ring.len then
    refuse .endOfBuffer
  return index

/-- The logical indices of two cursors that stand in order. -/
def resolveRange (ring : Ring α) (first last : Cursor) : Query (Nat × Nat) := do
  let source ← ring.resolve first
  let target ← ring.resolve last
  if target < source then
    refuse (.invalidRange source target)
  return (source, target)

/-- The logical index of a cursor and the element there. -/
def locate (ring : Ring α) (cursor : Cursor) : Query (Nat × Item α) := do
  let index ← ring.resolve cursor
  match ← ring.get? index with
  | some item => return (index, item)
  | none => refuse .endOfBuffer

/-- The element under a cursor. -/
def elementUnder (ring : Ring α) (cursor : Cursor) : Query (Item α) :=
  return (← ring.locate cursor).2

/-- The cursor `n` places further on, which must stay between the first element and the place one
past the last. -/
def offset (ring : Ring α) (cursor : Cursor) (n : Int) : Query Cursor := do
  let index ← ring.resolve cursor
  match Word.addSigned? index n with
  | some target =>
      if target ≤ ring.len then
        ring.cursorFor target
      else
        refuse (.cursorOutOfRange index n ring.len)
  | none => refuse (.cursorOutOfRange index n ring.len)

def next (ring : Ring α) (cursor : Cursor) : Query Cursor :=
  ring.offset cursor 1

def previous (ring : Ring α) (cursor : Cursor) : Query Cursor :=
  ring.offset cursor (-1)

/-- The signed number of places from one cursor to another. -/
def distance (ring : Ring α) (source target : Cursor) : Query Int := do
  if ring.registry.accepts source && ring.registry.accepts target then
    Slot.distance source.slot target.slot ring.start ring.len ring.capacity
  else
    refuse .invalidCursor

/-- The order of two cursors: a cursor comes before another if the way to that one is positive. -/
def compareCursors (ring : Ring α) (first second : Cursor) : Query Ordering := do
  return (compare (← ring.distance first second) 0).swap

end RingDeque.Ring
