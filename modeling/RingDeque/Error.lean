import RingDeque.Listing

/-!
The reasons for which a buffer refuses an operation, and their texts.
-/

namespace RingDeque

/-- Why an operation was refused. -/
inductive Error where
  /-- A logical index at or beyond the length. -/
  | indexOutOfRange (index length : Nat)
  /-- A block of this many slots cannot be had. -/
  | allocationFailed (requested : Nat)
  /-- A cursor of another buffer, or one whose element has gone. -/
  | invalidCursor
  /-- The cursor one past the last element, where an element is needed. -/
  | endOfBuffer
  /-- A step from a logical index that leaves the buffer. -/
  | cursorOutOfRange (index : Nat) (offset : Int) (length : Nat)
  /-- A range whose first position comes after its last. -/
  | invalidRange (first last : Nat)
  /-- A storage floor, or a number of elements, above the capacity. -/
  | invalidCapacity (capacity minCapacity : Nat)
deriving Repr, DecidableEq

namespace Error

def message : Error → String
  | .indexOutOfRange index length =>
      s!"Index out of range: index {index} is beyond buffer length {length}"
  | .allocationFailed requested =>
      s!"Allocation failed: could not reserve storage for {requested} elements"
  | .invalidCursor =>
      "Invalid cursor: the cursor was invalidated or belongs to another buffer"
  | .endOfBuffer =>
      "End of buffer: the end cursor does not refer to an element"
  | .cursorOutOfRange index offset length =>
      s!"Cursor out of range: moving index {index} by {offset} leaves buffer length {length}"
  | .invalidRange first last =>
      s!"Invalid range: first position {first} is after last position {last}"
  | .invalidCapacity capacity minCapacity =>
      s!"Invalid capacity: {capacity} is incompatible with minimum capacity {minCapacity}"

/-- The name of the kind of error, without its numbers. -/
def kind : Error → String
  | .indexOutOfRange .. => "IndexOutOfRange"
  | .allocationFailed .. => "AllocationFailed"
  | .invalidCursor => "InvalidCursor"
  | .endOfBuffer => "EndOfBuffer"
  | .cursorOutOfRange .. => "CursorOutOfRange"
  | .invalidRange .. => "InvalidRange"
  | .invalidCapacity .. => "InvalidCapacity"

/-- The numbers an error carries, by name. -/
def fields : Error → List (String × Int)
  | .indexOutOfRange index length => [("index", index), ("length", length)]
  | .allocationFailed requested => [("requested", requested)]
  | .invalidCursor => []
  | .endOfBuffer => []
  | .cursorOutOfRange index offset length =>
      [("index", index), ("offset", offset), ("length", length)]
  | .invalidRange first last => [("first", first), ("last", last)]
  | .invalidCapacity capacity minCapacity =>
      [("capacity", capacity), ("min_capacity", minCapacity)]

/-- An error as a record; one without numbers is its name alone. -/
def listing (error : Error) : Listing :=
  match error.fields with
  | [] => .leaf error.kind
  | fields => .record error.kind (fields.map fun (name, value) => (name, .leaf (toString value)))

end Error

end RingDeque
