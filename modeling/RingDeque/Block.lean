import RingDeque.Word

/-!
A block of storage: a fixed number of slots, each of which holds an element or nothing.

The block itself does not know which of its slots ought to hold something. Reading demands an
element and writing demands an empty slot, so an operation that loses track of its elements ends
in a fault.
-/

namespace RingDeque

/-- Slots that are numbered by words, from zero on. -/
structure Block (β : Type) where
  slots : Array (Option β)
  bounded : slots.size < Word.limit

namespace Block

variable {β : Type}

/-- The number of slots. -/
def size (block : Block β) : Nat :=
  block.slots.size

/-- The block without slots. -/
def empty : Block β where
  slots := #[]
  bounded := by simp [Word.limit]

/-- A block of empty slots. -/
def blank (capacity : Nat) (bounded : capacity < Word.limit) : Block β where
  slots := Array.replicate capacity none
  bounded := by simpa using bounded

/-- A block that holds the given elements and has no other slot. Their number is a word. -/
def ofList (values : List β) : Checked (Block β) :=
  if bounded : values.length < Word.limit then
    .ok ⟨(values.map some).toArray, by simpa using bounded⟩
  else
    .error .overflow

/-- What a slot holds; nothing beyond the block. -/
def get? (block : Block β) (slot : Nat) : Option β :=
  block.slots[slot]?.join

/-- Puts something, or nothing, into a slot of the block. -/
def put (block : Block β) (slot : Nat) (content : Option β) (inside : slot < block.slots.size) :
    Block β where
  slots := block.slots.set slot content inside
  bounded := by simpa using block.bounded

/-- The element in a slot. -/
def read (block : Block β) (slot : Nat) : Checked β :=
  if inside : slot < block.slots.size then
    match block.slots[slot] with
    | some value => .ok value
    | none => .error .raw
  else
    .error .outside

/-- Fills an empty slot. -/
def write (block : Block β) (slot : Nat) (value : β) : Checked (Block β) :=
  if inside : slot < block.slots.size then
    match block.slots[slot] with
    | some _ => .error .occupied
    | none => .ok (block.put slot (some value) inside)
  else
    .error .outside

/-- Moves the element out of a slot and leaves the slot empty. -/
def take (block : Block β) (slot : Nat) : Checked (β × Block β) :=
  if inside : slot < block.slots.size then
    match block.slots[slot] with
    | some value => .ok (value, block.put slot none inside)
    | none => .error .raw
  else
    .error .outside

/-- Puts another element in the place of the one in a slot, and hands that one out. -/
def replace (block : Block β) (slot : Nat) (value : β) : Checked (β × Block β) :=
  if inside : slot < block.slots.size then
    match block.slots[slot] with
    | some old => .ok (old, block.put slot (some value) inside)
    | none => .error .raw
  else
    .error .outside

/-- Exchanges what two slots hold, be it elements or nothing. -/
def swap (block : Block β) (first second : Nat) : Checked (Block β) :=
  if inside : first < block.slots.size ∧ second < block.slots.size then
    .ok {
      slots := block.slots.swap first second inside.1 inside.2
      bounded := by simpa using block.bounded }
  else
    .error .outside

/-- Fills consecutive empty slots, from `start` on. -/
def writeRun (block : Block β) (start : Nat) : List β → Checked (Block β)
  | [] => .ok block
  | value :: rest => do
      let block ← block.write start value
      block.writeRun (← Word.add start 1) rest

/-- The `len` slots from `start` on, where the slot after the last is the first: the run up to the
end of the block, and the run from its beginning. -/
def wrappedSlots (block : Block β) (start len : Nat) : Checked (List Nat × List Nat) := do
  if len = 0 then
    return ([], [])
  if block.size < start then
    throw .outside
  let room := block.size - start
  if len ≤ room then
    return (List.range' start len, [])
  let wrapped ← Word.sub len room
  if start < wrapped then
    throw .outside
  return (List.range' start room, List.range wrapped)

/-- The elements in the `len` slots from `start` on, as the same two runs. -/
def wrappedRuns (block : Block β) (start len : Nat) : Checked (List β × List β) := do
  let (front, back) ← block.wrappedSlots start len
  return (← front.mapM block.read, ← back.mapM block.read)

/-- Moves the elements out of the given slots. -/
def takeSlots (block : Block β) : List Nat → Checked (List β × Block β)
  | [] => .ok ([], block)
  | slot :: rest => do
      let (value, block) ← block.take slot
      let (values, block) ← block.takeSlots rest
      return (value :: values, block)

/-- Moves the elements out of the `len` slots from `start` on, as the same two runs. -/
def takeRuns (block : Block β) (start len : Nat) : Checked ((List β × List β) × Block β) := do
  let (front, back) ← block.wrappedSlots start len
  let (front, block) ← block.takeSlots front
  let (back, block) ← block.takeSlots back
  return ((front, back), block)

end Block

end RingDeque
