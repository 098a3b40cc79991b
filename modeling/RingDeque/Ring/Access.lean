import RingDeque.Ring.Basic

/-!
Reading and overwriting single elements, and the two runs in which the elements lie.
-/

namespace RingDeque

/-- The ways of naming an element, which differ in what happens if there is none. -/
inductive Reach where
  /-- By a logical index that may have no element. -/
  | get (index : Nat)
  /-- By a logical index; without an element the access is refused. -/
  | element (index : Nat)
  /-- By a logical index that the caller vouches for; without an element the access is cut
  short. -/
  | demand (index : Nat)
  /-- As the element at an end, if there is one. -/
  | peek (side : End)
deriving Repr, DecidableEq

namespace Ring

variable {α : Type}

/-- The element at a logical index, if there is one. -/
def get? (ring : Ring α) (index : Nat) : Checked (Option (Item α)) := do
  if index < ring.len then
    return some (← ring.block.read (← ring.slotOf index))
  else
    return none

/-- The element at a logical index. -/
def element (ring : Ring α) (index : Nat) : Query (Item α) := do
  match ← ring.get? index with
  | some item => return item
  | none => refuse (.indexOutOfRange index ring.len)

/-- The element at a logical index that the caller vouches for: a wrong index interrupts. -/
def demand (ring : Ring α) (index : Nat) : Query (Item α) := do
  match ← ring.get? index with
  | some item => return item
  | none => throw (.interrupted (.indexOutOfRange index ring.len))

/-- The logical index of the last element, if there is one. -/
def lastIndex? (ring : Ring α) : Option Nat :=
  if ring.len = 0 then none else some (ring.len - 1)

/-- The element at an end, if there is one. -/
def peek (ring : Ring α) : End → Checked (Option (Item α))
  | .front => ring.get? 0
  | .back =>
      match ring.lastIndex? with
      | some last => ring.get? last
      | none => .ok none

/-- The element that is named, with its logical index. -/
def reach (ring : Ring α) : Reach → Query (Option (Nat × Item α))
  | .get index => return (← ring.get? index).map (index, ·)
  | .element index => return some (index, ← ring.element index)
  | .demand index => return some (index, ← ring.demand index)
  | .peek side => do
      let index := match side with
        | .front => 0
        | .back => ring.len - 1
      return (← ring.peek side).map (index, ·)

/-- Overwrites the element at a logical index in place and hands out the old one. Cursors to the
slot stay as they are. -/
def overwrite (ring : Ring α) (index : Nat) (item : Item α) : Checked (Item α × Ring α) := do
  let (old, block) ← ring.block.replace (← ring.slotOf index) item
  return (old, { ring with block })

/-- The elements as two runs: from the first element towards the end of the block, and from the
beginning of the block on. -/
def runs (ring : Ring α) : Checked (List (Item α) × List (Item α)) :=
  ring.block.wrappedRuns ring.start ring.len

/-- The elements in order, read from the block. -/
def contents (ring : Ring α) : Checked (List (Item α)) := do
  let (front, back) ← ring.runs
  return front ++ back

/-- Whether the elements lie in one run. -/
def isLinear (ring : Ring α) : Checked Bool := do
  let finish ← Word.add ring.start ring.len
  return decide (finish ≤ ring.capacity)

/-- Replaces elements by others, from the logical index `index` on. -/
def overwriteFrom (ring : Ring α) (index : Nat) : List (Item α) → Checked (Ring α)
  | [] => .ok ring
  | item :: rest => do
      let (_, ring) ← ring.overwrite index item
      ring.overwriteFrom (← Word.add index 1) rest

/-- Reverses each of the two runs in place. -/
def reverseRuns (ring : Ring α) : Checked (Ring α) := do
  let (front, back) ← ring.runs
  ring.overwriteFrom 0 (front.reverse ++ back.reverse)

end Ring

end RingDeque
