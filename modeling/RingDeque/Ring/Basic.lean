import RingDeque.Block.Allocation
import RingDeque.Cursor
import RingDeque.Slot
import RingDeque.Supply

/-!
Rings: a double-ended queue in a block of fixed size.

The elements occupy the `len` slots from `start` on, where the slot after the last slot of the
block is the first. `Ring.toList` is the view in which operations are to be understood, and
`Ring.WellFormed` says when a ring's bookkeeping agrees with its block: only then do the checked
steps of this library succeed.
-/

namespace RingDeque

/-- One of the two ends of a ring. -/
inductive End where
  | front
  | back
deriving Repr, DecidableEq

namespace End

def opposite : End → End
  | .front => .back
  | .back => .front

/-- The end with fewer elements before it, or `tie` if both have the same number. -/
def shorter (front back : Nat) (tie : End) : End :=
  if front < back then .front else if back < front then .back else tie

end End

/-- A ring of elements in a block. -/
structure Ring (α : Type) where
  block : Block (Item α)
  start : Nat
  len : Nat
  registry : Registry

namespace Ring

variable {α : Type}

/-- The number of elements that fit. -/
def capacity (ring : Ring α) : Nat :=
  ring.block.size

def isEmpty (ring : Ring α) : Bool :=
  ring.len == 0

def isFull (ring : Ring α) : Bool :=
  ring.len == ring.capacity

/-- The number of elements that can be added before others have to give way. -/
def remaining (ring : Ring α) : Checked Nat :=
  Word.sub ring.capacity ring.len

/-- The slot of a logical index, which may be one past the last element. -/
def slotOf (ring : Ring α) (index : Nat) : Checked Nat :=
  Slot.forward ring.start index ring.capacity

/-- The elements in order. -/
def toList (ring : Ring α) : List (Item α) :=
  (List.range ring.len).filterMap fun index =>
    ring.block.get? ((ring.start + index) % ring.capacity)

/-- Whether a slot is among the `len` slots from `start` on. -/
def Holds (ring : Ring α) (slot : Nat) : Prop :=
  ∃ index < ring.len, slot = (ring.start + index) % ring.capacity

/-- The bookkeeping agrees with the block: the elements fit, the first slot exists, each slot has
a counter, and exactly the slots of the ring hold an element. -/
structure WellFormed (ring : Ring α) : Prop where
  fits : ring.len ≤ ring.capacity
  starts : ring.start < max ring.capacity 1
  stamped : ring.registry.stamps.size = ring.capacity
  filled : ∀ slot < ring.capacity, (ring.block.get? slot).isSome ↔ ring.Holds slot

/-- A ring without slots. -/
def empty : Effect (Ledger α) (Ring α) :=
  return { block := .empty, start := 0, len := 0, registry := ← Registry.issue .empty }

/-- A ring of empty slots. -/
def new (capacity : Nat) : Effect (Ledger α) (Ring α) :=
  return {
    block := ← Block.allocate capacity
    start := 0
    len := 0
    registry := ← Registry.issue (← Stamps.allocate capacity) }

/-- A full ring that takes over existing elements where they lie, so that only the counters are
allocated. If they cannot be had the elements are discarded. -/
def ofItems (items : List (Item α)) : Effect (Ledger α) (Ring α) := do
  let stamps ← try expecting .stamps (Stamps.allocate items.length) catch halt =>
    Ledger.discard items
    throw halt
  let registry ← Registry.issue stamps
  return { block := ← Block.ofList items, start := 0, len := items.length, registry }

end Ring

end RingDeque
