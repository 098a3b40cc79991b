import RingDeque.Block
import RingDeque.Tracked

/-!
Having a block of storage, or being refused one for lack of memory.
-/

namespace RingDeque.Block

variable {α β : Type}

/-- Makes sure that a block can be had. -/
def reserve (capacity : Nat) : Effect (Ledger α) Unit := do
  unless (← get).memory.block capacity do
    refuse (.allocationFailed capacity)

/-- A block of empty slots. -/
def allocate (capacity : Nat) : Effect (Ledger α) (Block β) := do
  reserve capacity
  if bounded : capacity < Word.limit then
    return blank capacity bounded
  else
    refuse (.allocationFailed capacity)

/-- A block each slot of which holds its own number. -/
def numbered (capacity : Nat) : Effect (Ledger α) (Block Nat) := do
  reserve capacity
  ofList (List.range capacity)

end RingDeque.Block
