import RingDeque.Tracked

/-!
Cursors, and the record by which a ring tells whether it still accepts one.

A cursor is a plain value that may be kept while the ring changes. It carries the identity of its
ring, the slot it points to, and two counters as they were when it was issued. The ring raises the
counter of a slot whenever that slot is emptied, overwritten or relocated, and its generation
whenever all cursors become void at once. The place one past the last element has a generation of
its own, so that it outlives a change of storage.
-/

namespace RingDeque

/-- A place in a ring: a slot, or nothing for the place one past the last element. -/
structure Cursor where
  owner : Nat
  slot : Option Nat
  generation : Nat
  stamp : Nat
deriving Repr, DecidableEq

/-- Whether a cursor stands one past the last element. -/
def Cursor.isEnd (cursor : Cursor) : Bool :=
  cursor.slot.isNone

/-- No table has this many counters or more, however much memory there is: a counter takes eight
bytes, and no allocation has the 63rd power of two of them. -/
def Stamps.limit : Nat := 0x1000000000000000

/-- A table of counters, one for each slot of a block. -/
structure Stamps where
  counters : Array Nat
  bounded : counters.size < Stamps.limit
deriving Repr, DecidableEq

namespace Stamps

/-- The number of counters. -/
def size (stamps : Stamps) : Nat :=
  stamps.counters.size

/-- The table of a block without slots. -/
def empty : Stamps where
  counters := #[]
  bounded := by simp [limit]

/-- The counter of a slot; nothing beyond the table. -/
def get? (stamps : Stamps) (slot : Nat) : Option Nat :=
  stamps.counters[slot]?

/-- Raises the counter of a slot, if it has one. -/
def touch (stamps : Stamps) (slot : Nat) : Stamps where
  counters := stamps.counters.modify slot (· + 1)
  bounded := by simpa using stamps.bounded

/-- The counters of slots that no cursor points to yet. -/
def blank (capacity : Nat) (bounded : capacity < limit) : Stamps where
  counters := Array.replicate capacity 0
  bounded := by simpa using bounded

/-- A table for a block of the given size. -/
def allocate (capacity : Nat) : Effect (Ledger α) Stamps := do
  unless (← get).memory.stamps capacity do
    refuse (.allocationFailed capacity)
  if bounded : capacity < limit then
    return blank capacity bounded
  else
    refuse (.allocationFailed capacity)

end Stamps

/-- A ring's identity and the counters that its cursors are checked against. -/
structure Registry where
  owner : Nat
  generation : Nat
  endGeneration : Nat
  stamps : Stamps
deriving Repr, DecidableEq

namespace Registry

/-- The record of a new ring. -/
def issue (stamps : Stamps) : Effect (Ledger α) Registry :=
  return {
    owner := ← Ledger.identify
    generation := 0
    endGeneration := 0
    stamps }

/-- Voids the cursors to one slot. -/
def touch (registry : Registry) (slot : Nat) : Registry :=
  { registry with stamps := registry.stamps.touch slot }

/-- Voids every cursor. -/
def invalidateAll (registry : Registry) : Registry :=
  { registry with
    generation := registry.generation + 1
    endGeneration := registry.endGeneration + 1 }

/-- Voids every cursor to an element, and keeps those one past the last. -/
def invalidateElements (registry : Registry) : Registry :=
  { registry with generation := registry.generation + 1 }

/-- A cursor to a slot as it is now. -/
def slotCursor (registry : Registry) (slot : Nat) : Cursor where
  owner := registry.owner
  slot := some slot
  generation := registry.generation
  stamp := (registry.stamps.get? slot).getD 0

/-- A cursor one past the last element. -/
def endCursor (registry : Registry) : Cursor where
  owner := registry.owner
  slot := none
  generation := registry.endGeneration
  stamp := 0

/-- Whether a cursor belongs to this ring and is not void. -/
def accepts (registry : Registry) (cursor : Cursor) : Bool :=
  cursor.owner == registry.owner &&
    match cursor.slot with
    | none => cursor.generation == registry.endGeneration
    | some slot =>
        cursor.generation == registry.generation && registry.stamps.get? slot == some cursor.stamp

end Registry

end RingDeque
