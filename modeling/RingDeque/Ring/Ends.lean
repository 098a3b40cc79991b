import RingDeque.Ring.Access

/-!
Adding and removing elements at the ends of a ring.

A full ring makes room by giving up the element at the other end, and a ring without slots gives
back what it was given.
-/

namespace RingDeque.Ring

variable {α : Type}

/-- Adds an element after the last one. Returns the first element if the ring was full. -/
def pushBack (ring : Ring α) (item : Item α) : Checked (Option (Item α) × Ring α) := do
  if ring.capacity = 0 then
    return (some item, ring)
  if ring.isFull then
    let slot := ring.start
    let start ← Slot.next slot ring.capacity
    let (old, block) ← ring.block.replace slot item
    return (some old, { ring with block, start, registry := ring.registry.touch slot })
  else
    let block ← ring.block.write (← ring.slotOf ring.len) item
    return (none, { ring with block, len := ← Word.add ring.len 1 })

/-- Adds an element before the first one. Returns the last element if the ring was full. -/
def pushFront (ring : Ring α) (item : Item α) : Checked (Option (Item α) × Ring α) := do
  if ring.capacity = 0 then
    return (some item, ring)
  let slot ← Slot.previous ring.start ring.capacity
  if ring.isFull then
    let (old, block) ← ring.block.replace slot item
    return (some old, { ring with block, start := slot, registry := ring.registry.touch slot })
  else
    let block ← ring.block.write slot item
    return (none, { ring with block, start := slot, len := ← Word.add ring.len 1 })

/-- Removes the last element, if there is one. -/
def popBack (ring : Ring α) : Checked (Option (Item α) × Ring α) := do
  if ring.isEmpty then
    return (none, ring)
  let len ← Word.sub ring.len 1
  let slot ← ring.slotOf len
  let (item, block) ← ring.block.take slot
  return (some item, { ring with block, len, registry := ring.registry.touch slot })

/-- Removes the first element, if there is one. -/
def popFront (ring : Ring α) : Checked (Option (Item α) × Ring α) := do
  if ring.isEmpty then
    return (none, ring)
  let slot := ring.start
  let start ← Slot.next slot ring.capacity
  let len ← Word.sub ring.len 1
  let (item, block) ← ring.block.take slot
  return (some item, { ring with block, start, len, registry := ring.registry.touch slot })

def push : End → Ring α → Item α → Checked (Option (Item α) × Ring α)
  | .front => pushFront
  | .back => pushBack

def pop : End → Ring α → Checked (Option (Item α) × Ring α)
  | .front => popFront
  | .back => popBack

/-- Removes up to `count` elements at an end and destroys each of them before the next one. -/
def evict (side : End) : (count : Nat) → Act (Ring α) α Unit
  | 0 => return
  | count + 1 => do
      match ← Act.update (pop side) with
      | none => return
      | some item =>
          Ledger.destroy item
          evict side count

/-- Adds elements after the last one as they are produced. An element that has to give way is
destroyed before the next one is produced. -/
def extend : List (Entry α) → Act (Ring α) α Unit
  | [] => return
  | entry :: rest => do
      let item ← entry.produce
      match ← Act.update (pushBack · item) with
      | none => extend rest
      | some evicted =>
          Ledger.destroy evicted
          extend rest

/-- A ring of the given capacity, filled from a supply. Only the last elements are kept if they do
not all fit. -/
def ofSupply (capacity : Nat) (supply : Supply α) : Effect (Ledger α) (Ring α) := do
  let ring ← Ring.new capacity
  building ring Ring.contents (extend supply.entries)

end RingDeque.Ring
