import RingDeque.Ring.Ends
import RingDeque.Block.Rotation

/-!
Operations on the block of a ring as a whole: emptying it, exchanging it, moving to another one,
and bringing the elements into one run.

What such an operation needs is allocated first. Elements that it gives up are destroyed last, when
the ring is already in its final state; they lie in up to two runs, and a guard keeps the second one
while the first is destroyed. So a destruction that fails changes nothing about the outcome.
-/

namespace RingDeque.Ring

variable {α : Type}

/-- Moves `count` elements out of the block, from a logical index on. The start and the length stay
as they are. -/
def moveOut (ring : Ring α) (index : Nat) : (count : Nat) → Checked (List (Item α) × Ring α)
  | 0 => .ok ([], ring)
  | count + 1 => do
      let (item, block) ← ring.block.take (← ring.slotOf index)
      let (items, ring) ← moveOut { ring with block } (← Word.add index 1) count
      return (item :: items, ring)

/-- The ring without its elements, which are returned in two runs. Every cursor becomes void. -/
def emptied (ring : Ring α) : Checked ((List (Item α) × List (Item α)) × Ring α) := do
  let (runs, block) ← ring.block.takeRuns ring.start ring.len
  return (runs, { block, start := 0, len := 0, registry := ring.registry.invalidateAll })

/-- Removes every element. -/
def clear : Act (Ring α) α Unit := do
  let (front, back) ← Act.update emptied
  Ledger.destroyRuns front back

/-- Destroys what a ring holds. -/
def destroy (ring : Ring α) : Effect (Ledger α) Unit := do
  let (front, back) ← ring.runs
  Ledger.destroyRuns front back

/-- Moves as many elements as fit into the first slots of an empty block, giving up those at the
end `trim`, and puts the counters in force. Returns the elements given up, in two runs. Only cursors
one past the last element stay. -/
def rehouse (trim : End) (target : Block (Item α)) (stamps : Stamps) (ring : Ring α) :
    Checked ((List (Item α) × List (Item α)) × Ring α) := do
  let kept := min ring.len target.size
  let trimmed ← Word.sub ring.len kept
  let (firstKept, firstTrimmed) := match trim with
    | .front => (trimmed, 0)
    | .back => (0, kept)
  let (survivors, source) ← ring.moveOut firstKept kept
  let block ← target.writeRun 0 survivors
  let runs ← source.block.wrappedRuns (← ring.slotOf firstTrimmed) trimmed
  let registry := { ring.registry with stamps }.invalidateElements
  return (runs, { block, start := 0, len := kept, registry })

/-- Changes the capacity. Elements that no longer fit are given up at the end `trim`. -/
def setCapacity (trim : End) (capacity : Nat) : Act (Ring α) α Unit := do
  let ring ← Act.buffer
  if capacity = ring.capacity then
    return
  let block ← (Block.allocate capacity : Effect (Ledger α) (Block (Item α)))
  let stamps ← (Stamps.allocate capacity : Effect (Ledger α) Stamps)
  let (front, back) ← Act.update (rehouse trim block stamps)
  let kept := (← Act.buffer).len
  Act.report (.reallocated ring.capacity capacity kept (← Word.sub ring.len kept))
  Ledger.destroyRuns front back

/-- Brings the elements into one run, which is returned. Nothing moves if they already lie in
one. -/
def linearize : Act (Ring α) α (List (Item α)) := do
  let ring ← Act.buffer
  unless ← ring.isLinear do
    let (_, block) ← ring.block.rotateLeft ring.start
    Act.report (.rotated ring.capacity ring.len ring.start)
    Act.become { ring with block, start := 0, registry := ring.registry.invalidateElements }
  return (← (← Act.buffer).runs).1

/-- A ring that takes over the contents of another one. It keeps its identity, and the counters of
the slots come with the block. -/
def adopt (ring other : Ring α) : Ring α :=
  { other with registry := { ring.registry with stamps := other.registry.stamps } }

/-- The ring with every cursor void. -/
def voided (ring : Ring α) : Ring α :=
  { ring with registry := ring.registry.invalidateAll }

/-- Exchanges two rings. Every cursor of both becomes void. -/
def swap (first second : Ring α) : Ring α × Ring α :=
  ((first.adopt second).voided, (second.adopt first).voided)

end RingDeque.Ring
