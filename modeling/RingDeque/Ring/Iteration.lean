import RingDeque.Ring.Ends
import RingDeque.Traversal

/-!
Walking over the elements of a ring: looking at them, overwriting them on the way, or taking them
out. A walk that looks or overwrites is a `Traversal` of the two runs; one that takes out pops the
ring itself.
-/

namespace RingDeque

/-- An element together with the slot it lies in. -/
structure Placed (α : Type) where
  slot : Nat
  item : Item α

namespace Ring

variable {α : Type}

/-- A walk over the elements. -/
def iterate (ring : Ring α) : Checked (Traversal (Item α)) := do
  let (front, back) ← ring.runs
  return { front, back }

/-- A walk over the elements with their slots. -/
def places (ring : Ring α) : Checked (Traversal (Placed α)) := do
  let (front, back) ← ring.block.wrappedSlots ring.start ring.len
  return { front := ← front.mapM place, back := ← back.mapM place }
where
  /-- A slot and the element in it. -/
  place (slot : Nat) : Checked (Placed α) :=
    return ⟨slot, ← ring.block.read slot⟩

/-- Overwrites the element in a slot in place and hands out the old one. -/
def overwriteSlot (ring : Ring α) (slot : Nat) (item : Item α) : Checked (Item α × Ring α) := do
  let (old, block) ← ring.block.replace slot item
  return (old, { ring with block })

/-- Takes an element out at an end, after `skipped` others that are destroyed. -/
def takeNth (side : End) : (skipped : Nat) → Act (Ring α) α (Option (Item α))
  | 0 => Act.update (pop side)
  | skipped + 1 => do
      match ← Act.update (pop side) with
      | none => return none
      | some item =>
          Ledger.destroy item
          takeNth side skipped

/-- Takes up to `count` elements out at an end. -/
def takeMany (side : End) : (count : Nat) → Act (Ring α) α (List (Item α))
  | 0 => return []
  | count + 1 => do
      match ← Act.update (pop side) with
      | none => return []
      | some item => return item :: (← takeMany side count)

/-- The answer to a step of a walk that takes the elements out of the ring. -/
def drain : Traversal.Step → Act (Ring α) α (Traversal.Answer (Item α))
  | .next => return .one (← takeNth .front 0)
  | .nextBack => return .one (← takeNth .back 0)
  | .nth skipped => return .one (← takeNth .front skipped)
  | .nthBack skipped => return .one (← takeNth .back skipped)
  | .length => return .count (← Act.buffer).len
  | .bounds => do
      let len := (← Act.buffer).len
      return .bounds len len
  | .rest => do return .many (← takeMany .front (← Act.buffer).len)
  | .reversed => do return .many (← takeMany .back (← Act.buffer).len)

end Ring

end RingDeque
