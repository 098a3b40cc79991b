import RingDeque.Block

/-!
Rotation of a block in place.

Moving each slot back by `shift` places permutes the slots of the block. The permutation falls
into as many cycles as the greatest common divisor of the size and the shift, and the slots below
that divisor lie on different cycles, so following the cycle of each of them moves every slot.
-/

namespace RingDeque.Block

variable {β : Type}

/-- The slot `shift` places after `hole`. Unlike `Slot.forward` this takes the sum before it goes
round the block, so in a block of more than half of all words the sum may be no word. -/
def following (block : Block β) (shift hole : Nat) : Checked Nat := do
  let next ← Word.add hole shift
  if block.size ≤ next then Word.sub next block.size else return next

/-- Follows the cycle of `leader`, starting at `hole`: each slot takes what the slot `shift`
places after it holds, until that slot is the leader again. Returns the number of exchanges, of
which there are at most `fuel`. -/
def followCycle (shift leader : Nat) : (fuel hole : Nat) → Block β → Checked (Nat × Block β)
  | 0, _, block => .ok (0, block)
  | fuel + 1, hole, block => do
      let next ← block.following shift hole
      if next = leader then
        return (0, block)
      let block ← block.swap hole next
      let (moved, block) ← followCycle shift leader fuel next block
      return (← Word.add moved 1, block)

/-- Rotates the slots so that slot `mid`, counted round the block, comes to the front. Returns
the number of slots that moved: all of them, or none if the rotation changes nothing. -/
def rotateLeft (block : Block β) (mid : Nat) : Checked (Nat × Block β) :=
  if block.size = 0 ∨ mid % block.size = 0 then
    .ok (0, block)
  else
    let shift := mid % block.size
    (List.range (Word.gcd block.size shift)).foldlM (fun (relocated, block) leader => do
        let (moved, block) ← block.followCycle shift leader block.size leader
        let relocated ← Word.add relocated moved
        return (← Word.add relocated 1, block))
      (0, block)

end RingDeque.Block
