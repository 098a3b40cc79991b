import RingDeque.Word

/-!
Arithmetic on the slots of a block that is used as a circle.

Slots are numbered from zero, and the slot after the last one is the first. A position in a ring
is a slot, or `none` for the place one past the last element: on a full ring that place has the
slot of the first element, so a slot number alone could not tell the two apart.
-/

namespace RingDeque.Slot

/-- The slot after `slot`. -/
def next (slot capacity : Nat) : Checked Nat := do
  let after ← Word.add slot 1
  return if after = capacity then 0 else after

/-- The slot before `slot`. -/
def previous (slot capacity : Nat) : Checked Nat :=
  if slot = 0 then Word.sub capacity 1 else Word.sub slot 1

/-- The slot `n` steps after `slot`, for at most one turn of the circle. The sum of `slot` and
`n` is only taken when it stays below the capacity, so it cannot overflow. -/
def forward (slot n capacity : Nat) : Checked Nat := do
  let room ← Word.sub capacity slot
  if room ≤ n then Word.sub n room else Word.add slot n

/-- The slot `n` steps before `slot`, for at most one turn of the circle. -/
def backward (slot n capacity : Nat) : Checked Nat := do
  if slot < n then
    let rest ← Word.sub capacity n
    Word.add slot rest
  else
    Word.sub slot n

/-- The number of steps from `start` to `slot`: the logical index of a slot in a ring. -/
def offsetFrom (start slot capacity : Nat) : Checked Nat := do
  if start ≤ slot then
    Word.sub slot start
  else
    let rest ← Word.sub capacity start
    Word.add slot rest

/-- The logical index of a position in a ring of `len` elements. -/
def positionIndex (position : Option Nat) (start len capacity : Nat) : Checked Nat :=
  match position with
  | some slot => offsetFrom start slot capacity
  | none => .ok len

/-- The signed number of steps from one position to another. -/
def distance (source target : Option Nat) (start len capacity : Nat) : Checked Int := do
  let sourceIndex ← positionIndex source start len capacity
  let targetIndex ← positionIndex target start len capacity
  Word.subSigned (Word.toSigned targetIndex) (Word.toSigned sourceIndex)

end RingDeque.Slot
