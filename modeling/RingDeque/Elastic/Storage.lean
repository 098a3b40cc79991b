import RingDeque.Elastic.Basic

/-!
How large the block of an elastic ring is made.

The sizes are found by doubling or halving the current one, then adding the reserve: if less than
a fifth of the slots would stay free the size is doubled once more, but never beyond the ceiling.
Doubling stops at the largest word instead of wrapping.
-/

namespace RingDeque

/-- Doubles a positive size until `wanted` elements fit. -/
def doubledTo (wanted capacity : Nat) : Nat :=
  if 0 < capacity ∧ capacity < wanted ∧ wanted ≤ Word.greatest then
    doubledTo wanted (Word.saturatingDouble capacity)
  else
    capacity
termination_by wanted - capacity
decreasing_by
  have larger : capacity < Word.saturatingDouble capacity := by
    simp only [Word.saturatingDouble]
    omega
  omega

/-- Halves a size while at most a third of it is in use, but not below a floor. -/
def halvedTo (len floor capacity : Nat) : Nat :=
  if len ≤ capacity / 3 then
    if capacity / 2 ≤ floor then floor else halvedTo len floor (capacity / 2)
  else
    capacity
termination_by capacity
decreasing_by omega

/-- A size with a reserve for `len` elements, at most the ceiling. -/
def Limits.withReserve (limits : Limits) (capacity len : Nat) : Nat :=
  let widened :=
    if capacity ≤ Word.saturatingAdd len (capacity / 5) then
      Word.saturatingDouble capacity
    else
      capacity
  min widened limits.ceiling

namespace ElasticRing

variable {α : Type}

/-- The size of the block when `wanted` elements have to fit that do not fit now. -/
def grownSize (elastic : ElasticRing α) (wanted : Nat) : Nat :=
  elastic.limits.withReserve (doubledTo wanted (max elastic.physical 1)) wanted

/-- The size of the block that suits the present number of elements. -/
def settledSize (elastic : ElasticRing α) : Nat :=
  elastic.limits.withReserve
    (halvedTo elastic.len elastic.limits.floor elastic.physical) elastic.len

/-- Enlarges the block so that `n` more elements fit, as far as the ceiling allows. -/
def secure (n : Nat) : Act (ElasticRing α) α Unit := do
  let elastic ← Act.buffer
  let wanted := Word.saturatingAdd elastic.len n
  if wanted ≤ elastic.physical then
    return
  let capacity := elastic.grownSize wanted
  if capacity ≠ elastic.physical then
    onRing (Ring.setCapacity .front capacity)
    Act.report (.grew elastic.physical capacity elastic.len)

/-- Gives up the part of the block that is not needed. If the smaller block cannot be had, the
present one stays. -/
def settle : Act (ElasticRing α) α Unit := do
  let elastic ← Act.buffer
  let capacity := elastic.settledSize
  if capacity = elastic.physical then
    return
  try
    onRing (Ring.setCapacity .front capacity)
    Act.report (.shrank elastic.physical capacity elastic.len)
  catch
    | .refused error => Act.report (.kept elastic.physical capacity elastic.len error)
    | halt => throw halt

/-- Gives up storage and finds a cursor again afterwards. -/
def settleKeeping (cursor : Cursor) : Act (ElasticRing α) α Cursor := do
  let index ← (← Act.buffer).ring.resolve cursor
  settle
  (← Act.buffer).ring.cursorFor index

/-- Puts other limits in force. If the block is too large for them it shrinks at once, giving up
elements at the end `trim`; if it is too small it grows to the floor. -/
def setLimits (trim : End) (limits : Limits) : Act (ElasticRing α) α Unit := do
  if limits.ceiling < (← Act.buffer).physical then
    onRing (Ring.setCapacity trim limits.ceiling)
  setLimitsOnly limits
  if (← Act.buffer).physical < limits.floor then
    onRing (Ring.setCapacity .front limits.floor)
  else
    settle

/-- Changes the floor and keeps the ceiling. -/
def setFloor (floor : Nat) : Act (ElasticRing α) α Unit := do
  match Limits.new (← Act.buffer).limits.ceiling floor with
  | .ok limits => setLimits .front limits
  | .error error => refuse error

/-- Exchanges two elastic rings with their limits. Every cursor of both becomes void. -/
def swap (first second : ElasticRing α) : ElasticRing α × ElasticRing α :=
  let (ring₁, ring₂) := first.ring.swap second.ring
  (⟨ring₁, second.limits⟩, ⟨ring₂, first.limits⟩)

end ElasticRing

end RingDeque
