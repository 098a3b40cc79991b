import RingDeque.Ring.Access
import RingDeque.Value

/-!
Comparing, hashing and listing rings. All of it depends on the elements in order, and neither on
the capacity nor on where the elements lie.
-/

namespace RingDeque.Ring

variable {α : Type}

/-- The values of the elements in order. -/
def values (ring : Ring α) : Checked (List α) :=
  return (← ring.contents).map Item.value

variable [Value α]

/-- Whether two rings hold equal values pair by pair. -/
def equals (first second : Ring α) : Checked Bool := do
  if first.len ≠ second.len then
    return false
  let pairs := (← first.values).zip (← second.values)
  return pairs.all fun (a, b) => a == b

/-- The first `n` values of at least as many. -/
def cutBefore (values : List α) (n : Nat) : Checked (List α) :=
  if n ≤ values.length then .ok (values.take n) else .error .outside

/-- The values behind the first `n`, of at least as many. -/
def cutAfter (values : List α) (n : Nat) : Checked (List α) :=
  if n ≤ values.length then .ok (values.drop n) else .error .outside

/-- Whether a ring holds values equal to those of a list. The list is cut where the ring's runs
meet, which is not beyond its end if it is as long as the ring; what is behind the cut is only
looked at if the first run is equal to what is before it. -/
def equalsList (ring : Ring α) (values : List α) : Checked Bool := do
  let (front, back) ← ring.runs
  if ring.len ≠ values.length then
    return false
  if front.map Item.value != (← cutBefore values front.length) then
    return false
  return back.map Item.value == (← cutAfter values front.length)

/-- The lexicographic order of two rings, if it is decided. -/
def order? (first second : Ring α) : Checked (Option Ordering) :=
  return lexicographic? (← first.values) (← second.values)

/-- Whether every element is ordered against itself. -/
def isOrderable (ring : Ring α) : Checked Bool :=
  return (← ring.values).all fun value => Value.order? value value == some .eq

/-- The order of two rings all of whose elements are ordered. -/
def totalOrder? (first second : Ring α) : Checked (Option Ordering) := do
  if (← first.isOrderable) && (← second.isOrderable) then
    return some (lexicographic (← first.values) (← second.values))
  else
    return none

/-- What a ring contributes to a hash: its length, then each element. -/
def hashed (ring : Ring α) : Checked (List HashInput) :=
  return .size ring.len :: (← ring.values).flatMap Value.hashed

/-- A ring in a listing. -/
def listing (ring : Ring α) : Checked Listing :=
  return .list ((← ring.values).map Value.listing)

end RingDeque.Ring
