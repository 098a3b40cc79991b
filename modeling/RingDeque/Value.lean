import RingDeque.Listing

/-!
What can be asked of the values in a buffer: whether two are equal, how they compare, how they are
listed, and what they contribute to a hash.

Equality need not be reflexive and the order need not be total: a value may be unequal to itself
and unordered against everything.
-/

namespace RingDeque

/-- One piece of data handed to a hash function. -/
inductive HashInput where
  | size (value : Nat)
  | signed (value : Int)
  | bytes (values : List UInt8)
  | byte (value : UInt8)
deriving Repr, DecidableEq

/-- The operations on values. -/
class Value (α : Type) extends BEq α where
  /-- The order of two values, or nothing if they are unordered. -/
  order? : α → α → Option Ordering
  /-- The order of two values that are ordered against themselves. -/
  order : α → α → Ordering
  /-- The value in a listing. -/
  listing : α → Listing
  /-- The data a value contributes to a hash. -/
  hashed : α → List HashInput

/-- The order of two sequences: decided by the first pair that is not equal, and by the lengths
if there is none. A pair that is unordered leaves the sequences unordered. -/
def lexicographic? [Value α] : List α → List α → Option Ordering
  | [], [] => some .eq
  | [], _ :: _ => some .lt
  | _ :: _, [] => some .gt
  | a :: as, b :: bs =>
      match Value.order? a b with
      | some .eq => lexicographic? as bs
      | decided => decided

/-- The order of two sequences of values that are all ordered. -/
def lexicographic [Value α] : List α → List α → Ordering
  | [], [] => .eq
  | [], _ :: _ => .lt
  | _ :: _, [] => .gt
  | a :: as, b :: bs => (Value.order a b).then (lexicographic as bs)

end RingDeque
