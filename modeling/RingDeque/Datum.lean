import RingDeque.Listing.Quoted
import RingDeque.Value

/-!
Mixed values: integers, texts, and a value that equals nothing.
-/

namespace RingDeque

/-- An integer, a text, or the value that is unequal to everything, itself included. -/
inductive Datum where
  | int (value : Int)
  | text (value : String)
  | nan
deriving Repr

namespace Datum

def equals : Datum → Datum → Bool
  | .int a, .int b => a == b
  | .text a, .text b => a == b
  | _, _ => false

/-- Integers come before texts; texts are ordered by their characters. -/
def order? : Datum → Datum → Option Ordering
  | .nan, _ => none
  | _, .nan => none
  | .int a, .int b => some (compare a b)
  | .text a, .text b => some (compare a b)
  | .int _, .text _ => some .lt
  | .text _, .int _ => some .gt

/-- The order of integers and texts. -/
def order (a b : Datum) : Ordering :=
  (order? a b).getD .eq

def listing : Datum → Listing
  | .int value => .leaf (toString value)
  | .text value => .leaf (Listing.quoted value)
  | .nan => .leaf "NaN"

def hashed : Datum → List HashInput
  | .int value => [.signed value]
  | .text value => [.bytes value.toUTF8.toList]
  | .nan => [.byte 0]

instance : Value Datum where
  beq := equals
  order?
  order
  listing
  hashed

end Datum

end RingDeque
