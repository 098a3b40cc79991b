import RingDeque.Error
import RingDeque.Value

/-!
The limits of an elastic buffer: the number of elements it holds at most, and the number of slots
it keeps even when empty.
-/

namespace RingDeque

/-- A floor for the storage and a ceiling for the elements. -/
structure Limits where
  ceiling : Nat
  floor : Nat
  floor_le_ceiling : floor ≤ ceiling
deriving Repr, DecidableEq

namespace Limits

/-- The limits with a given ceiling and floor, unless the floor lies above the ceiling. -/
def new (ceiling floor : Nat) : Except Error Limits :=
  if ordered : floor ≤ ceiling then
    .ok ⟨ceiling, floor, ordered⟩
  else
    .error (.invalidCapacity ceiling floor)

/-- The limits without a floor. -/
def ofCeiling (ceiling : Nat) : Limits :=
  ⟨ceiling, 0, Nat.zero_le ceiling⟩

/-- The limits of a buffer that holds nothing. -/
def nothing : Limits :=
  ofCeiling 0

/-- The same floor under a ceiling of at least `ceiling`. -/
def raisedTo (limits : Limits) (ceiling : Nat) : Limits where
  ceiling := max limits.ceiling ceiling
  floor := limits.floor
  floor_le_ceiling := Nat.le_trans limits.floor_le_ceiling (Nat.le_max_left ..)

/-- The limits in a listing. -/
def listing (limits : Limits) : Listing :=
  .record "CapacityControl" [
    ("capacity", .leaf (toString limits.ceiling)),
    ("min_capacity", .leaf (toString limits.floor))]

/-- What limits contribute to a hash. -/
def hashed (limits : Limits) : List HashInput :=
  [.size limits.ceiling, .size limits.floor]

end Limits

end RingDeque
