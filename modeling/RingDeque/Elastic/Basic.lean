import RingDeque.Limits
import RingDeque.Ring.Comparison
import RingDeque.Ring.Replacement

/-!
Elastic rings: a ring whose block grows and shrinks with its contents.

To a caller an elastic ring is a ring whose capacity is its ceiling. The block behind it is doubled
when an insertion does not fit and halved while at most a third of it is in use. A reserve of a
fifth keeps the two thresholds apart, so that elements coming and going in turn do not change the
block every time.
-/

namespace RingDeque

/-- A ring with limits for its block. -/
structure ElasticRing (α : Type) where
  ring : Ring α
  limits : Limits

namespace ElasticRing

variable {α : Type}

/-- The number of elements that the limits allow. -/
def capacity (elastic : ElasticRing α) : Nat :=
  elastic.limits.ceiling

/-- The number of slots at hand. -/
def physical (elastic : ElasticRing α) : Nat :=
  elastic.ring.capacity

def len (elastic : ElasticRing α) : Nat :=
  elastic.ring.len

/-- Whether the elements reach the ceiling, however many slots are at hand. -/
def isFull (elastic : ElasticRing α) : Bool :=
  elastic.capacity ≤ elastic.len

/-- The number of elements that can be added before others have to give way. -/
def remaining (elastic : ElasticRing α) : Nat :=
  elastic.capacity - elastic.len

/-- The block has room for the elements, and its size lies between the floor and the ceiling. -/
structure WithinLimits (elastic : ElasticRing α) : Prop where
  fits : elastic.len ≤ elastic.physical
  above_floor : elastic.limits.floor ≤ elastic.physical
  below_ceiling : elastic.physical ≤ elastic.capacity

/-- An elastic ring in a listing. -/
def listing [Value α] (elastic : ElasticRing α) : Checked Listing := do
  let items ← elastic.ring.listing
  return .record "AdaptiveCircularBuffer" [
    ("items", items),
    ("capacity", .leaf (toString elastic.limits.ceiling)),
    ("min_capacity", .leaf (toString elastic.limits.floor)),
    ("internal_capacity", .leaf (toString elastic.physical))]

/-- Runs an action on the ring inside. -/
def onRing (act : Act (Ring α) α γ) : Act (ElasticRing α) α γ :=
  Act.onPart ElasticRing.ring (fun elastic ring => { elastic with ring }) act

/-- Puts other limits in force, without a change of the block. -/
def setLimitsOnly (limits : Limits) : Act (ElasticRing α) α Unit := do
  Act.become { ← Act.buffer with limits }

end ElasticRing

end RingDeque
