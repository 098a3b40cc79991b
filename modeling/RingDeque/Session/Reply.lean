import RingDeque.Traversal
import RingDeque.Value
import RingDeque.Ledger

/-!
What a session answers: the reply to an operation, and the picture of all buffers after it.
-/

namespace RingDeque.Session

/-- The sizes of a buffer. -/
structure Info where
  len : Nat
  capacity : Nat
  isEmpty : Bool
  isFull : Bool
  remaining : Nat
  isLinear : Bool
  /-- The floor, the slots at hand and a listing of the limits, for an elastic ring. -/
  elastic : Option (Nat × Nat × String)
deriving Repr, DecidableEq

/-- All that a buffer says about a cursor. -/
structure Inspection (α : Type) where
  isEnd : Bool
  isValid : Bool
  index : Except Error Nat
  element : Except Error α

/-- How two rings compare: in the partial order, and in the total one if all their elements are
ordered. -/
structure Comparison where
  partialOrder : Option Ordering
  totalOrder : Option Ordering
deriving Repr, DecidableEq

namespace Comparison

def lt (comparison : Comparison) : Bool :=
  comparison.partialOrder == some .lt

def le (comparison : Comparison) : Bool :=
  comparison.partialOrder.any (·.isLE)

def gt (comparison : Comparison) : Bool :=
  comparison.partialOrder == some .gt

def ge (comparison : Comparison) : Bool :=
  comparison.partialOrder.any (·.isGE)

end Comparison

/-- The answer to one step of a walk. -/
inductive WalkAnswer (α : Type) where
  | walked (answer : Traversal.Answer α)
  | listed (text : String)

/-- The reply to an operation. -/
inductive Reply (α : Type) where
  | done
  | element (value : Option α)
  | elements (values : List α)
  | runs (front back : List α)
  | cursor (index : Nat) (isEnd : Bool)
  | info (info : Info)
  | inspection (inspection : Inspection α)
  | distance (n : Int)
  | order (order : Ordering)
  | truth (value : Bool)
  | comparison (comparison : Comparison)
  | walk (answers : List (WalkAnswer α))
  | hash (inputs : List HashInput)
  | listing (compact pretty : String)
  | halted (halt : Halt)
  /-- There is no such buffer or bookmark, or a buffer of this kind knows no such operation. -/
  | inapplicable

/-- A buffer as it is seen from outside, with the two runs of its elements. -/
structure BufferPicture (α : Type) where
  capacity : Nat
  /-- The floor and the slots at hand of an elastic ring. -/
  elastic : Option (Nat × Nat)
  front : List α
  back : List α

/-- What has become of a bookmark. -/
inductive BookmarkPicture where
  /-- It stands at this logical index. -/
  | index (index : Nat)
  /-- Its buffer no longer accepts it. -/
  | stale
  /-- There is no buffer under the number it was set in. -/
  | gone
deriving Repr, DecidableEq

/-- A session as it is seen from outside, with the reports of the last operation. -/
structure Picture (α : Type) where
  buffers : List (Nat × BufferPicture α)
  live : Nat
  bookmarks : List (String × BookmarkPicture)
  events : List Event

end RingDeque.Session
