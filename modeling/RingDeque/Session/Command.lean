import RingDeque.Ring.Access
import RingDeque.Traversal

/-!
What a session can be told to do.

A session holds numbered buffers, fixed rings and elastic ones, and bookmarks: cursors under
names. A command addresses one buffer. It names places either relative to that buffer or by a
bookmark, which may have been set in another buffer.
-/

namespace RingDeque.Session

/-- A place that a command names. -/
inductive Site where
  /-- The first element, or the place one past the last if there is none. -/
  | begin
  /-- The place one past the last element. -/
  | finish
  /-- The element at a logical index. -/
  | index (index : Nat)
  /-- Where a bookmark points. -/
  | bookmark (name : String)
deriving Repr, DecidableEq

/-- The size demanded of a buffer: the capacity of a fixed ring, or the ceiling of an elastic one
with its floor. Without a floor the storage may shrink to nothing. -/
structure Bounds where
  ceiling : Nat
  floor : Option Nat
deriving Repr, DecidableEq

/-- One step of a walk that only looks. -/
inductive Look where
  | step (step : Traversal.Step)
  /-- What a copy of the walk would still yield. -/
  | rest
  /-- The walk in a listing. -/
  | listing
deriving Repr, DecidableEq

/-- One step of a walk that may overwrite what it passes. -/
inductive Overwrite (α : Type) where
  | step (step : Traversal.Step)
  /-- Takes the first place and overwrites the element there. -/
  | setNext (value : α)
  /-- Takes the last place and overwrites the element there. -/
  | setNextBack (value : α)
  /-- The walk in a listing. -/
  | listing

/-- What can be done with one buffer. -/
inductive Command (α : Type) where
  | info
  | read (reach : Reach)
  | write (reach : Reach) (value : α)
  | reverseRuns
  | linearize (reverse : Bool)
  | mark (site : Site)
  | next (site : Site)
  | previous (site : Site)
  | offset (site : Site) (n : Int)
  | distance (source target : Site)
  | compare (first second : Site)
  | same (first second : Site)
  | inspect (site : Site)
  | writeUnder (site : Site) (value : α)
  | push (side : End) (value : α)
  | pop (side : End)
  | extend (feed : Feed α)
  | insert (yields : End) (site : Site) (value : α)
  | insertCopies (yields : End) (site : Site) (n : Nat) (value : α)
  | insertFeed (yields : End) (site : Site) (feed : Feed α)
  | erase (toward : End) (site : Site)
  | eraseRange (toward : End) (first last : Site)
  | clear
  | setCapacity (trim : End) (bounds : Bounds)
  | setFloor (floor : Nat)
  | resize (side : End) (n : Nat) (value : α)
  | assign (n : Nat) (value : α)
  | assignWithin (bounds : Bounds) (n : Nat) (value : α)
  | assignFeed (feed : Feed α)
  | assignFeedWithin (bounds : Bounds) (feed : Feed α)
  | look (script : List Look)
  | overwrite (script : List (Overwrite α))
  | equalsList (values : List α)
  | hash
  | listing

/-- How a buffer is made. -/
inductive Plan (α : Type) where
  | emptyRing
  | ring (capacity : Nat)
  | filledRing (capacity : Nat) (value : α)
  | ringFrom (capacity : Nat) (feed : Feed α)
  | ringOf (values : List α)
  | emptyElastic
  | elastic (bounds : Bounds)
  | elasticCopies (bounds : Bounds) (n : Nat) (value : α)
  | filledElastic (bounds : Bounds) (value : α)
  | elasticFrom (bounds : Bounds) (feed : Feed α)

/-- What a session can be told to do. -/
inductive Op (α : Type) where
  | build (number : Nat) (plan : Plan α)
  | duplicate (source target : Nat)
  | destroy (number : Nat)
  /-- Takes the elements out one by one and destroys the buffer with the rest. -/
  | drain (number : Nat) (script : List Traversal.Step)
  | exchange (first second : Nat)
  | equals (first second : Nat)
  | order (first second : Nat)
  /-- Lets the copy after the next `copies` ones fail, or no copy at all. -/
  | armCopy (copies : Option Nat)
  /-- Lets the next destruction of a given value fail, or none at all. -/
  | armDestruction (value : Option α)
  /-- Changes what can be allocated from now on. -/
  | provide (memory : Memory)
  /-- Addresses a command to a buffer. A cursor that it returns is kept under the name `save`. -/
  | on (number : Nat) (command : Command α) (save : Option String)

end RingDeque.Session
