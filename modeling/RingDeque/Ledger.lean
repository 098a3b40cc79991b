import RingDeque.Event
import RingDeque.Word

/-!
What happens to elements outside the buffers that hold them.

Every element that is made has an identity of its own, a copy included. The ledger counts the
elements made, and records those destroyed and those handed back to the caller; the elements left
over are the ones that buffers hold. Making a copy or destroying an element may fail, once, at a
point chosen in advance. Such a failure interrupts the operation that caused it, and what is
destroyed on the way out is destroyed quietly.

The ledger also says what can be allocated. That may change from one operation to the next.
-/

namespace RingDeque

/-- An element: a value with an identity. -/
structure Item (α : Type) where
  id : Nat
  value : α
deriving Repr, DecidableEq

/-- What an allocation is for that nobody expects to be refused. -/
inductive Purpose where
  /-- The storage of a copy of a buffer. -/
  | duplicate
  /-- The counters beside a block that is there already. -/
  | stamps
deriving Repr, DecidableEq

def Purpose.text : Purpose → String
  | .duplicate => "Allocation of a clone of an existing buffer"
  | .stamps => "Stamp table for an existing allocation"

/-- Why an operation stopped half-way. -/
inductive Interruption where
  /-- An element could not be copied. -/
  | copyFailed
  /-- The destruction of an element failed; the element is gone all the same. -/
  | destructionFailed
  /-- A source of elements failed to yield its next one. -/
  | sourceFailed
  /-- An element was demanded at an index that has none. -/
  | indexOutOfRange (index length : Nat)
  /-- An allocation was refused after all. -/
  | unexpected (purpose : Purpose) (error : Error)
deriving Repr, DecidableEq

def Interruption.message : Interruption → String
  | .copyFailed => "clone failed"
  | .destructionFailed => "drop failed"
  | .sourceFailed => "iterator failed"
  | .indexOutOfRange index length => (Error.indexOutOfRange index length).message
  | .unexpected purpose error => purpose.text ++ ": " ++ error.listing.compact

/-- The ways in which an operation ends without a result. -/
inductive Halt where
  /-- It was refused, with a reason. -/
  | refused (error : Error)
  /-- It stopped half-way. -/
  | interrupted (cause : Interruption)
  /-- It broke its own bookkeeping. -/
  | fault (fault : Fault)
deriving Repr, DecidableEq

/-- What can be allocated. A request is granted or refused by its size: no operation makes two
requests of the same kind and size. -/
structure Memory where
  /-- Whether a block of this many slots can be had. -/
  block : Nat → Bool
  /-- Whether a table of this many counters can be had. -/
  stamps : Nat → Bool

/-- Memory for whatever is smaller than a bound. -/
def Memory.below (bound : Nat) : Memory where
  block capacity := capacity < bound
  stamps capacity := capacity < bound

/-- The record of elements made, destroyed and handed back, with the failures that are due, the
reports made so far, the number of identities given to rings, and what can be allocated. -/
structure Ledger (α : Type) where
  /-- The number of elements made; the next one has this identity. -/
  created : Nat
  /-- Destroyed elements, the latest first. -/
  destroyed : List (Item α)
  /-- Elements handed back to the caller, the latest first. -/
  returned : List (Item α)
  /-- If set, this many copies succeed and the one after them fails. -/
  copiesLeft : Option Nat
  /-- If set, the next destruction of such an element fails. -/
  brittle : Option (Item α → Bool)
  /-- Reports, the earliest first. -/
  events : List Event
  /-- The number of rings that were given an identity. -/
  rings : Nat
  memory : Memory

/-- An operation on a state that may halt, and then keeps what it did up to that point. -/
abbrev Effect (σ : Type) := EStateM Halt σ

namespace Ledger

/-- The memory of a machine: the 40th power of two is too much for it. -/
def ordinaryMemory : Memory :=
  .below 0x10000000000

/-- The record before anything happened. -/
def blank (memory : Memory) : Ledger α where
  created := 0
  destroyed := []
  returned := []
  copiesLeft := none
  brittle := none
  events := []
  rings := 0
  memory

/-- The number of elements that exist: neither destroyed nor handed back. -/
def live (ledger : Ledger α) : Nat :=
  ledger.created - ledger.destroyed.length - ledger.returned.length

/-- Records that elements were destroyed, in the given order and without any failure. -/
def discarding (ledger : Ledger α) (items : List (Item α)) : Ledger α :=
  { ledger with destroyed := items.reverse ++ ledger.destroyed }

/-- Makes an element. -/
def make (value : α) : Effect (Ledger α) (Item α) := do
  let ledger ← get
  set { ledger with created := ledger.created + 1 }
  return ⟨ledger.created, value⟩

/-- Makes a copy of an element. A failure happens once. -/
def copy (item : Item α) : Effect (Ledger α) (Item α) := do
  let ledger ← get
  match ledger.copiesLeft with
  | none => make item.value
  | some (left + 1) =>
      set { ledger with copiesLeft := some left }
      make item.value
  | some 0 =>
      set { ledger with copiesLeft := none }
      throw (.interrupted .copyFailed)

/-- Destroys elements quietly, on the way out of an operation that already failed. -/
def discard (items : List (Item α)) : Effect (Ledger α) Unit :=
  modify (·.discarding items)

/-- Destroys an element. It is gone even if that fails, and a failure happens once. -/
def destroy (item : Item α) : Effect (Ledger α) Unit := do
  discard [item]
  let ledger ← get
  match ledger.brittle with
  | none => return
  | some fails =>
      if fails item then
        set { ledger with brittle := none }
        throw (.interrupted .destructionFailed)

/-- Destroys a slice of elements as a whole: after a failure the rest of the slice is destroyed
quietly, before the failure goes on. -/
def destroyRun : List (Item α) → Effect (Ledger α) Unit
  | [] => pure ()
  | item :: rest => do
      try destroy item catch halt =>
        discard rest
        throw halt
      destroyRun rest

/-- Runs an operation under a guard that owns a slice of elements. Once the operation is over the
guard destroys them, and does so quietly if the operation halted. -/
def guarding (slice : List (Item α)) (act : Effect (Ledger α) Unit) : Effect (Ledger α) Unit := do
  try act catch halt =>
    discard slice
    throw halt
  destroyRun slice

/-- Destroys the elements of two slices, the second of which is under guard meanwhile. -/
def destroyRuns (front back : List (Item α)) : Effect (Ledger α) Unit :=
  guarding back (destroyRun front)

/-- Hands elements back to the caller. -/
def handBack (items : List (Item α)) : Effect (Ledger α) Unit :=
  modify fun ledger => { ledger with returned := items.reverse ++ ledger.returned }

/-- Reports an event. -/
def report (event : Event) : Effect (Ledger α) Unit :=
  modify fun ledger => { ledger with events := ledger.events ++ [event] }

/-- Gives a new ring an identity that no other ring has. -/
def identify : Effect (Ledger α) Nat := do
  let ledger ← get
  set { ledger with rings := ledger.rings + 1 }
  return ledger.rings

/-- Sets or lifts the failure of a copy. -/
def armCopy (copies : Option Nat) : Effect (Ledger α) Unit :=
  modify ({ · with copiesLeft := copies })

/-- Sets or lifts the failure of a destruction. -/
def armDestruction (fails : Option (Item α → Bool)) : Effect (Ledger α) Unit :=
  modify ({ · with brittle := fails })

/-- Changes what can be allocated. -/
def provide (memory : Memory) : Effect (Ledger α) Unit :=
  modify ({ · with memory })

end Ledger

end RingDeque
