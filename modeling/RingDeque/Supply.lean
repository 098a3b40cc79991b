import RingDeque.Tracked

/-!
Where new elements come from.

An element is made only when a buffer asks for it, so that an element which is never asked for is
never made, and a source that fails does so at the element it failed to yield.
-/

namespace RingDeque

/-- One step of a source. -/
inductive Entry (α : Type) where
  /-- A new element with this value. -/
  | fresh (value : α)
  /-- A copy of an element that the caller keeps. -/
  | copyOf (model : Item α)
  /-- The source fails here. -/
  | breaks

namespace Entry

def produce : Entry α → Effect (Ledger α) (Item α)
  | .fresh value => Ledger.make value
  | .copyOf model => Ledger.copy model
  | .breaks => throw (.interrupted .sourceFailed)

/-- Produces elements until the entries end or one of them fails. -/
def produceAll : List (Entry α) → Effect (Ledger α) (List (Item α) × Option Halt)
  | [] => return ([], none)
  | entry :: rest => do
      match ← observing (produce entry) with
      | .error halt => return ([], some halt)
      | .ok item =>
          let (items, halt) ← produceAll rest
          return (item :: items, halt)
where
  /-- The outcome of an operation as a value. -/
  observing (act : Effect (Ledger α) (Item α)) : Effect (Ledger α) (Except Halt (Item α)) :=
    try return .ok (← act) catch halt => return .error halt

/-- Asks for `count` elements and destroys each of them at once. Returns the entries left. -/
def skip : (count : Nat) → List (Entry α) → Effect (Ledger α) (List (Entry α))
  | 0, entries => return entries
  | _, [] => return []
  | count + 1, entry :: rest => do
      Ledger.destroy (← entry.produce)
      skip count rest

/-- Asks for the elements up to the one of the entry at index `last`, and destroys each of them at
once. Returns the entries behind it. -/
def skipThrough (last : Nat) (entries : List (Entry α)) : Effect (Ledger α) (List (Entry α)) :=
  skip (last + 1) entries

end Entry

/-- A source of elements that says in advance how many it holds. It may be wrong about that. -/
structure Feed (α : Type) where
  entries : List (Entry α)
  claimed : Nat

/-- A feed that is right about its length. -/
def Feed.ofValues (values : List α) : Feed α where
  entries := values.map .fresh
  claimed := values.length

/-- The entries of a feed of which `count` elements are wanted. Those that it claims beyond that are
its leading ones: they are produced and destroyed. -/
def Feed.skipSurplus (feed : Feed α) (count : Nat) : Effect (Ledger α) (List (Entry α)) := do
  if count < feed.claimed then
    let surplus ← Word.sub feed.claimed count
    Entry.skipThrough (← Word.sub surplus 1) feed.entries
  else
    return feed.entries

/-- Contents for a whole buffer. -/
inductive Supply (α : Type) where
  /-- Copies of one element. -/
  | copies (model : Item α) (count : Nat)
  /-- Entries one after the other. -/
  | listed (entries : List (Entry α))

def Supply.entries : Supply α → List (Entry α)
  | .copies model count => List.replicate count (.copyOf model)
  | .listed entries => entries

end RingDeque
