import RingDeque.Ring.Insertion
import RingDeque.Ring.Storage

/-!
Operations that change the number of elements as a whole: resizing a ring, and replacing all of
its contents.
-/

namespace RingDeque.Ring

variable {α : Type}

/-- Changes the number of elements to `n`. The ring shrinks at the end `yields` and grows by
copies of an element at the other one; the capacity rises if need be. -/
def resize (yields : End) (n : Nat) (model : Item α) : Act (Ring α) α Unit :=
  consuming model do
    let ring ← Act.buffer
    if ring.len < n then
      if ring.capacity < n then
        setCapacity yields n
      let len := (← Act.buffer).len
      let count ← Word.sub n len
      let index := match yields with
        | .front => len
        | .back => 0
      let _ ← insertEntries yields index count (List.replicate count (.copyOf model))
    else
      -- One at a time while more than `n` are left, so the difference only counts the turns.
      evict yields (ring.len - n)

/-- Replaces the contents by those of a supply, in a block of the given capacity. A block that has
this capacity already is refilled in place; otherwise the new contents are complete before the old
ones go, so that a failure leaves the ring as it was. Every cursor becomes void. -/
def replaceContents (capacity : Nat) (supply : Supply α) : Act (Ring α) α Unit := do
  let ring ← Act.buffer
  if capacity = ring.capacity then
    clear
    extend supply.entries
  else
    let fresh ← ofSupply capacity supply
    Act.report (.replaced ring.capacity capacity fresh.len)
    Act.become (ring.adopt fresh).voided
    ring.destroy

/-- Replaces the contents by `n` copies of an element. The capacity becomes `n` if it is smaller. -/
def assign (n : Nat) (model : Item α) : Act (Ring α) α Unit :=
  consuming model do
    replaceContents (max (← Act.buffer).capacity n) (.copies model n)

/-- Replaces the contents by `n` copies of an element, in a block of the given capacity. -/
def assignWithin (capacity n : Nat) (model : Item α) : Act (Ring α) α Unit :=
  consuming model do
    if capacity < n then
      refuse (.invalidCapacity capacity n)
    replaceContents capacity (.copies model n)

/-- Replaces the contents by those of a feed. The capacity becomes the number of elements that the
feed claims to hold, if it is smaller. -/
def assignFeed (feed : Feed α) : Act (Ring α) α Unit := do
  replaceContents (max (← Act.buffer).capacity feed.claimed) (.listed feed.entries)

/-- Replaces the contents by the last elements of a feed that fit into the given capacity. -/
def assignFeedWithin (capacity : Nat) (feed : Feed α) : Act (Ring α) α Unit :=
  replaceContents capacity (.listed feed.entries)

/-- A ring with the same capacity and copies of the elements. Storage of that size is taken for
granted. -/
def duplicate (ring : Ring α) : Effect (Ledger α) (Ring α) := do
  let copy ← expecting .duplicate (new ring.capacity)
  building copy contents (extend ((← ring.contents).map .copyOf))

/-- A full ring of copies of an element, which is destroyed in the end. -/
def filled (capacity : Nat) (model : Item α) : Effect (Ledger α) (Ring α) :=
  consuming model (ofSupply capacity (.copies model capacity))

end RingDeque.Ring
