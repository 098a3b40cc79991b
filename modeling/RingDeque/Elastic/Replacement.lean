import RingDeque.Elastic.Editing

/-!
Making elastic rings, resizing them, and replacing all of their contents.
-/

namespace RingDeque.ElasticRing

variable {α : Type}

/-- An elastic ring without elements and without slots. -/
def empty : Effect (Ledger α) (ElasticRing α) :=
  return { ring := ← Ring.empty, limits := .nothing }

/-- An elastic ring without elements, with a block at the floor. -/
def new (limits : Limits) : Effect (Ledger α) (ElasticRing α) :=
  return { ring := ← Ring.new limits.floor, limits }

/-- An elastic ring of `n` copies of an element, which is destroyed in the end. -/
def ofCopies (limits : Limits) (n : Nat) (model : Item α) : Effect (Ledger α) (ElasticRing α) :=
  consuming model do
    if limits.ceiling < n then
      refuse (.invalidCapacity limits.ceiling n)
    let ring ← Ring.ofSupply (max limits.floor n) (.copies model n)
    return { ring, limits }

/-- An elastic ring filled up to its ceiling with copies of an element. -/
def filled (limits : Limits) (model : Item α) : Effect (Ledger α) (ElasticRing α) :=
  ofCopies limits limits.ceiling model

/-- An elastic ring of the last elements of a feed that the ceiling allows. -/
def ofFeed (limits : Limits) (feed : Feed α) : Effect (Ledger α) (ElasticRing α) := do
  let physical := min limits.ceiling (max limits.floor feed.claimed)
  let ring ← Ring.ofSupply physical (.listed feed.entries)
  building { ring, limits } (·.ring.contents) settle

/-- An elastic ring with the same limits and block size, and copies of the elements. -/
def duplicate (elastic : ElasticRing α) : Effect (Ledger α) (ElasticRing α) :=
  return { elastic with ring := ← elastic.ring.duplicate }

/-- Changes the number of elements to `n`, at the end `side`: there it grows by copies of an
element, or shrinks. The ceiling rises if need be. -/
def resize (side : End) (n : Nat) (model : Item α) : Act (ElasticRing α) α Unit := do
  let elastic ← Act.buffer
  if elastic.len < n then
    let added ← Word.sub n elastic.len
    holding model do
      setLimitsOnly (elastic.limits.raisedTo n)
      secure added
    let ring := (← Act.buffer).ring
    let cursor ← match side with
      | .front => ring.begin
      | .back => pure ring.finish
    let _ ← onRing (Ring.insertCopies side.opposite cursor added model)
  else
    consuming model do
      -- As for a ring, the difference only counts the turns.
      onRing (Ring.evict side (elastic.len - n))
      settle

/-- Replaces the contents by `n` copies of an element. The ceiling becomes `n`, without a floor. -/
def assign (n : Nat) (model : Item α) : Act (ElasticRing α) α Unit := do
  onRing (Ring.assignWithin n n model)
  setLimitsOnly (.ofCeiling n)

/-- Replaces the contents by `n` copies of an element, under other limits. -/
def assignUnder (limits : Limits) (n : Nat) (model : Item α) : Act (ElasticRing α) α Unit := do
  if limits.ceiling < n then
    holding model (refuse (.invalidCapacity limits.ceiling n))
  else
    onRing (Ring.assignWithin (max limits.floor n) n model)
    setLimitsOnly limits

/-- Replaces the contents by those of a feed. The ceiling becomes the number of elements that the
feed claims to hold, without a floor. -/
def assignFeed (feed : Feed α) : Act (ElasticRing α) α Unit := do
  onRing (Ring.assignFeedWithin feed.claimed feed)
  setLimitsOnly (.ofCeiling feed.claimed)

/-- Replaces the contents by the last elements of a feed that the ceiling of other limits
allows. -/
def assignFeedUnder (limits : Limits) (feed : Feed α) : Act (ElasticRing α) α Unit := do
  onRing (Ring.assignFeedWithin limits.ceiling feed)
  setLimitsOnly limits
  settle

end RingDeque.ElasticRing
