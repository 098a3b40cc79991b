import RingDeque.Elastic.Replacement
import RingDeque.Ring.Iteration
import RingDeque.Session.Command
import RingDeque.Session.Reply

/-!
Buffers of either kind, and the operations that both kinds know under one name.
-/

namespace RingDeque.Session

/-- A fixed ring or an elastic one. -/
inductive Buffer (α : Type) where
  | fixed (ring : Ring α)
  | elastic (ring : ElasticRing α)

/-- The limits that bounds describe. -/
def Bounds.limits (bounds : Bounds) : Except Error Limits :=
  match bounds.floor with
  | some floor => Limits.new bounds.ceiling floor
  | none => .ok (.ofCeiling bounds.ceiling)

/-- The limits that bounds describe, or a refusal. -/
def Bounds.demand [Monad m] [MonadExcept Halt m] (bounds : Bounds) : m Limits :=
  match bounds.limits with
  | .ok limits => pure limits
  | .error error => refuse error

namespace Buffer

variable {α : Type}

/-- The ring in which the elements lie. -/
def ring : Buffer α → Ring α
  | .fixed ring => ring
  | .elastic outer => outer.ring

/-- Runs one action on a fixed ring, another one on an elastic ring. -/
def either (onFixed : Act (Ring α) α γ) (onElastic : Act (ElasticRing α) α γ) :
    Act (Buffer α) α γ := fun ⟨buffer, ledger⟩ =>
  match buffer with
  | .fixed ring => Act.onPart (fun _ => ring) (fun _ => .fixed) onFixed ⟨buffer, ledger⟩
  | .elastic outer => Act.onPart (fun _ => outer) (fun _ => .elastic) onElastic ⟨buffer, ledger⟩

/-- Runs an action on the ring in which the elements lie. -/
def onRing (act : Act (Ring α) α γ) : Act (Buffer α) α γ :=
  either act (ElasticRing.onRing act)

/-- Makes a buffer. -/
def build : Plan α → Effect (Ledger α) (Buffer α)
  | .emptyRing => return .fixed (← Ring.empty)
  | .ring capacity => return .fixed (← Ring.new capacity)
  | .filledRing capacity value => do
      return .fixed (← Ring.filled capacity (← Ledger.make value))
  | .ringFrom capacity feed => return .fixed (← Ring.ofSupply capacity (.listed feed.entries))
  | .ringOf values => do
      let items ← values.mapM Ledger.make
      return .fixed (← Ring.ofItems items)
  | .emptyElastic => return .elastic (← ElasticRing.empty)
  | .elastic bounds => return .elastic (← ElasticRing.new (← bounds.demand))
  | .elasticCopies bounds n value => do
      let limits ← bounds.demand
      return .elastic (← ElasticRing.ofCopies limits n (← Ledger.make value))
  | .filledElastic bounds value => do
      let limits ← bounds.demand
      return .elastic (← ElasticRing.filled limits (← Ledger.make value))
  | .elasticFrom bounds feed => do
      return .elastic (← ElasticRing.ofFeed (← bounds.demand) feed)

/-- A buffer of the same kind with copies of the elements. -/
def duplicate : Buffer α → Effect (Ledger α) (Buffer α)
  | .fixed ring => return .fixed (← ring.duplicate)
  | .elastic outer => return .elastic (← outer.duplicate)

/-- Exchanges two buffers of the same kind. -/
def swap? : Buffer α → Buffer α → Option (Buffer α × Buffer α)
  | .fixed first, .fixed second => some ((first.swap second).map .fixed .fixed)
  | .elastic first, .elastic second => some ((first.swap second).map .elastic .elastic)
  | _, _ => none

def push (side : End) (item : Item α) : Act (Buffer α) α (Option (Item α)) :=
  either (Act.update (Ring.push side · item)) (ElasticRing.push side item)

def pop (side : End) : Act (Buffer α) α (Option (Item α)) :=
  either (Act.update (Ring.pop side)) (ElasticRing.pop side)

def insert (yields : End) (cursor : Cursor) (item : Item α) : Act (Buffer α) α Cursor :=
  either (Ring.insert yields cursor item) (ElasticRing.insert yields cursor item)

def insertCopies (yields : End) (cursor : Cursor) (n : Nat) (model : Item α) :
    Act (Buffer α) α Cursor :=
  either (Ring.insertCopies yields cursor n model) (ElasticRing.insertCopies yields cursor n model)

def insertFeed (yields : End) (cursor : Cursor) (feed : Feed α) : Act (Buffer α) α Cursor :=
  either (Ring.insertFeed yields cursor feed) (ElasticRing.insertFeed yields cursor feed)

def erase (toward : End) (cursor : Cursor) : Act (Buffer α) α Cursor :=
  either (Ring.erase toward cursor) (ElasticRing.erase toward cursor)

def eraseRange (toward : End) (first last : Cursor) : Act (Buffer α) α Cursor :=
  either (Ring.eraseRange toward first last) (ElasticRing.eraseRange toward first last)

def clear : Act (Buffer α) α Unit :=
  either Ring.clear ElasticRing.clear

def setCapacity (trim : End) (bounds : Bounds) : Act (Buffer α) α Unit :=
  either (Ring.setCapacity trim bounds.ceiling) do
    ElasticRing.setLimits trim (← bounds.demand)

/-- Grows or shrinks to `n` elements. Growth happens at the end `side`; a fixed ring shrinks at the
other end, an elastic one at the same. -/
def resize (side : End) (n : Nat) (model : Item α) : Act (Buffer α) α Unit :=
  either (Ring.resize side.opposite n model) (ElasticRing.resize side n model)

def assign (n : Nat) (model : Item α) : Act (Buffer α) α Unit :=
  either (Ring.assign n model) (ElasticRing.assign n model)

/-- Replaces the contents by copies of a new element, made once the bounds are known to be
sound. -/
def assignWithin (bounds : Bounds) (n : Nat) (value : α) : Act (Buffer α) α Unit :=
  either
    (do Ring.assignWithin bounds.ceiling n (← Ledger.make value))
    (do
      let limits ← bounds.demand
      ElasticRing.assignUnder limits n (← Ledger.make value))

def assignFeed (feed : Feed α) : Act (Buffer α) α Unit :=
  either (Ring.assignFeed feed) (ElasticRing.assignFeed feed)

def assignFeedWithin (bounds : Bounds) (feed : Feed α) : Act (Buffer α) α Unit :=
  either (Ring.assignFeedWithin bounds.ceiling feed) do
    ElasticRing.assignFeedUnder (← bounds.demand) feed

/-- The sizes of a buffer. -/
def info (buffer : Buffer α) : Checked Info := do
  let ring := buffer.ring
  let isLinear ← ring.isLinear
  match buffer with
  | .fixed ring =>
      return {
        len := ring.len, capacity := ring.capacity, isEmpty := ring.isEmpty, isFull := ring.isFull
        remaining := ← ring.remaining, isLinear, elastic := none }
  | .elastic outer =>
      return {
        len := outer.len, capacity := outer.capacity, isEmpty := ring.isEmpty
        isFull := outer.isFull, remaining := outer.remaining, isLinear
        elastic := some
          (outer.limits.floor, outer.physical, outer.limits.listing.compact) }

/-- A buffer as it is seen from outside. -/
def picture (buffer : Buffer α) : Checked (BufferPicture α) := do
  let (front, back) ← buffer.ring.runs
  let front := front.map Item.value
  let back := back.map Item.value
  match buffer with
  | .fixed ring => return { capacity := ring.capacity, elastic := none, front, back }
  | .elastic outer =>
      return {
        capacity := outer.capacity
        elastic := some (outer.limits.floor, outer.physical)
        front, back }

/-- A buffer in a listing. -/
def listing [Value α] : Buffer α → Checked Listing
  | .fixed ring => ring.listing
  | .elastic outer => outer.listing

end Buffer

end RingDeque.Session
