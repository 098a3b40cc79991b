import RingDeque.Ring.Ends
import RingDeque.Ring.Navigation

/-!
Insertion in the middle of a ring.

Insertion opens a gap by moving the elements on one side of it outwards, the side with fewer
elements, and fills the gap. If the ring is too full for that, elements at the end `yields` give
way first; new elements that do not fit even then are left out, again those towards that end. When
the source of the new elements ends or fails early, the rest of the gap is closed again, so no
element is lost.
-/

namespace RingDeque.Ring

variable {α : Type}

/-- Exchanges what two slots hold and voids the cursors to both. -/
def relocate (ring : Ring α) (source target : Nat) : Checked (Ring α) := do
  let block ← ring.block.swap source target
  return { ring with block, registry := (ring.registry.touch source).touch target }

/-- Moves the elements at these logical indices `width` places towards the back, in the given
order. -/
def shiftBack (ring : Ring α) (width : Nat) (indices : List Nat) : Checked (Ring α) :=
  indices.foldlM (fun ring index => do
      let source ← ring.slotOf index
      let target ← ring.slotOf (← Word.add index width)
      ring.relocate source target)
    ring

/-- Moves the elements at these logical indices `width` places towards the front, in the given
order. -/
def shiftFront (ring : Ring α) (width : Nat) (indices : List Nat) : Checked (Ring α) :=
  indices.foldlM (fun ring index => do
      let source ← ring.slotOf index
      let target ← ring.slotOf (← Word.sub index width)
      ring.relocate source target)
    ring

/-- Makes the first `count` elements start `width` slots earlier. -/
def slideFront (ring : Ring α) (count width : Nat) : Checked (Ring α) := do
  let start ← Slot.backward ring.start width ring.capacity
  let ring ← (List.range count).foldlM (fun ring index => do
      let source ← ring.slotOf index
      let target ← Slot.forward start index ring.capacity
      ring.relocate source target)
    ring
  return { ring with start }

/-- Opens a gap of `width` empty slots before the logical index `index`. -/
def openGap (ring : Ring α) (index width : Nat) (tie : End) : Checked (Ring α) := do
  let tail ← Word.sub ring.len index
  match End.shorter index tail tie with
  | .back => ring.shiftBack width (List.range' index tail).reverse
  | .front => ring.slideFront index width

/-- Writes elements into the empty slots from the logical index `index` on. -/
def fillGap (ring : Ring α) (index : Nat) : List (Item α) → Checked (Ring α)
  | [] => .ok ring
  | item :: rest => do
      let block ← ring.block.write (← ring.slotOf index) item
      fillGap { ring with block } (← Word.add index 1) rest

/-- Closes the unfilled rest of a gap: moves the `tail` elements behind it towards the front. -/
def closeGap (ring : Ring α) (index width tail : Nat) : Checked (Ring α) := do
  if width = 0 then
    return ring
  let behind ← Word.add index width
  (List.range tail).foldlM (fun ring offset => do
      let source ← ring.slotOf (← Word.add behind offset)
      let target ← ring.slotOf (← Word.add index offset)
      ring.relocate source target)
    ring

/-- Puts elements before the logical index `index`, in a gap made for `width` of them. There may
be fewer. -/
def splice (ring : Ring α) (index width : Nat) (tie : End) (items : List (Item α)) :
    Checked (Ring α) := do
  let tail ← Word.sub ring.len index
  let opened ← ring.openGap index width tie
  let filled ← opened.fillGap index items
  let behind ← Word.add index items.length
  let missing ← Word.sub width items.length
  let closed ← filled.closeGap behind missing tail
  return { closed with len := ← Word.add behind tail }

/-- The number of elements that can be put before the logical index `index` when elements give
way at the end `yields`. -/
def room (ring : Ring α) (yields : End) (index : Nat) : Checked Nat :=
  match yields with
  | .front => do
      let behind ← Word.sub ring.len index
      Word.sub ring.capacity behind
  | .back => Word.sub ring.capacity index

/-- Evicts as many elements as `count` new ones need. Returns where the logical index `index`
has moved to. -/
def makeRoom (yields : End) (index count : Nat) : Act (Ring α) α Nat := do
  let ring ← Act.buffer
  let evicted := (← Word.add ring.len count) - ring.capacity
  evict yields evicted
  match yields with
  | .front => Word.sub index evicted
  | .back => return index

/-- Puts the elements that the first `count` entries produce before the logical index `index`.
Returns the cursor to the first of them. -/
def insertEntries (yields : End) (index count : Nat) (entries : List (Entry α)) :
    Act (Ring α) α Cursor := do
  if count = 0 then
    return ← (← Act.buffer).cursorFor index
  let index ← makeRoom yields index count
  let (items, halt) ← Entry.produceAll (entries.take count)
  Act.alter (·.splice index count yields.opposite items)
  match halt with
  | some halt => throw halt
  | none => (← Act.buffer).cursorFor index

/-- Inserts one element before a cursor. If there is no room for it, it is destroyed. -/
def insert (yields : End) (cursor : Cursor) (item : Item α) : Act (Ring α) α Cursor := do
  let index ← holding item do (← Act.buffer).resolve cursor
  if (← (← Act.buffer).room yields index) = 0 then
    Ledger.destroy item
    (← Act.buffer).cursorFor index
  else
    let index ← holding item (makeRoom yields index 1)
    Act.alter (·.splice index 1 yields.opposite [item])
    (← Act.buffer).cursorFor index

/-- Inserts up to `n` copies of an element before a cursor, as many as there is room for. -/
def insertCopies (yields : End) (cursor : Cursor) (n : Nat) (model : Item α) :
    Act (Ring α) α Cursor :=
  consuming model do
    let ring ← Act.buffer
    let index ← ring.resolve cursor
    let count := min (← ring.room yields index) n
    insertEntries yields index count (List.replicate count (.copyOf model))

/-- Inserts the elements of a feed before a cursor. The feed's claim decides how many are
expected. If there is no room for them all, those towards the end `yields` are left out: the
leading ones are produced and destroyed before anything else, the trailing ones never produced. -/
def insertFeed (yields : End) (cursor : Cursor) (feed : Feed α) : Act (Ring α) α Cursor := do
  let ring ← Act.buffer
  let index ← ring.resolve cursor
  let count := min (← ring.room yields index) feed.claimed
  let entries ← match yields with
    | .front => feed.skipSurplus count
    | .back => pure feed.entries
  insertEntries yields index count entries

end RingDeque.Ring
