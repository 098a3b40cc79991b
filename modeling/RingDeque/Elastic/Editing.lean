import RingDeque.Elastic.Storage
import RingDeque.Ring.Erasure

/-!
Adding and removing elements of an elastic ring. Each operation is that of the ring inside, after
the block was enlarged or before it is reduced.
-/

namespace RingDeque.ElasticRing

variable {α : Type}

/-- Adds an element at an end. Returns the element that had to give way. -/
def push (side : End) (item : Item α) : Act (ElasticRing α) α (Option (Item α)) := do
  holding item do
    unless (← Act.buffer).isFull do
      secure 1
  onRing (Act.update (Ring.push side · item))

/-- Removes the element at an end, if there is one. -/
def pop (side : End) : Act (ElasticRing α) α (Option (Item α)) := do
  match ← onRing (Act.update (Ring.pop side)) with
  | none => return none
  | some item =>
      holding item settle
      return some item

/-- The logical index of a cursor, after the block was enlarged for `n` more elements. -/
def prepare (cursor : Cursor) (n : Nat) : Act (ElasticRing α) α Nat := do
  let index ← (← Act.buffer).ring.resolve cursor
  secure n
  return index

/-- Inserts one element before a cursor. If there is no room for it, it is destroyed. -/
def insert (yields : End) (cursor : Cursor) (item : Item α) : Act (ElasticRing α) α Cursor := do
  let index ← holding item (prepare cursor 1)
  let cursor ← (← Act.buffer).ring.cursorFor index
  onRing (Ring.insert yields cursor item)

/-- Inserts up to `n` copies of an element before a cursor. -/
def insertCopies (yields : End) (cursor : Cursor) (n : Nat) (model : Item α) :
    Act (ElasticRing α) α Cursor := do
  let index ← holding model (prepare cursor n)
  let cursor ← (← Act.buffer).ring.cursorFor index
  onRing (Ring.insertCopies yields cursor n model)

/-- Inserts the elements of a feed before a cursor. -/
def insertFeed (yields : End) (cursor : Cursor) (feed : Feed α) :
    Act (ElasticRing α) α Cursor := do
  let index ← prepare cursor feed.claimed
  let cursor ← (← Act.buffer).ring.cursorFor index
  onRing (Ring.insertFeed yields cursor feed)

/-- Removes the element under a cursor. -/
def erase (toward : End) (cursor : Cursor) : Act (ElasticRing α) α Cursor := do
  settleKeeping (← onRing (Ring.erase toward cursor))

/-- Removes the elements from one cursor up to another one. -/
def eraseRange (toward : End) (first last : Cursor) : Act (ElasticRing α) α Cursor := do
  settleKeeping (← onRing (Ring.eraseRange toward first last))

/-- Removes every element. -/
def clear : Act (ElasticRing α) α Unit := do
  onRing Ring.clear
  settle

end RingDeque.ElasticRing
