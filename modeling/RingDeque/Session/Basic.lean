import RingDeque.Session.Buffer

/-!
A session: numbered buffers, named bookmarks, and the ledger of all elements.
-/

namespace RingDeque

/-- A cursor that was kept, with the number of the buffer it was set in. -/
structure Bookmark where
  number : Nat
  cursor : Cursor
deriving Repr, DecidableEq

/-- Numbered buffers, named bookmarks, and the ledger of all elements. -/
structure Session (α : Type) where
  buffers : List (Nat × Session.Buffer α)
  bookmarks : List (String × Bookmark)
  ledger : Ledger α

namespace Session

variable {α : Type}

/-- A session without buffers. -/
def blank (memory : Memory) : Session α where
  buffers := []
  bookmarks := []
  ledger := .blank memory

/-- The buffer under a number. -/
def buffer? (session : Session α) (number : Nat) : Option (Buffer α) :=
  session.buffers.lookup number

/-- The session with a buffer under a number, in place of the one that was there. -/
def withBuffer (session : Session α) (number : Nat) (buffer : Buffer α) : Session α :=
  { session with
    buffers := session.buffers.filter (·.1 != number) ++ [(number, buffer)] }

/-- The session without the buffer under a number. -/
def withoutBuffer (session : Session α) (number : Nat) : Session α :=
  { session with buffers := session.buffers.filter (·.1 != number) }

/-- The session with a bookmark under a name. -/
def withBookmark (session : Session α) (name : String) (bookmark : Bookmark) : Session α :=
  { session with
    bookmarks := session.bookmarks.filter (·.1 != name) ++ [(name, bookmark)] }

end Session

end RingDeque
