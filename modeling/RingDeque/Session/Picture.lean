import RingDeque.Ring.Navigation
import RingDeque.Session.Basic

/-!
A session as it is seen from outside.
-/

namespace RingDeque.Session

variable {α : Type}

/-- What has become of a bookmark. -/
def pictureOf (session : Session α) (bookmark : Bookmark) : Checked BookmarkPicture :=
  match session.buffer? bookmark.number with
  | none => .ok .gone
  | some buffer =>
      match buffer.ring.resolve bookmark.cursor with
      | .ok index => .ok (.index index)
      | .error (.fault fault) => .error fault
      | .error _ => .ok .stale

/-- The session as it is seen from outside. -/
def picture (session : Session α) : Checked (Picture α) :=
  return {
    buffers := ← session.buffers.mapM fun (number, buffer) => return (number, ← buffer.picture)
    live := session.ledger.live
    bookmarks := ← session.bookmarks.mapM fun (name, bookmark) =>
      return (name, ← session.pictureOf bookmark)
    events := session.ledger.events }

/-- The session after all its buffers were given up. -/
def finish (session : Session α) : Checked (Session α) := do
  let contents ← session.buffers.mapM fun (_, buffer) => buffer.ring.contents
  return { session with buffers := [], ledger := session.ledger.discarding contents.flatten }

end RingDeque.Session
