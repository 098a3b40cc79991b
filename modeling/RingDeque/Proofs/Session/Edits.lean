import RingDeque.Proofs.Ring.Erasing
import RingDeque.Proofs.Ring.Inserting
import RingDeque.Session.Run

/-!
Edits of a buffer, and what a caller is to expect of them.

A caller sees a list of values and a bound for its length. `Edit.expected` says what comes of an
edit in these terms alone: neither the layout of a ring nor the size of its block has a part in it.
-/

namespace RingDeque

namespace End

variable {β γ : Type}

theorem trim_map (side : End) (f : β → γ) (count : Nat) (items : List β) :
    side.trim count (items.map f) = (side.trim count items).map f := by
  cases side <;> simp [trim]

theorem last?_map (side : End) (f : β → γ) (items : List β) :
    side.last? (items.map f) = (side.last? items).map f := by
  cases side <;> simp [last?]

theorem attach_map (side : End) (f : β → γ) (item : β) (items : List β) :
    side.attach (f item) (items.map f) = (side.attach item items).map f := by
  cases side <;> simp [attach]

theorem pushed_map (side : End) (f : β → γ) (capacity : Nat) (items : List β) (item : β) :
    side.pushed capacity (items.map f) (f item) =
      ((side.pushed capacity items item).1.map f, (side.pushed capacity items item).2.map f) := by
  simp only [pushed, List.length_map]
  split
  · rfl
  split
  · rw [attach_map]
    rfl
  · rw [trim_map, attach_map, last?_map]

theorem inserted_map (yields : End) (f : β → γ) (capacity index count : Nat)
    (new items : List β) :
    yields.inserted capacity index count (new.map f) (items.map f) =
      (yields.inserted capacity index count new items).map f := by
  simp only [inserted, List.length_map, trim_map, List.map_append, List.map_take, List.map_drop]

end End

namespace Session

/-- What a caller sees of a buffer: how many values it holds at most, and which ones it holds. -/
structure Contents (α : Type) where
  bound : Nat
  values : List α

/-- An edit of a buffer, at places that are given by their logical indices. -/
inductive Edit (α : Type) where
  | push (side : End) (value : α)
  | pop (side : End)
  | insert (yields : End) (index : Nat) (value : α)
  | insertCopies (yields : End) (index n : Nat) (value : α)
  | insertFeed (yields : End) (index : Nat) (feed : Feed α)
  | erase (toward : End) (index : Nat)
  | eraseRange (toward : End) (first last : Nat)
  | clear
  | linearize
  | setCapacity (trim : End) (limits : Limits)
  | setFloor (floor : Nat)

variable {α : Type}

namespace Contents

/-- What is expected at an index: an answer, or a refusal beyond the length. -/
def atIndex (contents : Contents α) (index : Nat) (answer : Reply α × Contents α) :
    Reply α × Contents α :=
  if contents.values.length < index then
    (.halted (.refused (.indexOutOfRange index contents.values.length)), contents)
  else
    answer

/-- Other values, and a cursor to a place among them. -/
def pointing (contents : Contents α) (place : Nat) (values : List α) : Reply α × Contents α :=
  (.cursor place (place == values.length), { contents with values })

/-- The insertion of `n` values before an index, as far as there is room: `new count` are those
inserted if there is room for `count` of them. -/
def insert (contents : Contents α) (yields : End) (index n : Nat) (new : Nat → List α) :
    Reply α × Contents α :=
  let length := contents.values.length
  let count := yields.admitted contents.bound length index n
  contents.pointing (yields.shifted index (length + count - contents.bound))
    (yields.inserted contents.bound index count (new count) contents.values)

/-- The erasure of `count` values from an index on. -/
def erase (contents : Contents α) (toward : End) (index count : Nat) : Reply α × Contents α :=
  contents.pointing (toward.beside index count)
    (contents.values.take index ++ contents.values.drop (index + count))

end Contents

namespace Edit

/-- The command that carries out an edit. Each place is named by its index, so that its cursor is
issued right before. -/
def command : Edit α → Command α
  | .push side value => .push side value
  | .pop side => .pop side
  | .insert yields index value => .insert yields (.index index) value
  | .insertCopies yields index n value => .insertCopies yields (.index index) n value
  | .insertFeed yields index feed => .insertFeed yields (.index index) feed
  | .erase toward index => .erase toward (.index index)
  | .eraseRange toward first last => .eraseRange toward (.index first) (.index last)
  | .clear => .clear
  | .linearize => .linearize false
  | .setCapacity trim limits => .setCapacity trim ⟨limits.ceiling, some limits.floor⟩
  | .setFloor floor => .setFloor floor

/-- The edit of the buffer under a number. -/
def op (number : Nat) (edit : Edit α) : Op α :=
  .on number edit.command none

/-- The reply to an edit, and the contents after it. -/
def expected (contents : Contents α) : Edit α → Reply α × Contents α
  | .push side value =>
      let pushed := side.pushed contents.bound contents.values value
      (.element pushed.1, { contents with values := pushed.2 })
  | .pop side =>
      (.element (side.last? contents.values),
        { contents with values := side.trim 1 contents.values })
  | .insert yields index value =>
      contents.atIndex index (contents.insert yields index 1 ([value].take ·))
  | .insertCopies yields index n value =>
      contents.atIndex index (contents.insert yields index n (List.replicate · value))
  | .insertFeed yields index feed =>
      contents.atIndex index (contents.insert yields index feed.claimed fun count =>
        (Ring.chosen yields count feed).filterMap Entry.value?)
  | .erase toward index =>
      contents.atIndex index <|
        if index = contents.values.length then
          (.halted (.refused .endOfBuffer), contents)
        else
          contents.erase toward index 1
  | .eraseRange toward first last =>
      contents.atIndex first <| contents.atIndex last <|
        if last < first then
          (.halted (.refused (.invalidRange first last)), contents)
        else
          contents.erase toward first (last - first)
  | .clear => (.done, { contents with values := [] })
  | .linearize => (.elements contents.values, contents)
  | .setCapacity trim limits =>
      (.done, {
        bound := limits.ceiling
        values := trim.trim (contents.values.length - limits.ceiling) contents.values })
  | .setFloor floor =>
      if contents.bound < floor then
        (.halted (.refused (.invalidCapacity contents.bound floor)), contents)
      else
        (.done, contents)

theorem atIndex_valid {contents : Contents α} {index : Nat} {answer : Reply α × Contents α}
    (valid : answer.1 ≠ .halted (.refused .invalidCursor)) :
    (contents.atIndex index answer).1 ≠ .halted (.refused .invalidCursor) := by
  rw [Contents.atIndex]
  split
  · intro impossible
    cases impossible
  · exact valid

theorem pointing_valid {contents : Contents α} {place : Nat} {values : List α} :
    (contents.pointing place values).1 ≠ .halted (.refused .invalidCursor) := by
  intro impossible
  cases impossible

/-- Cursors that were issued right before an edit are not void. -/
theorem expected_valid (contents : Contents α) (edit : Edit α) :
    (edit.expected contents).1 ≠ .halted (.refused .invalidCursor) := by
  cases edit with
  | insert | insertCopies | insertFeed => exact atIndex_valid pointing_valid
  | erase toward index =>
      refine atIndex_valid ?_
      split
      · intro impossible
        cases impossible
      · exact pointing_valid
  | eraseRange toward first last =>
      refine atIndex_valid (atIndex_valid ?_)
      split
      · intro impossible
        cases impossible
      · exact pointing_valid
  | setFloor floor =>
      rw [expected]
      split
      · intro impossible
        cases impossible
      · intro impossible
        cases impossible
  | _ =>
    intro impossible
    cases impossible

/-- Whether an edit asks a source for an element at which the source breaks. -/
def Broken (contents : Contents α) : Edit α → Prop
  | .insertFeed yields index feed =>
      index ≤ contents.values.length ∧
        .breaks ∈ Ring.asked yields
          (yields.admitted contents.bound contents.values.length index feed.claimed) feed
  | _ => False

/-- Whether an edit gives a fixed ring a block that cannot be had. -/
def Starved (ledger : Ledger α) : Edit α → Prop
  | .setCapacity _ limits => ledger.Scarce limits.ceiling
  | _ => False

end Edit

end Session

end RingDeque
