import RingDeque.Ring.Comparison
import RingDeque.Session.Buffer

/-!
Scripts of steps on a walk over the elements of a buffer.
-/

namespace RingDeque.Session

variable {α : Type}

/-- What is left of a walk, in a listing: the rest of each run under the walk's name. -/
def listWalk [Value α] (name : String) (walk : Traversal (Item α)) : String :=
  Listing.compact (.record name [("front", run walk.front), ("back", run walk.back)])
where
  /-- The rest of a run. -/
  run (items : List (Item α)) : Listing :=
    .wrapped name [.list (items.map fun item => Value.listing item.value)]

/-- The values that an answer speaks of. -/
def WalkAnswer.ofItems (answer : Traversal.Answer (Item α)) : WalkAnswer α :=
  .walked (answer.map Item.value)

/-- Runs a script that only looks. -/
def lookScript [Value α] : List Look → Traversal (Item α) → Checked (List (WalkAnswer α))
  | [], _ => return []
  | .step step :: rest, walk => do
      let (answer, walk) ← walk.answer step
      return .ofItems answer :: (← lookScript rest walk)
  | .rest :: rest, walk => do
      return .ofItems (.many walk.toList) :: (← lookScript rest walk)
  | .listing :: rest, walk => do
      return .listed (listWalk "Iter" walk) :: (← lookScript rest walk)

/-- Runs a script that may overwrite elements. The old elements are handed back. -/
def overwriteScript [Value α] :
    List (Overwrite α) → Traversal (Placed α) → Act (Ring α) α (List (WalkAnswer α))
  | [], _ => return []
  | .step step :: rest, walk => do
      let (answer, walk) ← walk.answer step
      return .ofItems (answer.map Placed.item) :: (← overwriteScript rest walk)
  | .setNext value :: rest, walk => do
      let (place, walk) := walk.next
      let answer ← replacing place value
      return answer :: (← overwriteScript rest walk)
  | .setNextBack value :: rest, walk => do
      let (place, walk) := walk.nextBack
      let answer ← replacing place value
      return answer :: (← overwriteScript rest walk)
  | .listing :: rest, walk => do
      return .listed (listWalk "IterMut" (walk.map Placed.item)) :: (← overwriteScript rest walk)
where
  /-- Overwrites the element at a place, if the walk yielded one. -/
  replacing (place : Option (Placed α)) (value : α) : Act (Ring α) α (WalkAnswer α) := do
    match place with
    | none => return .walked (.one none)
    | some place =>
        let item ← Ledger.make value
        let old ← Act.update (·.overwriteSlot place.slot item)
        Ledger.handBack [old]
        return .walked (.one (some old.value))

/-- Runs a script that takes the elements out. They are handed back. -/
def drainScript : List Traversal.Step → Act (Ring α) α (List (WalkAnswer α))
  | [] => return []
  | step :: rest => do
      let answer ← Ring.drain step
      Ledger.handBack answer.taken
      return .ofItems answer :: (← drainScript rest)

end RingDeque.Session
