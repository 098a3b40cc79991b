import RingDeque.Ring.Navigation
import RingDeque.Session.Basic

/-!
The steps of which operations on a session are made: running an action on a buffer or on the
ledger, asking a buffer something, and finding the cursor at a place that was named.
-/

namespace RingDeque.Session

variable {α : Type}

/-- Why an operation has no regular reply. -/
inductive Stop where
  | halted (halt : Halt)
  | inapplicable
deriving Repr, DecidableEq

/-- An operation on a session. -/
abbrev Move (α γ : Type) := EStateM Stop (Session α) γ

/-- Stops an operation that makes no sense in this session. -/
def inapplicable : Move α γ :=
  throw .inapplicable

/-- The buffer under a number. -/
def demandBuffer (number : Nat) : Move α (Buffer α) := do
  match (← get).buffer? number with
  | some buffer => return buffer
  | none => inapplicable

/-- Makes sure that there is no buffer under a number yet. -/
def demandVacant (number : Nat) : Move α Unit := do
  if ((← get).buffer? number).isSome then
    inapplicable

/-- Runs an operation on the ledger. -/
def onLedger (act : Effect (Ledger α) γ) : Move α γ := fun session =>
  match act session.ledger with
  | .ok value ledger => .ok value { session with ledger }
  | .error halt ledger => .error (.halted halt) { session with ledger }

/-- Runs an action on the buffer under a number. -/
def onBuffer (number : Nat) (act : Act (Buffer α) α γ) : Move α γ := do
  let buffer ← demandBuffer number
  fun session =>
    match act ⟨buffer, session.ledger⟩ with
    | .ok value ⟨buffer, ledger⟩ => .ok value ({ session with ledger }.withBuffer number buffer)
    | .error halt ⟨buffer, ledger⟩ =>
        .error (.halted halt) ({ session with ledger }.withBuffer number buffer)

/-- The answer to a query, which stops the operation if it is refused. -/
def ask (query : Query γ) : Move α γ :=
  match query with
  | .ok value => pure value
  | .error halt => throw (.halted halt)

/-- The answer to a query, a refusal included. -/
def askEither (query : Query γ) : Move α (Except Error γ) :=
  match query with
  | .ok value => pure (.ok value)
  | .error (.refused error) => pure (.error error)
  | .error halt => throw (.halted halt)

/-- The answer to a query about the ring under a number. -/
def askRing (number : Nat) (query : Ring α → Query γ) : Move α γ := do
  ask (query (← demandBuffer number).ring)

/-- The cursor at a place, as seen from the buffer under a number. -/
def cursorOf (number : Nat) (site : Site) : Move α Cursor := do
  match site with
  | .begin => askRing number fun ring => ring.begin
  | .finish => askRing number fun ring => pure ring.finish
  | .index index => askRing number (·.cursorAt index)
  | .bookmark name =>
      match (← get).bookmarks.lookup name with
      | some bookmark => return bookmark.cursor
      | none => inapplicable

/-- Hands an element back to the caller, who sees its value. -/
def handBackOne (item : Option (Item α)) : Move α (Reply α) := do
  onLedger (Ledger.handBack item.toList)
  return .element (item.map Item.value)

end RingDeque.Session
