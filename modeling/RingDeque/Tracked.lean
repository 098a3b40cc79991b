import RingDeque.Ledger

/-!
Operations on a buffer together with the ledger.

A query reads a buffer and may be refused. An action changes a buffer and the ledger, and may halt
on the way; the state it leaves behind is then the one it had reached.
-/

namespace RingDeque

/-- The result of looking something up, which may be refused. -/
abbrev Query := Except Halt

/-- A buffer and the ledger of its elements. -/
structure Tracked (β α : Type) where
  buffer : β
  ledger : Ledger α

/-- An operation on a buffer and the ledger. -/
abbrev Act (β α : Type) := Effect (Tracked β α)

instance : MonadLift Checked Query where
  monadLift
    | .ok value => .ok value
    | .error fault => .error (.fault fault)

instance : MonadLift Query (Effect σ) where
  monadLift
    | .ok value, state => .ok value state
    | .error halt, state => .error halt state

instance : MonadLift (Effect (Ledger α)) (Act β α) where
  monadLift act := fun ⟨buffer, ledger⟩ =>
    match act ledger with
    | .ok value ledger => .ok value ⟨buffer, ledger⟩
    | .error halt ledger => .error halt ⟨buffer, ledger⟩

/-- Ends an operation with an error. -/
def refuse [MonadExcept Halt m] (error : Error) : m γ :=
  throw (.refused error)

namespace Act

/-- The buffer as it is now. -/
def buffer : Act β α β :=
  return (← get).buffer

/-- Puts another buffer in place. -/
def become (buffer : β) : Act β α Unit :=
  modify ({ · with buffer })

/-- Applies a checked step to the buffer. -/
def update (step : β → Checked (γ × β)) : Act β α γ := do
  let (value, buffer) ← step (← buffer)
  become buffer
  return value

/-- Applies a checked step that has no result. -/
def alter (step : β → Checked β) : Act β α Unit := do
  become (← step (← buffer))

/-- Reports an event. -/
def report (event : Event) : Act β α Unit :=
  (Ledger.report event : Effect (Ledger α) Unit)

/-- Runs an action on a part of the buffer. -/
def onPart (part : β → π) (rebuild : β → π → β) (act : Act π α γ) : Act β α γ :=
  fun ⟨buffer, ledger⟩ =>
    match act ⟨part buffer, ledger⟩ with
    | .ok value ⟨changed, ledger⟩ => .ok value ⟨rebuild buffer changed, ledger⟩
    | .error halt ⟨changed, ledger⟩ => .error halt ⟨rebuild buffer changed, ledger⟩

end Act

/-- Runs an operation while owning an element. If the operation is refused, the element is
destroyed; if it is interrupted, the element is discarded on the way out. -/
def holding [MonadLiftT (Effect (Ledger α)) (Effect σ)] (item : Item α) (act : Effect σ γ) :
    Effect σ γ := do
  try act catch
    | .refused error => do
        Ledger.destroy item
        refuse error
    | .interrupted cause => do
        Ledger.discard [item]
        throw (.interrupted cause)
    | .fault fault => throw (.fault fault)

/-- Runs an operation that only looks at an element, and destroys the element afterwards. -/
def consuming [MonadLiftT (Effect (Ledger α)) (Effect σ)] (item : Item α) (act : Effect σ γ) :
    Effect σ γ := do
  let value ← holding item act
  Ledger.destroy item
  return value

/-- Runs an allocation that nobody expects to be refused. If it is, that interrupts the operation. -/
def expecting (purpose : Purpose) (act : Effect σ γ) : Effect σ γ := do
  try act catch
    | .refused error => throw (.interrupted (.unexpected purpose error))
    | halt => throw halt

/-- Makes a buffer by running an action on an initial one. If that is interrupted, what the
unfinished buffer holds is discarded. -/
def building (initial : β) (contents : β → Checked (List (Item α))) (act : Act β α Unit) :
    Effect (Ledger α) β := fun ledger =>
  match act ⟨initial, ledger⟩ with
  | .ok _ ⟨buffer, ledger⟩ => .ok buffer ledger
  | .error halt ⟨buffer, ledger⟩ =>
      (do
        Ledger.discard (← contents buffer)
        throw halt : Effect (Ledger α) β) ledger

/-- Runs an action on a buffer that is not needed afterwards. What the buffer then holds, in two
runs, is destroyed, or discarded if the action halts. -/
def spending (initial : β) (runs : β → Checked (List (Item α) × List (Item α))) (act : Act β α γ) :
    Effect (Ledger α) γ := fun ledger =>
  match act ⟨initial, ledger⟩ with
  | .ok value ⟨buffer, ledger⟩ =>
      (do
        let (front, back) ← runs buffer
        Ledger.destroyRuns front back
        return value : Effect (Ledger α) γ) ledger
  | .error halt ⟨buffer, ledger⟩ =>
      (do
        let (front, back) ← runs buffer
        Ledger.discard front
        Ledger.discard back
        throw halt : Effect (Ledger α) γ) ledger

end RingDeque
