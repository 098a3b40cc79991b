import RingDeque.Error

/-!
What a buffer reports while it works: each change of its storage, with the sizes involved.
-/

namespace RingDeque

/-- How much attention a report deserves. -/
inductive Level where
  | trace
  | debug
  | warn
deriving Repr, DecidableEq

def Level.text : Level → String
  | .trace => "TRACE"
  | .debug => "DEBUG"
  | .warn => "WARN"

/-- A report about the storage of a buffer. -/
inductive Event where
  /-- The elements of a wrapped block were brought into one run. -/
  | rotated (capacity len start : Nat)
  /-- The elements moved to a block of another size. -/
  | reallocated (previous capacity len trimmed : Nat)
  /-- New contents arrived in a block of another size. -/
  | replaced (previous capacity len : Nat)
  /-- An elastic buffer enlarged its block. -/
  | grew (previous capacity len : Nat)
  /-- An elastic buffer gave up part of its block. -/
  | shrank (previous capacity len : Nat)
  /-- An elastic buffer wanted another block and could not have it. -/
  | kept (previous capacity len : Nat) (error : Error)
deriving Repr, DecidableEq

namespace Event

def level : Event → Level
  | .rotated .. | .reallocated .. | .replaced .. => .trace
  | .grew .. | .shrank .. => .debug
  | .kept .. => .warn

def message : Event → String
  | .rotated .. => "rotated circular buffer storage"
  | .reallocated .. => "reallocated circular buffer storage"
  | .replaced .. => "replaced circular buffer storage"
  | .grew .. => "grew adaptive buffer storage"
  | .shrank .. => "shrank adaptive buffer storage"
  | .kept .. => "kept adaptive buffer storage"

/-- The sizes in a report, by name. -/
def sizes : Event → List (String × Nat)
  | .rotated capacity len start => [("capacity", capacity), ("len", len), ("start", start)]
  | .reallocated previous capacity len trimmed =>
      [("previous", previous), ("capacity", capacity), ("len", len), ("trimmed", trimmed)]
  | .replaced previous capacity len
  | .grew previous capacity len
  | .shrank previous capacity len
  | .kept previous capacity len _ =>
      [("previous", previous), ("capacity", capacity), ("len", len)]

/-- The error behind a report, if there is one. -/
def error? : Event → Option Error
  | .kept _ _ _ error => some error
  | _ => none

end Event

end RingDeque
