import RingDeque.Word

/-!
Walks over a sequence that is stored in two runs.

A walk may take entries from both ends, in any mixture. It takes each entry at most once, and once
the entries are used up it yields nothing more.
-/

namespace RingDeque

/-- What a walk has not yet taken: the rest of each run. -/
structure Traversal (ι : Type) where
  front : List ι
  back : List ι
deriving Repr, DecidableEq

namespace Traversal

variable {ι κ : Type}

/-- The entries left, in order. -/
def toList (walk : Traversal ι) : List ι :=
  walk.front ++ walk.back

/-- The number of entries left. -/
def length (walk : Traversal ι) : Checked Nat :=
  Word.add walk.front.length walk.back.length

def map (f : ι → κ) (walk : Traversal ι) : Traversal κ where
  front := walk.front.map f
  back := walk.back.map f

/-- Takes the first entry. -/
def next (walk : Traversal ι) : Option ι × Traversal ι :=
  match walk.front, walk.back with
  | entry :: front, back => (some entry, ⟨front, back⟩)
  | [], entry :: back => (some entry, ⟨[], back⟩)
  | [], [] => (none, ⟨[], []⟩)

/-- Takes the last entry. -/
def nextBack (walk : Traversal ι) : Option ι × Traversal ι :=
  match walk.back.getLast?, walk.front.getLast? with
  | some entry, _ => (some entry, ⟨walk.front, walk.back.dropLast⟩)
  | none, some entry => (some entry, ⟨walk.front.dropLast, []⟩)
  | none, none => (none, ⟨[], []⟩)

/-- Passes over `skipped` entries and takes the one after them. -/
def nth : (skipped : Nat) → Traversal ι → Option ι × Traversal ι
  | 0, walk => walk.next
  | skipped + 1, walk =>
      match walk.next with
      | (none, walk) => (none, walk)
      | (some _, walk) => nth skipped walk

/-- Passes over `skipped` entries from the back and takes the one before them. -/
def nthBack : (skipped : Nat) → Traversal ι → Option ι × Traversal ι
  | 0, walk => walk.nextBack
  | skipped + 1, walk =>
      match walk.nextBack with
      | (none, walk) => (none, walk)
      | (some _, walk) => nthBack skipped walk

/-- What can be asked of a walk. -/
inductive Step where
  | next
  | nextBack
  | nth (skipped : Nat)
  | nthBack (skipped : Nat)
  /-- The number of entries left. -/
  | length
  /-- The least and the greatest number of entries left. -/
  | bounds
  /-- All entries left, from the front. -/
  | rest
  /-- All entries left, from the back. -/
  | reversed
deriving Repr, DecidableEq

/-- What a walk answers. -/
inductive Answer (ι : Type) where
  | one (taken : Option ι)
  | count (n : Nat)
  | bounds (least greatest : Nat)
  | many (taken : List ι)
deriving Repr, DecidableEq

/-- The same answer about other entries. -/
def Answer.map (f : ι → κ) : Answer ι → Answer κ
  | .one taken => .one (taken.map f)
  | .count n => .count n
  | .bounds least greatest => .bounds least greatest
  | .many taken => .many (taken.map f)

/-- The entries that an answer hands out. -/
def Answer.taken : Answer ι → List ι
  | .one taken => taken.toList
  | .many taken => taken
  | .count _ | .bounds .. => []

/-- The answer to a step, and the walk after it. -/
def answer (walk : Traversal ι) : Step → Checked (Answer ι × Traversal ι)
  | .next => return walk.next.map .one id
  | .nextBack => return walk.nextBack.map .one id
  | .nth skipped => return (walk.nth skipped).map .one id
  | .nthBack skipped => return (walk.nthBack skipped).map .one id
  | .length => return (.count (← walk.length), walk)
  | .bounds => do
      let length ← walk.length
      return (.bounds length length, walk)
  | .rest => return (.many walk.toList, ⟨[], []⟩)
  | .reversed => return (.many walk.toList.reverse, ⟨[], []⟩)

end Traversal

end RingDeque
