/-!
Sizes, slot numbers and counts are unsigned machine words of 64 bits.

They are written as natural numbers, and each sum or difference that an operation takes goes
through `Word.add` or `Word.sub`, which fail with a `Fault` when the exact result is not a word.
An operation that returns has therefore computed in words what it computes in numbers.
-/

namespace RingDeque

/-- Ways in which an operation could break its own bookkeeping. Callers cannot cause any of
them: on a well formed ring every checked step succeeds. -/
inductive Fault where
  /-- A sum or difference of words is no word. -/
  | overflow
  /-- A slot number lies beyond the block, or a sequence is cut beyond its end. -/
  | outside
  /-- A slot that holds nothing was read. -/
  | raw
  /-- A slot that holds an element was written as if it held none. -/
  | occupied
deriving Repr, DecidableEq

/-- The result of a step that checks its own bookkeeping. -/
abbrev Checked := Except Fault

namespace Word

/-- The number of words, the 64th power of two. -/
def limit : Nat := 0x10000000000000000

/-- The largest word. -/
def greatest : Nat := limit - 1

def add (a b : Nat) : Checked Nat :=
  if a + b < limit then .ok (a + b) else .error .overflow

def sub (a b : Nat) : Checked Nat :=
  if b ≤ a then .ok (a - b) else .error .overflow

/-- The greatest common divisor of two words, by repeated division with remainder. -/
def gcd (a b : Nat) : Nat :=
  if b = 0 then a else gcd b (a % b)
termination_by b
decreasing_by exact Nat.mod_lt a (Nat.pos_of_ne_zero ‹b ≠ 0›)

/-- The sum, or the largest word if the sum is larger. -/
def saturatingAdd (a b : Nat) : Nat :=
  min (a + b) greatest

/-- Twice a word, or the largest word if that is larger. -/
def saturatingDouble (a : Nat) : Nat :=
  min (2 * a) greatest

/-- The signed reading of a word: the upper half of the words stands for the negative numbers. -/
def toSigned (a : Nat) : Int :=
  (a : Int).bmod limit

/-- Whether a number can be written as a signed word. -/
def IsSigned (n : Int) : Prop :=
  -(limit / 2 : Nat) ≤ n ∧ n < (limit / 2 : Nat)

instance (n : Int) : Decidable (IsSigned n) :=
  inferInstanceAs (Decidable (_ ∧ _))

/-- The difference of two signed words. -/
def subSigned (a b : Int) : Checked Int :=
  if IsSigned (a - b) then .ok (a - b) else .error .overflow

/-- A word moved by a signed offset, or nothing if that leaves the words. -/
def addSigned? (a : Nat) (n : Int) : Option Nat :=
  if 0 ≤ a + n ∧ a + n < limit then some (a + n).toNat else none

end Word

end RingDeque
