import RingDeque.Slot

/-!
Exactness of the slot arithmetic.

Every position that the arithmetic computes lies at most one turn beyond the block, so wrapping
it is one comparison and one subtraction, and that is the remainder by the capacity. Numbers below
half of the words, and their differences, are the same when they are read as signed words.
-/

namespace RingDeque

@[simp] theorem Checked.ok_bind {value : β} {next : β → Checked γ} :
    (Except.ok value >>= next) = next value := rfl

@[simp] theorem Checked.pure_eq_ok {value : β} : (pure value : Checked β) = .ok value := rfl

theorem Checked.bind_of_ok {step : Checked β} {next : β → Checked γ} {value : β}
    (stepped : step = .ok value) : (step >>= next) = next value := by
  rw [stepped, Checked.ok_bind]

theorem Word.add_eq {a b : Nat} (bound : a + b < Word.limit) : Word.add a b = .ok (a + b) :=
  if_pos bound

theorem Word.sub_eq {a b : Nat} (ordered : b ≤ a) : Word.sub a b = .ok (a - b) :=
  if_pos ordered

theorem Word.gcd_eq (a b : Nat) : Word.gcd a b = Nat.gcd a b := by
  fun_induction Word.gcd a b with
  | case1 => exact (Nat.gcd_zero_right _).symm
  | case2 a b nonzero ih => rw [ih, Nat.gcd_comm b, ← Nat.gcd_rec, Nat.gcd_comm]

theorem Word.toSigned_eq {a : Nat} (small : a < Word.limit / 2) : Word.toSigned a = a := by
  simp only [Word.limit] at small
  unfold Word.toSigned
  apply Int.bmod_eq_of_le <;> simp only [Word.limit] <;> omega

theorem Word.subSigned_eq {a b : Nat} (firstSmall : a < Word.limit / 2)
    (secondSmall : b < Word.limit / 2) : Word.subSigned a b = .ok ((a : Int) - b) := by
  have signed : Word.IsSigned ((a : Int) - b) := by
    unfold Word.IsSigned
    omega
  exact if_pos signed

namespace Slot

variable {capacity slot n start : Nat}

/-- A position within two turns of a block, as a slot. -/
def wrapped (capacity position : Nat) : Nat :=
  if position < capacity then position else position - capacity

theorem wrapped_lt {position : Nat} (bound : position < 2 * capacity) :
    wrapped capacity position < capacity := by
  unfold wrapped
  split <;> omega

theorem wrapped_eq_mod {position : Nat} (bound : position < 2 * capacity) :
    wrapped capacity position = position % capacity := by
  unfold wrapped
  split
  · rename_i inside
    exact (Nat.mod_eq_of_lt inside).symm
  · rw [Nat.mod_eq_sub_mod (by omega), Nat.mod_eq_of_lt (by omega)]

theorem forward_eq (inside : slot < max capacity 1) (word : capacity < Word.limit) :
    forward slot n capacity = .ok (wrapped capacity (slot + n)) := by
  have room : Word.sub capacity slot = .ok (capacity - slot) := Word.sub_eq (by omega)
  simp only [forward, room, Checked.ok_bind, wrapped]
  split
  · rw [Word.sub_eq (by omega), if_neg (by omega)]
    congr 1
    omega
  · rw [Word.add_eq (by omega), if_pos (by omega)]

theorem backward_eq (turn : n ≤ capacity) (word : capacity < Word.limit) :
    backward slot n capacity = .ok (wrapped capacity (slot + (capacity - n))) := by
  simp only [backward, wrapped]
  split
  · rw [Word.sub_eq turn, Checked.ok_bind, Word.add_eq (by omega), if_pos (by omega)]
  · rw [Word.sub_eq (by omega)]
    congr 1
    split <;> omega

theorem next_eq (inside : slot < capacity) (word : capacity < Word.limit) :
    next slot capacity = .ok (wrapped capacity (slot + 1)) := by
  simp only [next, Word.add_eq (show slot + 1 < Word.limit by omega), Checked.ok_bind,
    Checked.pure_eq_ok, wrapped]
  congr 1
  split <;> split <;> omega

theorem previous_eq (inside : slot < capacity) :
    previous slot capacity = .ok (wrapped capacity (slot + (capacity - 1))) := by
  simp only [previous, wrapped]
  split
  · rw [Word.sub_eq (by omega), if_pos (by omega)]
    congr 1
    omega
  · rw [Word.sub_eq (by omega)]
    congr 1
    split <;> omega

theorem offsetFrom_eq (starts : start < capacity) (word : capacity < Word.limit) :
    offsetFrom start slot capacity = .ok (wrapped capacity (slot + (capacity - start))) := by
  simp only [offsetFrom, wrapped]
  split
  · rw [Word.sub_eq (by omega)]
    congr 1
    split <;> omega
  · rw [Word.sub_eq (by omega), Checked.ok_bind, Word.add_eq (by omega), if_pos (by omega)]

/-- Where logical indices are small enough to have a sign, their difference is exact. -/
theorem distance_eq {source target : Option Nat} {len sourceIndex targetIndex : Nat}
    (sourceFound : positionIndex source start len capacity = .ok sourceIndex)
    (sourceSmall : sourceIndex < Word.limit / 2)
    (targetFound : positionIndex target start len capacity = .ok targetIndex)
    (targetSmall : targetIndex < Word.limit / 2) :
    distance source target start len capacity = .ok ((targetIndex : Int) - sourceIndex) := by
  -- Unfolding the difference would have the kernel compute with its bounds.
  have steps : distance source target start len capacity =
      Word.subSigned (Word.toSigned targetIndex) (Word.toSigned sourceIndex) :=
    (Checked.bind_of_ok sourceFound).trans (Checked.bind_of_ok targetFound)
  rw [steps, Word.toSigned_eq sourceSmall, Word.toSigned_eq targetSmall,
    Word.subSigned_eq targetSmall sourceSmall]

end Slot

end RingDeque
