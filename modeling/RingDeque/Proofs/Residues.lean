import RingDeque.Proofs.Slot

/-!
Slots as residues.

A step round a block adds to a slot number or takes from it, and the slot where it ends is the
residue modulo the number of slots. So the laws of steps, and those of the distances between
positions of a ring, are laws of sums and differences of integers. Steps are exact for every
capacity that is a word. A distance needs room for its sign and is exact up to half of the words.
-/

namespace RingDeque.Slot

variable {capacity start len slot n : Nat}

/-- The slot where a position comes to lie, however many turns it is before or behind the block. -/
def residue (capacity : Nat) (position : Int) : Nat :=
  (position % capacity).toNat

theorem cast_residue (positive : 0 < capacity) (position : Int) :
    (residue capacity position : Int) = position % capacity :=
  Int.toNat_of_nonneg (Int.emod_nonneg _ (by omega))

theorem residue_lt (positive : 0 < capacity) (position : Int) :
    residue capacity position < capacity := by
  have below : position % capacity < capacity := Int.emod_lt_of_pos _ (by omega)
  have cast := cast_residue positive position
  omega

theorem residue_of_lt (inside : slot < capacity) : residue capacity slot = slot := by
  rw [residue, Int.emod_eq_of_lt (by omega) (by omega), Int.toNat_natCast]

theorem residue_add (positive : 0 < capacity) (position shift : Int) :
    residue capacity (residue capacity position + shift) = residue capacity (position + shift) := by
  rw [residue, cast_residue positive, Int.emod_add_emod, residue]

theorem wrapped_add_eq_residue (inside : slot < capacity) (turn : n ≤ capacity) :
    wrapped capacity (slot + n) = residue capacity (slot + n) := by
  rw [wrapped_eq_mod (by omega), residue, ← Int.natCast_add, ← Int.natCast_emod,
    Int.toNat_natCast]

theorem wrapped_sub_eq_residue (inside : slot < capacity) (turn : n ≤ capacity) :
    wrapped capacity (slot + (capacity - n)) = residue capacity (slot - n) := by
  have position : (slot : Int) + (capacity - n : Nat) = slot - n + capacity := by omega
  rw [wrapped_add_eq_residue inside (Nat.sub_le _ _), position, residue, Int.add_emod_right,
    residue]

/-- The steps on the slots of a block are sums and differences modulo its size. None of them fails,
so no sum or difference that is taken on the way leaves the words. -/
structure Modular (capacity : Nat) : Prop where
  next : ∀ slot < capacity, Slot.next slot capacity = .ok (residue capacity (slot + 1))
  previous : ∀ slot < capacity, Slot.previous slot capacity = .ok (residue capacity (slot - 1))
  forward : ∀ slot < capacity, ∀ n ≤ capacity,
    Slot.forward slot n capacity = .ok (residue capacity (slot + n))
  backward : ∀ slot < capacity, ∀ n ≤ capacity,
    Slot.backward slot n capacity = .ok (residue capacity (slot - n))
  offsetFrom : ∀ start < capacity, ∀ slot < capacity,
    Slot.offsetFrom start slot capacity = .ok (residue capacity (slot - start))

theorem modular_of_word (positive : 0 < capacity) (word : capacity < Word.limit) :
    Modular capacity where
  next := by
    intro slot inside
    rw [next_eq inside word, wrapped_add_eq_residue inside positive, Int.natCast_one]
  previous := by
    intro slot inside
    rw [previous_eq inside, wrapped_sub_eq_residue inside positive, Int.natCast_one]
  forward := by
    intro slot inside n turn
    rw [forward_eq (by omega) word, wrapped_add_eq_residue inside turn]
  backward := by
    intro slot inside n turn
    rw [backward_eq turn word, wrapped_sub_eq_residue inside turn]
  offsetFrom := by
    intro start starts slot inside
    rw [offsetFrom_eq starts word, wrapped_sub_eq_residue inside (Nat.le_of_lt starts)]

/-- Steps one way round a block are undone by as many steps the other way, and the steps from one
slot to another lead there. -/
structure Reversible (capacity : Nat) : Prop where
  previous_next : ∀ slot < capacity,
    (do Slot.previous (← Slot.next slot capacity) capacity) = .ok slot
  next_previous : ∀ slot < capacity,
    (do Slot.next (← Slot.previous slot capacity) capacity) = .ok slot
  backward_forward : ∀ slot < capacity, ∀ n ≤ capacity,
    (do Slot.backward (← Slot.forward slot n capacity) n capacity) = .ok slot
  forward_backward : ∀ slot < capacity, ∀ n ≤ capacity,
    (do Slot.forward (← Slot.backward slot n capacity) n capacity) = .ok slot
  offsetFrom_forward : ∀ start < capacity, ∀ index < capacity,
    (do Slot.offsetFrom start (← Slot.forward start index capacity) capacity) = .ok index
  forward_offsetFrom : ∀ start < capacity, ∀ slot < capacity,
    (do Slot.forward start (← Slot.offsetFrom start slot capacity) capacity) = .ok slot

/-- Two steps whose shifts cancel lead home, even if the first of them passes the end of a block. -/
theorem leads_home {there : Checked Nat} {back : Nat → Checked Nat} {position shift : Int}
    (positive : 0 < capacity) (left : there = .ok (residue capacity position))
    (returned : ∀ landed < capacity, back landed = .ok (residue capacity (landed + shift)))
    (cancels : position + shift = slot) (inside : slot < capacity) :
    (there >>= back) = .ok slot := by
  rw [left, Checked.ok_bind, returned _ (residue_lt positive _), residue_add positive, cancels,
    residue_of_lt inside]

theorem Modular.reversible (steps : Modular capacity) (positive : 0 < capacity) :
    Reversible capacity where
  previous_next := by
    intro slot inside
    have cancels : (slot : Int) + 1 + -1 = slot := Int.add_neg_cancel_right _ _
    exact leads_home positive (steps.next slot inside) steps.previous cancels inside
  next_previous := by
    intro slot inside
    exact leads_home positive (steps.previous slot inside) steps.next (by omega) inside
  backward_forward := by
    intro slot inside n turn
    have returned := fun landed inside => steps.backward landed inside n turn
    exact leads_home positive (steps.forward slot inside n turn) returned (by omega) inside
  forward_backward := by
    intro slot inside n turn
    have returned := fun landed inside => steps.forward landed inside n turn
    exact leads_home positive (steps.backward slot inside n turn) returned (by omega) inside
  offsetFrom_forward := by
    intro start starts index inside
    have left := steps.forward start starts index (Nat.le_of_lt inside)
    exact leads_home positive left (steps.offsetFrom start starts) (by omega) inside
  forward_offsetFrom := by
    intro start starts slot inside
    have returned : ∀ landed < capacity,
        Slot.forward start landed capacity = .ok (residue capacity (landed + start)) := by
      intro landed landedInside
      rw [steps.forward start starts landed (Nat.le_of_lt landedInside), Int.add_comm]
    exact leads_home positive (steps.offsetFrom start starts slot inside) returned (by omega) inside

/-- A position that a ring in a block of `capacity` slots can have. -/
def Lies (capacity : Nat) (position : Option Nat) : Prop :=
  ∀ slot ∈ position, slot < capacity

instance (capacity : Nat) (position : Option Nat) : Decidable (Lies capacity position) :=
  inferInstanceAs (Decidable (∀ slot ∈ position, slot < capacity))

/-- The logical index of a position in a ring of `len` elements from `start` on. -/
def indexOf (start len capacity : Nat) (position : Option Nat) : Nat :=
  match position with
  | some slot => residue capacity (slot - start)
  | none => len

/-- Distances between the positions of a ring are differences of logical indices: the way back has
the opposite distance, and the distances of two ways that meet add up. -/
structure Spaced (start len capacity : Nat) : Prop where
  indexed : ∀ position, Lies capacity position →
    positionIndex position start len capacity = .ok (indexOf start len capacity position)
  apart : ∀ source target, Lies capacity source → Lies capacity target →
    distance source target start len capacity =
      .ok ((indexOf start len capacity target : Int) - indexOf start len capacity source)
  opposite : ∀ source target, Lies capacity source → Lies capacity target →
    distance target source start len capacity =
      (do return -(← distance source target start len capacity))
  additive : ∀ source middle target, Lies capacity source → Lies capacity middle →
    Lies capacity target →
    distance source target start len capacity =
      (do return (← distance source middle start len capacity) +
        (← distance middle target start len capacity))

theorem indexOf_le (starts : start < capacity) (fits : len ≤ capacity) (position : Option Nat) :
    indexOf start len capacity position ≤ capacity := by
  cases position with
  | none => exact fits
  | some slot => exact Nat.le_of_lt (residue_lt (by omega) _)

theorem Modular.positionIndex (steps : Modular capacity) (starts : start < capacity)
    {position : Option Nat} (lies : Lies capacity position) :
    Slot.positionIndex position start len capacity = .ok (indexOf start len capacity position) := by
  cases position with
  | none => rfl
  | some slot => exact steps.offsetFrom start starts slot (lies slot rfl)

theorem Modular.spaced (steps : Modular capacity) (half : capacity < Word.limit / 2)
    (starts : start < capacity) (fits : len ≤ capacity) : Spaced start len capacity := by
  have small : ∀ position, indexOf start len capacity position < Word.limit / 2 :=
    fun position => Nat.lt_of_le_of_lt (indexOf_le starts fits position) half
  have apart : ∀ source target, Lies capacity source → Lies capacity target →
      distance source target start len capacity =
        .ok ((indexOf start len capacity target : Int) - indexOf start len capacity source) := by
    intro source target sourceLies targetLies
    exact distance_eq (steps.positionIndex starts sourceLies) (small source)
      (steps.positionIndex starts targetLies) (small target)
  constructor
  case indexed => exact fun position lies => steps.positionIndex starts lies
  case apart => exact apart
  case opposite =>
    intro source target sourceLies targetLies
    rw [apart source target sourceLies targetLies, apart target source targetLies sourceLies,
      Checked.ok_bind, Int.neg_sub]
    rfl
  case additive =>
    intro source middle target sourceLies middleLies targetLies
    rw [apart source target sourceLies targetLies, apart source middle sourceLies middleLies,
      apart middle target middleLies targetLies, Checked.ok_bind, Checked.ok_bind]
    apply congrArg Except.ok
    omega

-- With one slot more, the end of a full ring would lie before its first element.
example : distance (some 0) none 0 (Word.limit / 2) (Word.limit / 2) =
    .ok (-(Word.limit / 2 : Nat)) := by rfl

/-- In a block of any size, steps are exact modulo its size and can be taken back. Where the words
leave room for a sign, so are the distances in every ring that the block can hold. -/
theorem slots_are_residues (positive : 0 < capacity) (word : capacity < Word.limit) :
    Modular capacity ∧ Reversible capacity ∧
      (capacity < Word.limit / 2 →
        ∀ start < capacity, ∀ len ≤ capacity, Spaced start len capacity) := by
  have steps := modular_of_word positive word
  constructor
  · exact steps
  constructor
  · exact steps.reversible positive
  · intro half start starts len fits
    exact steps.spaced half starts fits

/-- In the largest block, a whole turn from the last slot leads back to it, though the sum of the
two is no word. In the largest block with distances, a full ring has its end all slots away. -/
theorem slots_are_residues_greatest :
    (0 < Word.greatest ∧ Word.greatest < Word.limit ∧
      Word.add (Word.greatest - 1) Word.greatest = .error .overflow ∧
      Slot.forward (Word.greatest - 1) Word.greatest Word.greatest = .ok (Word.greatest - 1) ∧
      (do Slot.previous (← Slot.next (Word.greatest - 1) Word.greatest) Word.greatest) =
        .ok (Word.greatest - 1)) ∧
    (0 < Word.greatest / 2 ∧ Word.greatest / 2 < Word.limit ∧
      Word.greatest / 2 < Word.limit / 2 ∧
      distance none (some 5) 5 (Word.greatest / 2) (Word.greatest / 2) =
        .ok (-(Word.greatest / 2 : Nat))) := by
  have words : 0 < Word.greatest ∧ Word.greatest < Word.limit := by decide
  have halves : 0 < Word.greatest / 2 ∧ Word.greatest / 2 < Word.limit ∧
      Word.greatest / 2 < Word.limit / 2 := by decide
  obtain ⟨steps, back, -⟩ := slots_are_residues words.1 words.2
  obtain ⟨-, -, spaced⟩ := slots_are_residues halves.1 halves.2.1
  have full := spaced halves.2.2 5 (by decide) (Word.greatest / 2) (Nat.le_refl _)
  constructor
  · have turned := steps.forward (Word.greatest - 1) (by decide) Word.greatest (Nat.le_refl _)
    exact ⟨words.1, words.2, rfl, turned, back.previous_next (Word.greatest - 1) (by decide)⟩
  · exact ⟨halves.1, halves.2.1, halves.2.2, full.apart none (some 5) nofun (by decide)⟩

end RingDeque.Slot
