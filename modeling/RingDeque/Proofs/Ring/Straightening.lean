import RingDeque.Proofs.Ring.Trimming

/-!
Bringing the elements of a ring into one run.

If the elements lie in one run already nothing changes. Otherwise the whole block is turned, slots
without an element included, until the first element comes to the first slot, and every cursor to an
element is void. Main statement: `Ring.linearization_settles`.
-/

namespace RingDeque

theorem Registry.accepts_invalidateElements {registry : Registry} {cursor : Cursor}
    (accepted : registry.accepts cursor = true) :
    registry.invalidateElements.accepts cursor = cursor.isEnd := by
  obtain ⟨owner, slot, generation, stamp⟩ := cursor
  cases slot with
  | none => exact accepted
  | some slot =>
      have current : generation = registry.generation := by
        simp only [accepts, Bool.and_eq_true, beq_iff_eq] at accepted
        exact accepted.2.1
      simp [accepts, invalidateElements, current, Cursor.isEnd]

namespace Ring

open Effect

variable {α : Type} {ring : Ring α} {block : Block (Item α)}

/-- A ring that holds the same elements in a block of the same size, in one run. -/
structure Straightened (before after : Ring α) : Prop where
  wellFormed : after.WellFormed
  toList : after.toList = before.toList
  len : after.len = before.len
  capacity : after.capacity = before.capacity
  linear : after.isLinear = .ok true
  runs : after.runs = .ok (before.toList, [])

/-- A ring whose block was turned until the first element came to the first slot. -/
structure Rotated (before after : Ring α) : Prop where
  rotated : before.block.rotateLeft before.start = .ok (before.capacity, after.block)
  turned : ∀ slot < before.capacity,
    after.block.get? slot = before.block.get? ((slot + before.start) % before.capacity)
  start : after.start = 0
  slots : ∀ slot, after.block.get? slot = before.toList[slot]?
  /-- Of the cursors that were accepted, those one past the last element still are. -/
  accepted : ∀ cursor, before.registry.accepts cursor = true →
    after.registry.accepts cursor = cursor.isEnd

theorem WellFormed.isLinear_of_fitting (wellFormed : ring.WellFormed)
    (linear : ring.start + ring.len ≤ ring.capacity) : ring.isLinear = .ok true := by
  obtain ⟨answer, asked, fitting⟩ := wellFormed.isLinear_exists
  rw [asked, fitting.mpr linear]

theorem linearize_of_linear (wellFormed : ring.WellFormed)
    (linear : ring.start + ring.len ≤ ring.capacity) (ledger : Ledger α) :
    linearize ⟨ring, ledger⟩ = .ok ring.toList ⟨ring, ledger⟩ :=
  eq_ok_of_ends ((ends_linearize_linear wellFormed linear).mpr ⟨rfl, rfl⟩)

/-- A ring that reaches across the end of its block does not start in the first slot, so turning it
passes the whole block. -/
theorem rotateLeft_of_wrapped (wellFormed : ring.WellFormed)
    (wrapped : ring.capacity < ring.start + ring.len) :
    ∃ block, ring.block.rotateLeft ring.start = .ok (ring.capacity, block) ∧
      ∀ slot < ring.capacity,
        block.get? slot = ring.block.get? ((slot + ring.start) % ring.capacity) := by
  have starts := wellFormed.starts
  have fits := wellFormed.fits
  obtain ⟨block, rotated, -, contents⟩ :=
    ring.block.rotateLeft_exists ring.start wellFormed.turnable
  have moving : ¬ (ring.block.size = 0 ∨ ring.start % ring.block.size = 0) := by
    simp only [Ring.capacity] at starts fits wrapped
    rw [Nat.mod_eq_of_lt (by omega)]
    omega
  rw [if_neg moving] at rotated
  exact ⟨block, rotated, contents⟩

theorem linearize_of_wrapped (wellFormed : ring.WellFormed)
    (wrapped : ring.capacity < ring.start + ring.len) :
    ∃ after, Straightened ring after ∧ Rotated ring after ∧
      ∀ ledger, linearize ⟨ring, ledger⟩ = .ok ring.toList
        ⟨after, { ledger with events := ledger.events ++
          [.rotated ring.capacity ring.len ring.start] }⟩ := by
  obtain ⟨moved, block, rotated, turns⟩ := rotated_exists False wellFormed
  obtain ⟨reached, whole, turned⟩ := rotateLeft_of_wrapped wellFormed wrapped
  obtain ⟨rfl, rfl⟩ : moved = ring.capacity ∧ block = reached := by
    rw [whole] at rotated
    cases rotated
    exact ⟨rfl, rfl⟩
  have run : 0 + ring.len ≤
      Ring.capacity { ring with block, start := 0, registry := ring.registry.invalidateElements } := by
    rw [turns.sized, Nat.zero_add]
    exact wellFormed.fits
  have runs := turns.wellFormed.runs_of_start run
  have slots := turns.wellFormed.get?_of_start rfl
  rw [turns.toList] at runs slots
  refine ⟨_, ⟨turns.wellFormed, turns.toList, rfl, turns.sized,
    turns.wellFormed.isLinear_of_fitting run, runs⟩,
    ⟨rotated, turned, rfl, slots, fun _ => Registry.accepts_invalidateElements⟩, fun ledger => ?_⟩
  exact eq_ok_of_ends
    ((ends_linearize_wrapped ⟨ring, ledger⟩ wellFormed wrapped rotated turns).mpr ⟨rfl, rfl⟩)

/-- A ring, full or not, is brought into one run, which is its contents. If the elements lay in one
before, nothing has happened, also not to a cursor; otherwise the block was turned, and that was
reported. Doing so again does nothing more. -/
theorem linearization_settles (wellFormed : ring.WellFormed) (ledger : Ledger α) :
    ∃ after, linearize ⟨ring, ledger⟩ = .ok ring.toList after ∧
      Straightened ring after.buffer ∧
      (if ring.start + ring.len ≤ ring.capacity then after = ⟨ring, ledger⟩
        else Rotated ring after.buffer ∧
          after.ledger = { ledger with events := ledger.events ++
            [.rotated ring.capacity ring.len ring.start] }) ∧
      linearize after = .ok ring.toList after := by
  by_cases linear : ring.start + ring.len ≤ ring.capacity
  · have kept := linearize_of_linear wellFormed linear ledger
    refine ⟨⟨ring, ledger⟩, kept, ?_, by rw [if_pos linear], kept⟩
    exact ⟨wellFormed, rfl, rfl, rfl, wellFormed.isLinear_of_fitting linear,
      wellFormed.runs_of_start linear⟩
  · obtain ⟨after, straightened, rotated, settled⟩ :=
      linearize_of_wrapped wellFormed (Nat.lt_of_not_le linear)
    have again := linearize_of_linear straightened.wellFormed (by
      rw [rotated.start, Nat.zero_add]
      exact straightened.wellFormed.fits)
    rw [straightened.toList] at again
    refine ⟨_, settled ledger, straightened, ?_, again _⟩
    rw [if_neg linear]
    exact ⟨rotated, rfl⟩

/-- Three elements around the end of a block of six slots, with free slots between them. -/
def parted : Ring Nat where
  block := ⟨#[some ⟨2, 30⟩, none, none, none, some ⟨0, 10⟩, some ⟨1, 20⟩], by decide⟩
  start := 4
  len := 3
  registry := ⟨0, 0, 0, ⟨#[0, 0, 0, 0, 0, 0], by decide⟩⟩

theorem parted_wellFormed : parted.WellFormed :=
  ⟨by decide, by decide, rfl, by simp only [Holds]; decide⟩

/-- The cursor to the first element is void afterwards, and the one past the last is not. -/
theorem linearization_settles_parted :
    let ledger : Ledger Nat := { Ledger.blank (.below 16) with created := 3 }
    let items : List (Item Nat) := [⟨0, 10⟩, ⟨1, 20⟩, ⟨2, 30⟩]
    ∃ after, linearize ⟨parted, ledger⟩ = .ok items after ∧ after.buffer.runs = .ok (items, []) ∧
      after.buffer.registry.accepts ⟨0, some 4, 0, 0⟩ = false ∧
      after.buffer.registry.accepts ⟨0, none, 0, 0⟩ = true ∧
      after.ledger.events = [.rotated 6 3 4] ∧ linearize after = .ok items after := by
  intro ledger items
  have listed : parted.toList = items := by decide
  obtain ⟨after, ran, straightened, settled, again⟩ :=
    linearization_settles parted_wellFormed ledger
  rw [if_neg (by decide)] at settled
  obtain ⟨rotated, reported⟩ := settled
  rw [listed] at ran again
  have runs := straightened.runs
  rw [listed] at runs
  exact ⟨after, ran, runs, rotated.accepted _ rfl, rotated.accepted _ rfl,
    congrArg Ledger.events reported, again⟩

end Ring

end RingDeque
