import RingDeque.Proofs.Destruction
import RingDeque.Proofs.Ring.Receiving
import RingDeque.Proofs.Ring.Voiding

/-!
Emptying a ring, and moving it to a block of another size, with what is destroyed.

The elements that are given up are destroyed as one run, and the ring is in its final state before
the first of them goes. Main statement: `Ring.capacity_change_trims`.
-/

namespace RingDeque

open Effect

theorem End.length_trimmed {β : Type} (side : End) (count : Nat) (items : List β) :
    (side.trimmed count items).length = min count items.length := by
  cases side with
  | front => exact List.length_take
  | back =>
      rw [trimmed, List.length_drop]
      omega

namespace Act

variable {α β : Type} {act : Act β α Unit} {doomed : List (Item α)} {buffer : β}
  {before final : Tracked β α}

/-- An action that reaches the state `final` and then destroys elements as a run. Whether one of
these destructions fails decides how the action ends, and nothing else. -/
def EndsDestroying (act : Act β α Unit) (doomed : List (Item α)) (before final : Tracked β α) :
    Prop :=
  Ends act before
    (fun _ after => (∀ item ∈ doomed, ¬ before.ledger.FailsOn item) ∧
      after = ⟨final.buffer, final.ledger.discarding doomed⟩)
    (Interrupted fun cause after => before.ledger.FailsAmong (· ∈ doomed) cause ∧
      after = ⟨final.buffer, (final.ledger.discarding doomed).disarmed⟩)

namespace EndsDestroying

theorem returned (destroys : EndsDestroying act doomed before final)
    (lasting : ∀ item ∈ doomed, ¬ before.ledger.FailsOn item) :
    act before = .ok () ⟨final.buffer, final.ledger.discarding doomed⟩ :=
  Ledger.eq_ok_of_lasting destroys lasting

theorem interrupted (destroys : EndsDestroying act doomed before final)
    (failing : ∃ item ∈ doomed, before.ledger.FailsOn item) :
    act before = .error (.interrupted .destructionFailed)
      ⟨final.buffer, (final.ledger.discarding doomed).disarmed⟩ := by
  obtain ⟨item, member, failing⟩ := failing
  exact Ledger.eq_error_of_failing destroys fun lasting => lasting item member failing

theorem endures {ledger record : Ledger α} {state : β}
    (calm : EndsDestroying act doomed ⟨buffer, ledger.disarmed⟩ ⟨state, record.disarmed⟩)
    (armed : EndsDestroying act doomed ⟨buffer, ledger⟩ ⟨state, record⟩)
    (failing : ∃ item ∈ doomed, ledger.FailsOn item) :
    Endures act ⟨buffer, ledger.disarmed⟩ ⟨buffer, ledger⟩ ()
      ⟨state, (record.discarding doomed).disarmed⟩ :=
  ⟨calm.returned fun _ _ => Ledger.failsOn_disarmed, armed.interrupted failing⟩

end EndsDestroying

theorem endsDestroying_run (doomed : List (Item α)) (final : Tracked β α) :
    EndsDestroying (liftM (Ledger.destroyRun doomed)) doomed final final := by
  rw [EndsDestroying, ends_ledger]
  apply (Ledger.destroyRun_decided doomed final.ledger).mono
  · intro _ after ended
    exact ⟨ended.1, congrArg (Tracked.mk final.buffer) ended.2⟩
  · intro halt after stopped
    apply stopped.mono
    intro cause reached
    exact ⟨reached.1, congrArg (Tracked.mk final.buffer) reached.2⟩

end Act

namespace Ring

open Act

variable {α : Type} {ring after : Ring α} {ledger : Ledger α} {capacity : Nat} {cursor : Cursor}
  {trim : End} {target : Block (Item α)}

/-- In a ring that starts in the first slot, slots are logical indices. -/
theorem WellFormed.get?_of_start (wellFormed : ring.WellFormed) (start : ring.start = 0)
    (slot : Nat) : ring.block.get? slot = ring.toList[slot]? := by
  by_cases inside : slot < ring.capacity
  · have same : ring.place slot = slot := by
      rw [place, start, Nat.zero_add, Slot.wrapped, if_pos inside]
    rw [← wellFormed.cell_eq_getElem? inside, cell, same]
  · have fits := wellFormed.fits
    rw [Block.get?_eq_none_of_le (Nat.le_of_not_lt inside),
      List.getElem?_eq_none (by rw [wellFormed.length_toList]; omega)]

/-- A ring that was moved to the first slots of a block of `capacity` slots, with the elements that
find no room given up at the end `trim`. -/
structure Rehoused (trim : End) (capacity : Nat) (before after : Ring α) : Prop where
  wellFormed : after.WellFormed
  sized : after.capacity = capacity
  toList : after.toList = trim.trim (before.len - capacity) before.toList
  slots : ∀ slot, after.block.get? slot = after.toList[slot]?
  runs : after.runs = .ok (after.toList, [])
  registry : ∃ bounded, after.registry = { before.registry with
    stamps := .blank capacity bounded }.invalidateElements

/-- The ring that a change of capacity leads to does not depend on the ledger. -/
theorem setCapacity_rehouses (wellFormed : ring.WellFormed) (trim : End)
    (other : capacity ≠ ring.capacity) (bounded : capacity < Stamps.limit) :
    ∃ final, Rehoused trim capacity ring final ∧
      ∀ ledger : Ledger α, ¬ ledger.Scarce capacity →
        EndsDestroying (setCapacity trim capacity)
          (trim.trimmed (ring.len - capacity) ring.toList) ⟨ring, ledger⟩
          ⟨final, { ledger with events := ledger.events ++
            [.reallocated ring.capacity capacity final.len (ring.len - capacity)] }⟩ := by
  have inWords : capacity < Word.limit := Nat.lt_trans bounded (by decide)
  obtain ⟨front, back, final, stepped, parts, turns, start, registry⟩ :=
    rehouse_exists False wellFormed trim (fun slot => Block.get?_blank inWords)
      ((Stamps.size_blank bounded).trans (Block.size_blank inWords).symm)
  rw [Block.size_blank] at parts turns
  have linear : final.start + final.len ≤ final.capacity := by
    rw [start, Nat.zero_add]
    exact turns.wellFormed.fits
  have rehoused : Rehoused trim capacity ring final :=
    ⟨turns.wellFormed, turns.sized, turns.toList, turns.wellFormed.get?_of_start start,
      turns.wellFormed.runs_of_start linear, bounded, registry⟩
  refine ⟨final, rehoused, ?_⟩
  intro ledger plenty
  obtain ⟨block, stamps, -⟩ := Ledger.granted_of_not_scarce plenty
  simp only [EndsDestroying, setCapacity, ends_bind, ends_buffer, if_neg other, ends_ledger,
    ends_of_ok (Ledger.allocate_granted inWords block),
    ends_of_ok (Ledger.stamps_granted bounded stamps), ends_update_mk stepped,
    turns.given wellFormed, liftM_ok, ends_pure, ends_report, Ledger.destroyRuns_eq, parts]
  have destroyed := endsDestroying_run (trim.trimmed (ring.len - capacity) ring.toList)
    ⟨final, { ledger with events := ledger.events ++
      [.reallocated ring.capacity capacity final.len (ring.len - capacity)] }⟩
  rw [EndsDestroying, ends_ledger] at destroyed
  exact destroyed

theorem clear_empties (wellFormed : ring.WellFormed) :
    ∃ final : Ring α, final.WellFormed ∧ final.capacity = ring.capacity ∧ final.toList = [] ∧
      final.registry = ring.registry.invalidateAll ∧
      ∀ ledger, EndsDestroying clear ring.toList ⟨ring, ledger⟩ ⟨final, ledger⟩ := by
  obtain ⟨final, turns, registry, clears⟩ := clear_exists False wellFormed
  refine ⟨final, turns.wellFormed, turns.sized, turns.toList, registry, ?_⟩
  intro ledger
  apply (clears ledger _ _).mpr
  have destroyed := endsDestroying_run ring.toList ⟨final, ledger⟩
  rw [EndsDestroying, ends_ledger] at destroyed
  exact destroyed

/-- A change of capacity keeps the elements farthest from the end `trim`, as many as fit, in the
first slots of the new block, and destroys the others, each of them once. Without a change nothing
happens, also to the cursors. -/
theorem capacity_change_trims (wellFormed : ring.WellFormed) (trim : End) (ledger : Ledger α) :
    setCapacity trim ring.capacity ⟨ring, ledger⟩ = .ok () ⟨ring, ledger⟩ ∧
    ∀ capacity, capacity ≠ ring.capacity → ¬ ledger.Scarce capacity →
      ∃ final, Rehoused trim capacity ring final ∧
        EndsDestroying (setCapacity trim capacity)
          (trim.trimmed (ring.len - capacity) ring.toList) ⟨ring, ledger⟩
          ⟨final, { ledger with events := ledger.events ++
            [.reallocated ring.capacity capacity final.len (ring.len - capacity)] }⟩ := by
  constructor
  · apply eq_ok_of_ends
    simp only [setCapacity, ends_bind, ends_buffer, if_true, ends_pure, and_self]
  · intro capacity other plenty
    obtain ⟨-, -, bounded⟩ := Ledger.granted_of_not_scarce plenty
    obtain ⟨final, rehoused, destroys⟩ := setCapacity_rehouses wellFormed trim other bounded
    exact ⟨final, rehoused, destroys ledger plenty⟩

/-- A full ring of four that starts in its third slot keeps the last two of its elements in a block
of two slots, and another one the first three, in spite of a failing destruction. -/
theorem capacity_change_trims_turned :
    let calm : Ledger Nat := { Ledger.blank (.below 16) with created := 4 }
    let armed : Ledger Nat := { calm with brittle := some fun item => item.id == 3 }
    (∃ after, setCapacity .front 2 ⟨turned, calm⟩ = .ok () after ∧
      after.buffer.runs = .ok ([⟨2, 30⟩, ⟨3, 40⟩], []) ∧
      after.ledger.destroyed = [⟨1, 20⟩, ⟨0, 10⟩]) ∧
    ∃ after, setCapacity .back 3 ⟨turned, armed⟩ =
        .error (.interrupted .destructionFailed) after ∧
      after.buffer.runs = .ok ([⟨0, 10⟩, ⟨1, 20⟩, ⟨2, 30⟩], []) ∧
      after.ledger.destroyed = [⟨3, 40⟩] := by
  intro calm armed
  -- As long as the ring is a variable, no step of the proof runs the operations on it.
  obtain ⟨ring, same⟩ : ∃ ring, ring = turned := ⟨_, rfl⟩
  have wellFormed : ring.WellFormed := same ▸ turned_wellFormed
  have listed : ring.toList = [⟨0, 10⟩, ⟨1, 20⟩, ⟨2, 30⟩, ⟨3, 40⟩] := same ▸ turned_toList
  have length : ring.len = 4 := by rw [same]; rfl
  have size : ring.capacity = 4 := by rw [same]; rfl
  rw [← same]
  constructor
  · obtain ⟨final, rehoused, destroys⟩ := (capacity_change_trims wellFormed .front calm).2 2
      (by rw [size]; decide) (by decide)
    have ran := destroys.returned fun _ _ => Ledger.not_failsOn rfl
    refine ⟨_, ran, ?_, ?_⟩
    · rw [rehoused.runs, rehoused.toList, listed, length]
      rfl
    · rw [listed, length]
      rfl
  · obtain ⟨final, rehoused, destroys⟩ := (capacity_change_trims wellFormed .back armed).2 3
      (by rw [size]; decide) (by decide)
    rw [listed, length] at destroys
    have ran := destroys.interrupted ⟨⟨3, 40⟩, by decide, _, rfl, rfl⟩
    refine ⟨_, ran, ?_, rfl⟩
    rw [rehoused.runs, rehoused.toList, listed, length]
    rfl

end Ring

end RingDeque
