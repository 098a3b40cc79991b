import RingDeque.Proofs.Elastic.Interrupting
import RingDeque.Proofs.Elastic.Refusing

/-!
The block of an elastic ring while nothing goes amiss.

Every operation leaves the block between the floor and the ceiling that are then in force, unless it
is interrupted or is refused a block.
-/

namespace RingDeque

open Effect Act

/-- Whether an operation was interrupted, or was refused a block. -/
def Halt.isMishap : Halt → Bool
  | .interrupted _ => true
  | .refused (.allocationFailed _) => true
  | _ => false

variable {α : Type} {breaks : Prop} {halt : Halt} {ledger : Ledger α}

theorem Ledger.Due.isMishap
    (due : ledger.Due breaks (fun error => ∃ size, error = .allocationFailed size) halt) :
    halt.isMishap = true := by
  cases due with
  | copy | destruction | source => rfl
  | refusal unallocated =>
      obtain ⟨size, rfl⟩ := unallocated
      rfl

/-- Unless a mishap ends it, the action leaves the buffer as wanted. -/
def Confines (wanted : β → Prop) (act : Act β α γ) (before : Tracked β α) : Prop :=
  Ends act before (fun _ after => wanted after.buffer)
    fun halt after => halt.isMishap = false → wanted after.buffer

theorem confines_of_atomic {wanted : β → Prop} {act : Act β α γ} {before : Tracked β α}
    (holds : wanted before.buffer) (atomic : Atomic act)
    (ends : Ends act before (fun _ after => wanted after.buffer) fun halt _ => halt.Orderly) :
    Confines wanted act before := by
  apply ((atomic before).and ends).mono
  · exact fun _ _ ended => ended.2
  · intro halt after halted spared
    obtain ⟨undone, orderly⟩ := halted
    cases halt with
    | refused error =>
        rw [undone rfl]
        exact holds
    | interrupted cause => cases spared
    | fault fault => exact orderly.elim

namespace Ring

variable {written : Prop} {origin before : Tracked (Ring α) α} {owned : Multiset Nat}
  {model : Item α} {capacity n : Nat}

theorem assignWithin_sized
    (sound : Sound written origin ({model.id} + owned) before.buffer before.ledger) :
    Ends (assignWithin capacity n model) before
      (fun _ after => after.buffer.capacity = capacity)
      fun halt _ => halt.Orderly := by
  have replaced : Ends (do
        if capacity < n then
          refuse (.invalidCapacity capacity n)
        replaceContents capacity (.copies model n) : Act (Ring α) α Unit) before
      (fun _ after => Sound written origin ({model.id} + owned) after.buffer after.ledger ∧
        after.buffer.capacity = capacity)
      fun halt after => Stops written origin (.breaks ∈ (Supply.copies model n).entries)
        (fun _ => True) ({model.id} + owned) halt after.buffer after.ledger := by
    by_cases small : capacity < n
    · simp only [if_pos small, ends_bind, ends_refuse]
      exact ⟨.refusal trivial, sound⟩
    · simp only [if_neg small]
      exact replaceContents_ends (fun _ => True) sound _ fun _ => trivial
  exact (consuming_ends (fun ring => ring) (fun _ ring => ring.capacity = capacity) replaced).mono
    (fun _ _ ended => ended.2) fun _ _ stops => stops.due.orderly

end Ring

namespace ElasticRing

open RingDeque.Ring (Sound Stops)

variable {written : Prop} {origin : Tracked (Ring α) α} {before : Tracked (ElasticRing α) α}
  {owned : Multiset Nat} {model : Item α} {trim : End} {n : Nat} {limits : Limits} {feed : Feed α}

theorem KeepsBounds.confines {act : Act (ElasticRing α) α γ} (keeps : KeepsBounds act before) :
    Confines Bounded act before :=
  keeps.mono (fun _ _ => id) fun _ _ bounded _ => bounded

theorem setLimits_confines (within : before.buffer.WithinLimits)
    (sound : Sound written origin owned before.buffer.ring before.ledger) (trim : End)
    (limits : Limits) : Confines Bounded (setLimits trim limits) before := by
  apply (setLimits_ends False (fun error => ∃ size, error = .allocationFailed size) sound trim limits
    fun size => ⟨size, rfl⟩).mono
  · exact fun _ _ ended => (ended.2 within).within.bounded
  · intro halt after stops spared
    rw [stops.due.isMishap] at spared
    cases spared

theorem setFloor_confines (within : before.buffer.WithinLimits)
    (sound : Sound written origin owned before.buffer.ring before.ledger) (floor : Nat) :
    Confines Bounded (setFloor floor) before := by
  simp only [Confines, setFloor, ends_bind, ends_buffer, Limits.new]
  by_cases ordered : floor ≤ before.buffer.limits.ceiling
  · simp only [dif_pos ordered]
    exact setLimits_confines within sound .front _
  · simp only [dif_neg ordered, ends_refuse]
    exact fun _ => within.bounded

/-- New contents in a block of a size that the new limits admit. -/
theorem installing_bounded {act : Act (Ring α) α Unit} {size : Nat}
    (ends : Ends act ⟨before.buffer.ring, before.ledger⟩
      (fun _ after => after.buffer.capacity = size) fun halt _ => halt.Orderly)
    (above : limits.floor ≤ size) (below : size ≤ limits.ceiling) :
    Ends (do
        onRing act
        setLimitsOnly limits : Act (ElasticRing α) α Unit) before
      (fun _ after => after.buffer.Bounded) fun halt _ => halt.Orderly := by
  simp only [setLimitsOnly, ends_bind, ends_onRing, ends_buffer, ends_become]
  apply ends.mono
  · intro _ after sized
    exact ⟨above.trans sized.ge, sized.le.trans below⟩
  · exact fun _ _ => id

theorem assign_confines (within : before.buffer.WithinLimits)
    (sound : Sound written origin ({model.id} + owned) before.buffer.ring before.ledger) :
    Confines Bounded (assign n model) before :=
  confines_of_atomic within.bounded (assign_atomic n model)
    (installing_bounded (Ring.assignWithin_sized sound) (Nat.zero_le n) (Nat.le_refl n))

theorem assignUnder_confines (within : before.buffer.WithinLimits)
    (sound : Sound written origin ({model.id} + owned) before.buffer.ring before.ledger) :
    Confines Bounded (assignUnder limits n model) before := by
  simp only [assignUnder]
  by_cases small : limits.ceiling < n
  · simp only [if_pos small]
    exact KeepsBounds.confines (ends_holding Bounded within.bounded)
  · simp only [if_neg small]
    apply confines_of_atomic within.bounded
    · exact (onRing_atomic (Ring.assignWithin_atomic _ n model)).bind fun _ =>
        setLimitsOnly_unrefused limits
    · have ordered := limits.floor_le_ceiling
      exact installing_bounded (Ring.assignWithin_sized sound) (Nat.le_max_left _ _)
        (Nat.max_le.mpr ⟨ordered, Nat.le_of_not_lt small⟩)

theorem replacing_sized
    (sound : Sound written origin owned before.buffer.ring before.ledger) (size : Nat) :
    Ends (Ring.assignFeedWithin size feed) ⟨before.buffer.ring, before.ledger⟩
      (fun _ after => after.buffer.capacity = size) fun halt _ => halt.Orderly := by
  apply (Ring.replaceContents_ends (fun _ => True) sound size fun _ => trivial).mono
  · exact fun _ _ ended => ended.2
  · exact fun _ _ stops => stops.due.orderly

theorem assignFeed_confines (within : before.buffer.WithinLimits)
    (sound : Sound written origin owned before.buffer.ring before.ledger) :
    Confines Bounded (assignFeed feed) before :=
  confines_of_atomic within.bounded (assignFeed_atomic feed)
    (installing_bounded (replacing_sized sound feed.claimed) (Nat.zero_le _) (Nat.le_refl _))

theorem assignFeedUnder_confines (within : before.buffer.WithinLimits)
    (sound : Sound written origin owned before.buffer.ring before.ledger) :
    Confines Bounded (assignFeedUnder limits feed) before := by
  apply confines_of_atomic within.bounded (assignFeedUnder_atomic limits feed)
  simp only [assignFeedUnder, setLimitsOnly, ends_bind, ends_onRing, ends_buffer, ends_become]
  apply (Ring.replaceContents_ends (fun _ => True) sound limits.ceiling fun _ => trivial).mono
  · intro _ middle ended
    obtain ⟨held, sized⟩ := ended
    let limited : Tracked (ElasticRing α) α := ⟨⟨middle.buffer, limits⟩, middle.ledger⟩
    have bounded : limited.buffer.Bounded := ⟨limits.floor_le_ceiling.trans sized.ge, sized.le⟩
    have limitedSound : Sound written origin owned limited.buffer.ring limited.ledger := held
    have settles := (bounded.within held.wellFormed).settle_ends limitedSound
    exact settles.mono (fun _ _ settled => settled.2.bounded) fun _ _ => False.elim
  · exact fun _ _ stops => stops.due.orderly

end ElasticRing

end RingDeque
