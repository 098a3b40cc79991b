import RingDeque.Elastic.Storage
import RingDeque.Proofs.Ring.Erasing
import RingDeque.Proofs.Ring.Storing

/-!
The block of an elastic ring.

Within its limits an elastic ring grows to a size that leaves out nothing that the ceiling allows,
and shrinks to a size at which everything still fits. So neither costs it an element.
-/

namespace RingDeque

open Effect

theorem le_doubledTo (wanted capacity : Nat) : capacity ≤ doubledTo wanted capacity := by
  fun_induction doubledTo wanted capacity with
  | case1 capacity growing ih =>
      refine Nat.le_trans ?_ ih
      simp only [Word.saturatingDouble]
      omega
  | case2 => exact Nat.le_refl _

theorem wanted_le_doubledTo (wanted capacity : Nat) (positive : 0 < capacity)
    (word : wanted ≤ Word.greatest) : wanted ≤ doubledTo wanted capacity := by
  fun_induction doubledTo wanted capacity with
  | case1 capacity growing ih =>
      refine ih ?_
      simp only [Word.saturatingDouble]
      omega
  | case2 => omega

theorem doubledTo_le_greatest (wanted capacity : Nat) (word : capacity ≤ Word.greatest) :
    doubledTo wanted capacity ≤ Word.greatest := by
  fun_induction doubledTo wanted capacity with
  | case1 capacity growing ih => exact ih (Nat.min_le_right _ _)
  | case2 => exact word

theorem halvedTo_bounds {len floor capacity : Nat} (fits : len ≤ capacity)
    (above : floor ≤ capacity) :
    len ≤ halvedTo len floor capacity ∧ floor ≤ halvedTo len floor capacity ∧
      halvedTo len floor capacity ≤ capacity := by
  fun_induction halvedTo len floor capacity with
  | case1 => omega
  | case2 capacity loose higher ih => omega
  | case3 => omega

theorem Limits.withReserve_bounds (limits : Limits) {capacity : Nat} (len : Nat)
    (word : capacity ≤ Word.greatest) :
    min capacity limits.ceiling ≤ limits.withReserve capacity len ∧
      limits.withReserve capacity len ≤ limits.ceiling := by
  simp only [withReserve, Word.saturatingDouble]
  split <;> omega

namespace ElasticRing

open RingDeque.Ring (Sound Stops Leaves)

variable {α : Type} {written : Prop} {origin : Tracked (Ring α) α}
  {before : Tracked (ElasticRing α) α} {elastic after : ElasticRing α} {owned : Multiset Nat}
  {breaks : Prop} {refuses : Error → Prop} {limits : Limits} {items : List (Item α)}
  {cursor : Cursor} {n index : Nat}

@[simp] theorem ends_onRing {act : Act (Ring α) α γ} {returns : γ → Tracked (ElasticRing α) α → Prop}
    {halts : Halt → Tracked (ElasticRing α) α → Prop} :
    Ends (onRing act) before returns halts ↔
      Ends act ⟨before.buffer.ring, before.ledger⟩
        (fun value after =>
          returns value ⟨{ before.buffer with ring := after.buffer }, after.ledger⟩)
        (fun halt after =>
          halts halt ⟨{ before.buffer with ring := after.buffer }, after.ledger⟩) :=
  Act.ends_onPart

/-- An elastic ring within given limits, with given elements. -/
structure Holds (limits : Limits) (items : List (Item α)) (elastic : ElasticRing α) : Prop where
  limited : elastic.limits = limits
  within : elastic.WithinLimits
  toList : elastic.ring.toList = items

theorem WithinLimits.holds (within : elastic.WithinLimits) :
    Holds elastic.limits elastic.ring.toList elastic :=
  ⟨rfl, within, rfl⟩

/-- Other elements in a block of the same size. -/
theorem Holds.refilled (holds : Holds limits items elastic) {ring : Ring α}
    (wellFormed : ring.WellFormed) (sized : ring.capacity = elastic.ring.capacity) :
    Holds limits ring.toList { elastic with ring } := by
  have fits := wellFormed.fits
  have above := holds.within.above_floor
  have below := holds.within.below_ceiling
  exact ⟨holds.limited, ⟨fits, by simpa only [physical, sized] using above, by
    simpa only [physical, capacity, sized] using below⟩, rfl⟩

theorem physical_le_greatest (elastic : ElasticRing α) : elastic.physical ≤ Word.greatest :=
  Nat.le_sub_one_of_lt elastic.ring.capacity_lt_word

theorem physical_lt_greatest (wellFormed : elastic.ring.WellFormed) :
    elastic.physical < Word.greatest := by
  have word := wellFormed.capacity_double_lt_word
  simp only [physical, Word.greatest, Word.limit] at *
  omega

/-- A block that grows reaches the size that is wanted, or the ceiling. -/
theorem grownSize_bounds (below : elastic.physical ≤ elastic.capacity) {wanted : Nat}
    (word : wanted ≤ Word.greatest) :
    elastic.physical ≤ elastic.grownSize wanted ∧
      min wanted elastic.capacity ≤ elastic.grownSize wanted ∧
      elastic.grownSize wanted ≤ elastic.capacity := by
  have small := elastic.physical_le_greatest
  have positive : 1 ≤ Word.greatest := by decide
  have reached := wanted_le_doubledTo _ (max elastic.physical 1) (by omega) word
  have larger := le_doubledTo wanted (max elastic.physical 1)
  have bounds := elastic.limits.withReserve_bounds wanted
    (doubledTo_le_greatest wanted (max elastic.physical 1) (by omega))
  simp only [grownSize, capacity] at *
  omega

/-- A block that shrinks keeps room for the elements, and stays between floor and ceiling. -/
theorem WithinLimits.settledSize_bounds (within : elastic.WithinLimits) :
    elastic.len ≤ elastic.settledSize ∧ elastic.limits.floor ≤ elastic.settledSize ∧
      elastic.settledSize ≤ elastic.capacity := by
  have fits := within.fits
  have above := within.above_floor
  have below := within.below_ceiling
  have small := elastic.physical_le_greatest
  have ordered := elastic.limits.floor_le_ceiling
  have halved := halvedTo_bounds fits above
  have bounds := elastic.limits.withReserve_bounds elastic.len
    (Nat.le_trans halved.2.2 small)
  simp only [settledSize, capacity] at *
  omega

/-- A block of another size, with everything still in it. -/
theorem Holds.resized (wellFormed : elastic.ring.WellFormed) {ring : Ring α} {size : Nat}
    (fits : elastic.len ≤ size) (above : elastic.limits.floor ≤ size)
    (below : size ≤ elastic.capacity) {ledger : Ledger α} {trim : End}
    (leaves : Leaves written origin owned size
      (trim.trim (elastic.ring.len - size) elastic.ring.toList) ring ledger) :
    Holds elastic.limits elastic.ring.toList { elastic with ring } := by
  have listed := leaves.toList
  have counted := leaves.len
  rw [Nat.sub_eq_zero_of_le (show elastic.ring.len ≤ size from fits), trim.trim_zero] at listed counted
  rw [wellFormed.length_toList] at counted
  refine ⟨rfl, ⟨?_, ?_, ?_⟩, listed⟩
  · rw [len, physical, leaves.sized, counted]
    exact fits
  · rw [physical, leaves.sized]
    exact above
  · rw [physical, leaves.sized]
    exact below

/-- The given refusals, and that of a block. -/
def OrUnallocated (refuses : Error → Prop) (error : Error) : Prop :=
  refuses error ∨ ∃ size, error = .allocationFailed size

theorem orUnallocated (size : Nat) : OrUnallocated refuses (.allocationFailed size) :=
  .inr ⟨size, rfl⟩

/-- A block that was enlarged for `n` more elements: they fit, or it is as large as the ceiling. -/
structure Secured (n : Nat) (before after : ElasticRing α) : Prop where
  holds : Holds before.limits before.ring.toList after
  room : before.len + n ≤ after.physical ∨ after.physical = before.capacity

/-- Growing makes room for as many elements as the ceiling allows. -/
theorem secure_ends (sound : Sound written origin owned before.buffer.ring before.ledger) (n : Nat)
    (scarce : ∀ size, refuses (.allocationFailed size)) :
    Ends (secure n) before
      (fun _ after => Sound written origin owned after.buffer.ring after.ledger ∧
        (before.buffer.WithinLimits → Secured n before.buffer after.buffer))
      (fun halt after =>
        Stops written origin breaks refuses owned halt after.buffer.ring after.ledger) := by
  have small := physical_lt_greatest sound.wellFormed
  simp only [secure, ends_bind, Act.ends_buffer]
  by_cases enough : Word.saturatingAdd before.buffer.len n ≤ before.buffer.physical
  · simp only [if_pos enough, ends_pure]
    refine ⟨sound, fun within => ⟨within.holds, .inl ?_⟩⟩
    simp only [Word.saturatingAdd] at enough
    omega
  simp only [if_neg enough]
  have reach : before.buffer.WithinLimits → ∀ size,
      size = before.buffer.grownSize (Word.saturatingAdd before.buffer.len n) →
      size < Word.greatest →
      before.buffer.physical ≤ size ∧ size ≤ before.buffer.capacity ∧
      (before.buffer.len + n ≤ size ∨ size = before.buffer.capacity) := by
    intro within size same word
    subst same
    obtain ⟨larger, reached, below⟩ :=
      grownSize_bounds within.below_ceiling (Nat.min_le_right (before.buffer.len + n) Word.greatest)
    simp only [Word.saturatingAdd] at *
    omega
  by_cases same : before.buffer.grownSize (Word.saturatingAdd before.buffer.len n) =
      before.buffer.physical
  · simp only [ne_eq, same, not_true, if_false, ends_pure]
    exact ⟨sound, fun within => ⟨within.holds, (reach within _ same.symm small).2.2⟩⟩
  · simp only [ne_eq, same, not_false_iff, if_true, ends_bind, ends_onRing,
      Act.ends_report]
    refine (Ring.setCapacity_ends _ _ sound .front _ fun _ => scarce _).mono ?_
      fun _ _ stopped => stopped.1
    intro _ middle leaves
    refine ⟨leaves.sound.reporting _, fun within => ?_⟩
    have word := @physical_lt_greatest α ⟨middle.buffer, before.buffer.limits⟩ leaves.sound.wellFormed
    rw [physical, leaves.sized] at word
    obtain ⟨larger, below, reached⟩ := reach within _ rfl word
    refine ⟨.resized sound.wellFormed (Nat.le_trans within.fits larger)
      (Nat.le_trans within.above_floor larger) below leaves, ?_⟩
    simp only [physical, leaves.sized]
    exact reached

/-- Giving up storage is never refused, and within the limits it costs nothing. -/
theorem settle_ends (sound : Sound written origin owned before.buffer.ring before.ledger) :
    Ends settle before
      (fun _ after => Sound written origin owned after.buffer.ring after.ledger ∧
        (before.buffer.WithinLimits →
          Holds before.buffer.limits before.buffer.ring.toList after.buffer))
      (fun halt after =>
        Stops written origin breaks refuses owned halt after.buffer.ring after.ledger) := by
  simp only [settle, ends_bind, Act.ends_buffer]
  by_cases same : before.buffer.settledSize = before.buffer.physical
  · simp only [if_pos same, ends_pure]
    exact ⟨sound, WithinLimits.holds⟩
  simp only [if_neg same, ends_tryCatch, ends_bind, ends_onRing, Act.ends_report]
  refine (Ring.setCapacity_ends breaks (fun _ => True) sound .front _ fun _ => trivial).mono ?_ ?_
  · intro _ middle leaves
    refine ⟨leaves.sound.reporting _, fun within => ?_⟩
    obtain ⟨fits, above, below⟩ := within.settledSize_bounds
    exact .resized sound.wellFormed fits above below leaves
  · intro halt middle stopped
    obtain ⟨stops, reason⟩ := stopped
    cases halt with
    | refused error =>
        simp only [Act.ends_report]
        refine ⟨stops.sound.reporting _, fun within => ?_⟩
        rcases reason with ⟨-, rfl⟩ | tight
        · exact within.holds
        · exact absurd within.settledSize_bounds.1 (Nat.not_le_of_lt tight)
    | interrupted cause => exact ⟨stops.due.interrupted, stops.sound⟩
    | fault fault => exact stops.due.orderly.elim

theorem settleKeeping_ends (sound : Sound written origin owned before.buffer.ring before.ledger)
    (points : before.buffer.ring.Points cursor index) :
    Ends (settleKeeping cursor) before
      (fun issued after => Sound written origin owned after.buffer.ring after.ledger ∧
        after.buffer.ring.Issues issued ∧
        (before.buffer.WithinLimits →
          Holds before.buffer.limits before.buffer.ring.toList after.buffer ∧
          after.buffer.ring.Points issued index))
      (fun halt after =>
        Stops written origin breaks refuses owned halt after.buffer.ring after.ledger) := by
  simp only [settleKeeping, ends_bind, Act.ends_buffer, points.resolve sound.wellFormed, liftM_answer,
    ends_pure]
  refine (settle_ends sound).mono ?_ fun _ _ => id
  intro _ after ended
  obtain ⟨kept, holds⟩ := ended
  obtain ⟨issued, found, final⟩ := kept.wellFormed.cursorFor_exists index
  simp only [found, liftM_ok, ends_pure]
  refine ⟨kept, final.issues, fun within => ⟨holds within, ?_⟩⟩
  have counted := kept.wellFormed.length_toList
  rw [(holds within).toList, sound.wellFormed.length_toList] at counted
  rwa [Nat.min_eq_left (by rw [← counted]; exact points.inside)] at final

/-- What follows a change of the limits once the block is no larger than the ceiling: the limits are
stored, and a block below the floor is replaced. -/
def enforce (limits : Limits) : Act (ElasticRing α) α Unit := do
  setLimitsOnly limits
  if (← Act.buffer).physical < limits.floor then
    onRing (Ring.setCapacity .front limits.floor)
  else
    settle

section

variable {returns : Unit → Tracked (ElasticRing α) α → Prop}
  {stops : Halt → Tracked (ElasticRing α) α → Prop} {trim : End} {limits : Limits}

theorem ends_setLimits_of_lt (large : limits.ceiling < before.buffer.physical) :
    Ends (setLimits trim limits) before returns stops ↔
      Ends (do
        onRing (Ring.setCapacity trim limits.ceiling)
        enforce limits) before returns stops := by
  simp only [setLimits, enforce, ends_bind, Act.ends_buffer, if_pos large]

theorem ends_setLimits_of_le (small : before.buffer.physical ≤ limits.ceiling) :
    Ends (setLimits trim limits) before returns stops ↔
      Ends (enforce limits) before returns stops := by
  simp only [setLimits, enforce, ends_bind, Act.ends_buffer, if_neg (Nat.not_lt_of_le small)]

theorem ends_enforce_of_lt (low : before.buffer.physical < limits.floor) :
    Ends (enforce limits) before returns stops ↔
      Ends (onRing (Ring.setCapacity .front limits.floor))
        ⟨{ before.buffer with limits }, before.ledger⟩ returns stops := by
  have stillLow : physical ⟨before.buffer.ring, limits⟩ < limits.floor := low
  simp only [enforce, setLimitsOnly, ends_bind, Act.ends_buffer, Act.ends_become, if_pos stillLow]

theorem ends_enforce_of_le (high : limits.floor ≤ before.buffer.physical) :
    Ends (enforce limits) before returns stops ↔
      Ends settle ⟨{ before.buffer with limits }, before.ledger⟩ returns stops := by
  have stillHigh : ¬ physical ⟨before.buffer.ring, limits⟩ < limits.floor := Nat.not_lt_of_le high
  simp only [enforce, setLimitsOnly, ends_bind, Act.ends_buffer, Act.ends_become, if_neg stillHigh]

end

/-- Enforcing limits costs no element that the ceiling allows. -/
theorem enforce_ends (breaks : Prop) (refuses : Error → Prop)
    (sound : Sound written origin owned before.buffer.ring before.ledger) (limits : Limits)
    (scarce : ∀ size, refuses (.allocationFailed size)) :
    Ends (enforce limits) before
      (fun _ after => Sound written origin owned after.buffer.ring after.ledger ∧
        (before.buffer.len ≤ before.buffer.physical → before.buffer.physical ≤ limits.ceiling →
          Holds limits before.buffer.ring.toList after.buffer))
      (fun halt after =>
        Stops written origin breaks refuses owned halt after.buffer.ring after.ledger) := by
  by_cases low : before.buffer.physical < limits.floor
  · rw [ends_enforce_of_lt low, ends_onRing]
    refine (Ring.setCapacity_ends _ _ sound .front limits.floor fun _ => scarce _).mono ?_
      fun _ _ stopped => stopped.1
    intro _ after leaves
    refine ⟨leaves.sound, fun fits _ => ?_⟩
    have wellFormed : (⟨before.buffer.ring, limits⟩ : ElasticRing α).ring.WellFormed :=
      sound.wellFormed
    exact Holds.resized wellFormed (Nat.le_trans fits (Nat.le_of_lt low)) (Nat.le_refl _)
      limits.floor_le_ceiling leaves
  · rw [ends_enforce_of_le (Nat.le_of_not_lt low)]
    refine Ends.mono (settle_ends sound) ?_ fun _ _ => id
    intro _ after ended
    exact ⟨ended.1, fun fits below => ended.2 ⟨fits, Nat.le_of_not_lt low, below⟩⟩

/-- Other limits trim what the new ceiling leaves out. -/
theorem setLimits_ends (breaks : Prop) (refuses : Error → Prop)
    (sound : Sound written origin owned before.buffer.ring before.ledger) (trim : End)
    (limits : Limits) (scarce : ∀ size, refuses (.allocationFailed size)) :
    Ends (setLimits trim limits) before
      (fun _ after => Sound written origin owned after.buffer.ring after.ledger ∧
        (before.buffer.WithinLimits → Holds limits
          (trim.trim (before.buffer.len - limits.ceiling) before.buffer.ring.toList) after.buffer))
      (fun halt after =>
        Stops written origin breaks refuses owned halt after.buffer.ring after.ledger) := by
  by_cases large : limits.ceiling < before.buffer.physical
  · rw [ends_setLimits_of_lt large, ends_bind, ends_onRing]
    refine (Ring.setCapacity_ends _ _ sound trim limits.ceiling fun _ => scarce _).mono ?_
      fun _ _ stopped => stopped.1
    intro _ middle leaves
    have fits := leaves.sound.wellFormed.fits
    refine Ends.mono (enforce_ends breaks refuses leaves.sound limits scarce) ?_ fun _ _ => id
    intro _ after ended
    have holds := ended.2 fits leaves.sized.le
    rw [leaves.toList] at holds
    exact ⟨ended.1, fun _ => holds⟩
  · rw [ends_setLimits_of_le (Nat.le_of_not_lt large)]
    refine (enforce_ends breaks refuses sound limits scarce).mono ?_ fun _ _ => id
    intro _ after ended
    refine ⟨ended.1, fun within => ?_⟩
    rw [Nat.sub_eq_zero_of_le (Nat.le_trans within.fits (Nat.le_of_not_lt large)), trim.trim_zero]
    exact ended.2 within.fits (Nat.le_of_not_lt large)

/-- Another floor is refused if it lies above the ceiling, and never costs an element. -/
theorem setFloor_ends (breaks : Prop)
    (sound : Sound written origin owned before.buffer.ring before.ledger) (floor : Nat) :
    Ends (setFloor floor) before
      (fun _ after => Sound written origin owned after.buffer.ring after.ledger ∧
        (before.buffer.WithinLimits → ∃ limits, limits.ceiling = before.buffer.capacity ∧
          Holds limits before.buffer.ring.toList after.buffer))
      (fun halt after =>
        Stops written origin breaks (OrUnallocated fun _ => before.buffer.capacity < floor) owned halt
          after.buffer.ring after.ledger ∧
        (before.buffer.capacity < floor → after = before)) := by
  simp only [setFloor, ends_bind, Act.ends_buffer, Limits.new]
  by_cases ordered : floor ≤ before.buffer.limits.ceiling
  · simp only [dif_pos ordered]
    refine (setLimits_ends breaks (OrUnallocated fun _ => before.buffer.capacity < floor) sound .front
      ⟨before.buffer.limits.ceiling, floor, ordered⟩ orUnallocated).mono ?_ ?_
    · intro _ after ended
      obtain ⟨kept, holds⟩ := ended
      refine ⟨kept, fun within => ⟨⟨before.buffer.limits.ceiling, floor, ordered⟩, rfl, ?_⟩⟩
      have fits : before.buffer.len ≤ before.buffer.limits.ceiling :=
        Nat.le_trans within.fits within.below_ceiling
      have final := holds within
      simp only [Nat.sub_eq_zero_of_le fits, End.trim_zero] at final
      exact final
    · intro halt after stops
      exact ⟨stops, fun high => absurd high (Nat.not_lt_of_le ordered)⟩
  · simp only [dif_neg ordered, ends_refuse]
    exact ⟨⟨.refusal (.inl (Nat.lt_of_not_le ordered)), sound⟩, fun _ => trivial⟩

end ElasticRing

end RingDeque
