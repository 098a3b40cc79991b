import RingDeque.Proofs.Elastic.Replacing
import RingDeque.Proofs.Ring.Refusing

/-!
What a refused operation leaves of an elastic ring.

The ring inside is left as it was, its block and its cursors included. So are the limits, unless the
operation is one that puts other limits in force before it asks for a block.
-/

namespace RingDeque.ElasticRing

open Effect Act
open RingDeque.Ring (Sound Stops Rejects)

variable {α : Type} {written : Prop} {origin : Tracked (Ring α) α}
  {before : Tracked (ElasticRing α) α} {elastic after : ElasticRing α} {owned : Multiset Nat}
  {item model : Item α} {side trim yields toward : End} {cursor first last : Cursor} {n : Nat}
  {limits : Limits} {feed : Feed α} {demands : Limits → Prop}

theorem onRing_atomic {act : Act (Ring α) α γ} (atomic : Atomic act) : Atomic (onRing act) := by
  intro before
  rw [ends_onRing]
  refine (atomic _).mono (fun _ _ => id) ?_
  intro halt after undone refused
  rw [undone refused]

theorem haltsOnly_onRing {allowed : Halt → Prop} {act : Act (Ring α) α γ}
    (only : HaltsOnly allowed act) : HaltsOnly allowed (onRing act) := by
  intro before
  rw [ends_onRing]
  exact only _

theorem secure_atomic (n : Nat) : Atomic (secure (α := α) n) := by
  refine .of_buffer fun elastic => ?_
  by_cases enough : Word.saturatingAdd elastic.len n ≤ elastic.physical
  · simp only [if_pos enough]
    exact .of_unrefused (haltsOnly_pure _)
  simp only [if_neg enough]
  by_cases same : elastic.grownSize (Word.saturatingAdd elastic.len n) = elastic.physical
  · simp only [ne_eq, same, not_true, if_false]
    exact .of_unrefused (haltsOnly_pure _)
  · simp only [ne_eq, same, not_false_iff, if_true]
    refine (onRing_atomic (Ring.setCapacity_atomic .front _)).bind fun _ => ?_
    exact haltsOnly_ledger (Ledger.report_unrefused _)

/-- The refusal of a smaller block is the end of the matter. -/
theorem settle_unrefused : Unrefused (settle (α := α)) := by
  refine haltsOnly_buffer fun elastic => ?_
  by_cases same : elastic.settledSize = elastic.physical
  · simp only [if_pos same]
    exact haltsOnly_pure _
  simp only [if_neg same]
  intro before
  rw [ends_tryCatch]
  refine Ends.anyhow (fun _ _ => trivial) ?_
  intro halt after
  cases halt with
  | refused error => exact haltsOnly_ledger (Ledger.report_unrefused _) after
  | interrupted cause => rfl
  | fault fault => rfl

theorem prepare_atomic (cursor : Cursor) (n : Nat) : Atomic (prepare (α := α) cursor n) := by
  refine .of_buffer fun elastic => .of_query fun index => ?_
  exact (secure_atomic n).bind fun _ => haltsOnly_pure _

theorem push_atomic (side : End) (item : Item α) : Atomic (push side item) := by
  refine Atomic.bind (Atomic.holding (.of_buffer fun elastic => ?_)) fun _ =>
    haltsOnly_onRing (unrefused_update _)
  by_cases full : elastic.isFull = true
  · simp only [if_pos full]
    exact .of_unrefused (haltsOnly_pure _)
  · simp only [if_neg full]
    exact secure_atomic 1

theorem pop_unrefused (side : End) : Unrefused (pop (α := α) side) := by
  refine (haltsOnly_onRing (unrefused_update _)).bind fun popped => ?_
  cases popped with
  | none => exact haltsOnly_pure _
  | some item => exact (unrefused_holding settle_unrefused).bind fun _ => haltsOnly_pure _

theorem clear_unrefused : Unrefused (clear (α := α)) :=
  (haltsOnly_onRing Ring.clear_unrefused).bind fun _ => settle_unrefused

theorem setLimitsOnly_unrefused (limits : Limits) : Unrefused (setLimitsOnly (α := α) limits) :=
  haltsOnly_buffer fun _ => haltsOnly_modify _

theorem assign_atomic (n : Nat) (model : Item α) : Atomic (assign n model) :=
  (onRing_atomic (Ring.assignWithin_atomic n n model)).bind fun _ => setLimitsOnly_unrefused _

theorem assignUnder_atomic (limits : Limits) (n : Nat) (model : Item α) :
    Atomic (assignUnder limits n model) := by
  simp only [assignUnder]
  by_cases small : limits.ceiling < n
  · simp only [if_pos small]
    exact Atomic.holding fun _ _ => rfl
  · simp only [if_neg small]
    refine (onRing_atomic (Ring.assignWithin_atomic _ n model)).bind fun _ => ?_
    exact setLimitsOnly_unrefused limits

theorem assignFeed_atomic (feed : Feed α) : Atomic (assignFeed feed) :=
  (onRing_atomic (Ring.assignFeedWithin_atomic _ feed)).bind fun _ => setLimitsOnly_unrefused _

theorem assignFeedUnder_atomic (limits : Limits) (feed : Feed α) :
    Atomic (assignFeedUnder limits feed) := by
  refine (onRing_atomic (Ring.assignFeedWithin_atomic _ feed)).bind fun _ => ?_
  exact (setLimitsOnly_unrefused limits).bind fun _ => settle_unrefused

/-- The ring as it was, with the limits of before or others that were demanded. -/
structure Undone (demands : Limits → Prop) (before after : ElasticRing α) : Prop where
  ring : after.ring = before.ring
  limits : after.limits = before.limits ∨ demands after.limits

/-- An action that leaves the ring as it was if it is refused. -/
def Reverts (demands : Limits → Prop) (act : Act (ElasticRing α) α γ)
    (before : Tracked (ElasticRing α) α) : Prop :=
  Ends act before (fun _ _ => True) fun halt after =>
    halt.isRefusal = true → Undone demands before.buffer after.buffer

theorem reverts_of_atomic {act : Act (ElasticRing α) α γ} (atomic : Atomic act) :
    Reverts demands act before := by
  refine (atomic before).mono (fun _ _ => id) ?_
  intro halt after undone refused
  rw [undone refused]
  exact ⟨rfl, .inl rfl⟩

namespace Reverts

/-- What is known after the first action rules out that the second one is refused. -/
theorem bind {act : Act (ElasticRing α) α γ} {next : γ → Act (ElasticRing α) α δ}
    {known : γ → Tracked (ElasticRing α) α → Prop}
    {halts : Halt → Tracked (ElasticRing α) α → Prop} (first : Reverts demands act before)
    (ends : Ends act before known halts)
    (rest : ∀ value middle, known value middle →
      Ends (next value) middle (fun _ _ => True) fun halt _ => halt.isRefusal = false) :
    Reverts demands (act >>= next) before := by
  rw [Reverts, ends_bind]
  refine (first.and ends).mono ?_ fun halt after halted => halted.1
  intro value middle ended
  refine (rest value middle ended.2).mono (fun _ _ => id) ?_
  intro halt after other refused
  rw [other] at refused
  contradiction

end Reverts

variable {place : Cursor} {index : Nat} {ring : Ring α} {breaks : Prop} {halt : Halt}
  {ledger : Ledger α}

/-- An operation at a place that the ring just issued is not refused. -/
theorem not_refused {final : Ring α} (points : ring.Points place index)
    (wellFormed : ring.WellFormed)
    (stops : Stops written origin breaks (ring.Rejects place) owned halt final ledger) :
    halt.isRefusal = false := by
  cases stops.due with
  | copy | destruction | source => rfl
  | refusal rejected => exact (points.not_rejected wellFormed rejected).elim

theorem secure_sound (sound : Sound written origin owned before.buffer.ring before.ledger)
    (n : Nat) :
    Ends (secure n) before
      (fun _ after => Sound written origin owned after.buffer.ring after.ledger)
      fun _ _ => True := by
  have ends : Ends (secure n) before _ fun halt after => Stops written origin False (fun _ => True)
    owned halt after.buffer.ring after.ledger := secure_ends sound n fun _ => trivial
  exact ends.mono (fun _ _ ended => ended.1) fun _ _ _ => trivial

theorem prepare_sound (sound : Sound written origin owned before.buffer.ring before.ledger)
    (vouched : before.buffer.ring.Vouches cursor) (n : Nat) :
    Ends (prepare cursor n) before
      (fun _ after => Sound written origin owned after.buffer.ring after.ledger)
      fun _ _ => True := by
  have ends : Ends (prepare cursor n) before _ fun halt after => Stops written origin False _ owned
    halt after.buffer.ring after.ledger := prepare_ends sound vouched n
  exact ends.mono (fun _ _ ended => ended.2.2.1) fun _ _ _ => trivial

/-- An operation at the place of an index, once that is known. -/
theorem Reverts.atPlace {act : Act (ElasticRing α) α Nat} {further : Multiset Nat}
    {operation : Cursor → Act (Ring α) α Cursor} (first : Reverts demands act before)
    (ends : Ends act before
      (fun _ after => Sound written origin owned after.buffer.ring after.ledger) fun _ _ => True)
    (rest : ∀ place middle, Sound written origin owned middle.buffer middle.ledger →
      middle.buffer.Vouches place → Ends (operation place) middle (fun _ _ => True) fun halt after =>
        Stops written origin breaks (middle.buffer.Rejects place) further halt after.buffer
          after.ledger) :
    Reverts demands (do
      let index ← act
      let place ← (← Act.buffer).ring.cursorFor index
      onRing (operation place)) before := by
  apply first.bind ends
  intro index middle held
  obtain ⟨place, found, points⟩ := held.wellFormed.cursorFor_exists index
  simp only [ends_bind, ends_buffer, found, liftM_ok, ends_pure, ends_onRing]
  apply (rest place ⟨middle.buffer.ring, middle.ledger⟩ held (points.vouches held.wellFormed)).mono
  · exact fun _ _ => id
  · exact fun _ _ stops => not_refused points held.wellFormed stops

theorem insert_reverts
    (sound : Sound written origin ({item.id} + owned) before.buffer.ring before.ledger)
    (vouched : before.buffer.ring.Vouches cursor) :
    Reverts demands (insert yields cursor item) before := by
  apply (reverts_of_atomic (prepare_atomic cursor 1).holding).atPlace
    (ends_holding (fun _ => True) (prepare_sound sound vouched 1))
  intro place middle held points
  exact (Ring.insert_ends False held points).mono (fun _ _ _ => trivial) fun _ _ => id

theorem insertCopies_reverts
    (sound : Sound written origin ({model.id} + owned) before.buffer.ring before.ledger)
    (vouched : before.buffer.ring.Vouches cursor) :
    Reverts demands (insertCopies yields cursor n model) before := by
  apply (reverts_of_atomic (prepare_atomic cursor n).holding).atPlace
    (ends_holding (fun _ => True) (prepare_sound sound vouched n))
  intro place middle held points
  exact (Ring.insertCopies_ends held points).mono (fun _ _ _ => trivial) fun _ _ => id

theorem insertFeed_reverts
    (sound : Sound written origin owned before.buffer.ring before.ledger)
    (vouched : before.buffer.ring.Vouches cursor) :
    Reverts demands (insertFeed yields cursor feed) before := by
  apply (reverts_of_atomic (prepare_atomic cursor feed.claimed)).atPlace
    (prepare_sound sound vouched feed.claimed)
  intro place middle held points
  exact (Ring.insertFeed_ends held points).mono (fun _ _ _ => trivial)
    fun _ _ stops => stops.mono (fun _ => trivial) fun _ => id

/-- A cursor that was just issued is found again after storage was given up. -/
theorem settleKeeping_unrefused (sound : Sound written origin owned before.buffer.ring before.ledger)
    (points : before.buffer.ring.Points cursor index) :
    Ends (settleKeeping cursor) before (fun _ _ => True) fun halt _ => halt.isRefusal = false := by
  simp only [settleKeeping, ends_bind, ends_buffer, points.resolve sound.wellFormed, liftM_answer,
    ends_pure]
  exact (settle_unrefused before).mono
    (fun _ after _ => unrefused_checked (after.buffer.ring.cursorFor index) after) fun _ _ => id

theorem erase_reverts (sound : Sound written origin owned before.buffer.ring before.ledger)
    (vouched : before.buffer.ring.Vouches cursor) :
    Reverts demands (erase toward cursor) before := by
  have erased : Ends (onRing (Ring.erase toward cursor)) before
      (fun issued after => Sound written origin owned after.buffer.ring after.ledger ∧
        ∃ index, after.buffer.ring.Points issued index) (fun _ _ => True) := by
    rw [ends_onRing]
    apply (Ring.erase_ends False sound vouched).mono
    · rintro issued middle ⟨held, index, -, -, erases⟩
      exact ⟨held, _, erases.points⟩
    · exact fun _ _ _ => trivial
  apply (reverts_of_atomic (onRing_atomic (Ring.erase_atomic toward cursor))).bind erased
  rintro issued middle ⟨held, index, points⟩
  exact settleKeeping_unrefused held points

theorem eraseRange_reverts (sound : Sound written origin owned before.buffer.ring before.ledger)
    (firstVouched : before.buffer.ring.Vouches first)
    (lastVouched : before.buffer.ring.Vouches last) :
    Reverts demands (eraseRange toward first last) before := by
  have erased : Ends (onRing (Ring.eraseRange toward first last)) before
      (fun issued after => Sound written origin owned after.buffer.ring after.ledger ∧
        ∃ index, after.buffer.ring.Points issued index) (fun _ _ => True) := by
    rw [ends_onRing]
    apply (Ring.eraseRange_ends False sound firstVouched lastVouched).mono
    · rintro issued middle ⟨held, source, target, -, -, -, erases⟩
      exact ⟨held, _, erases.points⟩
    · exact fun _ _ _ => trivial
  apply (reverts_of_atomic (onRing_atomic (Ring.eraseRange_atomic toward first last))).bind erased
  rintro issued middle ⟨held, index, points⟩
  exact settleKeeping_unrefused held points

/-- Growth raises the ceiling before it asks for a block. -/
theorem resize_reverts
    (sound : Sound written origin ({model.id} + owned) before.buffer.ring before.ledger) :
    Reverts (fun limits => before.buffer.len < n ∧ limits = before.buffer.limits.raisedTo n)
      (resize side n model) before := by
  by_cases longer : before.buffer.len < n
  · have reverts : Reverts (fun limits => before.buffer.len < n ∧
        limits = before.buffer.limits.raisedTo n) (holding model do
          setLimitsOnly (before.buffer.limits.raisedTo n)
          secure (n - before.buffer.len)) before := by
      apply ends_holding_refused
      simp only [setLimitsOnly, ends_bind, ends_buffer, ends_become]
      apply (secure_atomic (n - before.buffer.len) _).mono
      · exact fun _ _ => id
      · intro halt after undone refused
        rw [undone refused]
        exact ⟨rfl, .inr ⟨longer, rfl⟩⟩
    have held : Ends (holding model do
          setLimitsOnly (before.buffer.limits.raisedTo n)
          secure (n - before.buffer.len)) before
        (fun _ after => Sound written origin ({model.id} + owned) after.buffer.ring after.ledger)
        (fun _ _ => True) := by
      apply ends_holding (fun _ => True)
      simp only [setLimitsOnly, ends_bind, ends_buffer, ends_become]
      let raised : Tracked (ElasticRing α) α :=
        ⟨{ before.buffer with limits := before.buffer.limits.raisedTo n }, before.ledger⟩
      have held : Sound written origin ({model.id} + owned) raised.buffer.ring raised.ledger :=
        sound
      exact secure_sound held (n - before.buffer.len)
    have grown : Ends _ before (fun _ after => after.buffer.ring.WellFormed ∧
        Sound written origin ({model.id} + owned) after.buffer.ring after.ledger) _ :=
      (Ends.and reverts held).mono (fun _ _ ended => ⟨ended.2.wellFormed, ended.2⟩)
        fun _ _ stopped => stopped.1
    apply ends_expanding grown longer
    intro middle cursor sound points
    apply (Ring.insertCopies_ends sound (points.vouches sound.wellFormed)).mono
    · exact fun _ _ _ => trivial
    · intro halt after stops refused
      rw [not_refused points sound.wellFormed stops] at refused
      cases refused
  · have reduced : Unrefused (do
        onRing (Ring.evict side (before.buffer.len - n))
        settle : Act (ElasticRing α) α Unit) :=
      (haltsOnly_onRing (Ring.evict_unrefused side _)).bind fun _ => settle_unrefused
    exact ends_curtailing (Nat.le_of_not_lt longer)
      (reverts_of_atomic (Atomic.of_unrefused reduced).consuming)

theorem enforce_reverts {earlier : ElasticRing α} (limits : Limits)
    (untouched : before.buffer.physical < limits.floor → before.buffer.ring = earlier.ring) :
    Ends (enforce limits) before (fun _ _ => True) fun halt after =>
      halt.isRefusal = true → Undone (· = limits) earlier after.buffer := by
  by_cases low : before.buffer.physical < limits.floor
  · rw [ends_enforce_of_lt low]
    apply (onRing_atomic (Ring.setCapacity_atomic .front limits.floor) _).mono
    · exact fun _ _ => id
    · intro halt after undone refused
      rw [undone refused]
      exact ⟨untouched low, .inr rfl⟩
  · rw [ends_enforce_of_le (Nat.le_of_not_lt low)]
    apply (settle_unrefused _).mono
    · exact fun _ _ => id
    · intro halt after other refused
      rw [other] at refused
      contradiction

/-- New limits are in force when a block at the floor is refused. -/
theorem setLimits_reverts (sound : Sound written origin owned before.buffer.ring before.ledger)
    (trim : End) (limits : Limits) : Reverts (· = limits) (setLimits trim limits) before := by
  by_cases large : limits.ceiling < before.buffer.physical
  · have resized : Ends (onRing (Ring.setCapacity trim limits.ceiling)) before
        (fun _ after => after.buffer.physical = limits.ceiling) fun _ _ => True := by
      rw [ends_onRing]
      apply (Ring.setCapacity_ends False (fun _ => True) sound trim limits.ceiling
        fun _ => trivial).mono
      · exact fun _ _ leaves => leaves.sized
      · exact fun _ _ _ => trivial
    rw [Reverts, ends_setLimits_of_lt large, ends_bind]
    apply ((onRing_atomic (Ring.setCapacity_atomic trim limits.ceiling) before).and resized).mono
    · rintro _ middle ⟨-, sized⟩
      have ordered := limits.floor_le_ceiling
      exact enforce_reverts limits fun low => by omega
    · rintro halt after ⟨undone, -⟩ refused
      rw [undone refused]
      exact ⟨rfl, .inl rfl⟩
  · rw [Reverts, ends_setLimits_of_le (Nat.le_of_not_lt large)]
    exact enforce_reverts limits fun _ => rfl

theorem setFloor_reverts (sound : Sound written origin owned before.buffer.ring before.ledger)
    (floor : Nat) :
    Reverts (fun limits => limits.ceiling = before.buffer.capacity ∧ limits.floor = floor)
      (setFloor floor) before := by
  simp only [Reverts, setFloor, ends_bind, ends_buffer, Limits.new]
  by_cases ordered : floor ≤ before.buffer.limits.ceiling
  · simp only [dif_pos ordered]
    apply (setLimits_reverts sound .front ⟨before.buffer.limits.ceiling, floor, ordered⟩).mono
    · exact fun _ _ => id
    · intro halt after undone refused
      obtain ⟨ring, limits⟩ := undone refused
      refine ⟨ring, limits.imp_right ?_⟩
      rintro same
      rw [same]
      exact ⟨rfl, rfl⟩
  · simp only [dif_neg ordered, ends_refuse]
    exact fun _ => ⟨rfl, .inl rfl⟩

end RingDeque.ElasticRing
