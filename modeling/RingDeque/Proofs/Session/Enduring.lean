import RingDeque.Proofs.Ring.Trimming
import RingDeque.Session.Walk

/-!
A failing destruction among elements that are destroyed as a run.

Emptying a ring, changing its capacity, and giving it up, as a whole or what a walk has left of it,
come to the same whether one of the destructions fails or none does: the same ring, and the same
elements destroyed. Main statement: `Session.failing_destruction_endured`.
-/

namespace RingDeque

open Effect

namespace Ring

variable {α : Type} {act : Act (Ring α) α γ} {ring after : Ring α} {cursor : Cursor}
  {ledger : Ledger α}

theorem accepts_of_end (ending : cursor.isEnd = true)
    (owner : after.registry.owner = ring.registry.owner)
    (endGeneration : after.registry.endGeneration = ring.registry.endGeneration) :
    after.registry.accepts cursor = ring.registry.accepts cursor := by
  have stands : cursor.slot = none := Option.isNone_iff_eq_none.mp ending
  simp only [Registry.accepts, stands, owner, endGeneration]

/-- An action that keeps a ring well formed, and that would have returned the same had no failure of
a destruction been set. -/
def Steadfast (act : Act (Ring α) α γ) : Prop :=
  ∀ before, before.buffer.WellFormed → Ends act before
    (fun value after => after.buffer.WellFormed ∧ after.ledger.brittle = before.ledger.brittle ∧
      act ⟨before.buffer, before.ledger.disarmed⟩ =
        .ok value ⟨after.buffer, after.ledger.disarmed⟩)
    fun _ _ => True

theorem steadfast_pure (value : γ) : Steadfast (pure value : Act (Ring α) α γ) :=
  fun _ wellFormed => ⟨wellFormed, rfl, rfl⟩

theorem Steadfast.bind {next : γ → Act (Ring α) α δ} (first : Steadfast act)
    (rest : ∀ value, Steadfast (next value)) : Steadfast (act >>= next) := by
  intro before wellFormed
  rw [ends_bind]
  apply (first before wellFormed).mono _ fun _ _ => id
  intro value middle ended
  obtain ⟨valid, same, ran⟩ := ended
  apply (rest value middle valid).mono _ fun _ _ => id
  intro found after ended
  obtain ⟨final, further, reached⟩ := ended
  exact ⟨final, further.trans same, (bind_of_ok ran).trans reached⟩

theorem Steadfast.of_buffer {next : Ring α → Act (Ring α) α γ}
    (rest : ∀ ring, Steadfast (next ring)) : Steadfast (Act.buffer >>= next) :=
  fun before => rest before.buffer before

theorem pop_steadfast (side : End) : Steadfast (α := α) (Act.update (pop side)) := by
  intro before wellFormed
  obtain ⟨after, popped, becomes⟩ := pop_exists wellFormed side
  rw [Act.ends_update popped]
  refine ⟨becomes.wellFormed, rfl, eq_ok_of_ends ?_⟩
  rw [Act.ends_update_mk popped]
  exact ⟨rfl, rfl⟩

theorem destroy_steadfast (item : Item α) :
    Steadfast (liftM (Ledger.destroy item) : Act (Ring α) α Unit) := by
  intro before wellFormed
  rw [Act.ends_ledger]
  apply (Ledger.destroy_decided item before.ledger).mono _ fun _ _ _ => trivial
  intro _ after ended
  obtain ⟨-, rfl⟩ := ended
  refine ⟨wellFormed, rfl, eq_ok_of_ends ?_⟩
  rw [Act.ends_ledger, ends_of_ok (Ledger.destroy_of_lasting Ledger.failsOn_disarmed)]
  exact ⟨rfl, rfl⟩

theorem handBack_steadfast (items : List (Item α)) :
    Steadfast (liftM (Ledger.handBack items) : Act (Ring α) α Unit) :=
  fun _ wellFormed => ⟨wellFormed, rfl, rfl⟩

theorem takeNth_steadfast (side : End) (skipped : Nat) :
    Steadfast (α := α) (takeNth side skipped) := by
  induction skipped with
  | zero => exact pop_steadfast side
  | succ skipped ih =>
      apply (pop_steadfast side).bind
      intro popped
      cases popped with
      | none => exact steadfast_pure none
      | some item => exact (destroy_steadfast item).bind fun _ => ih

theorem takeMany_steadfast (side : End) (count : Nat) :
    Steadfast (α := α) (takeMany side count) := by
  induction count with
  | zero => exact steadfast_pure []
  | succ count ih =>
      apply (pop_steadfast side).bind
      intro popped
      cases popped with
      | none => exact steadfast_pure []
      | some item => exact ih.bind fun items => steadfast_pure (item :: items)

theorem drain_steadfast (step : Traversal.Step) : Steadfast (α := α) (drain step) := by
  cases step with
  | next => exact (takeNth_steadfast .front 0).bind fun _ => steadfast_pure _
  | nextBack => exact (takeNth_steadfast .back 0).bind fun _ => steadfast_pure _
  | nth skipped => exact (takeNth_steadfast .front skipped).bind fun _ => steadfast_pure _
  | nthBack skipped => exact (takeNth_steadfast .back skipped).bind fun _ => steadfast_pure _
  | length => exact .of_buffer fun _ => steadfast_pure _
  | bounds => exact .of_buffer fun _ => steadfast_pure _
  | rest =>
      exact .of_buffer fun ring => (takeMany_steadfast .front ring.len).bind fun _ => steadfast_pure _
  | reversed =>
      exact .of_buffer fun ring => (takeMany_steadfast .back ring.len).bind fun _ => steadfast_pure _

theorem clear_endures (wellFormed : ring.WellFormed)
    (failing : ∃ item ∈ ring.toList, ledger.FailsOn item) :
    ∃ final : Ring α,
      Endures clear ⟨ring, ledger.disarmed⟩ ⟨ring, ledger⟩ ()
        ⟨final, (ledger.discarding ring.toList).disarmed⟩ ∧
      final.WellFormed ∧ final.capacity = ring.capacity ∧ final.toList = [] ∧
      ∀ cursor, ring.Vouches cursor → final.registry.accepts cursor = false := by
  obtain ⟨final, valid, sized, listed, registry, destroys⟩ := clear_empties wellFormed
  refine ⟨final, (destroys ledger.disarmed).endures (destroys ledger) failing, valid, sized,
    listed, ?_⟩
  intro cursor vouched
  apply vouched.rejected (by rw [registry]; rfl)
  · intro _
    rw [registry]
    exact Nat.lt_succ_self _
  · intro _
    rw [registry]
    exact Nat.lt_succ_self _

/-- A cursor that outlives a change of capacity is one past the last element. -/
theorem Rehoused.accepts {trim : End} {capacity : Nat} (rehoused : Rehoused trim capacity ring after)
    (vouched : ring.Vouches cursor) :
    after.registry.accepts cursor = (cursor.isEnd && ring.registry.accepts cursor) := by
  obtain ⟨_, registry⟩ := rehoused.registry
  cases ending : cursor.isEnd with
  | true =>
      rw [Bool.true_and]
      exact accepts_of_end ending (by rw [registry]; rfl) (by rw [registry]; rfl)
  | false =>
      rw [Bool.false_and]
      apply vouched.rejected (by rw [registry]; rfl)
      · intro _
        rw [registry]
        exact Nat.lt_succ_self _
      · intro impossible
        rw [ending] at impossible
        cases impossible

theorem setCapacity_endures {capacity : Nat} (wellFormed : ring.WellFormed) (trim : End)
    (plenty : ¬ ledger.Scarce capacity)
    (failing : ∃ item ∈ trim.trimmed (ring.len - capacity) ring.toList, ledger.FailsOn item) :
    ∃ (final : Ring α) (event : Event),
      Endures (setCapacity trim capacity) ⟨ring, ledger.disarmed⟩ ⟨ring, ledger⟩ ()
        ⟨final, { (ledger.discarding (trim.trimmed (ring.len - capacity) ring.toList)).disarmed with
          events := ledger.events ++ [event] }⟩ ∧
      Rehoused trim capacity ring final ∧
      ∀ cursor, ring.Vouches cursor →
        final.registry.accepts cursor = (cursor.isEnd && ring.registry.accepts cursor) := by
  have smaller : capacity < ring.len := by
    obtain ⟨item, member, -⟩ := failing
    have given := List.length_pos_of_mem member
    rw [trim.length_trimmed] at given
    omega
  have fits := wellFormed.fits
  obtain ⟨-, -, bounded⟩ := Ledger.granted_of_not_scarce plenty
  obtain ⟨final, rehoused, destroys⟩ :=
    setCapacity_rehouses wellFormed trim (show capacity ≠ ring.capacity by omega) bounded
  exact ⟨final, _, (destroys ledger.disarmed plenty).endures (destroys ledger plenty) failing,
    rehoused, fun cursor => rehoused.accepts⟩

theorem destroy_endures (wellFormed : ring.WellFormed)
    (failing : ∃ item ∈ ring.toList, ledger.FailsOn item) :
    Endures ring.destroy ledger.disarmed ledger () (ledger.discarding ring.toList).disarmed := by
  rw [wellFormed.destroy_eq]
  exact Ledger.destroyRun_endures failing

theorem spending_of_ok {ledger left : Ledger α} {value : γ} {rest : Ring α}
    (ran : act ⟨ring, ledger⟩ = .ok value ⟨rest, left⟩) (valid : rest.WellFormed) :
    spending ring Ring.runs act ledger =
      (rest.destroy >>= fun _ => pure value : Effect (Ledger α) γ) left := by
  obtain ⟨front, back, read, -⟩ := valid.runs_exists
  simp only [spending, ran, Ring.destroy, read, liftM_ok, pure_bind]

/-- What an action leaves of a ring is destroyed as a run. -/
theorem spending_endures {ledger left : Ledger α} {value : γ} {rest : Ring α}
    (steadfast : Steadfast act) (wellFormed : ring.WellFormed)
    (ran : act ⟨ring, ledger⟩ = .ok value ⟨rest, left⟩)
    (failing : ∃ item ∈ rest.toList, ledger.FailsOn item) :
    Endures (spending ring Ring.runs act) ledger.disarmed ledger value
      (left.discarding rest.toList).disarmed := by
  have ends := steadfast ⟨ring, ledger⟩ wellFormed
  rw [ends_of_ok ran] at ends
  obtain ⟨valid, same, calm⟩ := ends
  have failingLeft : ∃ item ∈ rest.toList, left.FailsOn item := by
    obtain ⟨item, member, fails, armed, failed⟩ := failing
    exact ⟨item, member, fails, same.trans armed, failed⟩
  obtain ⟨returned, interrupted⟩ := destroy_endures valid failingLeft
  constructor
  · rw [spending_of_ok calm valid, bind_of_ok returned]
    rfl
  · rw [spending_of_ok ran valid, bind_of_error interrupted]

end Ring

namespace Session

variable {α : Type} {ring : Ring α}

theorem drainScript_steadfast (script : List Traversal.Step) :
    Ring.Steadfast (drainScript (α := α) script) := by
  induction script with
  | nil => exact Ring.steadfast_pure []
  | cons step rest ih =>
      apply (Ring.drain_steadfast step).bind
      intro answer
      apply (Ring.handBack_steadfast answer.taken).bind
      intro _
      exact ih.bind fun answers => Ring.steadfast_pure (.ofItems answer :: answers)

/-- Clearing a ring, changing its capacity, dropping it and dropping what a walk has left of it come
to the same, whichever of the elements to be destroyed fails. Emptying voids every cursor, and
moving to another block voids those to elements. -/
theorem failing_destruction_endured (wellFormed : ring.WellFormed) (ledger : Ledger α) :
    ((∃ item ∈ ring.toList, ledger.FailsOn item) →
      ∃ final : Ring α,
        Endures Ring.clear ⟨ring, ledger.disarmed⟩ ⟨ring, ledger⟩ ()
          ⟨final, (ledger.discarding ring.toList).disarmed⟩ ∧
        final.WellFormed ∧ final.capacity = ring.capacity ∧ final.toList = [] ∧
        ∀ cursor, ring.Vouches cursor → final.registry.accepts cursor = false) ∧
    (∀ trim capacity, ¬ ledger.Scarce capacity →
      let doomed := trim.trimmed (ring.len - capacity) ring.toList
      (∃ item ∈ doomed, ledger.FailsOn item) →
      ∃ (final : Ring α) (event : Event),
        Endures (Ring.setCapacity trim capacity) ⟨ring, ledger.disarmed⟩ ⟨ring, ledger⟩ ()
          ⟨final, { (ledger.discarding doomed).disarmed with events := ledger.events ++ [event] }⟩ ∧
        Ring.Rehoused trim capacity ring final ∧
        ∀ cursor, ring.Vouches cursor →
          final.registry.accepts cursor = (cursor.isEnd && ring.registry.accepts cursor)) ∧
    ((∃ item ∈ ring.toList, ledger.FailsOn item) →
      Endures ring.destroy ledger.disarmed ledger () (ledger.discarding ring.toList).disarmed) ∧
    ∀ script answers rest left, drainScript script ⟨ring, ledger⟩ = .ok answers ⟨rest, left⟩ →
      (∃ item ∈ rest.toList, ledger.FailsOn item) →
      Endures (spending ring Ring.runs (drainScript script)) ledger.disarmed ledger answers
        (left.discarding rest.toList).disarmed := by
  refine ⟨Ring.clear_endures wellFormed, ?_, Ring.destroy_endures wellFormed, ?_⟩
  · intro trim capacity plenty doomed failing
    exact Ring.setCapacity_endures wellFormed trim plenty failing
  · intro script answers rest left ran failing
    exact Ring.spending_endures (drainScript_steadfast script) wellFormed ran failing

/-- The third of four elements fails, in a full ring that starts in its third slot. -/
theorem failing_destruction_endured_turned :
    let ledger : Ledger Nat :=
      { Ledger.blank (.below 16) with created := 4, brittle := some fun item => item.id == 2 }
    let all : List (Item Nat) := [⟨3, 40⟩, ⟨2, 30⟩, ⟨1, 20⟩, ⟨0, 10⟩]
    (∃ after, Ring.clear ⟨Ring.turned, ledger⟩ =
        .error (.interrupted .destructionFailed) after ∧
      after.buffer.toList = [] ∧ after.ledger.destroyed = all) ∧
    (∃ after, Ring.setCapacity .front 1 ⟨Ring.turned, ledger⟩ =
        .error (.interrupted .destructionFailed) after ∧
      after.buffer.runs = .ok ([⟨3, 40⟩], []) ∧ after.ledger.destroyed = all.tail) ∧
    (∃ after, Ring.turned.destroy ledger = .error (.interrupted .destructionFailed) after ∧
      after.destroyed = all) ∧
    ∃ after, spending Ring.turned Ring.runs (drainScript [.next]) ledger =
        .error (.interrupted .destructionFailed) after ∧
      after.destroyed = all.dropLast ∧ after.returned = [⟨0, 10⟩] := by
  intro ledger all
  have failing : ∃ item ∈ Ring.turned.toList, ledger.FailsOn item :=
    ⟨⟨2, 30⟩, by rw [Ring.turned_toList]; decide, _, rfl, rfl⟩
  have length : Ring.turned.len = 4 := rfl
  obtain ⟨cleared, moved, dropped, walked⟩ :=
    failing_destruction_endured Ring.turned_wellFormed ledger
  refine ⟨?_, ?_, ?_, ?_⟩
  · obtain ⟨final, ⟨-, ran⟩, -, -, listed, -⟩ := cleared failing
    exact ⟨_, ran, listed, by rw [Ring.turned_toList]; rfl⟩
  · obtain ⟨final, event, ⟨-, ran⟩, rehoused, -⟩ :=
      moved .front 1 (by decide)
        ⟨⟨2, 30⟩, by rw [Ring.turned_toList]; decide, _, rfl, rfl⟩
    refine ⟨_, ran, ?_, by rw [Ring.turned_toList]; rfl⟩
    rw [rehoused.runs, rehoused.toList, Ring.turned_toList]
    rfl
  · exact ⟨_, (dropped failing).2, by rw [Ring.turned_toList]; rfl⟩
  · obtain ⟨-, ran⟩ := walked [.next] _ _ _ rfl ⟨⟨2, 30⟩, by decide, _, rfl, rfl⟩
    exact ⟨_, ran, by decide, rfl⟩

end Session

end RingDeque
