import RingDeque.Proofs.Foretelling

/-!
Destruction while a failure is set.

An element whose destruction fails is gone like any other, and the failure is lifted. A run that is
destroyed as a whole therefore leaves the same record whether one of its elements fails or not; of
elements that are destroyed one by one, those behind the first that fails are left alone.
-/

namespace RingDeque

open Effect

namespace Effect

/-- An operation returns with the failure that is set lifted, and is interrupted in the same state if
it is set. -/
def Endures {σ : Type} (act : Effect σ γ) (calm armed : σ) (value : γ) (after : σ) : Prop :=
  act calm = .ok value after ∧ act armed = .error (.interrupted .destructionFailed) after

end Effect

namespace Ledger

variable {α : Type} {ledger : Ledger α} {item : Item α} {items order : List (Item α)} {count : Nat}

theorem failsOn_disarmed : ¬ ledger.disarmed.FailsOn item :=
  not_failsOn rfl

section

variable {σ : Type} {act : Effect σ Unit} {before calm armed : σ} {lasting : Prop}
  {doomed : Item α → Prop}

/-- An operation that halts only if one of these destructions fails. -/
theorem eq_ok_of_lasting
    (ends : Ends act before (fun _ after => lasting ∧ after = calm)
      (Interrupted fun cause after => ledger.FailsAmong doomed cause ∧ after = armed))
    (lasts : ∀ item, doomed item → ¬ ledger.FailsOn item) : act before = .ok () calm := by
  apply eq_ok_of_ends
  apply ends.mono
  · exact fun _ _ ended => ⟨rfl, ended.2⟩
  · intro halt after stopped
    obtain ⟨cause, -, ⟨-, item, member, failing⟩, -⟩ := stopped
    exact lasts item member failing

theorem eq_error_of_failing
    (ends : Ends act before (fun _ after => lasting ∧ after = calm)
      (Interrupted fun cause after => ledger.FailsAmong doomed cause ∧ after = armed))
    (fails : ¬ lasting) : act before = .error (.interrupted .destructionFailed) armed := by
  apply eq_error_of_ends
  apply ends.mono
  · exact fun _ _ ended => fails ended.1
  · intro halt after stopped
    obtain ⟨cause, rfl, ⟨rfl, -⟩, same⟩ := stopped
    exact ⟨rfl, same⟩

end

theorem destroy_of_lasting (lasts : ¬ ledger.FailsOn item) :
    destroy item ledger = .ok () (ledger.discarding [item]) := by
  apply eq_ok_of_lasting (destroy_decided item ledger)
  intro other same
  exact same ▸ lasts

theorem destroy_of_failing (failing : ledger.FailsOn item) :
    destroy item ledger =
      .error (.interrupted .destructionFailed) (ledger.discarding [item]).disarmed :=
  eq_error_of_failing (destroy_decided item ledger) fun lasts => lasts failing

theorem destroyRun_decided (items : List (Item α)) (ledger : Ledger α) :
    Ends (destroyRun items) ledger
      (fun _ after => (∀ item ∈ items, ¬ ledger.FailsOn item) ∧ after = ledger.discarding items)
      (Interrupted fun cause after => ledger.FailsAmong (· ∈ items) cause ∧
        after = (ledger.discarding items).disarmed) := by
  induction items generalizing ledger with
  | nil => exact ⟨by simp, rfl⟩
  | cons item rest ih =>
      simp only [destroyRun, ends_bind, ends_tryCatch]
      apply (destroy_decided item ledger).mono
      · intro _ middle ended
        obtain ⟨lasts, rfl⟩ := ended
        apply (ih (ledger.discarding [item])).mono
        · intro _ after ended
          obtain ⟨others, rfl⟩ := ended
          rw [discarding_discarding]
          exact ⟨List.forall_mem_cons.mpr ⟨lasts, others⟩, rfl⟩
        · intro halt after stopped
          apply stopped.mono
          intro cause reached
          obtain ⟨among, rfl⟩ := reached
          rw [discarding_discarding]
          exact ⟨FailsAmong.mono among fun other => List.mem_cons_of_mem item, rfl⟩
      · intro halt middle stopped
        obtain ⟨cause, rfl, among, rfl⟩ := stopped
        simp only [discard, ends_modify, ends_throw]
        refine ⟨cause, rfl, among.mono fun other same => same ▸ List.mem_cons_self, ?_⟩
        exact congrArg disarmed (discarding_discarding [item] rest)

theorem destroyRun_of_lasting (lasts : ∀ item ∈ items, ¬ ledger.FailsOn item) :
    destroyRun items ledger = .ok () (ledger.discarding items) :=
  eq_ok_of_lasting (destroyRun_decided items ledger) lasts

theorem destroyRun_endures (failing : ∃ item ∈ items, ledger.FailsOn item) :
    Endures (destroyRun items) ledger.disarmed ledger () (ledger.discarding items).disarmed := by
  obtain ⟨item, member, failing⟩ := failing
  constructor
  · exact destroyRun_of_lasting fun _ _ => failsOn_disarmed
  · apply eq_error_of_failing (destroyRun_decided items ledger)
    exact fun lasts => lasts item member failing

/-- Of elements that are destroyed in this order, the one behind `count` others is the first whose
destruction fails. -/
def FailsAfter (ledger : Ledger α) (count : Nat) (order : List (Item α)) : Prop :=
  ∃ item, order[count]? = some item ∧ ledger.FailsOn item ∧
    ∀ other ∈ order.take count, ¬ ledger.FailsOn other

theorem failsAfter_zero : ledger.FailsAfter 0 (item :: order) ↔ ledger.FailsOn item := by
  simp [FailsAfter]

theorem failsAfter_succ : ledger.FailsAfter (count + 1) (item :: order) ↔
    ¬ ledger.FailsOn item ∧ ledger.FailsAfter count order := by
  simp only [FailsAfter, List.getElem?_cons_succ, List.take_succ_cons, List.forall_mem_cons]
  constructor
  · intro given
    obtain ⟨found, placed, failing, lasts, others⟩ := given
    exact ⟨lasts, found, placed, failing, others⟩
  · intro given
    obtain ⟨lasts, found, placed, failing, others⟩ := given
    exact ⟨found, placed, failing, lasts, others⟩

theorem FailsAfter.lt (fails : ledger.FailsAfter count order) : count < order.length := by
  obtain ⟨item, placed, -⟩ := fails
  exact (List.getElem?_eq_some_iff.mp placed).1

end Ledger

theorem Act.consuming_of_ok {α β : Type} {act : Act β α γ} {before : Tracked β α} {value : γ}
    {buffer : β} {left : Ledger α} {item : Item α} (ran : act before = .ok value ⟨buffer, left⟩)
    (lasts : ¬ left.FailsOn item) :
    consuming item act before = .ok value ⟨buffer, left.discarding [item]⟩ := by
  have gone := Ledger.destroy_of_lasting lasts
  apply eq_ok_of_ends
  simp only [consuming, holding, ends_bind, ends_tryCatch, ends_of_ok ran, Act.ends_ledger,
    ends_of_ok gone, ends_pure, and_self]

end RingDeque
