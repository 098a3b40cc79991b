import RingDeque.Block.Allocation
import RingDeque.Proofs.Conservation

/-!
How operations halt.

An operation is atomic if a refusal leaves the buffer as it was. The rules below follow the text of
an operation: up to its first change it may be refused, and what follows the first change is never
refused.
-/

namespace RingDeque

/-- Whether a halt is a refusal. -/
def Halt.isRefusal : Halt → Bool
  | .refused _ => true
  | _ => false

namespace Effect

variable {ε σ : Type}

section

variable {allowed : ε → Prop} {act : EStateM ε σ γ}

/-- An operation that halts in none but the allowed ways. -/
def HaltsOnly (allowed : ε → Prop) (act : EStateM ε σ γ) : Prop :=
  ∀ before, Ends act before (fun _ _ => True) fun halt _ => allowed halt

theorem haltsOnly_pure (value : γ) : HaltsOnly allowed (pure value : EStateM ε σ γ) :=
  fun _ => trivial

theorem haltsOnly_throw {halt : ε} (fits : allowed halt) :
    HaltsOnly allowed (throw halt : EStateM ε σ γ) :=
  fun _ => fits

theorem haltsOnly_modify (change : σ → σ) :
    HaltsOnly allowed (modify change : EStateM ε σ PUnit) :=
  fun _ => trivial

namespace HaltsOnly

theorem mono {wider : ε → Prop} (only : HaltsOnly allowed act)
    (weaker : ∀ halt, allowed halt → wider halt) : HaltsOnly wider act :=
  fun before => (only before).mono (fun _ _ => id) fun halt _ => weaker halt

theorem after (good : γ → Prop) {next : γ → EStateM ε σ δ}
    (first : ∀ before, Ends act before (fun value _ => good value) fun halt _ => allowed halt)
    (rest : ∀ value, good value → HaltsOnly allowed (next value)) :
    HaltsOnly allowed (act >>= next) := by
  intro before
  rw [ends_bind]
  exact (first before).mono (fun value final found => rest value found final) fun _ _ => id

theorem bind {next : γ → EStateM ε σ δ} (first : HaltsOnly allowed act)
    (rest : ∀ value, HaltsOnly allowed (next value)) : HaltsOnly allowed (act >>= next) :=
  after (fun _ => True) first fun value _ => rest value

theorem of_get {next : σ → EStateM ε σ δ} (rest : ∀ state, HaltsOnly allowed (next state)) :
    HaltsOnly allowed (get >>= next) :=
  fun before => rest before before

theorem of_set {state : σ} {next : PUnit → EStateM ε σ δ}
    (rest : ∀ value, HaltsOnly allowed (next value)) : HaltsOnly allowed (set state >>= next) :=
  fun _ => rest ⟨⟩ state

/-- What handles a halt halts in the same ways itself. -/
theorem handled {handler : ε → EStateM ε σ γ} (first : HaltsOnly allowed act)
    (rest : ∀ halt, allowed halt → HaltsOnly allowed (handler halt)) :
    HaltsOnly allowed (tryCatch act handler) := by
  intro before
  rw [ends_tryCatch]
  exact (first before).mono (fun _ _ => id) fun halt after fits => rest halt fits after

end HaltsOnly

end

/-- An operation that is never refused, whatever else may end it. -/
abbrev Unrefused (act : Effect σ γ) : Prop :=
  HaltsOnly (fun halt => halt.isRefusal = false) act

/-- An operation that only a fault can end early. -/
abbrev Smooth (act : Effect σ γ) : Prop :=
  HaltsOnly (fun halt => ¬ halt.Orderly) act

theorem Smooth.unrefused {act : Effect σ γ} (smooth : Smooth act) : Unrefused act := by
  refine smooth.mono fun halt disorderly => ?_
  cases halt with
  | refused error => exact absurd trivial disorderly
  | interrupted cause => rfl
  | fault fault => rfl

theorem smooth_checked (step : Checked γ) : Smooth (liftM step : Effect σ γ) := by
  intro before
  cases step with
  | ok value => trivial
  | error fault => exact id

theorem unrefused_checked (step : Checked γ) : Unrefused (liftM step : Effect σ γ) :=
  (smooth_checked step).unrefused

end Effect

open Effect

namespace Ledger

variable {α : Type}

theorem discard_unrefused (items : List (Item α)) : Unrefused (discard items) :=
  haltsOnly_modify _

theorem destroy_unrefused (item : Item α) : Unrefused (destroy item) := by
  refine (discard_unrefused [item]).bind fun _ => .of_get fun ledger => ?_
  cases ledger.brittle with
  | none => exact haltsOnly_pure _
  | some fails =>
      by_cases failing : fails item = true
      · simp only [if_pos failing]
        exact .of_set fun _ => haltsOnly_throw rfl
      · simp only [if_neg failing]
        exact haltsOnly_pure _

theorem destroyRun_unrefused (items : List (Item α)) : Unrefused (destroyRun items) := by
  induction items with
  | nil => exact haltsOnly_pure _
  | cons item rest ih =>
      refine HaltsOnly.bind (HaltsOnly.handled (destroy_unrefused item) fun halt other => ?_) fun _ => ih
      exact (discard_unrefused rest).bind fun _ => haltsOnly_throw other

theorem destroyRuns_unrefused (front back : List (Item α)) : Unrefused (destroyRuns front back) := by
  rw [destroyRuns_eq]
  exact destroyRun_unrefused (front ++ back)

theorem haltsOnly_make {allowed : Halt → Prop} (value : α) : HaltsOnly allowed (make value) :=
  fun _ => trivial

theorem copy_unrefused (item : Item α) : Unrefused (copy item) := by
  refine .of_get fun ledger => ?_
  cases ledger.copiesLeft with
  | none => exact haltsOnly_make _
  | some left =>
      cases left with
      | zero => exact .of_set fun _ => haltsOnly_throw rfl
      | succ left => exact .of_set fun _ => haltsOnly_make _

theorem report_unrefused (event : Event) : Unrefused (report event : Effect (Ledger α) Unit) :=
  haltsOnly_modify _

end Ledger

namespace Entry

variable {α : Type}

theorem produce_unrefused (entry : Entry α) : Unrefused entry.produce := by
  cases entry with
  | fresh value => exact Ledger.haltsOnly_make value
  | copyOf model => exact Ledger.copy_unrefused model
  | breaks => exact haltsOnly_throw rfl

theorem skip_unrefused (count : Nat) (entries : List (Entry α)) : Unrefused (skip count entries) := by
  induction count generalizing entries with
  | zero => exact haltsOnly_pure _
  | succ count ih =>
      cases entries with
      | nil => exact haltsOnly_pure _
      | cons entry rest =>
          refine entry.produce_unrefused.bind fun item => ?_
          exact (Ledger.destroy_unrefused item).bind fun _ => ih rest

/-- What stops the production of elements is no refusal. -/
theorem produceAll_unrefused (entries : List (Entry α)) (ledger : Ledger α) :
    Ends (produceAll entries) ledger
      (fun made _ => ∀ halt, made.2 = some halt → halt.isRefusal = false) fun halt _ =>
      halt.isRefusal = false := by
  induction entries generalizing ledger with
  | nil =>
      intro halt same
      cases same
  | cons entry rest ih =>
      simp only [produceAll, ends_bind, ends_observing, ends_pure]
      refine (entry.produce_unrefused ledger).mono ?_ ?_
      · intro item after _
        exact ih after
      · intro halt after other stop same
        cases same
        exact other

end Entry

theorem Feed.skipSurplus_unrefused {α : Type} (feed : Feed α) (count : Nat) :
    Unrefused (feed.skipSurplus count) := by
  rw [skipSurplus_eq]
  exact Entry.skip_unrefused _ _

namespace Act

variable {α β : Type} {act : Act β α γ} {item : Item α} {allowed : Halt → Prop}

/-- A refusal of the operation leaves the buffer as it was. -/
def Atomic (act : Act β α γ) : Prop :=
  ∀ before, Ends act before (fun _ _ => True) fun halt after =>
    halt.isRefusal = true → after.buffer = before.buffer

theorem haltsOnly_ledger {act : Effect (Ledger α) γ} (only : HaltsOnly allowed act) :
    HaltsOnly allowed (liftM act : Act β α γ) := by
  intro before
  rw [ends_ledger]
  exact only before.ledger

theorem haltsOnly_buffer {next : β → Act β α δ} (rest : ∀ buffer, HaltsOnly allowed (next buffer)) :
    HaltsOnly allowed (buffer >>= next) :=
  fun before => rest before.buffer before

theorem smooth_update (step : β → Checked (γ × β)) : Smooth (update step : Act β α γ) := by
  refine .of_get fun state => (smooth_checked _).bind fun reached => ?_
  exact (haltsOnly_modify _).bind fun _ => haltsOnly_pure _

theorem smooth_alter (step : β → Checked β) : Smooth (alter step : Act β α Unit) :=
  .of_get fun _ => (smooth_checked _).bind fun _ => haltsOnly_modify _

theorem unrefused_update (step : β → Checked (γ × β)) : Unrefused (update step : Act β α γ) :=
  (smooth_update step).unrefused

theorem unrefused_alter (step : β → Checked β) : Unrefused (alter step : Act β α Unit) :=
  (smooth_alter step).unrefused

theorem unrefused_holding (unrefused : Unrefused act) : Unrefused (holding item act) := by
  refine HaltsOnly.handled unrefused fun halt other => ?_
  cases halt with
  | refused error => contradiction
  | interrupted cause =>
      exact (haltsOnly_ledger (Ledger.discard_unrefused _)).bind fun _ => haltsOnly_throw rfl
  | fault fault => exact haltsOnly_throw rfl

/-- A query is answered or refused before anything changes. -/
theorem atomic_query (query : Query γ) : Atomic (liftM query : Act β α γ) := by
  intro before
  cases query with
  | ok value => trivial
  | error halt => exact fun _ => rfl

/-- An element that is held does not touch the buffer on its way out. -/
theorem ends_holding (good : β → Prop) {before : Tracked β α} {returns : γ → Tracked β α → Prop}
    (ends : Ends act before returns fun _ after => good after.buffer) :
    Ends (holding item act) before returns fun _ after => good after.buffer := by
  simp only [holding, ends_tryCatch]
  refine ends.mono (fun _ _ => id) ?_
  intro halt after kept
  cases halt with
  | refused error =>
      simp only [ends_bind, ends_ledger, ends_refuse]
      exact Ends.anyhow (fun _ _ => kept) fun _ _ => kept
  | interrupted cause =>
      simp only [ends_bind, ends_ledger, ends_throw]
      exact Ends.anyhow (fun _ _ => kept) fun _ _ => kept
  | fault fault => exact kept

/-- A refusal leaves the element that was held to be destroyed, which is no refusal. -/
theorem ends_holding_refused (good : β → Prop) {before : Tracked β α}
    {returns : γ → Tracked β α → Prop}
    (ends : Ends act before returns fun halt after => halt.isRefusal = true → good after.buffer) :
    Ends (holding item act) before returns fun halt after =>
      halt.isRefusal = true → good after.buffer := by
  simp only [holding, ends_tryCatch]
  refine ends.mono (fun _ _ => id) ?_
  intro halt after kept
  cases halt with
  | refused error =>
      simp only [ends_bind, ends_ledger, ends_refuse]
      exact Ends.anyhow (fun _ _ _ => kept rfl) fun _ _ _ => kept rfl
  | interrupted cause =>
      intro impossible
      cases impossible
  | fault fault =>
      intro impossible
      cases impossible

namespace Atomic

theorem of_unrefused (unrefused : Unrefused act) : Atomic act := by
  refine fun before => (unrefused before).mono (fun _ _ => id) ?_
  intro halt after other refused
  rw [other] at refused
  contradiction

/-- What follows a change is not refused. -/
theorem bind {next : γ → Act β α δ} (first : Atomic act) (rest : ∀ value, Unrefused (next value)) :
    Atomic (act >>= next) := by
  intro before
  rw [ends_bind]
  refine (first before).mono ?_ fun _ _ => id
  intro value after _
  refine (rest value after).mono (fun _ _ => id) ?_
  intro halt final other refused
  rw [other] at refused
  contradiction

theorem of_buffer {next : β → Act β α δ} (rest : ∀ buffer, Atomic (next buffer)) :
    Atomic (buffer >>= next) :=
  fun before => rest before.buffer before

theorem of_query {query : Query γ} {next : γ → Act β α δ} (rest : ∀ value, Atomic (next value)) :
    Atomic (liftM query >>= next) := by
  intro before
  cases query with
  | ok value => exact rest value before
  | error halt => exact fun _ => rfl

theorem of_checked {step : Checked γ} {next : γ → Act β α δ}
    (rest : ∀ value, Atomic (next value)) : Atomic (liftM step >>= next) := by
  intro before
  cases step with
  | ok value => exact rest value before
  | error fault => exact fun _ => rfl

theorem of_ledger {act : Effect (Ledger α) γ} {next : γ → Act β α δ}
    (rest : ∀ value, Atomic (next value)) : Atomic (liftM act >>= next) := by
  intro before
  rw [ends_bind, ends_ledger]
  exact Ends.anyhow (fun value ledger => rest value ⟨before.buffer, ledger⟩) fun _ _ _ => rfl

theorem of_refuse (error : Error) (next : γ → Act β α δ) : Atomic (refuse error >>= next) :=
  fun _ _ => rfl

theorem holding (atomic : Atomic act) : Atomic (holding item act) :=
  fun before => ends_holding_refused (· = before.buffer) (atomic before)

theorem consuming (atomic : Atomic act) : Atomic (consuming item act) := by
  refine atomic.holding.bind fun value => ?_
  exact (haltsOnly_ledger (Ledger.destroy_unrefused item)).bind fun _ => haltsOnly_pure _

end Atomic

end Act

end RingDeque
