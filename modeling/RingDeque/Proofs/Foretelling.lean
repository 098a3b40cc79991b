import RingDeque.Proofs.Conservation

/-!
What entries will yield.

Whether an entry yields an element depends on the entry and on the number of copies that still
succeed, and on nothing else. So the outcome of asking for entries one after the other can be told
in advance, up to the first failure: the values of the elements, and the reason of the failure.
-/

namespace RingDeque

open Effect

variable {α : Type}

/-- A halt that is an interruption, for a cause and in a state as described. -/
def Effect.Interrupted {σ : Type} (stops : Interruption → σ → Prop) (halt : Halt) (after : σ) :
    Prop :=
  ∃ cause, halt = .interrupted cause ∧ stops cause after

theorem Effect.Interrupted.mono {σ τ : Type} {stops : Interruption → σ → Prop}
    {wider : Interruption → τ → Prop} {halt : Halt} {state : σ} {after : τ}
    (interrupted : Interrupted stops halt state)
    (weaker : ∀ cause, stops cause state → wider cause after) : Interrupted wider halt after := by
  obtain ⟨cause, same, stopped⟩ := interrupted
  exact ⟨cause, same, weaker cause stopped⟩

namespace Ledger

variable {ledger earlier middle later : Ledger α} {item : Item α} {cause : Interruption}
  {breaks : Prop} {refuses : Error → Prop}

/-- The destruction of an element would fail. -/
def FailsOn (ledger : Ledger α) (item : Item α) : Prop :=
  ∃ fails, ledger.brittle = some fails ∧ fails item = true

/-- An interruption because the destruction of one of these elements fails. -/
def FailsAmong (ledger : Ledger α) (doomed : Item α → Prop) (cause : Interruption) : Prop :=
  cause = .destructionFailed ∧ ∃ item, doomed item ∧ ledger.FailsOn item

/-- The record after `made` elements were made, `copied` of them as copies, and no failure. -/
structure Draws (made copied : Nat) (earlier later : Ledger α) : Prop where
  created : later.created = earlier.created + made
  copiesLeft : later.copiesLeft = earlier.copiesLeft.map (· - copied)
  brittle : later.brittle = earlier.brittle

/-- The record after `made` elements were made and these were destroyed, in whatever order. -/
structure Records (made : Nat) (gone : List (Item α)) (earlier later : Ledger α) : Prop where
  created : later.created = earlier.created + made
  destroyed : later.destroyed.Perm (gone ++ earlier.destroyed)
  brittle : later.brittle = earlier.brittle

theorem FailsAmong.mono {few many : Item α → Prop} (among : ledger.FailsAmong few cause)
    (more : ∀ item, few item → many item) : ledger.FailsAmong many cause := by
  obtain ⟨same, item, member, fails⟩ := among
  exact ⟨same, item, more item member, fails⟩

theorem FailsAmong.due {doomed : Item α → Prop} (among : ledger.FailsAmong doomed cause) :
    ledger.Due breaks refuses (.interrupted cause) := by
  obtain ⟨rfl, -, -, fails, set, -⟩ := among
  exact .destruction (set ▸ Option.some_ne_none fails)

/-- Nothing fails as long as no failure is set. -/
theorem unfailing {σ : Type} {doomed : Item α → Prop} {halt : Halt} {after : σ}
    (unset : ledger.brittle = none) :
    ¬ Interrupted (fun cause _ => ledger.FailsAmong doomed cause) halt after := by
  intro interrupted
  obtain ⟨-, -, -, item, -, fails, set, -⟩ := interrupted
  rw [unset] at set
  cases set

namespace Draws

theorem refl (ledger : Ledger α) : Draws 0 0 ledger ledger := by
  refine ⟨rfl, ?_, rfl⟩
  cases ledger.copiesLeft <;> rfl

theorem discarding (items : List (Item α)) : Draws 0 0 ledger (ledger.discarding items) :=
  ⟨rfl, (refl ledger).copiesLeft, rfl⟩

theorem telling (events : List Event) : Draws 0 0 ledger { ledger with events } :=
  ⟨rfl, (refl ledger).copiesLeft, rfl⟩

theorem trans {made copied further others : Nat} (first : Draws made copied earlier middle)
    (second : Draws further others middle later) :
    Draws (made + further) (copied + others) earlier later := by
  refine ⟨?_, ?_, second.brittle.trans first.brittle⟩
  · rw [second.created, first.created, Nat.add_assoc]
  · rw [second.copiesLeft, first.copiesLeft, Option.map_map]
    refine congrArg (Option.map · earlier.copiesLeft) (funext fun left => ?_)
    exact Nat.sub_sub left copied others

theorem failsOn {made copied : Nat} (draws : Draws made copied earlier later) :
    later.FailsOn item ↔ earlier.FailsOn item := by
  rw [FailsOn, FailsOn, draws.brittle]

theorem failsAmong {made copied : Nat} {doomed : Item α → Prop}
    (draws : Draws made copied earlier later) (among : later.FailsAmong doomed cause) :
    earlier.FailsAmong doomed cause := by
  obtain ⟨same, item, member, fails⟩ := among
  exact ⟨same, item, member, draws.failsOn.mp fails⟩

theorem due {made copied : Nat} {halt : Halt} (draws : Draws made copied earlier later)
    (due : later.Due breaks refuses halt) : earlier.Due breaks refuses halt := by
  cases due with
  | copy armed =>
      rw [draws.copiesLeft] at armed
      exact .copy fun calm => armed (by rw [calm, Option.map_none])
  | destruction armed => exact .destruction (draws.brittle ▸ armed)
  | source broken => exact .source broken
  | refusal refused => exact .refusal refused

end Draws

namespace Records

variable {made more : Nat} {gone others : List (Item α)}

theorem refl (ledger : Ledger α) : Records 0 [] ledger ledger :=
  ⟨rfl, List.Perm.refl _, rfl⟩

theorem discarding (items : List (Item α)) : Records 0 items ledger (ledger.discarding items) :=
  ⟨rfl, (List.reverse_perm items).append_right _, rfl⟩

theorem trans (first : Records made gone earlier middle) (second : Records more others middle later) :
    Records (made + more) (gone ++ others) earlier later := by
  apply Records.mk _ _ (second.brittle.trans first.brittle)
  · rw [second.created, first.created, Nat.add_assoc]
  · have perm := second.destroyed.trans (first.destroyed.append_left others)
    rw [← List.append_assoc] at perm
    exact perm.trans (List.perm_append_comm.append_right _)

theorem of_perm (records : Records made gone earlier later) (same : gone.Perm others) :
    Records made others earlier later :=
  ⟨records.created, records.destroyed.trans (same.append_right _), records.brittle⟩

end Records

/-- The record with no failure of a destruction set. -/
def disarmed (ledger : Ledger α) : Ledger α :=
  { ledger with brittle := none }

theorem not_failsOn (calm : ledger.brittle = none) : ¬ ledger.FailsOn item := by
  intro failing
  obtain ⟨fails, armed, -⟩ := failing
  rw [calm] at armed
  cases armed

theorem destroy_decided (item : Item α) (ledger : Ledger α) :
    Ends (destroy item) ledger
      (fun _ after => ¬ ledger.FailsOn item ∧ after = ledger.discarding [item])
      (Interrupted fun cause after => ledger.FailsAmong (· = item) cause ∧
        after = (ledger.discarding [item]).disarmed) := by
  simp only [destroy, discard, ends_bind, ends_modify, ends_get]
  cases brittle : (ledger.discarding [item]).brittle with
  | none => exact ⟨not_failsOn brittle, rfl⟩
  | some fails =>
      by_cases failing : fails item = true
      · simp only [if_pos failing, ends_bind, ends_set, ends_throw]
        exact ⟨_, rfl, ⟨rfl, item, rfl, fails, brittle, failing⟩, rfl⟩
      · simp only [if_neg failing, ends_pure]
        refine ⟨?_, trivial⟩
        intro failed
        obtain ⟨others, armed, failed⟩ := failed
        cases brittle.symm.trans armed
        exact failing failed

/-- A destruction is recorded, and only that, unless it fails. -/
theorem destroy_exactly (item : Item α) (ledger : Ledger α) :
    Ends (destroy item) ledger (fun _ after => after = ledger.discarding [item])
      (Interrupted fun cause _ => ledger.FailsAmong (· = item) cause) :=
  (destroy_decided item ledger).mono (fun _ _ => And.right)
    fun _ _ stopped => stopped.mono fun _ => And.left

end Ledger

namespace Entry

variable {copies : Option Nat} {entry : Entry α} {entries : List (Entry α)} {count : Nat}
  {ledger : Ledger α} {model : Item α}

/-- The number of copies that an entry takes. -/
def cost : Entry α → Nat
  | .copyOf _ => 1
  | _ => 0

def costs (entries : List (Entry α)) : Nat :=
  (entries.map cost).sum

/-- How many of `n` copies are made when `copies` copies still succeed. -/
def copyable (copies : Option Nat) (n : Nat) : Nat :=
  match copies with
  | none => n
  | some left => min left n

/-- What an entry yields when `copies` copies still succeed: a value, or the reason why it fails. -/
def outcome (copies : Option Nat) : Entry α → Except Interruption α
  | .fresh value => .ok value
  | .copyOf model => if copies = some 0 then .error .copyFailed else .ok model.value
  | .breaks => .error .sourceFailed

/-- What each entry yields if those before it succeed. -/
def outcomes (copies : Option Nat) : List (Entry α) → List (Except Interruption α)
  | [] => []
  | entry :: rest => entry.outcome copies :: outcomes (copies.map (· - entry.cost)) rest

/-- The values before the first failure. -/
def produced : List (Except Interruption α) → List α
  | .ok value :: rest => value :: produced rest
  | _ => []

/-- The reason of the first failure. -/
def failure? : List (Except Interruption α) → Option Interruption
  | [] => none
  | .ok _ :: rest => failure? rest
  | .error reason :: _ => some reason

theorem copies_sub_zero : copies.map (· - 0) = copies := by
  cases copies <;> rfl

theorem outcomes_take (copies : Option Nat) (entries : List (Entry α)) (count : Nat) :
    outcomes copies (entries.take count) = (outcomes copies entries).take count := by
  induction entries generalizing copies count with
  | nil => simp [outcomes]
  | cons entry rest ih =>
      cases count with
      | zero => rfl
      | succ count => simp only [List.take_succ_cons, outcomes, ih]

theorem outcomes_drop (copies : Option Nat) (entries : List (Entry α)) (count : Nat) :
    outcomes (copies.map (· - costs (entries.take count))) (entries.drop count) =
      (outcomes copies entries).drop count := by
  induction entries generalizing copies count with
  | nil => simp [outcomes]
  | cons entry rest ih =>
      cases count with
      | zero =>
          rw [List.take_zero, List.drop_zero, List.drop_zero]
          exact congrArg (outcomes · (entry :: rest)) copies_sub_zero
      | succ count =>
          simp only [List.take_succ_cons, List.drop_succ_cons, outcomes]
          rw [← ih, Option.map_map]
          refine congrArg (fun left => outcomes (copies.map left) (rest.drop count)) ?_
          funext left
          simp only [costs, List.map_cons, List.sum_cons, Function.comp_apply, Nat.sub_sub]

theorem length_outcomes (copies : Option Nat) (entries : List (Entry α)) :
    (outcomes copies entries).length = entries.length := by
  induction entries generalizing copies with
  | nil => rfl
  | cons entry rest ih => exact congrArg Nat.succ (ih _)

theorem length_produced (outcomes : List (Except Interruption α)) :
    (produced outcomes).length ≤ outcomes.length := by
  induction outcomes with
  | nil => exact Nat.le_refl _
  | cons outcome rest ih =>
      cases outcome with
      | ok value => exact Nat.succ_le_succ ih
      | error reason => exact Nat.zero_le _

theorem produced_ok (values : List α) :
    produced (values.map .ok) = values ∧ failure? (values.map .ok) = none := by
  induction values with
  | nil => exact ⟨rfl, rfl⟩
  | cons value rest ih => exact ⟨congrArg (value :: ·) ih.1, ih.2⟩

theorem costs_replicate (n : Nat) (model : Item α) :
    costs (List.replicate n (.copyOf model)) = n := by
  simp [costs, cost]

theorem copyable_le (copies : Option Nat) (n : Nat) : copyable copies n ≤ n := by
  cases copies with
  | none => exact Nat.le_refl n
  | some left => exact Nat.min_le_right left n

/-- Of `n` copies, as many are made as succeed, and the next one fails. -/
theorem outcomes_replicate (copies : Option Nat) (n : Nat) (model : Item α) :
    produced (outcomes copies (List.replicate n (.copyOf model))) =
        List.replicate (copyable copies n) model.value ∧
      failure? (outcomes copies (List.replicate n (.copyOf model))) =
        if copyable copies n < n then some .copyFailed else none := by
  induction n generalizing copies with
  | zero => cases copies <;> simp [outcomes, produced, failure?, copyable]
  | succ n ih =>
      rw [List.replicate_succ, outcomes]
      cases copies with
      | none =>
          obtain ⟨values, failing⟩ := ih none
          simp only [copyable, Nat.lt_irrefl, if_false] at values failing
          simp only [outcome, reduceCtorEq, if_false, Option.map_none, produced, failure?, copyable,
            values, failing, List.replicate_succ, Nat.lt_irrefl, and_self]
      | some left =>
          cases left with
          | zero => simp [outcome, produced, failure?, copyable]
          | succ left =>
              obtain ⟨values, failing⟩ := ih (some left)
              simp only [copyable] at values failing
              simp only [outcome, cost, Option.some.injEq, Nat.succ_ne_zero, if_false,
                Option.map_some, Nat.add_sub_cancel, produced, failure?, copyable, values, failing]
              refine ⟨?_, if_congr (by omega) rfl rfl⟩
              rw [Nat.add_min_add_right, List.replicate_succ]

theorem produce_of_ok {value : α} (yields : entry.outcome ledger.copiesLeft = .ok value) :
    ∃ after, entry.produce ledger = .ok ⟨ledger.created, value⟩ after ∧
      ledger.Records 1 [] after ∧ after.copiesLeft = ledger.copiesLeft.map (· - entry.cost) := by
  cases entry with
  | fresh fixed =>
      cases yields
      exact ⟨_, rfl, ⟨rfl, List.Perm.refl _, rfl⟩, copies_sub_zero.symm⟩
  | copyOf model =>
      simp only [outcome] at yields
      split at yields
      · contradiction
      · rename_i unspent
        cases yields
        obtain ⟨created, destroyed, returned, copiesLeft, _, _, _, _⟩ := ledger
        cases copiesLeft with
        | none => exact ⟨_, rfl, ⟨rfl, List.Perm.refl _, rfl⟩, rfl⟩
        | some copies =>
            cases copies with
            | zero => exact absurd rfl unspent
            | succ copies => exact ⟨_, rfl, ⟨rfl, List.Perm.refl _, rfl⟩, rfl⟩
  | breaks => cases yields

theorem produce_of_error {cause : Interruption}
    (fails : entry.outcome ledger.copiesLeft = .error cause) :
    ∃ after, entry.produce ledger = .error (.interrupted cause) after ∧
      ledger.Records 0 [] after := by
  cases entry with
  | fresh value => cases fails
  | copyOf model =>
      simp only [outcome] at fails
      split at fails
      · rename_i spent
        cases fails
        obtain ⟨created, destroyed, returned, copiesLeft, _, _, _, _⟩ := ledger
        cases spent
        exact ⟨_, rfl, rfl, List.Perm.refl _, rfl⟩
      · contradiction
  | breaks =>
      cases fails
      exact ⟨ledger, rfl, .refl ledger⟩

theorem produce_exactly (entry : Entry α) (ledger : Ledger α) :
    Ends entry.produce ledger
      (fun item after => entry.outcome ledger.copiesLeft = .ok item.value ∧
        item.id = ledger.created ∧ ledger.Draws 1 entry.cost after)
      (Interrupted fun cause _ => entry.outcome ledger.copiesLeft = .error cause) := by
  cases yielded : entry.outcome ledger.copiesLeft with
  | ok value =>
      obtain ⟨after, ran, records, left⟩ := produce_of_ok yielded
      rw [ends_of_ok ran]
      exact ⟨rfl, rfl, records.created, left, records.brittle⟩
  | error cause =>
      obtain ⟨after, ran, -⟩ := produce_of_error yielded
      rw [ends_of_error ran]
      exact ⟨cause, rfl, rfl⟩

theorem value?_of_outcome {value : α} (yielded : entry.outcome copies = .ok value) :
    entry.value? = some value := by
  cases entry with
  | fresh other => exact congrArg some (Except.ok.inj yielded)
  | copyOf model =>
      simp only [outcome] at yielded
      split at yielded
      · cases yielded
      · exact congrArg some (Except.ok.inj yielded)
  | breaks => cases yielded

theorem due_of_outcome {cause : Interruption} {refuses : Error → Prop}
    (failed : entry.outcome ledger.copiesLeft = .error cause) :
    ledger.Due (entry = .breaks) refuses (.interrupted cause) := by
  cases entry with
  | fresh value => cases failed
  | copyOf model =>
      simp only [outcome] at failed
      split at failed
      · rename_i spent
        cases failed
        exact .copy (spent ▸ Option.some_ne_none 0)
      · cases failed
  | breaks =>
      cases failed
      exact .source rfl

theorem produceAll_exactly (entries : List (Entry α)) (ledger : Ledger α) :
    Ends (produceAll entries) ledger
      (fun made after =>
        made.1.map (·.value) = produced (outcomes ledger.copiesLeft entries) ∧
        made.2 = (failure? (outcomes ledger.copiesLeft entries)).map .interrupted ∧
        (made.2 = none → ledger.Draws entries.length (costs entries) after))
      (fun _ _ => False) := by
  induction entries generalizing ledger with
  | nil => exact ⟨rfl, rfl, fun _ => .refl ledger⟩
  | cons entry rest ih =>
      simp only [produceAll, ends_bind, ends_observing, ends_pure]
      apply (entry.produce_exactly ledger).mono
      · intro item middle ended
        obtain ⟨yielded, -, draws⟩ := ended
        apply (ih middle).mono _ fun _ _ => id
        intro made after ended
        obtain ⟨values, failing, further⟩ := ended
        rw [draws.copiesLeft] at values failing
        simp only [outcomes, yielded, produced, failure?, List.map_cons]
        refine ⟨by rw [values], failing, fun calm => ?_⟩
        have both := draws.trans (further calm)
        rw [Nat.add_comm 1] at both
        exact both
      · intro halt after stopped
        obtain ⟨cause, rfl, failed⟩ := stopped
        simp only [outcomes, failed, produced, failure?]
        exact ⟨rfl, rfl, fun impossible => by cases impossible⟩

/-- Asking for an element only to destroy it. -/
theorem spend_exactly (entry : Entry α) (ledger : Ledger α) :
    Ends (do Ledger.destroy (← entry.produce)) ledger
      (fun _ after => (∃ value, entry.outcome ledger.copiesLeft = .ok value) ∧
        ledger.Draws 1 entry.cost after)
      (Interrupted fun cause _ => ledger.FailsAmong (ledger.created ≤ ·.id) cause ∨
        entry.outcome ledger.copiesLeft = .error cause) := by
  rw [ends_bind]
  apply (entry.produce_exactly ledger).mono
  · intro item middle ended
    obtain ⟨yielded, new, draws⟩ := ended
    apply (Ledger.destroy_exactly item middle).mono
    · intro _ gone same
      subst same
      exact ⟨⟨item.value, yielded⟩, draws.trans (.discarding [item])⟩
    · intro halt after stopped
      apply stopped.mono
      intro cause among
      apply Or.inl ((draws.failsAmong among).mono _)
      intro other same
      exact Nat.le_of_eq (same ▸ new.symm)
  · intro halt after stopped
    exact stopped.mono fun _ => .inr

/-- The elements of skipped entries are the only ones that skipping destroys. -/
theorem skip_exactly (count : Nat) (entries : List (Entry α)) (ledger : Ledger α) :
    Ends (skip count entries) ledger
      (fun left after => left = entries.drop count ∧
        failure? (outcomes ledger.copiesLeft (entries.take count)) = none ∧
        ledger.Draws (entries.take count).length (costs (entries.take count)) after)
      (Interrupted fun cause _ => ledger.FailsAmong (ledger.created ≤ ·.id) cause ∨
        failure? (outcomes ledger.copiesLeft (entries.take count)) = some cause) := by
  -- Elements made later have larger numbers, so a failure in the rest is a failure here as well.
  induction entries generalizing ledger count with
  | nil => cases count <;> exact ⟨rfl, by simp [outcomes, failure?], by simpa [costs] using .refl ledger⟩
  | cons entry rest ih =>
      cases count with
      | zero => exact ⟨rfl, rfl, .refl ledger⟩
      | succ count =>
          have parts : skip (count + 1) (entry :: rest) =
              (do Ledger.destroy (← entry.produce)) >>= fun _ => skip count rest :=
            (bind_assoc _ _ _).symm
          rw [parts, ends_bind, List.take_succ_cons, outcomes]
          apply (entry.spend_exactly ledger).mono
          · intro _ middle ended
            obtain ⟨⟨value, yielded⟩, reached⟩ := ended
            simp only [yielded, failure?]
            apply (ih count middle).mono
            · intro left after ended
              obtain ⟨rfl, calm, further⟩ := ended
              rw [reached.copiesLeft] at calm
              have whole := reached.trans further
              rw [Nat.add_comm] at whole
              exact ⟨rfl, calm, whole⟩
            · intro halt after stopped
              apply stopped.mono
              intro cause reason
              rw [reached.copiesLeft] at reason
              apply reason.imp_left
              intro among
              apply (reached.failsAmong among).mono
              intro item later
              exact Nat.le_trans (by rw [reached.created]; omega) later
          · intro halt after stopped
            apply stopped.mono
            intro cause reason
            apply reason.imp_right
            intro failed
            simp only [failed, failure?]

end Entry

end RingDeque
