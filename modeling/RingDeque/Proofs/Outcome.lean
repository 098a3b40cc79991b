import RingDeque.Proofs.Slot
import RingDeque.Tracked

/-!
How operations end.

`Effect.Ends` states both ways in which an operation ends: with a result, and halted. The rules
below unfold an operation step by step, so that a proof about an operation follows its text.
-/

namespace RingDeque

/-- A halt for which a caller can be the reason. -/
def Halt.Orderly : Halt → Prop
  | .fault _ => False
  | _ => True

/-- A step that is good whenever it succeeds. -/
def Checked.Gives (step : Checked γ) (good : γ → Prop) : Prop :=
  ∀ value, step = .ok value → good value

namespace Checked.Gives

variable {step : Checked γ} {good : δ → Prop} {middle : γ → Prop} {value : γ}

theorem of_ok (holds : middle value) : Gives (.ok value) middle := by
  intro other same
  cases same
  exact holds

theorem of_error (fault : Fault) : Gives (.error fault) middle := by
  intro other same
  cases same

theorem mono {weaker : γ → Prop} (gives : Gives step middle)
    (follows : ∀ value, middle value → weaker value) : Gives step weaker :=
  fun value stepped => follows value (gives value stepped)

theorem bind {next : γ → Checked δ} (first : Gives step middle)
    (rest : ∀ value, middle value → Gives (next value) good) : Gives (step >>= next) good := by
  cases step with
  | ok value => exact rest value (first value rfl)
  | error fault => exact of_error fault

/-- A step whose result does not matter for what follows. -/
theorem past {next : γ → Checked δ} (rest : ∀ value, Gives (next value) good) :
    Gives (step >>= next) good := by
  cases step with
  | ok value => exact rest value
  | error fault => exact of_error fault

end Checked.Gives

namespace Query

variable {query : Query γ} {good better : γ → Prop}

/-- The query has a good answer, or it is refused. -/
def Yields (query : Query γ) (good : γ → Prop) : Prop :=
  match query with
  | .ok value => good value
  | .error halt => halt.Orderly

theorem Yields.mono (yields : Query.Yields query good) (weaker : ∀ value, good value → better value) :
    Query.Yields query better := by
  cases query with
  | ok value => exact weaker value yields
  | error halt => exact yields

theorem Yields.answer (yields : Query.Yields query good) :
    Query.Yields query fun value => query = .ok value := by
  cases query with
  | ok value => rfl
  | error halt => exact yields

@[simp] theorem yields_pure {value : γ} : Yields (pure value) good ↔ good value := Iff.rfl

@[simp] theorem yields_ok {value : γ} : Yields (.ok value) good ↔ good value := Iff.rfl

@[simp] theorem yields_refuse {error : Error} : Yields (refuse error) good := trivial

@[simp] theorem yields_throw {halt : Halt} : Yields (throw halt) good ↔ halt.Orderly := Iff.rfl

@[simp] theorem yields_bind {next : γ → Query δ} {good : δ → Prop} :
    Yields (query >>= next) good ↔ Yields query fun value => Yields (next value) good := by
  cases query <;> rfl

@[simp] theorem liftM_ok {value : γ} :
    (liftM (Except.ok value : Checked γ) : Query γ) = pure value := rfl

theorem ok_bind {value : γ} {next : γ → Query δ} :
    (.ok value >>= next : Query δ) = next value := rfl

end Query

namespace Effect

variable {ε σ : Type} {act : EStateM ε σ γ} {before : σ} {returns stronger : γ → σ → Prop}
  {halts wider : ε → σ → Prop}

/-- The operation returns as described or halts as described. -/
def Ends (act : EStateM ε σ γ) (before : σ) (returns : γ → σ → Prop) (halts : ε → σ → Prop) :
    Prop :=
  match act before with
  | .ok value after => returns value after
  | .error halt after => halts halt after

theorem Ends.mono (ends : Ends act before stronger wider)
    (onReturn : ∀ value after, stronger value after → returns value after)
    (onHalt : ∀ halt after, wider halt after → halts halt after) :
    Ends act before returns halts := by
  unfold Ends at *
  cases outcome : act before with
  | ok value after =>
      rw [outcome] at ends
      exact onReturn value after ends
  | error halt after =>
      rw [outcome] at ends
      exact onHalt halt after ends

theorem Ends.anyhow (onReturn : ∀ value after, returns value after)
    (onHalt : ∀ halt after, halts halt after) : Ends act before returns halts := by
  unfold Ends
  split
  · exact onReturn _ _
  · exact onHalt _ _

theorem Ends.somehow : Ends act before (fun _ _ => True) fun _ _ => True :=
  .anyhow (fun _ _ => trivial) fun _ _ => trivial

theorem Ends.returned (ends : Ends act before returns halts) (smooth : ∀ halt after, ¬ halts halt after) :
    ∃ value after, act before = .ok value after ∧ returns value after := by
  unfold Ends at ends
  cases outcome : act before with
  | ok value after =>
      rw [outcome] at ends
      exact ⟨value, after, rfl, ends⟩
  | error halt after =>
      rw [outcome] at ends
      exact (smooth halt after ends).elim

theorem Ends.halted (ends : Ends act before returns halts) (never : ∀ value after, ¬ returns value after) :
    ∃ halt after, act before = .error halt after ∧ halts halt after := by
  unfold Ends at ends
  cases outcome : act before with
  | ok value after =>
      rw [outcome] at ends
      exact (never value after ends).elim
  | error halt after =>
      rw [outcome] at ends
      exact ⟨halt, after, rfl, ends⟩

/-- What an operation does is known once both ways of ending are. -/
theorem eq_ok_of_ends {value : γ} {after : σ}
    (ends : Ends act before (fun found final => found = value ∧ final = after) fun _ _ => False) :
    act before = .ok value after := by
  obtain ⟨found, final, ran, rfl, rfl⟩ := ends.returned fun _ _ => id
  exact ran

theorem eq_error_of_ends {halt : ε} {after : σ}
    (ends : Ends act before (fun _ _ => False) fun found final => found = halt ∧ final = after) :
    act before = .error halt after := by
  obtain ⟨found, final, ran, rfl, rfl⟩ := ends.halted fun _ _ => id
  exact ran

theorem ends_of_ok {value : γ} {after : σ} (ran : act before = .ok value after) :
    Ends act before returns halts ↔ returns value after := by
  rw [Ends, ran]

theorem ends_of_error {halt : ε} {after : σ} (ran : act before = .error halt after) :
    Ends act before returns halts ↔ halts halt after := by
  rw [Ends, ran]

theorem bind_of_ok {next : γ → EStateM ε σ δ} {value : γ} {after : σ}
    (ran : act before = .ok value after) : (act >>= next) before = next value after := by
  simp only [bind, EStateM.bind, ran]

theorem bind_of_error {next : γ → EStateM ε σ δ} {halt : ε} {after : σ}
    (ran : act before = .error halt after) : (act >>= next) before = .error halt after := by
  simp only [bind, EStateM.bind, ran]

theorem tryCatch_of_ok {handler : ε → EStateM ε σ γ} {value : γ} {after : σ}
    (ran : act before = .ok value after) : tryCatch act handler before = .ok value after := by
  change EStateM.tryCatch act handler before = _
  delta EStateM.tryCatch
  simp only [ran]

theorem tryCatch_of_error {handler : ε → EStateM ε σ γ} {halt : ε} {after : σ}
    (ran : act before = .error halt after) :
    tryCatch act handler before = handler halt after := by
  change EStateM.tryCatch act handler before = _
  delta EStateM.tryCatch
  simp only [ran]
  rfl

/-- Two descriptions of the same operation hold together. -/
theorem Ends.and (first : Ends act before stronger wider) (second : Ends act before returns halts) :
    Ends act before (fun value after => stronger value after ∧ returns value after)
      fun halt after => wider halt after ∧ halts halt after := by
  unfold Ends at *
  split <;> simp_all

@[simp] theorem ends_pure {value : γ} :
    Ends (pure value : EStateM ε σ γ) before returns halts ↔ returns value before := Iff.rfl

@[simp] theorem ends_throw {halt : ε} :
    Ends (throw halt : EStateM ε σ γ) before returns halts ↔ halts halt before := Iff.rfl

@[simp] theorem ends_refuse {error : Error} {halts : Halt → σ → Prop} :
    Ends (refuse error : Effect σ γ) before returns halts ↔ halts (.refused error) before := Iff.rfl

@[simp] theorem ends_bind {next : γ → EStateM ε σ δ} {returns : δ → σ → Prop} :
    Ends (act >>= next) before returns halts ↔
      Ends act before (fun value after => Ends (next value) after returns halts) halts := by
  simp only [Ends, bind, EStateM.bind]
  cases act before <;> rfl

@[simp] theorem ends_tryCatch {handler : ε → EStateM ε σ γ} :
    Ends (tryCatch act handler) before returns halts ↔
      Ends act before returns fun halt after => Ends (handler halt) after returns halts := by
  unfold Ends
  have caught : tryCatch act handler before = EStateM.tryCatch act handler before := rfl
  rw [caught]
  delta EStateM.tryCatch
  cases act before <;> rfl

@[simp] theorem ends_get {returns : σ → σ → Prop} :
    Ends (get : EStateM ε σ σ) before returns halts ↔ returns before before := Iff.rfl

@[simp] theorem ends_set {state : σ} {returns : PUnit → σ → Prop} :
    Ends (set state : EStateM ε σ PUnit) before returns halts ↔ returns ⟨⟩ state := Iff.rfl

@[simp] theorem ends_modify {change : σ → σ} {returns : PUnit → σ → Prop} :
    Ends (modify change : EStateM ε σ PUnit) before returns halts ↔ returns ⟨⟩ (change before) := Iff.rfl

/-- A step that only asks is followed by others in the same state. -/
theorem ends_asking {next : γ → EStateM ε σ δ} {good : γ → Prop} {stops : ε → Prop}
    {returns : δ → σ → Prop}
    (asks : Ends act before (fun value after => after = before ∧ good value)
      fun halt after => after = before ∧ stops halt)
    (rest : ∀ value, good value → Ends (next value) before returns halts)
    (stopped : ∀ halt, stops halt → halts halt before) :
    Ends (act >>= next) before returns halts := by
  rw [ends_bind]
  apply asks.mono
  · intro value after asked
    obtain ⟨rfl, holds⟩ := asked
    exact rest value holds
  · intro halt after asked
    obtain ⟨rfl, reason⟩ := asked
    exact stopped halt reason

/-- However the operation ends, what is viewed of the state is as it was. -/
def Preserves (view : σ → ω) (act : EStateM ε σ γ) : Prop :=
  ∀ before, Ends act before (fun _ after => view after = view before)
    fun _ after => view after = view before

section

variable {ω υ : Type} {view : σ → ω}

theorem preserves_pure (value : γ) : Preserves view (pure value : EStateM ε σ γ) :=
  fun _ => rfl

theorem preserves_throw (halt : ε) : Preserves view (throw halt : EStateM ε σ γ) :=
  fun _ => rfl

theorem preserves_modify {change : σ → σ} (same : ∀ state, view (change state) = view state) :
    Preserves view (modify change : EStateM ε σ PUnit) :=
  same

theorem Preserves.map (preserves : Preserves view act) (part : ω → υ) :
    Preserves (fun state => part (view state)) act :=
  fun before => (preserves before).mono (fun _ _ => congrArg part) fun _ _ => congrArg part

theorem Preserves.bind {next : γ → EStateM ε σ δ} (first : Preserves view act)
    (rest : ∀ value, Preserves view (next value)) : Preserves view (act >>= next) := by
  intro before
  rw [ends_bind]
  apply (first before).mono
  · intro value middle same
    exact (rest value middle).mono (fun _ _ again => again.trans same) fun _ _ again => again.trans same
  · exact fun _ _ => id

/-- What never changes the state only asks. -/
theorem Preserves.asks (preserves : Preserves id act) :
    Ends act before (fun _ after => after = before ∧ True) fun _ after => after = before ∧ True :=
  (preserves before).mono (fun _ _ same => ⟨same, trivial⟩) fun _ _ same => ⟨same, trivial⟩

theorem Preserves.handled {handler : ε → EStateM ε σ γ} (first : Preserves view act)
    (rest : ∀ halt, Preserves view (handler halt)) : Preserves view (tryCatch act handler) := by
  intro before
  rw [ends_tryCatch]
  apply (first before).mono (fun _ _ => id)
  intro halt middle same
  exact (rest halt middle).mono (fun _ _ again => again.trans same) fun _ _ again => again.trans same

end

@[simp] theorem liftM_self {act : Effect σ γ} : (liftM act : Effect σ γ) = act := rfl

@[simp] theorem liftM_ok {value : γ} :
    (liftM (Except.ok value : Checked γ) : Effect σ γ) = pure value := rfl

@[simp] theorem liftM_answer {value : γ} :
    (liftM (Except.ok value : Query γ) : Effect σ γ) = pure value := rfl

/-- A query that is answered or refused leaves everything as it is. -/
theorem ends_query (good : γ → Prop) {query : Query γ}
    (answered : (∃ value, query = .ok value ∧ good value) ∨
      ∃ error, query = .error (.refused error)) :
    Ends (liftM query : Effect σ γ) before
      (fun value after => after = before ∧ query = .ok value ∧ good value)
      (fun halt after => after = before ∧
        ∃ error, halt = .refused error ∧ query = .error (.refused error)) := by
  rcases answered with ⟨value, rfl, found⟩ | ⟨error, rfl⟩
  · exact ⟨rfl, rfl, found⟩
  · exact ⟨rfl, error, rfl, rfl⟩

theorem ends_expecting {purpose : Purpose} {act : Effect σ γ} {halts : Halt → σ → Prop} :
    Ends (expecting purpose act) before returns halts ↔
      Ends act before returns fun halt after =>
        match halt with
        | .refused error => halts (.interrupted (.unexpected purpose error)) after
        | halt => halts halt after := by
  rw [expecting, ends_tryCatch]
  constructor
  · intro ends
    apply ends.mono fun _ _ => id
    intro halt after stopped
    cases halt <;> exact stopped
  · intro ends
    apply ends.mono fun _ _ => id
    intro halt after stopped
    cases halt <;> exact stopped

end Effect

namespace Ledger

open Effect

variable {α : Type} {ledger middle after : Ledger α} {item : Item α} {rest slice : List (Item α)}
  {act other : Effect (Ledger α) Unit} {halt : Halt}

theorem discarding_discarding (first second : List (Item α)) :
    (ledger.discarding first).discarding second = ledger.discarding (first ++ second) := by
  simp only [discarding, List.reverse_append, List.append_assoc]

theorem destroyRun_cons_of_ok (destroyed : destroy item ledger = .ok () middle) :
    destroyRun (item :: rest) ledger = destroyRun rest middle :=
  bind_of_ok (tryCatch_of_ok destroyed)

theorem destroyRun_cons_of_error (failed : destroy item ledger = .error halt middle) :
    destroyRun (item :: rest) ledger = .error halt (middle.discarding rest) :=
  bind_of_error (tryCatch_of_error failed)

theorem guarding_of_ok (ran : act ledger = .ok () after) :
    guarding slice act ledger = destroyRun slice after :=
  bind_of_ok (tryCatch_of_ok ran)

theorem guarding_of_error (ran : act ledger = .error halt after) :
    guarding slice act ledger = .error halt (after.discarding slice) :=
  bind_of_error (tryCatch_of_error ran)

theorem guarding_congr (same : act ledger = other middle) :
    guarding slice act ledger = guarding slice other middle := by
  cases ran : other middle with
  | ok _ after => rw [guarding_of_ok (same.trans ran), guarding_of_ok ran]
  | error halt after => rw [guarding_of_error (same.trans ran), guarding_of_error ran]

/-- A guard over the second of two slices makes one run of them: behind an element that fails, what
is left of its own slice goes quietly, and then the other slice. -/
theorem destroyRuns_eq (front back : List (Item α)) :
    destroyRuns front back = destroyRun (front ++ back) := by
  induction front with
  | nil => rfl
  | cons item rest ih =>
      funext ledger
      cases destroyed : destroy item ledger with
      | ok _ middle =>
          calc destroyRuns (item :: rest) back ledger
            _ = destroyRuns rest back middle := guarding_congr (destroyRun_cons_of_ok destroyed)
            _ = destroyRun (rest ++ back) middle := congrFun ih middle
            _ = destroyRun (item :: rest ++ back) ledger :=
              (destroyRun_cons_of_ok destroyed).symm
      | error halt middle =>
          calc destroyRuns (item :: rest) back ledger
            _ = .error halt ((middle.discarding rest).discarding back) :=
              guarding_of_error (destroyRun_cons_of_error destroyed)
            _ = .error halt (middle.discarding (rest ++ back)) := by rw [discarding_discarding]
            _ = destroyRun (item :: rest ++ back) ledger :=
              (destroyRun_cons_of_error destroyed).symm

end Ledger

namespace Act

open Effect

variable {β π α : Type} {before : Tracked β α} {halts : Halt → Tracked β α → Prop}

@[simp] theorem ends_buffer {returns : β → Tracked β α → Prop} :
    Ends Act.buffer before returns halts ↔ returns before.buffer before := Iff.rfl

@[simp] theorem ends_become {buffer : β} {returns : PUnit → Tracked β α → Prop} :
    Ends (Act.become buffer) before returns halts ↔ returns ⟨⟩ ⟨buffer, before.ledger⟩ := Iff.rfl

@[simp] theorem ends_ledger {act : Effect (Ledger α) γ} {returns : γ → Tracked β α → Prop} :
    Ends (liftM act : Act β α γ) before returns halts ↔
      Ends act before.ledger (fun value ledger => returns value ⟨before.buffer, ledger⟩)
        (fun halt ledger => halts halt ⟨before.buffer, ledger⟩) := by
  simp only [Ends, liftM, monadLift, MonadLift.monadLift]
  cases act before.ledger <;> rfl

theorem ends_update {step : β → Checked (γ × β)} {value : γ} {after : β}
    {returns : γ → Tracked β α → Prop} (stepped : step before.buffer = .ok (value, after)) :
    Ends (Act.update step) before returns halts ↔ returns value ⟨after, before.ledger⟩ := by
  simp only [Act.update, ends_bind, ends_buffer, stepped, liftM_ok, ends_pure, ends_become]

theorem ends_alter {step : β → Checked β} {after : β} {returns : PUnit → Tracked β α → Prop}
    (stepped : step before.buffer = .ok after) :
    Ends (Act.alter step) before returns halts ↔ returns ⟨⟩ ⟨after, before.ledger⟩ := by
  simp only [Act.alter, ends_bind, ends_buffer, stepped, liftM_ok, ends_pure, ends_become]

theorem ends_update_mk {step : β → Checked (γ × β)} {value : γ} {buffer after : β} {ledger : Ledger α}
    {returns : γ → Tracked β α → Prop} (stepped : step buffer = .ok (value, after)) :
    Ends (Act.update step) ⟨buffer, ledger⟩ returns halts ↔ returns value ⟨after, ledger⟩ :=
  ends_update stepped

theorem ends_alter_mk {step : β → Checked β} {buffer after : β} {ledger : Ledger α}
    {returns : PUnit → Tracked β α → Prop} (stepped : step buffer = .ok after) :
    Ends (Act.alter step) ⟨buffer, ledger⟩ returns halts ↔ returns ⟨⟩ ⟨after, ledger⟩ :=
  ends_alter stepped

@[simp] theorem ends_report {event : Event} {returns : PUnit → Tracked β α → Prop} :
    Ends (Act.report event) before returns halts ↔
      returns ⟨⟩ ⟨before.buffer, { before.ledger with events := before.ledger.events ++ [event] }⟩ := by
  simp only [Act.report, Ledger.report]
  exact ends_ledger

@[simp] theorem ends_onPart {part : β → π} {rebuild : β → π → β} {act : Act π α γ}
    {returns : γ → Tracked β α → Prop} :
    Ends (Act.onPart part rebuild act) before returns halts ↔
      Ends act ⟨part before.buffer, before.ledger⟩
        (fun value after => returns value ⟨rebuild before.buffer after.buffer, after.ledger⟩)
        (fun halt after => halts halt ⟨rebuild before.buffer after.buffer, after.ledger⟩) := by
  simp only [Ends, Act.onPart]
  cases act ⟨part before.buffer, before.ledger⟩ <;> rfl

/-- A buffer in the making is discarded if its making halts. -/
theorem ends_building {initial : β} {contents : β → Checked (List (Item α))} {act : Act β α Unit}
    {ledger : Ledger α} {returns : β → Ledger α → Prop} {halts : Halt → Ledger α → Prop} :
    Ends (building initial contents act) ledger returns halts ↔
      Ends act ⟨initial, ledger⟩ (fun _ after => returns after.buffer after.ledger)
        (fun halt after => Ends (do
            Ledger.discard (← contents after.buffer)
            throw halt : Effect (Ledger α) β) after.ledger returns halts) := by
  simp only [Ends, building]
  cases act ⟨initial, ledger⟩ <;> rfl

/-- What is left of a buffer is destroyed, or discarded if the action halts. -/
theorem ends_spending {initial : β} {runs : β → Checked (List (Item α) × List (Item α))}
    {act : Act β α γ} {ledger : Ledger α} {returns : γ → Ledger α → Prop}
    {halts : Halt → Ledger α → Prop} :
    Ends (spending initial runs act) ledger returns halts ↔
      Ends act ⟨initial, ledger⟩
        (fun value after => Ends (do
            let (front, back) ← runs after.buffer
            Ledger.destroyRun (front ++ back)
            return value : Effect (Ledger α) γ) after.ledger returns halts)
        (fun halt after => Ends (do
            let (front, back) ← runs after.buffer
            Ledger.discard (front ++ back)
            throw halt : Effect (Ledger α) γ) after.ledger returns halts) := by
  cases ran : act ⟨initial, ledger⟩ with
  | ok value after =>
      rw [ends_of_ok ran]
      simp only [Ends, spending, ran, Ledger.destroyRuns_eq]
  | error halt after =>
      rw [ends_of_error ran]
      have left : Ends (do
            let (front, back) ← runs after.buffer
            Ledger.discard front
            Ledger.discard back
            throw halt : Effect (Ledger α) γ) after.ledger returns halts ↔ Ends (do
            let (front, back) ← runs after.buffer
            Ledger.discard (front ++ back)
            throw halt : Effect (Ledger α) γ) after.ledger returns halts := by
        simp only [ends_bind, Ledger.discard, ends_modify, Ledger.discarding_discarding]
      rw [← left, Ends, Ends, spending, ran]

end Act

end RingDeque
