import RingDeque.Proofs.Conservation
import RingDeque.Ring.Erasure
import RingDeque.Ring.Storage

/-!
What is reported by work on a ring.

Taking elements out and destroying them is never reported, whether it succeeds or not. A change of
capacity is reported once, with the two sizes.
-/

namespace RingDeque

open Effect

variable {α β : Type}

namespace Ledger

variable {earlier middle later : Ledger α} {told more : Event → Prop} {event : Event}

/-- A record with further reports, all of them of one kind. -/
def Tells (told : Event → Prop) (earlier later : Ledger α) : Prop :=
  ∃ reports, later.events = earlier.events ++ reports ∧ ∀ event ∈ reports, told event

theorem Tells.nothing (same : later.events = earlier.events) : Tells told earlier later :=
  ⟨[], by rw [same, List.append_nil], fun _ member => absurd member List.not_mem_nil⟩

theorem Tells.single (events : later.events = earlier.events ++ [event]) (fits : told event) :
    Tells told earlier later :=
  ⟨[event], events, fun _ member => List.mem_singleton.mp member ▸ fits⟩

theorem Tells.trans (first : Tells told earlier middle) (second : Tells told middle later) :
    Tells told earlier later := by
  obtain ⟨reports, events, fits⟩ := first
  obtain ⟨others, further, also⟩ := second
  exact ⟨reports ++ others, by rw [further, events, List.append_assoc], fun event member =>
    (List.mem_append.mp member).elim (fits event) (also event)⟩

theorem Tells.mono (tells : Tells told earlier later) (weaker : ∀ event, told event → more event) :
    Tells more earlier later := by
  obtain ⟨reports, events, fits⟩ := tells
  exact ⟨reports, events, fun event member => weaker event (fits event member)⟩

theorem discard_quiet (items : List (Item α)) : Preserves Ledger.events (discard items) :=
  preserves_modify fun _ => rfl

theorem destroy_quiet (item : Item α) : Preserves Ledger.events (destroy item) := by
  intro ledger
  simp only [destroy, discard, ends_bind, ends_modify, ends_get]
  cases (ledger.discarding [item]).brittle with
  | none => exact rfl
  | some fails => by_cases failing : fails item = true <;> simp only [failing] <;> exact rfl

theorem destroyRun_quiet (items : List (Item α)) : Preserves Ledger.events (destroyRun items) := by
  induction items with
  | nil => exact preserves_pure _
  | cons item rest ih =>
      apply Preserves.bind _ fun _ => ih
      apply (destroy_quiet item).handled
      exact fun halt => (discard_quiet rest).bind fun _ => preserves_throw halt

theorem destroyRuns_quiet (front back : List (Item α)) :
    Preserves Ledger.events (destroyRuns front back) := by
  rw [destroyRuns_eq]
  exact destroyRun_quiet (front ++ back)

end Ledger

namespace Act

/-- However the action ends, it reports nothing. -/
abbrev Quiet (act : Act β α γ) : Prop :=
  Preserves (fun tracked => tracked.ledger.events) act

theorem quiet_checked (step : Checked γ) : Quiet (liftM step : Act β α γ) := by
  intro before
  cases step with
  | ok value => exact rfl
  | error fault => exact rfl

theorem quiet_query (query : Query γ) : Quiet (liftM query : Act β α γ) := by
  intro before
  cases query with
  | ok value => exact rfl
  | error halt => exact rfl

theorem quiet_ledger {act : Effect (Ledger α) γ} (quiet : Preserves Ledger.events act) :
    Quiet (liftM act : Act β α γ) := by
  intro before
  rw [ends_ledger]
  exact quiet before.ledger

theorem quiet_update (step : β → Checked (γ × β)) : Quiet (Act.update step : Act β α γ) := by
  intro before
  simp only [Act.update, ends_bind, ends_buffer]
  cases step before.buffer with
  | ok reached => exact rfl
  | error fault => exact rfl

theorem quiet_alter (step : β → Checked β) : Quiet (Act.alter step : Act β α Unit) := by
  intro before
  simp only [Act.alter, ends_bind, ends_buffer]
  cases step before.buffer with
  | ok after => exact rfl
  | error fault => exact rfl

theorem Quiet.of_buffer {next : β → Act β α γ} (rest : ∀ buffer, Quiet (next buffer)) :
    Quiet (Act.buffer >>= next) :=
  fun before => rest before.buffer before

end Act

namespace Ring

open Act

theorem evict_quiet (side : End) (count : Nat) : Quiet (evict (α := α) side count) := by
  induction count with
  | zero => exact preserves_pure _
  | succ count ih =>
      apply (quiet_update (pop side)).bind
      intro popped
      cases popped with
      | none => exact preserves_pure _
      | some item => exact (quiet_ledger (Ledger.destroy_quiet item)).bind fun _ => ih

theorem clear_quiet : Quiet (clear (α := α)) :=
  (quiet_update emptied).bind fun runs => quiet_ledger (Ledger.destroyRuns_quiet runs.1 runs.2)

theorem removeRange_quiet (index count : Nat) (tie : End) :
    Quiet (removeRange (α := α) index count tie) := by
  simp only [removeRange]
  by_cases nothing : count = 0
  · simp only [if_pos nothing]
    exact preserves_pure _
  simp only [if_neg nothing]
  apply Quiet.of_buffer
  intro ring
  apply (quiet_checked _).bind
  intro tail
  apply (quiet_checked _).bind
  intro behind
  cases End.shorter index behind tie with
  | front => exact (quiet_alter _).bind fun _ => evict_quiet .front count
  | back =>
      exact (quiet_checked _).bind fun first =>
        (quiet_alter _).bind fun _ => evict_quiet .back count

theorem erase_quiet (toward : End) (cursor : Cursor) : Quiet (erase (α := α) toward cursor) := by
  apply Quiet.of_buffer
  intro ring
  apply (quiet_query _).bind
  intro index
  exact (removeRange_quiet index 1 toward).bind fun _ => Quiet.of_buffer fun _ => quiet_checked _

theorem eraseRange_quiet (toward : End) (first last : Cursor) :
    Quiet (eraseRange (α := α) toward first last) := by
  apply Quiet.of_buffer
  intro ring
  apply (quiet_query _).bind
  intro range
  obtain ⟨source, target⟩ := range
  by_cases nothing : source = target
  · simp only [if_pos nothing]
    exact Quiet.of_buffer fun _ => quiet_checked _
  · simp only [if_neg nothing]
    apply (quiet_checked _).bind
    intro count
    exact (removeRange_quiet source count toward).bind fun _ =>
      Quiet.of_buffer fun _ => quiet_checked _

/-- What is reported of a change of capacity is that the elements moved, before any is destroyed. -/
theorem setCapacity_tells (trim : End) (capacity : Nat) (before : Tracked (Ring α) α) :
    let moved (event : Event) : Prop :=
      ∃ len trimmed, event = .reallocated before.buffer.capacity capacity len trimmed
    Ends (setCapacity trim capacity) before
      (fun _ after => before.ledger.Tells moved after.ledger)
      fun _ after => before.ledger.Tells moved after.ledger := by
  intro moved
  simp only [setCapacity, ends_bind, ends_buffer]
  by_cases same : capacity = before.buffer.capacity
  · simp only [if_pos same, ends_pure]
    exact .nothing rfl
  simp only [if_neg same, ends_bind, ends_ledger, ends_report]
  apply Ledger.ends_allocating
  · intro _ block stamps _ _ _
    simp only [Act.update, ends_bind, ends_buffer]
    cases before.buffer.rehouse trim block stamps with
    | error fault => exact .nothing rfl
    | ok reached =>
        simp only [liftM_ok, ends_pure, ends_become]
        cases Word.sub before.buffer.len reached.2.len with
        | error fault => exact .nothing rfl
        | ok trimmed =>
            simp only [liftM_ok, ends_pure]
            apply (Ledger.destroyRuns_quiet reached.1.1 reached.1.2 _).mono
            · exact fun _ _ quiet => .single quiet ⟨_, _, rfl⟩
            · exact fun _ _ quiet => .single quiet ⟨_, _, rfl⟩
  · exact fun _ => .nothing rfl

end Ring

end RingDeque
