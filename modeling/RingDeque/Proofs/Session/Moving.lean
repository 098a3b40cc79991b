import RingDeque.Proofs.Session.Soundness
import RingDeque.Session.Move

/-!
The steps of which operations on a session are made.

A step that asks leaves the session as it is. A step that runs an action on a buffer keeps what the
action keeps. A step stops only for a reason that a caller can give.
-/

namespace RingDeque.Session

open Effect

variable {α γ : Type} {writes : Nat → Prop} {origin session : Session α}
  {owned : Multiset Nat} {number : Nat} {site : Site}

/-- A stop for which a caller can be the reason. -/
def Stop.Orderly : Stop → Prop
  | .halted halt => halt.Orderly
  | .inapplicable => True

theorem demandBuffer_ends {returns : Buffer α → Session α → Prop}
    {stops : Stop → Session α → Prop}
    (present : ∀ buffer, session.buffer? number = some buffer → returns buffer session)
    (absent : stops .inapplicable session) :
    Ends (demandBuffer number) session returns stops := by
  simp only [demandBuffer, ends_bind, ends_get]
  cases found : session.buffer? number with
  | none => exact absent
  | some buffer => exact present buffer found

theorem demandVacant_ends {returns : Unit → Session α → Prop} {stops : Stop → Session α → Prop}
    (vacant : session.buffer? number = none → returns () session)
    (taken : stops .inapplicable session) :
    Ends (demandVacant number) session returns stops := by
  simp only [demandVacant, ends_bind, ends_get]
  cases found : session.buffer? number with
  | none => exact vacant found
  | some buffer => exact taken

theorem ends_onLedger {act : Effect (Ledger α) γ} {returns : γ → Session α → Prop}
    {stops : Stop → Session α → Prop} :
    Ends (onLedger act) session returns stops ↔
      Ends act session.ledger (fun value ledger => returns value { session with ledger })
        (fun halt ledger => stops (.halted halt) { session with ledger }) := by
  simp only [Ends, onLedger]
  cases act session.ledger <;> rfl

theorem ask_ends {query : Query γ} {good : γ → Prop} (yields : query.Yields good) :
    Ends (ask query) session (fun value after => after = session ∧ good value)
      (fun stop after => after = session ∧ stop.Orderly) := by
  cases query with
  | ok value => exact ⟨rfl, yields⟩
  | error halt => exact ⟨rfl, yields⟩

theorem askEither_ends {query : Query γ} {good : γ → Prop} (yields : query.Yields good) :
    Ends (askEither query) session (fun _ after => after = session ∧ True)
      (fun stop after => after = session ∧ stop.Orderly) := by
  cases query with
  | ok value => exact ⟨rfl, trivial⟩
  | error halt =>
      cases halt with
      | refused error => exact ⟨rfl, trivial⟩
      | interrupted cause => exact ⟨rfl, trivial⟩
      | fault fault => exact yields.elim

theorem askRing_ends (good : Ring α → γ → Prop) {query : Ring α → Query γ}
    (yields : ∀ buffer, session.buffer? number = some buffer →
      (query buffer.ring).Yields (good buffer.ring)) :
    Ends (askRing number query) session
      (fun value after => after = session ∧
        ∃ buffer, session.buffer? number = some buffer ∧ good buffer.ring value)
      (fun stop after => after = session ∧ stop.Orderly) := by
  simp only [askRing, ends_bind]
  refine demandBuffer_ends ?_ ⟨rfl, trivial⟩
  intro buffer found
  exact (ask_ends (yields buffer found)).mono
    (fun _ _ asked => ⟨asked.1, buffer, found, asked.2⟩) fun _ _ => id

/-- The cursor at a place that was named is vouched for. -/
theorem cursorOf_ends (valid : session.Valid) :
    Ends (cursorOf number site) session
      (fun cursor after => after = session ∧ session.Vouches cursor)
      (fun stop after => after = session ∧ stop.Orderly) := by
  -- What a buffer issues is vouched for, whichever place it was issued for.
  have issued : ∀ {query : Ring α → Query Cursor},
      (∀ buffer, session.buffer? number = some buffer →
        (query buffer.ring).Yields buffer.ring.Issues) →
      Ends (askRing number query) session
        (fun cursor after => after = session ∧ session.Vouches cursor)
        (fun stop after => after = session ∧ stop.Orderly) := by
    intro query yields
    refine (askRing_ends _ yields).mono ?_
      fun _ _ => id
    intro cursor after ended
    obtain ⟨rfl, buffer, found, issues⟩ := ended
    exact ⟨rfl, valid.vouches_of_issues (mem_of_buffer? found) issues⟩
  cases site with
  | begin =>
      simp only [cursorOf]
      exact issued fun buffer found =>
        (valid.wellFormed _ (mem_of_buffer? found)).cursorFor_yields 0
  | finish =>
      simp only [cursorOf]
      exact issued fun buffer found =>
        (valid.wellFormed _ (mem_of_buffer? found)).issues_finish
  | index index =>
      simp only [cursorOf]
      exact issued fun buffer found =>
        (valid.wellFormed _ (mem_of_buffer? found)).cursorAt_yields index
  | bookmark name =>
      simp only [cursorOf, ends_bind, ends_get]
      cases found : session.bookmarks.lookup name with
      | none => exact ⟨rfl, trivial⟩
      | some bookmark =>
          obtain ⟨first, last, parts, -⟩ := List.lookup_eq_some_iff.mp found
          exact ⟨rfl, valid.vouched (name, bookmark) (by rw [parts]; simp)⟩

theorem ends_demandBuffer {returns : Buffer α → Session α → Prop}
    {stops : Stop → Session α → Prop} {buffer : Buffer α}
    (found : session.buffer? number = some buffer) :
    Ends (demandBuffer number) session returns stops ↔ returns buffer session := by
  simp only [demandBuffer, ends_bind, ends_get, found, ends_pure]

theorem ends_askRing {query : Ring α → Query γ} {returns : γ → Session α → Prop}
    {stops : Stop → Session α → Prop} {buffer : Buffer α}
    (found : session.buffer? number = some buffer) :
    Ends (askRing number query) session returns stops ↔
      Ends (ask (query buffer.ring)) session returns stops := by
  rw [askRing, ends_bind, ends_demandBuffer found]

theorem ends_onBuffer {act : Act (Buffer α) α γ} {returns : γ → Session α → Prop}
    {stops : Stop → Session α → Prop} {buffer : Buffer α}
    (found : session.buffer? number = some buffer) :
    Ends (onBuffer number act) session returns stops ↔
      Ends act ⟨buffer, session.ledger⟩
        (fun value after =>
          returns value ({ session with ledger := after.ledger }.withBuffer number after.buffer))
        (fun halt after => stops (.halted halt)
          ({ session with ledger := after.ledger }.withBuffer number after.buffer)) := by
  rw [onBuffer]
  refine ends_bind.trans ((ends_demandBuffer found).trans ?_)
  simp only [Ends]
  cases act ⟨buffer, session.ledger⟩ <;> rfl

/-- An action that is careful with the buffer under a number. -/
def CarefulOn (number : Nat) (writes : Nat → Prop) (session : Session α)
    (given : γ → Multiset Nat) (good : γ → Ring α → Prop) (act : Act (Buffer α) α γ) : Prop :=
  ∀ buffer further, session.buffer? number = some buffer →
    Ring.Sound (writes number) ⟨buffer.ring, session.ledger⟩ further buffer.ring session.ledger →
    Careful (writes number) ⟨buffer.ring, session.ledger⟩ further Buffer.ring given good act
      ⟨buffer, session.ledger⟩

/-- Running an action on the buffer under a number. -/
theorem onBuffer_ends {given : γ → Multiset Nat} {good : γ → Ring α → Prop}
    {act : Act (Buffer α) α γ} (agrees : Agrees writes origin owned session)
    (careful : CarefulOn number writes session given good act) :
    Ends (onBuffer number act) session
      (fun value after => Agrees writes origin (given value + owned) after ∧
        ∃ changed, (number, changed) ∈ after.buffers ∧ good value changed.ring)
      (fun stop after => Agrees writes origin owned after ∧ stop.Orderly) := by
  cases found : session.buffer? number with
  | none =>
      rw [onBuffer]
      refine ends_bind.mpr (demandBuffer_ends (fun buffer present => ?_) ⟨agrees, trivial⟩)
      rw [found] at present
      contradiction
  | some buffer =>
      refine (ends_onBuffer found).mpr ?_
      refine Ends.mono (careful buffer _ found (agrees.sound found)) ?_ ?_
      · intro value after ended
        obtain ⟨sound, issued⟩ := ended
        exact ⟨agrees.housing found (sound.of_eq (add_assoc _ _ _).symm), after.buffer,
          mem_of_buffer? buffer?_withBuffer_self, issued⟩
      · intro halt after stops
        exact ⟨agrees.housing found stops.sound, stops.due.orderly⟩

end RingDeque.Session
