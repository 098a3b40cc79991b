import RingDeque.Proofs.Conservation
import RingDeque.Proofs.Ring.Cursors
import RingDeque.Proofs.Ring.Overwriting

/-!
What operations on a ring keep, at any point in the middle of their work.

The ring is well formed, it has aged since the `origin` of the operation, and the elements in it,
together with those that are `owned` elsewhere, are the ones the ledger has afloat. An operation that
halts has a reason to, and leaves a ring of which all this is true.
-/

namespace RingDeque.Ring

open Effect

variable {α β : Type} {written : Prop} {origin : Tracked (Ring α) α} {owned further : Multiset Nat}
  {ring after : Ring α} {ledger : Ledger α} {item : Item α} {items : List (Item α)}
  {breaks moreBreaks : Prop} {refuses more : Error → Prop} {halt : Halt} {capacity : Nat}

/-- The ring and the ledger agree, and both descend from those at the origin. -/
structure Sound (written : Prop) (origin : Tracked (Ring α) α) (owned : Multiset Nat)
    (ring : Ring α) (ledger : Ledger α) : Prop where
  wellFormed : ring.WellFormed
  ages : Ages written origin.buffer ring
  keeps : origin.ledger.Keeps (ids ring.toList + owned) ledger

/-- An operation that halted for a reason and left ring and ledger in agreement. -/
structure Stops (written : Prop) (origin : Tracked (Ring α) α) (breaks : Prop)
    (refuses : Error → Prop) (owned : Multiset Nat) (halt : Halt) (ring : Ring α)
    (ledger : Ledger α) : Prop where
  due : origin.ledger.Due breaks refuses halt
  sound : Sound written origin owned ring ledger

theorem Stops.mono (stops : Stops written origin breaks refuses owned halt ring ledger)
    (breaking : breaks → moreBreaks) (refusing : ∀ error, refuses error → more error) :
    Stops written origin moreBreaks more owned halt ring ledger :=
  ⟨stops.due.mono breaking refusing, stops.sound⟩

namespace Sound

theorem of_eq (sound : Sound written origin owned ring ledger) (same : owned = further) :
    Sound written origin further ring ledger :=
  same ▸ sound

theorem follows (sound : Sound written origin owned ring ledger) :
    origin.ledger.Follows ledger :=
  sound.keeps.follows

/-- A step of the ring that leaves the ledger alone. -/
theorem turn (sound : Sound written origin owned ring ledger)
    (turns : ring.TurnsInto written after capacity items)
    (same : ids ring.toList + owned = ids items + further) :
    Sound written origin further after ledger :=
  ⟨turns.wellFormed, sound.ages.trans turns.ages, by
    rw [turns.toList, ← same]
    exact sound.keeps⟩

/-- A step of the ledger that leaves the ring alone. -/
theorem step (sound : Sound written origin owned ring ledger) {next : Ledger α}
    (keeps : origin.ledger.Keeps (ids ring.toList + further) next) :
    Sound written origin further ring next :=
  ⟨sound.wellFormed, sound.ages, keeps⟩

theorem reporting (sound : Sound written origin owned ring ledger) (events : List Event) :
    Sound written origin owned ring { ledger with events } :=
  sound.step (sound.keeps.reporting events)

theorem make_ends (sound : Sound written origin owned ring ledger) (value : α)
    {halts : Halt → Ledger α → Prop} :
    Ends (Ledger.make value) ledger
      (fun item after => item.value = value ∧
        Sound written origin ({item.id} + owned) ring after) halts :=
  (Ledger.make_ends sound.keeps value).mono
    (fun _ _ made => ⟨made.1, sound.step (made.2.of_eq (by abel))⟩) fun _ _ => id

theorem destroy_ends (sound : Sound written origin ({item.id} + owned) ring ledger) :
    Ends (Ledger.destroy item) ledger (fun _ after => Sound written origin owned ring after)
      (fun halt after => Stops written origin breaks refuses owned halt ring after) := by
  have keeps : origin.ledger.Keeps ({item.id} + (ids ring.toList + owned)) ledger :=
    sound.keeps.of_eq (by abel)
  refine (Ledger.destroy_ends keeps).mono ?_ ?_
  · intro _ after kept
    exact sound.step kept
  · intro halt after stopped
    obtain ⟨rfl, ⟨fails, armed, -⟩, kept⟩ := stopped
    exact ⟨Ledger.due_of_brittle armed, sound.step kept⟩

theorem discarding (sound : Sound written origin (ids items + owned) ring ledger) :
    Sound written origin owned ring (ledger.discarding items) := by
  have keeps : origin.ledger.Keeps (ids items + (ids ring.toList + owned)) ledger :=
    sound.keeps.of_eq (by abel)
  exact sound.step keeps.discarding

theorem destroyRun_ends (sound : Sound written origin (ids items + owned) ring ledger) :
    Ends (Ledger.destroyRun items) ledger (fun _ after => Sound written origin owned ring after)
      (fun halt after => Stops written origin breaks refuses owned halt ring after) := by
  have keeps : origin.ledger.Keeps (ids items + (ids ring.toList + owned)) ledger :=
    sound.keeps.of_eq (by abel)
  exact (Ledger.destroyRun_ends keeps).mono (fun _ _ kept => sound.step kept)
    fun _ _ stopped => ⟨stopped.1, sound.step stopped.2⟩

theorem handBack_ends (sound : Sound written origin (ids items + owned) ring ledger)
    {halts : Halt → Ledger α → Prop} :
    Ends (Ledger.handBack items) ledger
      (fun _ after => Sound written origin owned ring after) halts := by
  have keeps : origin.ledger.Keeps (ids items + (ids ring.toList + owned)) ledger :=
    sound.keeps.of_eq (by abel)
  exact (Ledger.handBack_ends keeps).mono (fun _ _ kept => sound.step kept) fun _ _ => id

end Sound

/-- An operation that owns an element gives it up before it halts. -/
theorem holding_ends (inside : β → Ring α) {act : Act β α γ} {before : Tracked β α}
    {returns : γ → Tracked β α → Prop}
    (ends : Ends act before returns fun halt after =>
      Stops written origin breaks refuses ({item.id} + owned) halt (inside after.buffer)
        after.ledger) :
    Ends (holding item act) before returns fun halt after =>
      Stops written origin breaks refuses owned halt (inside after.buffer) after.ledger := by
  simp only [holding, ends_tryCatch]
  refine ends.mono (fun _ _ => id) ?_
  intro halt after stops
  cases halt with
  | refused error =>
      simp only [ends_bind, Act.ends_ledger, ends_refuse]
      refine stops.sound.destroy_ends.mono ?_ fun _ _ => id
      intro _ ledger sound
      exact ⟨stops.due, sound⟩
  | interrupted cause =>
      simp only [ends_bind, Act.ends_ledger, Ledger.discard, ends_modify, ends_throw]
      exact ⟨stops.due, Sound.discarding (by simpa using stops.sound)⟩
  | fault fault => exact stops.due.orderly.elim

/-- An operation that looks at an element destroys it however it ends. -/
theorem consuming_ends (inside : β → Ring α) (good : γ → β → Prop) {act : Act β α γ} {before : Tracked β α}

    (ends : Ends act before
      (fun value after =>
        Sound written origin ({item.id} + owned) (inside after.buffer) after.ledger ∧
          good value after.buffer)
      fun halt after =>
        Stops written origin breaks refuses ({item.id} + owned) halt (inside after.buffer)
          after.ledger) :
    Ends (consuming item act) before
      (fun value after =>
        Sound written origin owned (inside after.buffer) after.ledger ∧ good value after.buffer)
      fun halt after =>
        Stops written origin breaks refuses owned halt (inside after.buffer) after.ledger := by
  simp only [consuming, ends_bind, Act.ends_ledger, ends_pure]
  refine (holding_ends _ ends).mono ?_ fun _ _ => id
  intro value after ended
  obtain ⟨sound, found⟩ := ended
  exact sound.destroy_ends.mono (fun _ _ gone => ⟨gone, found⟩) fun _ _ => id

/-- The error with which a ring refuses a cursor. -/
def Rejects (ring : Ring α) (cursor : Cursor) (error : Error) : Prop :=
  ring.resolve cursor = .error (.refused error)

theorem Points.not_rejected {cursor : Cursor} {index : Nat} {error : Error}
    (points : ring.Points cursor index) (wellFormed : ring.WellFormed)
    (rejected : ring.Rejects cursor error) : False := by
  rw [Rejects, points.resolve wellFormed] at rejected
  contradiction

/-- Asking for the logical index of a cursor. -/
theorem resolve_ends {before : Tracked (Ring α) α} {cursor : Cursor}
    (sound : Sound written origin owned before.buffer before.ledger)
    (vouched : before.buffer.Vouches cursor) :
    Ends (liftM (before.buffer.resolve cursor)) before
      (fun index after => after = before ∧ before.buffer.resolve cursor = .ok index ∧
        index ≤ before.buffer.len)
      (fun halt after => Stops written origin breaks (before.buffer.Rejects cursor) owned halt
        after.buffer after.ledger) := by
  refine (ends_query _ ?_).mono (fun _ _ => id) ?_
  · rcases sound.wellFormed.resolve_cases vouched with ⟨index, bound, resolved⟩ | refused
    · exact .inl ⟨index, resolved, bound⟩
    · exact .inr ⟨_, refused⟩
  · intro halt after stopped
    obtain ⟨rfl, error, rfl, refused⟩ := stopped
    exact ⟨.refusal refused, sound⟩

end RingDeque.Ring
