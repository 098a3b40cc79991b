import RingDeque.Proofs.Ring.Replacing
import RingDeque.Proofs.Traversal
import RingDeque.Session.Walk

/-!
Scripts of steps on a walk.

A script that only looks is answered as a cursor over a list answers it.

A walk yields entries it started with and keeps entries it started with, so a script that overwrites
what it passes always finds an element where it writes. A script that takes elements out pops the
ring, and what is left of the ring goes in the end.
-/

namespace RingDeque

open Effect

namespace Session

open RingDeque.Ring (Sound Stops)

variable {α : Type} {origin before : Tracked (Ring α) α} {written : Prop}
  {owned : Multiset Nat} {place : Option (Placed α)} {value : α}

/-- An answer that is not a listing. -/
def WalkAnswer.walked? : WalkAnswer α → Option (Traversal.Answer α)
  | .walked answer => some answer
  | .listed _ => none

/-- What a script that looks is answered by a cursor over a list; a copy of the cursor yields what
is between its ends, and the cursor stays where it is. -/
def looked {ι : Type} : List Look → List ι → List (Traversal.Answer ι)
  | [], _ => []
  | .step step :: rest, entries => step.answered entries :: looked rest (step.remaining entries)
  | .rest :: rest, entries => .many entries :: looked rest entries
  | .listing :: rest, entries => looked rest entries

theorem lookScript_answers [Value α] (script : List Look) {walk : Traversal (Item α)}
    (bounded : walk.toList.length < Word.limit) :
    ∃ answers, lookScript script walk = .ok answers ∧
      answers.filterMap WalkAnswer.walked? =
        (looked script walk.toList).map (Traversal.Answer.map Item.value) := by
  induction script generalizing walk with
  | nil => exact ⟨[], rfl, rfl⟩
  | cons look rest ih =>
      cases look with
      | step step =>
          obtain ⟨others, asked, left⟩ := Traversal.answer_exists step bounded
          obtain ⟨answers, ran, told⟩ := @ih others (by rw [left]; exact step.remaining_lt bounded)
          rw [left] at told
          refine ⟨.ofItems (step.answered walk.toList) :: answers, ?_, congrArg (_ :: ·) told⟩
          simp only [lookScript, asked, ran, Checked.ok_bind, Checked.pure_eq_ok]
      | rest =>
          obtain ⟨answers, ran, told⟩ := ih bounded
          refine ⟨.ofItems (.many walk.toList) :: answers, ?_, congrArg (_ :: ·) told⟩
          simp only [lookScript, ran, Checked.ok_bind, Checked.pure_eq_ok]
      | listing =>
          obtain ⟨answers, ran, told⟩ := ih bounded
          refine ⟨.listed (listWalk "Iter" walk) :: answers, ?_, told⟩
          simp only [lookScript, ran, Checked.ok_bind, Checked.pure_eq_ok]

/-- Every place of a walk is a slot that holds an element. -/
def Filled (ring : Ring α) (places : List (Placed α)) : Prop :=
  ∀ placed ∈ places, (ring.block.get? placed.slot).isSome

/-- Overwriting at a place hands the old element back and empties no slot. -/
theorem replacing_ends (sound : Sound True origin owned before.buffer before.ledger)
    (filled : Filled before.buffer place.toList) {halts : Halt → Tracked (Ring α) α → Prop} :
    Ends (overwriteScript.replacing place value) before
      (fun _ after => Sound True origin owned after.buffer after.ledger ∧
        ∀ slot, (before.buffer.block.get? slot).isSome → (after.buffer.block.get? slot).isSome)
      halts := by
  cases place with
  | none => exact ⟨sound, fun _ => id⟩
  | some placed =>
      obtain ⟨old, held⟩ := Option.isSome_iff_exists.mp (filled placed (by simp))
      simp only [overwriteScript.replacing, ends_bind, Act.ends_ledger]
      refine (sound.make_ends value).mono ?_ fun _ _ => id
      intro item ledger ended
      obtain ⟨-, owns⟩ := ended
      obtain ⟨after, replaced, ⟨items, turns, same⟩, keeping⟩ :=
        Ring.overwriteSlot_exists sound.wellFormed held item
      rw [Act.ends_update replaced]
      have exchanged : Sound True origin (ids [old] + owned) after ledger := by
        refine owns.turn turns ?_
        rw [ids_exchange same, ids_cons, ids_nil, add_zero]
      simp only [ends_pure]
      exact exchanged.handBack_ends.mono (fun _ _ given => ⟨given, keeping⟩) fun _ _ => id

/-- What holds of the parts of a script that overwrites, and of all that is put together of such
parts, holds of the script. -/
theorem overwriteScript_of_parts [Value α] {holds : ∀ {γ : Type}, Act (Ring α) α γ → Prop}
    (returning : ∀ {γ : Type} (value : γ), holds (pure value))
    (putTogether : ∀ {γ δ : Type} {act : Act (Ring α) α γ} {next : γ → Act (Ring α) α δ},
      holds act → (∀ value, holds (next value)) → holds (act >>= next))
    (checking : ∀ {γ : Type} (step : Checked γ), holds (liftM step : Act (Ring α) α γ))
    (making : ∀ value : α, holds (liftM (Ledger.make value) : Act (Ring α) α (Item α)))
    (writing : ∀ slot (item : Item α),
      holds (Act.update fun ring : Ring α => ring.overwriteSlot slot item))
    (handingBack : ∀ items : List (Item α),
      holds (liftM (Ledger.handBack items) : Act (Ring α) α Unit))
    (script : List (Overwrite α)) (walk : Traversal (Placed α)) :
    holds (overwriteScript script walk) := by
  have replacing : ∀ (place : Option (Placed α)) value,
      holds (overwriteScript.replacing place value) := by
    intro place value
    cases place with
    | none => exact returning _
    | some place =>
        refine putTogether (making value) fun item => ?_
        refine putTogether (writing place.slot item) fun old => ?_
        exact putTogether (handingBack [old]) fun _ => returning _
  induction script generalizing walk with
  | nil => exact returning _
  | cons first rest ih =>
      cases first with
      | step step =>
          exact putTogether (checking (walk.answer step)) fun _ =>
            putTogether (ih _) fun _ => returning _
      | setNext value =>
          exact putTogether (replacing _ value) fun _ => putTogether (ih _) fun _ => returning _
      | setNextBack value =>
          exact putTogether (replacing _ value) fun _ => putTogether (ih _) fun _ => returning _
      | listing => exact putTogether (ih _) fun _ => returning _

theorem overwriteScript_ends [Value α] {script : List (Overwrite α)} {walk : Traversal (Placed α)}
    (sound : Sound True origin owned before.buffer before.ledger)
    (filled : Filled before.buffer walk.toList) (bounded : walk.toList.length < Word.limit)
    {halts : Halt → Tracked (Ring α) α → Prop} :
    Ends (overwriteScript script walk) before
      (fun _ after => Sound True origin owned after.buffer after.ledger) halts := by
  induction script generalizing before walk with
  | nil => exact sound
  | cons first rest ih =>
      have writing : ∀ (step : Traversal.Step) (value : α) {place others},
          step.answered walk.toList = .one place → others.toList = step.remaining walk.toList →
          Ends (overwriteScript.replacing place value) before
            (fun _ middle => Ends (overwriteScript rest others) middle
              (fun _ after => Sound True origin owned after.buffer after.ledger) halts) halts := by
        intro step value place others taken left
        refine (replacing_ends sound fun placed member => filled placed ?_).mono ?_ fun _ _ => id
        · apply step.mem_of_answered
          rw [taken]
          exact member
        · intro _ middle ended
          obtain ⟨held, keeping⟩ := ended
          apply ih held
          · rw [left]
            exact fun placed member => keeping _ (filled placed (step.mem_of_remaining member))
          · rw [left]
            exact step.remaining_lt bounded
      cases first with
      | step step =>
          obtain ⟨others, asked, left⟩ := Traversal.answer_exists step bounded
          simp only [overwriteScript, asked, liftM_ok, ends_bind, ends_pure]
          apply ih sound
          · rw [left]
            exact fun placed member => filled placed (step.mem_of_remaining member)
          · rw [left]
            exact step.remaining_lt bounded
      | setNext value =>
          simp only [overwriteScript, ends_bind, ends_pure]
          exact writing .next value (congrArg _ walk.next_eq.1.symm) walk.next_eq.2
      | setNextBack value =>
          simp only [overwriteScript, ends_bind, ends_pure]
          exact writing .nextBack value (congrArg _ walk.nextBack_eq.1.symm) walk.nextBack_eq.2
      | listing =>
          simp only [overwriteScript, ends_bind, ends_pure]
          exact ih sound filled bounded

theorem drainScript_ends {script : List Traversal.Step}
    (sound : Sound written origin owned before.buffer before.ledger) :
    Ends (drainScript script) before
      (fun _ after => Sound written origin owned after.buffer after.ledger)
      (fun halt after =>
        Stops written origin True (fun _ => True) owned halt after.buffer after.ledger) := by
  induction script generalizing before with
  | nil => exact sound
  | cons step rest ih =>
      simp only [drainScript, ends_bind, ends_pure, Act.ends_ledger]
      refine (Ring.drain_ends sound step).mono ?_ fun _ _ => id
      intro answer middle held
      refine held.handBack_ends.mono ?_ fun _ _ => id
      intro _ ledger given
      exact ih given

end Session

end RingDeque
