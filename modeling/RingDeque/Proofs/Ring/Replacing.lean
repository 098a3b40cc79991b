import RingDeque.Proofs.Ring.Inserting
import RingDeque.Proofs.Ring.Making
import RingDeque.Proofs.Ring.Storing
import RingDeque.Ring.Iteration

/-!
Operations that change the contents as a whole, and those that take the elements out one by one.

They keep the ring and the ledger in agreement wherever they are cut short. What a replacement takes
down last is the old block, when the new contents are in place.
-/

namespace RingDeque.Ring

open Effect

variable {α : Type} {written : Prop} {origin before : Tracked (Ring α) α}
  {owned : Multiset Nat} {refuses : Error → Prop} {model : Item α} {yields side : End}
  {supply : Supply α} {feed : Feed α}

/-- A halted operation whose reason is left open. -/
theorem Stops.anyhow {breaks : Prop} {halt : Halt} {ring : Ring α} {ledger : Ledger α}
    (stops : Stops written origin breaks refuses owned halt ring ledger) :
    Stops written origin True (fun _ => True) owned halt ring ledger :=
  stops.mono (fun _ => trivial) fun _ _ => trivial

/-- Growing to a length that the capacity allows: the copies come in at the end that does not
yield. -/
theorem growing_ends {n : Nat}
    (sound : Sound written origin ({model.id} + owned) before.buffer before.ledger)
    (short : before.buffer.len ≤ n) (room : n ≤ before.buffer.capacity) :
    Ends (do
        let len := (← Act.buffer).len
        let count ← Word.sub n len
        let index := match yields with
          | .front => len
          | .back => 0
        let _ ← insertEntries yields index count (List.replicate count (.copyOf model))
        pure ()) before
      (fun _ after =>
        Sound written origin ({model.id} + owned) after.buffer after.ledger ∧ True)
      (fun halt after => Stops written origin True (fun _ => True) ({model.id} + owned) halt
        after.buffer after.ledger) := by
  have fits := sound.wellFormed.fits
  simp only [ends_bind, Act.ends_buffer, Word.sub_eq short, liftM_ok, ends_pure]
  cases yields with
  | front =>
      exact (insertEntries_ends (fun _ => False) sound (Nat.le_refl _) (by
        simp only [End.roomAt]
        omega)).mono (fun _ _ ended => ⟨ended.1, trivial⟩) fun _ _ stops => stops.anyhow
  | back =>
      exact (insertEntries_ends (fun _ => False) sound (Nat.zero_le _) (by
        simp only [End.roomAt]
        omega)).mono (fun _ _ ended => ⟨ended.1, trivial⟩) fun _ _ stops => stops.anyhow

theorem resize_ends {n : Nat}
    (sound : Sound written origin ({model.id} + owned) before.buffer before.ledger) :
    Ends (resize yields n model) before
      (fun _ after => Sound written origin owned after.buffer after.ledger)
      (fun halt after =>
        Stops written origin True (fun _ => True) owned halt after.buffer after.ledger) := by
  refine (consuming_ends (fun ring => ring) (fun _ _ => True) ?_).mono
    (fun _ _ ended => ended.1) fun _ _ => id
  simp only [ends_bind, Act.ends_buffer]
  by_cases short : before.buffer.len < n
  · simp only [if_pos short]
    by_cases tight : before.buffer.capacity < n
    · simp only [if_pos tight]
      rw [ends_bind]
      refine (setCapacity_ends _ _ sound yields n fun _ => trivial).mono ?_
        fun _ _ stopped => stopped.1
      intro _ middle leaves
      have kept := leaves.len
      rw [Nat.sub_eq_zero_of_le (by omega), yields.trim_zero, sound.wellFormed.length_toList] at kept
      exact growing_ends leaves.sound (by omega) (by rw [leaves.sized])
    · simp only [if_neg tight]
      exact growing_ends sound (by omega) (by omega)
  · simp only [if_neg short]
    exact (evict_ends sound yields _).mono (fun _ _ leaves => ⟨leaves.sound, trivial⟩) fun _ _ => id

/-- A replacement of the contents changes the block last, or refills it in place. -/
theorem replaceContents_ends (refuses : Error → Prop)
    (sound : Sound written origin owned before.buffer before.ledger) (capacity : Nat)
    (scarce : origin.ledger.Scarce capacity → refuses (.allocationFailed capacity)) :
    Ends (replaceContents capacity supply) before
      (fun _ after => Sound written origin owned after.buffer after.ledger ∧
        after.buffer.capacity = capacity)
      (fun halt after => Stops written origin (.breaks ∈ supply.entries) refuses owned halt
        after.buffer after.ledger) := by
  simp only [replaceContents, ends_bind, Act.ends_buffer]
  by_cases same : capacity = before.buffer.capacity
  · simp only [if_pos same, ends_bind]
    refine (clear_ends _ _ sound).mono ?_ fun _ _ => id
    intro _ middle leaves
    refine (extend_ends _ leaves.sound supply.entries).mono ?_ fun _ _ => id
    intro _ after ended
    obtain ⟨new, -, final⟩ := ended
    exact ⟨final.sound, final.sized.trans (leaves.sized.trans same.symm)⟩
  · simp only [if_neg same, ends_bind, Act.ends_ledger, Act.ends_report, Act.ends_become]
    refine (ofSupply_ends _ sound.keeps capacity supply scarce).mono ?_
      fun _ _ fails => ⟨fails.due, sound.step fails.keeps⟩
    intro fresh ledger ended
    obtain ⟨made, sized, -⟩ := ended
    have turned := adopt_turnsInto before.buffer written made.wellFormed
    have adopted : Sound written origin (ids before.buffer.toList + owned)
        (before.buffer.adopt fresh).voided ledger :=
      ⟨turned.wellFormed, sound.ages.trans turned.ages, by
        rw [turned.toList]
        exact made.keeps⟩
    rw [sound.wellFormed.destroy_eq]
    exact (adopted.reporting _).destroyRun_ends.mono
      (fun _ _ gone => ⟨gone, turned.sized.trans sized⟩) fun _ _ => id

theorem assign_ends {n : Nat}
    (sound : Sound written origin ({model.id} + owned) before.buffer before.ledger) :
    Ends (assign n model) before
      (fun _ after => Sound written origin owned after.buffer after.ledger)
      (fun halt after =>
        Stops written origin True (fun _ => True) owned halt after.buffer after.ledger) := by
  refine (consuming_ends (fun ring => ring) (fun _ _ => True) ?_).mono
    (fun _ _ ended => ended.1) fun _ _ => id
  simp only [ends_bind, Act.ends_buffer]
  exact (replaceContents_ends (fun _ => True) sound _ fun _ => trivial).mono
    (fun _ _ ended => ⟨ended.1, trivial⟩) fun _ _ stops => stops.anyhow

theorem assignWithin_ends {capacity n : Nat}
    (sound : Sound written origin ({model.id} + owned) before.buffer before.ledger) :
    Ends (assignWithin capacity n model) before
      (fun _ after => Sound written origin owned after.buffer after.ledger)
      (fun halt after =>
        Stops written origin True (fun _ => True) owned halt after.buffer after.ledger) := by
  refine (consuming_ends (fun ring => ring) (fun _ _ => True) ?_).mono
    (fun _ _ ended => ended.1) fun _ _ => id
  by_cases small : capacity < n
  · simp only [if_pos small, ends_bind, ends_refuse]
    exact ⟨.refusal trivial, sound⟩
  · simp only [if_neg small]
    exact (replaceContents_ends (fun _ => True) sound _ fun _ => trivial).mono
      (fun _ _ ended => ⟨ended.1, trivial⟩) fun _ _ stops => stops.anyhow

theorem assignFeed_ends (sound : Sound written origin owned before.buffer before.ledger) :
    Ends (assignFeed feed) before
      (fun _ after => Sound written origin owned after.buffer after.ledger)
      (fun halt after =>
        Stops written origin True (fun _ => True) owned halt after.buffer after.ledger) := by
  simp only [assignFeed, ends_bind, Act.ends_buffer]
  exact (replaceContents_ends (fun _ => True) sound _ fun _ => trivial).mono (fun _ _ ended => ended.1)
    fun _ _ stops => stops.anyhow

theorem assignFeedWithin_ends {capacity : Nat}
    (sound : Sound written origin owned before.buffer before.ledger) :
    Ends (assignFeedWithin capacity feed) before
      (fun _ after => Sound written origin owned after.buffer after.ledger)
      (fun halt after =>
        Stops written origin True (fun _ => True) owned halt after.buffer after.ledger) :=
  (replaceContents_ends (fun _ => True) sound _ fun _ => trivial).mono (fun _ _ ended => ended.1)
    fun _ _ stops => stops.anyhow

/-- An element taken out belongs to whoever runs the operation; those before it are destroyed. -/
theorem takeNth_ends (sound : Sound written origin owned before.buffer before.ledger)
    (skipped : Nat) :
    Ends (takeNth side skipped) before
      (fun taken after =>
        Sound written origin (ids taken.toList + owned) after.buffer after.ledger)
      (fun halt after =>
        Stops written origin True (fun _ => True) owned halt after.buffer after.ledger) := by
  induction skipped generalizing before with
  | zero =>
      simp only [takeNth]
      exact (pop_ends sound side).mono (fun _ _ popped => popped.2.sound) fun _ _ => id
  | succ skipped ih =>
      simp only [takeNth, ends_bind]
      refine (pop_ends sound side).mono ?_ fun _ _ => id
      intro popped middle ended
      obtain ⟨-, leaves⟩ := ended
      cases popped with
      | none => exact leaves.sound
      | some item =>
          simp only [ends_bind, Act.ends_ledger]
          have held : Sound written origin ({item.id} + owned) middle.buffer middle.ledger :=
            leaves.sound.of_eq (by simp)
          exact held.destroy_ends.mono (fun _ ledger gone => ih
            gone) fun _ _ => id

theorem takeMany_ends (sound : Sound written origin owned before.buffer before.ledger)
    (count : Nat) {halts : Halt → Tracked (Ring α) α → Prop} :
    Ends (takeMany side count) before
      (fun taken after => Sound written origin (ids taken + owned) after.buffer after.ledger)
      halts := by
  induction count generalizing before owned with
  | zero => exact sound.of_eq (by simp)
  | succ count ih =>
      simp only [takeMany, ends_bind]
      refine (pop_ends sound side).mono ?_ fun _ _ => id
      intro popped middle ended
      obtain ⟨-, leaves⟩ := ended
      cases popped with
      | none => exact leaves.sound
      | some item =>
          simp only [ends_bind, ends_pure]
          refine (ih leaves.sound).mono ?_ fun _ _ => id
          intro taken after final
          refine final.of_eq ?_
          simp only [Option.toList_some, ids_cons, ids_nil]
          abel

theorem drain_ends (sound : Sound written origin owned before.buffer before.ledger)
    (step : Traversal.Step) :
    Ends (drain step) before
      (fun answer after =>
        Sound written origin (ids answer.taken + owned) after.buffer after.ledger)
      (fun halt after =>
        Stops written origin True (fun _ => True) owned halt after.buffer after.ledger) := by
  have nothing : ∀ {ring : Ring α} {ledger : Ledger α}, Sound written origin owned ring ledger →
      Sound written origin (ids ([] : List (Item α)) + owned) ring ledger :=
    fun sound => sound.of_eq (by simp)
  cases step with
  | next | nextBack | nth | nthBack =>
      simp only [drain, ends_bind, ends_pure]
      exact takeNth_ends sound _
  | length | bounds =>
      simp only [drain, ends_bind, Act.ends_buffer, ends_pure]
      exact nothing sound
  | rest | reversed =>
      simp only [drain, ends_bind, Act.ends_buffer, ends_pure]
      exact takeMany_ends sound _

end RingDeque.Ring
