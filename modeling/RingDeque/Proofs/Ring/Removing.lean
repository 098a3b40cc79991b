import RingDeque.Proofs.Ring.Erasing
import RingDeque.Proofs.Ring.Receiving

/-!
Erasure, with what it destroys and what it refuses.

The hole is closed by exchanges that carry the doomed elements to one end. Whichever end that is,
exactly they are destroyed there, each of them once, and the others keep their order. Main
statement: `Ring.erasure_closes`.
-/

namespace RingDeque

open Effect

theorem End.trimmed_flank {β : Type} (side : End) (more items : List β) :
    side.trimmed more.length (side.flank more items) = more := by
  cases side <;> simp [End.trimmed, End.flank]

namespace Ring

variable {α : Type} {ring : Ring α} {ledger : Ledger α} {index count source target : Nat}
  {cursor first last : Cursor} {toward : End}

/-- What the removal of the elements from one logical index up to another leaves, and what it
destroys. -/
structure Sheds (source target : Nat) (before after : Tracked (Ring α) α) : Prop where
  wellFormed : after.buffer.WellFormed
  capacity : after.buffer.capacity = before.buffer.capacity
  toList : after.buffer.toList =
    before.buffer.toList.take source ++ before.buffer.toList.drop target
  destroyed : ∃ gone, gone.Perm ((before.buffer.toList.drop source).take (target - source)) ∧
    after.ledger = before.ledger.discarding gone

theorem sheds_nothing (wellFormed : ring.WellFormed) (index : Nat) (ledger : Ledger α) :
    Sheds index index ⟨ring, ledger⟩ ⟨ring, ledger⟩ := by
  apply Sheds.mk wellFormed rfl (List.take_append_drop index ring.toList).symm
  exact ⟨[], by simp, rfl⟩

theorem gathered_sheds {after : Ring α} {gathered : List (Item α)} {side : End}
    (wellFormed : ring.WellFormed) (bound : index + count ≤ ring.len)
    (becomes : ring.Becomes after (side.flank gathered (ring.without index count)))
    (same : gathered.Perm (ring.doomed index count)) (ledger : Ledger α) :
    Ends (evict side count) ⟨after, ledger⟩
      (fun _ final => Sheds index (index + count) ⟨ring, ledger⟩ final)
      (Interrupted fun cause _ => ledger.FailsAmong (· ∈ ring.doomed index count) cause) := by
  have counted : gathered.length = count := by
    rw [same.length_eq, wellFormed.length_doomed bound]
  have trimmed : side.trimmed count after.toList = gathered := by
    rw [becomes.toList, ← counted, side.trimmed_flank]
  have left : side.trim count after.toList = ring.without index count := by
    rw [becomes.toList, ← counted, side.trim_flank, counted]
  apply (evict_exactly becomes.wellFormed side count ledger).mono
  · intro _ final ended
    rw [trimmed, left] at ended
    obtain ⟨closes, gone, perm, discarded⟩ := ended
    have destroyed : gone.Perm ((ring.toList.drop index).take (index + count - index)) := by
      rw [Nat.add_sub_cancel_left]
      exact perm.trans same
    exact ⟨closes.wellFormed, closes.capacity.trans becomes.capacity, closes.toList, gone,
      destroyed, discarded⟩
  · intro halt final stopped
    apply stopped.mono
    intro cause among
    rw [trimmed] at among
    exact among.mono fun item => same.mem_iff.mp

theorem removeRange_sheds (wellFormed : ring.WellFormed) (bound : index + count ≤ ring.len)
    (tie : End) (ledger : Ledger α) :
    Ends (removeRange index count tie) ⟨ring, ledger⟩
      (fun _ after => Sheds index (index + count) ⟨ring, ledger⟩ after)
      (Interrupted fun cause _ => ledger.FailsAmong (· ∈ ring.doomed index count) cause) := by
  by_cases nothing : count = 0
  · subst nothing
    simp only [removeRange, if_true, ends_pure]
    exact sheds_nothing wellFormed index ledger
  · obtain ⟨after, gathered, same, becomes, ends⟩ :=
      removeRange_gathers wellFormed bound nothing rfl
    rw [ends]
    exact gathered_sheds wellFormed bound becomes same ledger

theorem Sheds.beside {after : Tracked (Ring α) α} (toward : End) (wellFormed : ring.WellFormed)
    (bound : index + count ≤ ring.len) (some : count ≠ 0)
    (sheds : Sheds index (index + count) ⟨ring, ledger⟩ after) :
    ∃ issued, after.buffer.cursorBeside toward index = .ok issued ∧
      after.buffer.Denotes issued (toward.beside index count)
        after.buffer.toList[toward.beside index count]? := by
  obtain ⟨issued, given, points⟩ :=
    cursorBeside_exists toward wellFormed sheds.wellFormed bound some sheds.toList
  exact ⟨issued, given, points.denotes sheds.wellFormed⟩

theorem eraseRange_sheds (wellFormed : ring.WellFormed) (firstAt : ring.resolve first = .ok source)
    (lastAt : ring.resolve last = .ok target) (ordered : source ≤ target) (inside : target ≤ ring.len)
    (ledger : Ledger α) :
    Ends (eraseRange toward first last) ⟨ring, ledger⟩
      (fun issued after => Sheds source target ⟨ring, ledger⟩ after ∧
        after.buffer.Denotes issued (toward.beside source (target - source))
          after.buffer.toList[toward.beside source (target - source)]?)
      (Interrupted fun cause _ =>
        ledger.FailsAmong (· ∈ ring.doomed source (target - source)) cause) := by
  have range : ring.resolveRange first last = .ok (source, target) := by
    rw [resolveRange, firstAt, lastAt]
    exact if_neg (Nat.not_lt_of_le ordered)
  have whole : source + (target - source) = target := Nat.add_sub_cancel' ordered
  simp only [eraseRange, ends_bind, Act.ends_buffer, range, liftM_answer, ends_pure]
  by_cases nothing : source = target
  · subst nothing
    obtain ⟨issued, given, points⟩ := wellFormed.cursorFor_exists source
    rw [Nat.min_eq_left inside] at points
    have beside : toward.beside source (source - source) = source := by
      rw [Nat.sub_self]
      cases toward <;> rfl
    simp only [if_true, ends_bind, Act.ends_buffer, given, liftM_ok, ends_pure, beside]
    exact ⟨sheds_nothing wellFormed source ledger, points.denotes wellFormed⟩
  simp only [if_neg nothing, ends_bind, Word.sub_eq ordered, liftM_ok, ends_pure, Act.ends_buffer]
  apply (removeRange_sheds wellFormed (by omega) toward ledger).mono _ fun _ _ => id
  intro _ after sheds
  obtain ⟨issued, given, denotes⟩ := sheds.beside toward wellFormed (by omega) (by omega)
  rw [whole] at sheds
  simp only [given, liftM_ok, ends_pure]
  exact ⟨sheds, denotes⟩

theorem erase_sheds (wellFormed : ring.WellFormed) (resolved : ring.resolve cursor = .ok index)
    (inside : index < ring.len) (ledger : Ledger α) :
    Ends (erase toward cursor) ⟨ring, ledger⟩
      (fun issued after => Sheds index (index + 1) ⟨ring, ledger⟩ after ∧
        after.buffer.Denotes issued (toward.beside index 1)
          after.buffer.toList[toward.beside index 1]?)
      (Interrupted fun cause _ => ledger.FailsAmong (· ∈ ring.doomed index 1) cause) := by
  have element : ring.resolveElement cursor = .ok index := by
    rw [resolveElement, resolved]
    exact if_neg (Nat.ne_of_lt inside)
  simp only [erase, ends_bind, Act.ends_buffer, element, liftM_answer, ends_pure]
  apply (removeRange_sheds wellFormed inside toward ledger).mono _ fun _ _ => id
  intro _ after sheds
  obtain ⟨issued, given, denotes⟩ :=
    sheds.beside toward wellFormed inside Nat.one_ne_zero
  simp only [given, liftM_ok, ends_pure]
  exact ⟨sheds, denotes⟩

theorem eraseRange_rebuffed {error : Error}
    (refused : ring.resolveRange first last = .error (.refused error)) (ledger : Ledger α) :
    eraseRange toward first last ⟨ring, ledger⟩ = .error (.refused error) ⟨ring, ledger⟩ := by
  have ends : Ends (eraseRange toward first last) ⟨ring, ledger⟩ (fun _ _ => False)
      fun halt after => halt = .refused error ∧ after = ⟨ring, ledger⟩ := by
    simp only [eraseRange, ends_bind, Act.ends_buffer, refused]
    exact ⟨rfl, rfl⟩
  obtain ⟨halt, after, ran, rfl, rfl⟩ := ends.halted fun _ _ => id
  exact ran

theorem erase_rebuffed {error : Error}
    (refused : ring.resolveElement cursor = .error (.refused error)) (ledger : Ledger α) :
    erase toward cursor ⟨ring, ledger⟩ = .error (.refused error) ⟨ring, ledger⟩ := by
  have ends : Ends (erase toward cursor) ⟨ring, ledger⟩ (fun _ _ => False)
      fun halt after => halt = .refused error ∧ after = ⟨ring, ledger⟩ := by
    simp only [erase, ends_bind, Act.ends_buffer, refused]
    exact ⟨rfl, rfl⟩
  obtain ⟨halt, after, ran, rfl, rfl⟩ := ends.halted fun _ _ => id
  exact ran

/-- Erasure removes and destroys exactly the elements from one cursor up to another, unless the
destruction of one of them fails. It is refused if the cursors are not accepted, stand the wrong way
round, or stand where there is no element, and then changes nothing. -/
theorem erasure_closes (toward : End) (wellFormed : ring.WellFormed) (ledger : Ledger α) :
    (∀ first last source target, ring.resolve first = .ok source → ring.resolve last = .ok target →
      target ≤ ring.len → source ≤ target →
      Ends (eraseRange toward first last) ⟨ring, ledger⟩
        (fun issued after => Sheds source target ⟨ring, ledger⟩ after ∧
          after.buffer.Denotes issued (toward.beside source (target - source))
            after.buffer.toList[toward.beside source (target - source)]?)
        (Interrupted fun cause _ =>
          ledger.FailsAmong (· ∈ ring.doomed source (target - source)) cause)) ∧
    (∀ cursor index, ring.resolve cursor = .ok index → index < ring.len →
      Ends (erase toward cursor) ⟨ring, ledger⟩
        (fun issued after => Sheds index (index + 1) ⟨ring, ledger⟩ after ∧
          after.buffer.Denotes issued (toward.beside index 1)
            after.buffer.toList[toward.beside index 1]?)
        (Interrupted fun cause _ => ledger.FailsAmong (· ∈ ring.doomed index 1) cause)) ∧
    (∀ first last source target, ring.resolve first = .ok source → ring.resolve last = .ok target →
      target < source →
      eraseRange toward first last ⟨ring, ledger⟩ =
        .error (.refused (.invalidRange source target)) ⟨ring, ledger⟩) ∧
    (∀ first last, ring.registry.accepts first = false ∨
        (∃ source, ring.resolve first = .ok source) ∧ ring.registry.accepts last = false →
      eraseRange toward first last ⟨ring, ledger⟩ =
        .error (.refused .invalidCursor) ⟨ring, ledger⟩) ∧
    (∀ cursor, ring.registry.accepts cursor = false →
      erase toward cursor ⟨ring, ledger⟩ = .error (.refused .invalidCursor) ⟨ring, ledger⟩) ∧
    (∀ cursor, ring.resolve cursor = .ok ring.len →
      erase toward cursor ⟨ring, ledger⟩ = .error (.refused .endOfBuffer) ⟨ring, ledger⟩) := by
  refine ⟨?_, ?_, ?_, ?_, ?_, ?_⟩
  · intro first last source target firstAt lastAt inside ordered
    exact eraseRange_sheds wellFormed firstAt lastAt ordered inside ledger
  · intro cursor index resolved inside
    exact erase_sheds wellFormed resolved inside ledger
  · intro first last source target firstAt lastAt crossed
    apply eraseRange_rebuffed
    rw [resolveRange, firstAt, lastAt]
    exact if_pos crossed
  · intro first last void
    apply eraseRange_rebuffed
    rcases void with void | ⟨⟨source, firstAt⟩, void⟩
    · rw [resolveRange, resolve_refused void]
      rfl
    · rw [resolveRange, firstAt, resolve_refused void]
      rfl
  · intro cursor void
    apply erase_rebuffed
    rw [resolveElement, resolve_refused void]
    rfl
  · intro cursor final
    apply erase_rebuffed
    rw [resolveElement, final]
    exact if_pos rfl

/-- The two middle elements of four go, and the cursor is one to the first element; then the last
element of four goes, and the cursor is one past the others. -/
theorem erasure_closes_turned :
    let ledger : Ledger Nat := { Ledger.blank (.below 16) with created := 4 }
    let second : Cursor := ⟨0, some 3, 0, 0⟩
    let fourth : Cursor := ⟨0, some 1, 0, 0⟩
    (∃ issued after, eraseRange .front second fourth ⟨turned, ledger⟩ = .ok issued after ∧
      after.buffer.toList = [⟨0, 10⟩, ⟨3, 40⟩] ∧ after.buffer.resolve issued = .ok 0 ∧
      after.ledger.destroyed.Perm [⟨1, 20⟩, ⟨2, 30⟩]) ∧
    (∃ issued after, erase .back fourth ⟨turned, ledger⟩ = .ok issued after ∧
      after.buffer.toList = [⟨0, 10⟩, ⟨1, 20⟩, ⟨2, 30⟩] ∧ issued.isEnd = true) ∧
    eraseRange .front fourth second ⟨turned, ledger⟩ =
      .error (.refused (.invalidRange 3 1)) ⟨turned, ledger⟩ ∧
    eraseRange .front second ⟨0, some 1, 0, 1⟩ ⟨turned, ledger⟩ =
      .error (.refused .invalidCursor) ⟨turned, ledger⟩ ∧
    erase .front ⟨1, some 1, 0, 0⟩ ⟨turned, ledger⟩ =
      .error (.refused .invalidCursor) ⟨turned, ledger⟩ ∧
    erase .front ⟨0, none, 0, 0⟩ ⟨turned, ledger⟩ =
      .error (.refused .endOfBuffer) ⟨turned, ledger⟩ := by
  intro ledger second fourth
  -- As long as the ring is a variable, no step of the proof runs the operations on it.
  obtain ⟨ring, same⟩ : ∃ ring, ring = turned := ⟨_, rfl⟩
  have secondAt : ring.resolve second = .ok 1 := by rw [same]; rfl
  have fourthAt : ring.resolve fourth = .ok 3 := by rw [same]; rfl
  have wellFormed : ring.WellFormed := same ▸ turned_wellFormed
  obtain ⟨ranges, -, crossed, void, voidElement, final⟩ := erasure_closes .front wellFormed ledger
  obtain ⟨-, elements, -⟩ := erasure_closes .back wellFormed ledger
  rw [← same]
  refine ⟨?_, ?_, ?_, ?_, ?_, ?_⟩
  · obtain ⟨issued, after, ran, sheds, denotes⟩ :=
      (ranges second fourth 1 3 secondAt fourthAt (by rw [same]; decide) (by decide)).returned
        fun _ _ => Ledger.unfailing rfl
    obtain ⟨gone, perm, discarded⟩ := sheds.destroyed
    refine ⟨issued, after, ran, ?_, denotes.resolves, ?_⟩
    · rw [sheds.toList, same, turned_toList]
      rfl
    · have record : after.ledger.destroyed = gone.reverse := by
        rw [discarded]
        exact List.append_nil _
      rw [same, turned_toList] at perm
      exact record ▸ (List.reverse_perm gone).trans perm
  · obtain ⟨issued, after, ran, sheds, denotes⟩ :=
      (elements fourth 3 fourthAt (by rw [same]; decide)).returned
        fun _ _ => Ledger.unfailing rfl
    have listed : after.buffer.toList = [⟨0, 10⟩, ⟨1, 20⟩, ⟨2, 30⟩] := by
      rw [sheds.toList, same, turned_toList]
      rfl
    exact ⟨issued, after, ran, listed, by rw [denotes.isEnd, listed]; rfl⟩
  · exact crossed fourth second 3 1 fourthAt secondAt (by decide)
  · exact void second ⟨0, some 1, 0, 1⟩ (.inr ⟨⟨1, secondAt⟩, by rw [same]; rfl⟩)
  · exact voidElement ⟨1, some 1, 0, 0⟩ (by rw [same]; rfl)
  · exact final ⟨0, none, 0, 0⟩ (by rw [same]; rfl)

end Ring

end RingDeque
