import RingDeque.Proofs.Ring.Replacing
import RingDeque.Proofs.Ring.Retaining

/-!
Which elements keep their cursors when an action on the whole ring returns.

A new block or new contents void every cursor to an element. Growing in the block that is there
voids none, nor does writing in place.
-/

namespace RingDeque.Ring

open Effect

variable {α : Type} {before : Tracked (Ring α) α} {ring : Ring α} {owned : Multiset Nat}
  {yields : End} {item model : Item α} {slot index : Nat}

theorem setCapacity_generation {capacity : Nat} (trim : End)
    (other : capacity ≠ before.buffer.capacity) :
    Ends (setCapacity trim capacity) before
      (fun _ after => before.buffer.registry.generation < after.buffer.registry.generation)
      fun _ _ => True := by
  simp only [setCapacity, ends_bind, Act.ends_buffer, if_neg other, Act.ends_ledger]
  refine Ends.anyhow (fun block middle => ?_) fun _ _ => trivial
  refine Ends.anyhow (fun stamps ledger => ?_) fun _ _ => trivial
  have rehoused : Ends (Act.update (rehouse trim block stamps)) ⟨before.buffer, ledger⟩
      (fun _ after => before.buffer.registry.generation < after.buffer.registry.generation)
      fun _ _ => True := by
    apply Act.returns_update
    refine .past fun trimmed => .past fun moved => .past fun target => ?_
    exact .past fun slot => .past fun runs => .of_ok (Nat.lt_succ_self _)
  refine rehoused.mono ?_ fun _ _ => id
  intro runs after newer
  cases Word.sub before.buffer.len after.buffer.len with
  | error fault => trivial
  | ok trimmed =>
      simp only [liftM_ok, ends_pure, Act.ends_report]
      exact Ends.anyhow (fun _ _ => newer) fun _ _ => trivial

theorem setCapacity_sparing (trim : End) (capacity : Nat) :
    Sparing (setCapacity trim capacity) before fun _ => capacity = before.buffer.capacity := by
  by_cases same : capacity = before.buffer.capacity
  · have kept : Sparing (setCapacity trim capacity) before fun _ => True := by
      apply sparing_all
      simp only [setCapacity, ends_bind, Act.ends_buffer, if_pos same, ends_pure]
    exact kept.congr fun _ _ => ⟨fun _ => same, fun _ => trivial⟩
  · exact (sparing_none (setCapacity_generation trim same)).congr fun _ _ => ⟨False.elim, same⟩

theorem clear_generation :
    Ends clear before
      (fun _ after => before.buffer.registry.generation < after.buffer.registry.generation)
      fun _ _ => True := by
  have emptied : Ends (Act.update emptied) before
      (fun _ after => before.buffer.registry.generation < after.buffer.registry.generation)
      fun _ _ => True := by
    apply Act.returns_update
    exact .past fun taken => .of_ok (Nat.lt_succ_self _)
  simp only [clear, ends_bind, Act.ends_ledger]
  refine emptied.mono ?_ fun _ _ => id
  intro runs after newer
  exact Ends.anyhow (fun _ _ => newer) fun _ _ => trivial

theorem clear_sparing : Sparing clear before fun _ => False :=
  sparing_none clear_generation

/-- Bringing the elements into one run voids all cursors, unless they lie in one already. -/
theorem linearize_sparing (wellFormed : before.buffer.WellFormed) :
    Sparing linearize before fun _ =>
      before.buffer.start + before.buffer.len ≤ before.buffer.capacity := by
  by_cases linear : before.buffer.start + before.buffer.len ≤ before.buffer.capacity
  · have kept : Sparing linearize before fun _ => True :=
      sparing_all ((ends_linearize_linear wellFormed linear).mpr rfl)
    exact kept.congr fun _ _ => ⟨fun _ => linear, fun _ => trivial⟩
  · obtain ⟨moved, block, rotated, turns⟩ := rotated_exists True wellFormed
    have voided : Sparing linearize before fun _ => False :=
      sparing_none ((ends_linearize_wrapped before wellFormed (Nat.lt_of_not_le linear) rotated
        turns).mpr (Nat.lt_succ_self _))
    exact voided.congr fun _ _ => ⟨False.elim, linear⟩

theorem pushBack_generation (item : Item α) :
    (ring.pushBack item).Gives fun pushed =>
      pushed.2.registry.generation = ring.registry.generation := by
  simp only [pushBack]
  split
  · exact .of_ok rfl
  split
  · exact .past fun start => .past fun replaced => .of_ok rfl
  · exact .past fun slot => .past fun block => .past fun len => .of_ok rfl

theorem takeIn_generation (entry : Entry α) :
    Ends (takeIn entry) before
      (fun _ after => after.buffer.registry.generation = before.buffer.registry.generation)
      fun _ _ => True := by
  simp only [takeIn, ends_bind, Act.ends_ledger]
  refine Ends.anyhow (fun item ledger => ?_) fun _ _ => trivial
  have pushed : Ends (Act.update (pushBack · item)) ⟨before.buffer, ledger⟩
      (fun _ after => after.buffer.registry.generation = before.buffer.registry.generation)
      fun _ _ => True := Act.returns_update (pushBack_generation item)
  refine pushed.mono ?_ fun _ _ => id
  intro evicted middle same
  cases evicted with
  | none => exact same
  | some item =>
      simp only [Act.ends_ledger]
      exact Ends.anyhow (fun _ _ => same) fun _ _ => trivial

theorem extend_generation (entries : List (Entry α)) :
    Ends (extend entries) before
      (fun _ after => after.buffer.registry.generation = before.buffer.registry.generation)
      fun _ _ => True := by
  induction entries generalizing before with
  | nil => rfl
  | cons entry rest ih =>
      rw [extend_cons, ends_bind]
      refine (takeIn_generation entry).mono ?_ fun _ _ => id
      intro _ middle same
      exact same ▸ ih

theorem replaceContents_sparing (capacity : Nat) (supply : Supply α) :
    Sparing (replaceContents capacity supply) before fun _ => False := by
  apply sparing_none
  simp only [replaceContents, ends_bind, Act.ends_buffer]
  by_cases same : capacity = before.buffer.capacity
  · simp only [if_pos same, ends_bind]
    refine clear_generation.mono ?_ fun _ _ => id
    intro _ middle newer
    refine (extend_generation supply.entries).mono ?_ fun _ _ => id
    intro _ after later
    rw [later]
    exact newer
  · simp only [if_neg same, ends_bind, Act.ends_ledger, Act.ends_report, Act.ends_become]
    exact Ends.anyhow (fun fresh _ => Ends.anyhow (fun _ _ => Nat.lt_succ_self _)
      fun _ _ => trivial) fun _ _ => trivial

theorem assign_sparing {n : Nat} : Sparing (assign n model) before fun _ => False := by
  refine Act.returns_consuming (fun _ after => ∀ place < before.buffer.len,
    (before.buffer.Retains after (before.buffer.place place) ↔ False)) ?_
  simp only [ends_bind, Act.ends_buffer]
  exact replaceContents_sparing _ _

theorem assignWithin_sparing {capacity n : Nat} :
    Sparing (assignWithin capacity n model) before fun _ => False := by
  refine Act.returns_consuming (fun _ after => ∀ place < before.buffer.len,
    (before.buffer.Retains after (before.buffer.place place) ↔ False)) ?_
  by_cases small : capacity < n
  · simp only [if_pos small, ends_bind, ends_refuse]
  · simp only [if_neg small]
    exact replaceContents_sparing _ _

theorem assignFeed_sparing {feed : Feed α} : Sparing (assignFeed feed) before fun _ => False := by
  simp only [Sparing, assignFeed, ends_bind, Act.ends_buffer]
  exact replaceContents_sparing _ _

/-- Where the elements are after one was pushed behind them. -/
theorem pushBack_places (wellFormed : ring.WellFormed) (item : Item α) :
    (ring.pushBack item).Gives fun pushed => ∀ cell < ring.len,
      ring.len + 1 - ring.capacity ≤ cell → pushed.2.capacity = ring.capacity →
        pushed.2.place (cell - (ring.len + 1 - ring.capacity)) = ring.place cell := by
  have fits := wellFormed.fits
  have sited := wellFormed.sited
  have starts := wellFormed.starts
  simp only [pushBack, isFull, beq_iff_eq]
  by_cases empty : ring.capacity = 0
  · rw [if_pos empty]
    exact .of_ok fun cell held => by omega
  rw [if_neg empty]
  by_cases full : ring.len = ring.capacity
  · simp only [if_pos full, Slot.next_eq (show ring.start < ring.capacity by omega)
      ring.capacity_lt_word, Checked.ok_bind]
    refine .past fun replaced => .of_ok fun cell held left sized => ?_
    have same : Slot.wrapped ring.capacity (cell - (ring.len + 1 - ring.capacity) + 1) = cell := by
      rw [Slot.wrapped, if_pos (by omega)]
      omega
    rw [place_of_turn sited sized rfl (by omega) (by omega), same]
  · rw [if_neg full]
    refine .past fun slot => .past fun block => .past fun len => .of_ok fun cell held left sized => ?_
    rw [show ring.len + 1 - ring.capacity = 0 by omega, Nat.sub_zero]
    exact congrArg (Slot.wrapped · (ring.start + cell)) sized

/-- A ring that has taken in `count` elements behind its own. If there was no room for them all, the
first elements have left. -/
structure Appends (count : Nat) (before after : Ring α) : Prop where
  wellFormed : after.WellFormed
  ages : Ages False before after
  capacity : after.capacity = before.capacity
  len : after.len = min (before.len + count) before.capacity
  retains : ∀ cell < before.len, (before.Retains after (before.place cell) ↔
    before.len + count - before.capacity ≤ cell)
  places : ∀ cell < before.len, before.len + count - before.capacity ≤ cell →
    after.place (cell - (before.len + count - before.capacity)) = before.place cell

theorem Appends.refl (wellFormed : ring.WellFormed) : Appends 0 ring ring where
  wellFormed := wellFormed
  ages := .refl ring
  capacity := rfl
  len := (Nat.min_eq_left wellFormed.fits).symm
  retains := by
    intro cell held
    have fits := wellFormed.fits
    exact ⟨fun _ => by omega, fun _ => .of_registry rfl⟩
  places := by
    intro cell held left
    have fits := wellFormed.fits
    congr 1
    omega

theorem Appends.trans {first second : Nat} {middle after : Ring α} (wellFormed : ring.WellFormed)
    (before : Appends first ring middle) (later : Appends second middle after) :
    Appends (first + second) ring after := by
  have fits := wellFormed.fits
  have longer := before.len
  have sized := before.capacity
  -- As many leave in two turns as leave at once.
  have whole : ring.len + (first + second) - ring.capacity =
      ring.len + first - ring.capacity + (middle.len + second - middle.capacity) := by omega
  refine ⟨later.wellFormed, before.ages.trans later.ages, later.capacity.trans sized,
    by rw [later.len]; omega, ?_, ?_⟩
  · intro cell held
    rw [retains_trans before.ages later.ages (wellFormed.slot_known held), before.retains cell held,
      whole]
    by_cases left : ring.len + first - ring.capacity ≤ cell
    · rw [← before.places cell held left, later.retains _ (by omega)]
      omega
    · constructor
      · rintro ⟨remains, -⟩
        omega
      · intro remains
        omega
  · intro cell held left
    rw [whole] at left ⊢
    rw [Nat.sub_add_eq, later.places _ (by omega) (by omega), before.places cell held (by omega)]

theorem pushBack_appends (wellFormed : ring.WellFormed) {item : Item α}
    {evicted : Option (Item α)} {after : Ring α}
    (pushed : ring.pushBack item = .ok (evicted, after)) : Appends 1 ring after := by
  have fits := wellFormed.fits
  have length := wellFormed.length_toList
  obtain ⟨last, ran, becomes⟩ := pushBack_exists wellFormed item
  rw [pushed] at ran
  cases ran
  refine ⟨becomes.wellFormed, becomes.ages, becomes.capacity, ?_, ?_, ?_⟩
  · rw [becomes.len, End.pushed_back_eq (by omega), End.kept, End.trim, List.length_drop,
      List.length_append, List.length_singleton]
    omega
  · intro cell held
    rw [pushBack_retains wellFormed item _ pushed cell held, End.Leaves]
    omega
  · exact fun cell held left =>
      pushBack_places wellFormed item _ pushed cell held left becomes.capacity

theorem takeIn_appends (wellFormed : before.buffer.WellFormed) (entry : Entry α) :
    Ends (takeIn entry) before (fun _ after => Appends 1 before.buffer after.buffer)
      fun _ _ => True := by
  simp only [takeIn, ends_bind, Act.ends_ledger]
  refine Ends.anyhow (fun item ledger => ?_) fun _ _ => trivial
  obtain ⟨after, pushed, -⟩ := pushBack_exists wellFormed item
  have appends := pushBack_appends wellFormed pushed
  rw [Act.ends_update pushed]
  split
  · exact appends
  · simp only [Act.ends_ledger]
    exact Ends.anyhow (fun _ _ => appends) fun _ _ => trivial

theorem extend_appends (wellFormed : before.buffer.WellFormed) (entries : List (Entry α)) :
    Ends (extend entries) before
      (fun _ after => Appends entries.length before.buffer after.buffer) fun _ _ => True := by
  induction entries generalizing before with
  | nil => exact .refl wellFormed
  | cons entry rest ih =>
      rw [extend_cons, ends_bind]
      refine (takeIn_appends wellFormed entry).mono ?_ fun _ _ => id
      intro _ middle first
      refine (ih first.wellFormed).mono ?_ fun _ _ => id
      intro _ after later
      rw [List.length_cons, Nat.add_comm]
      exact first.trans wellFormed later

/-- Pushing elements behind the others voids the cursors to as many as have to give way. -/
theorem extend_sparing (wellFormed : before.buffer.WellFormed) (entries : List (Entry α)) :
    Sparing (extend entries) before fun place =>
      before.buffer.len + entries.length - before.buffer.capacity ≤ place :=
  (extend_appends wellFormed entries).mono (fun _ _ => Appends.retains) fun _ _ => id

/-- Growing in the block that is there moves no element: the copies come in at one of its ends. -/
theorem growing_sparing {n : Nat} (wellFormed : before.buffer.WellFormed)
    (short : before.buffer.len ≤ n) (room : n ≤ before.buffer.capacity) :
    Sparing (do
        let len := (← Act.buffer).len
        let count ← Word.sub n len
        let index := match yields with
          | .front => len
          | .back => 0
        let _ ← insertEntries yields index count (List.replicate count (.copyOf model))
        pure ()) before fun _ => True := by
  have fits := wellFormed.fits
  simp only [Sparing, ends_bind, Act.ends_buffer, Word.sub_eq short, liftM_ok, ends_pure]
  have whole : before.buffer.len + (n - before.buffer.len) - before.buffer.capacity = 0 := by omega
  cases yields with
  | front =>
      refine Sparing.congr (insertEntries_sparing wellFormed (Nat.le_refl _) ?_
        (Nat.le_of_eq List.length_replicate.symm)) ?_
      · simp only [End.roomAt]
        omega
      · refine fun place held => ⟨fun _ => trivial, fun _ => .inr ?_⟩
        have side : End.shorter before.buffer.len 0 End.front.opposite = .back := by
          rw [End.shorter, if_neg (by omega), if_pos (by omega)]
        simp only [whole, End.Leaves, End.shifted, Nat.sub_zero, Nat.sub_self, Nat.zero_le, true_and,
          side]
        exact held
  | back =>
      refine Sparing.congr (insertEntries_sparing wellFormed (Nat.zero_le _) ?_
        (Nat.le_of_eq List.length_replicate.symm)) ?_
      · simp only [End.roomAt]
        omega
      · refine fun place held => ⟨fun _ => trivial, fun _ => .inr ?_⟩
        have side : End.shorter 0 before.buffer.len End.back.opposite = .front := by
          rw [End.shorter, if_pos (by omega)]
        simp only [whole, End.Leaves, End.shifted, Nat.sub_zero, side]
        exact ⟨held, Nat.zero_le place⟩

/-- Agreement of ring and ledger, from here on. -/
theorem Sound.afresh {origin : Tracked (Ring α) α} {written : Prop} {ledger : Ledger α}
    (sound : Sound written origin owned ring ledger) :
    Sound False ⟨ring, ledger⟩ owned ring ledger :=
  ⟨sound.wellFormed, .refl ring, .refl ledger, sound.keeps.balanced⟩

/-- Resizing to fewer elements voids the cursors to those that go, and resizing to more than the
block has room for those to all. -/
theorem resize_sparing {origin : Tracked (Ring α) α} {written : Prop} {n : Nat}
    (sound : Sound written origin ({model.id} + owned) before.buffer before.ledger) :
    Sparing (resize yields n model) before fun place =>
      if before.buffer.len < n then n ≤ before.buffer.capacity
      else yields.Leaves before.buffer.len (before.buffer.len - n) place := by
  have wellFormed := sound.wellFormed
  refine Act.returns_consuming (fun _ after => ∀ place < before.buffer.len,
    (before.buffer.Retains after (before.buffer.place place) ↔
      if before.buffer.len < n then n ≤ before.buffer.capacity
      else yields.Leaves before.buffer.len (before.buffer.len - n) place)) ?_
  simp only [ends_bind, Act.ends_buffer]
  by_cases short : before.buffer.len < n
  · simp only [if_pos short]
    by_cases tight : before.buffer.capacity < n
    · simp only [if_pos tight]
      refine Sparing.congr (sparing_none ?_) fun _ _ => ⟨False.elim, fun room => by omega⟩
      rw [ends_bind]
      refine ((setCapacity_ends True (fun _ => True) sound yields n fun _ => trivial).and
        (setCapacity_generation yields (show n ≠ before.buffer.capacity by omega))).mono ?_
          fun _ _ _ => trivial
      rintro _ middle ⟨leaves, newer⟩
      have kept := leaves.len
      rw [Nat.sub_eq_zero_of_le (by omega), yields.trim_zero, wellFormed.length_toList] at kept
      refine (growing_ends leaves.sound.afresh (by omega) (by rw [leaves.sized])).mono ?_
        fun _ _ _ => trivial
      rintro _ after ⟨grown, -⟩
      exact Nat.lt_of_lt_of_le newer grown.ages.generation
    · simp only [if_neg tight]
      exact (growing_sparing wellFormed (by omega) (by omega)).congr
        fun _ _ => ⟨fun _ => by omega, fun _ => trivial⟩
  · simp only [if_neg short]
    exact evict_sparing wellFormed yields _

theorem overwrite_registry (index : Nat) (item : Item α) :
    (ring.overwrite index item).Gives fun replaced => replaced.2.registry = ring.registry :=
  .past fun _ => .past fun _ => .of_ok rfl

theorem overwriteSlot_registry (slot : Nat) (item : Item α) :
    (ring.overwriteSlot slot item).Gives fun replaced => replaced.2.registry = ring.registry :=
  .past fun _ => .of_ok rfl

theorem overwriteFrom_registry (index : Nat) (items : List (Item α)) :
    (ring.overwriteFrom index items).Gives fun after => after.registry = ring.registry := by
  induction items generalizing ring index with
  | nil => exact .of_ok rfl
  | cons item rest ih =>
      refine (overwrite_registry index item).bind fun replaced same => .past fun next => ?_
      rw [← same]
      exact ih next

theorem reverseRuns_registry :
    ring.reverseRuns.Gives fun after => after.registry = ring.registry :=
  .past fun _ => overwriteFrom_registry 0 _

end RingDeque.Ring
