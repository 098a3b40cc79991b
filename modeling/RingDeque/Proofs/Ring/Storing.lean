import RingDeque.Proofs.Ring.Housing
import RingDeque.Proofs.Ring.Supplying

/-!
Operations on the block as a whole.

Elements that are given up are destroyed when the ring is in its final state already, so a failing
destruction leaves the same ring as one that succeeds.
-/

namespace RingDeque

namespace End

variable {β : Type} {items : List β}

theorem perm_trimmed_trim (side : End) (count : Nat) (items : List β) :
    items.Perm (side.trimmed count items ++ side.trim count items) := by
  cases side with
  | front => exact .of_eq (List.take_append_drop _ _).symm
  | back => exact (List.Perm.of_eq (List.take_append_drop _ _).symm).trans List.perm_append_comm

theorem trimmed_zero (side : End) : side.trimmed 0 items = [] := by
  cases side <;> simp [trimmed]

end End

namespace Ring

open Effect

variable {α : Type} {written : Prop} {origin before : Tracked (Ring α) α} {ring : Ring α}
  {owned : Multiset Nat} {refuses : Error → Prop} {breaks : Prop}

/-- An emptied ring does not depend on the ledger, and what it held is destroyed as one run. -/
theorem clear_exists (written : Prop) (wellFormed : ring.WellFormed) :
    ∃ after, ring.TurnsInto written after ring.capacity [] ∧
      after.registry = ring.registry.invalidateAll ∧
      ∀ (ledger : Ledger α) returns halts, Ends clear ⟨ring, ledger⟩ returns halts ↔
        Ends (Ledger.destroyRun ring.toList) ledger (fun _ left => returns ⟨⟩ ⟨after, left⟩)
          fun halt left => halts halt ⟨after, left⟩ := by
  obtain ⟨front, back, after, stepped, parts, turns, registry⟩ :=
    emptied_exists written wellFormed
  refine ⟨after, turns, registry, ?_⟩
  intro ledger returns halts
  simp only [clear, ends_bind, Act.ends_update_mk stepped, Act.ends_ledger, Ledger.destroyRuns_eq,
    parts]

theorem clear_ends (breaks : Prop) (refuses : Error → Prop)
    (sound : Sound written origin owned before.buffer before.ledger) :
    Ends clear before
      (fun _ after =>
        Leaves written origin owned before.buffer.capacity [] after.buffer after.ledger)
      (fun halt after =>
        Stops written origin breaks refuses owned halt after.buffer after.ledger) := by
  obtain ⟨cleared, turns, -, clears⟩ := clear_exists written sound.wellFormed
  have held : Sound written origin (ids before.buffer.toList + owned) cleared before.ledger :=
    sound.turn turns (by simp)
  apply (clears before.ledger _ _).mpr
  exact held.destroyRun_ends.mono (fun _ _ gone => ⟨gone, turns.sized, turns.toList⟩) fun _ _ => id

/-- The number of elements that a smaller block has no room for. -/
theorem TurnsInto.given {after : Ring α} {capacity : Nat} {trim : End}
    (turns : ring.TurnsInto written after capacity (trim.trim (ring.len - capacity) ring.toList))
    (wellFormed : ring.WellFormed) : Word.sub ring.len after.len = .ok (ring.len - capacity) := by
  have kept := congrArg List.length turns.toList
  rw [turns.wellFormed.length_toList, End.length_trim, wellFormed.length_toList] at kept
  rw [Word.sub_eq (by omega)]
  congr 1
  omega

/-- A change of capacity that is granted moves the elements, reports that, and then destroys those
that found no room as one run. -/
theorem ends_setCapacity {capacity : Nat} {ledger : Ledger α}
    {returns : PUnit → Tracked (Ring α) α → Prop} {halts : Halt → Tracked (Ring α) α → Prop}
    (wellFormed : ring.WellFormed) (trim : End) (other : capacity ≠ ring.capacity)
    (granted : ¬ ledger.Scarce capacity → ∀ after,
      ring.TurnsInto written after capacity (trim.trim (ring.len - capacity) ring.toList) →
      Ends (Ledger.destroyRun (trim.trimmed (ring.len - capacity) ring.toList))
        { ledger with events := ledger.events ++
          [.reallocated ring.capacity capacity after.len (ring.len - capacity)] }
        (fun _ left => returns ⟨⟩ ⟨after, left⟩) fun halt left => halts halt ⟨after, left⟩)
    (refused : ledger.Scarce capacity →
      halts (.refused (.allocationFailed capacity)) ⟨ring, ledger⟩) :
    Ends (setCapacity trim capacity) ⟨ring, ledger⟩ returns halts := by
  simp only [setCapacity, ends_bind, Act.ends_buffer, if_neg other, Act.ends_ledger]
  apply Ledger.ends_allocating _ refused
  intro plenty block stamps sized vacant counted
  obtain ⟨front, back, after, stepped, parts, turns, -⟩ :=
    rehouse_exists written wellFormed trim vacant (counted.trans sized.symm)
  rw [sized] at parts turns
  simp only [Act.ends_update_mk stepped, turns.given wellFormed, liftM_ok, ends_pure,
    Act.ends_report, Ledger.destroyRuns_eq, parts]
  exact granted plenty after turns

/-- A change of capacity trims what does not fit. It halts with the ring as it was, or because of an
element that was trimmed. -/
theorem setCapacity_ends (breaks : Prop) (refuses : Error → Prop)
    (sound : Sound written origin owned before.buffer before.ledger) (trim : End) (capacity : Nat)
    (scarce : origin.ledger.Scarce capacity → refuses (.allocationFailed capacity)) :
    Ends (setCapacity trim capacity) before
      (fun _ after => Leaves written origin owned capacity
        (trim.trim (before.buffer.len - capacity) before.buffer.toList) after.buffer after.ledger)
      (fun halt after =>
        Stops written origin breaks refuses owned halt after.buffer after.ledger ∧
        ((∃ error, halt = .refused error) ∧ after = before ∨ capacity < before.buffer.len)) := by
  have fits := sound.wellFormed.fits
  by_cases same : capacity = before.buffer.capacity
  · simp only [setCapacity, ends_bind, Act.ends_buffer, if_pos same, ends_pure]
    rw [same, Nat.sub_eq_zero_of_le fits, trim.trim_zero]
    exact .refl sound
  apply ends_setCapacity sound.wellFormed trim same
  · intro _ after turns
    have held : Sound written origin
        (ids (trim.trimmed (before.buffer.len - capacity) before.buffer.toList) + owned)
        after before.ledger := by
      refine sound.turn turns ?_
      rw [ids_perm (trim.perm_trimmed_trim (before.buffer.len - capacity) before.buffer.toList),
        ids_append]
      abel
    by_cases room : before.buffer.len ≤ capacity
    · rw [Nat.sub_eq_zero_of_le room, trim.trimmed_zero] at held ⊢
      rw [Nat.sub_eq_zero_of_le room] at turns
      simp only [Ledger.destroyRun, ends_pure]
      exact ⟨(held.of_eq (by simp)).reporting _, turns.sized, turns.toList⟩
    · exact (Sound.destroyRun_ends (held.reporting _)).mono
        (fun _ _ gone => ⟨gone, turns.sized, turns.toList⟩)
        fun _ _ stops => ⟨stops, .inr (Nat.lt_of_not_le room)⟩
  · intro lacking
    rw [sound.keeps.scarce] at lacking
    exact ⟨⟨.refusal (scarce lacking), sound⟩, .inl ⟨⟨_, rfl⟩, rfl⟩⟩

/-- A change of capacity that trims nothing moves the elements, and it is refused only if a block of
that size cannot be had. -/
theorem setCapacity_exactly {capacity : Nat} (wellFormed : ring.WellFormed)
    (trim : End) (other : capacity ≠ ring.capacity) (room : ring.len ≤ capacity)
    (ledger : Ledger α) :
    Ends (setCapacity trim capacity) ⟨ring, ledger⟩
      (fun _ after => ring.TurnsInto False after.buffer capacity ring.toList ∧
        after.ledger = { ledger with events :=
          ledger.events ++ [.reallocated ring.capacity capacity after.buffer.len 0] })
      (fun halt after => halt = .refused (.allocationFailed capacity) ∧ ledger.Scarce capacity ∧
        after = ⟨ring, ledger⟩) := by
  apply ends_setCapacity wellFormed trim other
  · intro _ after turns
    rw [Nat.sub_eq_zero_of_le room] at turns ⊢
    rw [trim.trim_zero] at turns
    rw [trim.trimmed_zero]
    simp only [Ledger.destroyRun, ends_pure]
    exact ⟨turns, trivial⟩
  · exact fun scarce => ⟨rfl, scarce, rfl⟩

/-- A ring whose elements lie in one run is left alone. -/
theorem ends_linearize_linear (wellFormed : before.buffer.WellFormed)
    (linear : before.buffer.start + before.buffer.len ≤ before.buffer.capacity)
    {returns : List (Item α) → Tracked (Ring α) α → Prop}
    {halts : Halt → Tracked (Ring α) α → Prop} :
    Ends linearize before returns halts ↔ returns before.buffer.toList before := by
  obtain ⟨answer, asked, fitting⟩ := wellFormed.isLinear_exists
  obtain rfl : answer = true := fitting.mpr linear
  simp only [linearize, ends_bind, Act.ends_buffer, asked, liftM_ok, ends_pure, if_true,
    wellFormed.runs_of_start linear]

/-- A ring whose elements lie in two runs is turned until the first of them comes to the first
slot. -/
theorem ends_linearize_wrapped (before : Tracked (Ring α) α) {moved : Nat} {block : Block (Item α)}
    (wellFormed : before.buffer.WellFormed)
    (wrapped : before.buffer.capacity < before.buffer.start + before.buffer.len)
    (rotated : before.buffer.block.rotateLeft before.buffer.start = .ok (moved, block))
    (turns : before.buffer.TurnsInto written
      { before.buffer with
        block, start := 0, registry := before.buffer.registry.invalidateElements }
      before.buffer.capacity before.buffer.toList)
    {returns : List (Item α) → Tracked (Ring α) α → Prop}
    {halts : Halt → Tracked (Ring α) α → Prop} :
    Ends linearize before returns halts ↔
      returns before.buffer.toList ⟨
        { before.buffer with
          block, start := 0, registry := before.buffer.registry.invalidateElements },
        { before.ledger with events := before.ledger.events ++
          [.rotated before.buffer.capacity before.buffer.len before.buffer.start] }⟩ := by
  obtain ⟨answer, asked, fitting⟩ := wellFormed.isLinear_exists
  obtain rfl : answer = false := by
    rw [← Bool.not_eq_true, fitting]
    omega
  have run : 0 + before.buffer.len ≤ Ring.capacity
      { before.buffer with
        block, start := 0, registry := before.buffer.registry.invalidateElements } := by
    rw [turns.sized, Nat.zero_add]
    exact wellFormed.fits
  have read := turns.wellFormed.runs_of_start run
  rw [turns.toList] at read
  simp only [linearize, ends_bind, Act.ends_buffer, asked, liftM_ok, ends_pure,
    Bool.false_eq_true, if_false, rotated, Act.ends_report, Act.ends_become, read]

/-- Bringing the elements into one run never halts, and that run is the contents. -/
theorem linearize_ends (sound : Sound written origin owned before.buffer before.ledger)
    {halts : Halt → Tracked (Ring α) α → Prop} :
    Ends linearize before
      (fun items after => items = before.buffer.toList ∧
        after.buffer.start + after.buffer.len ≤ after.buffer.capacity ∧
        Leaves written origin owned before.buffer.capacity before.buffer.toList after.buffer
          after.ledger) halts := by
  have wellFormed := sound.wellFormed
  by_cases linear : before.buffer.start + before.buffer.len ≤ before.buffer.capacity
  · rw [ends_linearize_linear wellFormed linear]
    exact ⟨rfl, linear, .refl sound⟩
  · obtain ⟨moved, block, rotated, turns⟩ := rotated_exists written wellFormed
    rw [ends_linearize_wrapped before wellFormed (Nat.lt_of_not_le linear) rotated turns]
    refine ⟨rfl, ?_, (sound.turn turns rfl).reporting _, turns.sized, turns.toList⟩
    rw [turns.sized]
    exact (Nat.zero_add _).trans_le wellFormed.fits

end Ring

end RingDeque
