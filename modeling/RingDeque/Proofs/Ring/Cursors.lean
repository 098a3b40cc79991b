import RingDeque.Proofs.Outcome
import RingDeque.Proofs.Ring.Aging
import RingDeque.Proofs.Ring.Reading

/-!
Cursors of a well formed ring.

The ring issues a cursor for every logical index, accepts it at once and resolves it to that index.
A cursor that the ring vouches for can be asked about: the answer is a logical index or a refusal.
-/

namespace RingDeque

/-- A cursor as rings issue them: the one past the last element carries no stamp. -/
def Cursor.Regular (cursor : Cursor) : Prop :=
  cursor.slot = none → cursor.stamp = 0

namespace Ring

variable {α : Type} {ring : Ring α} {index : Nat} {cursor first second : Cursor}

/-- A cursor that the ring issues for a logical index up to the length. -/
structure Points (ring : Ring α) (cursor : Cursor) (index : Nat) : Prop where
  issued : ring.cursorFor index = .ok cursor
  inside : index ≤ ring.len

/-- A cursor that the ring issues for some logical index. -/
def Issues (ring : Ring α) (cursor : Cursor) : Prop :=
  ∃ index, ring.Points cursor index

theorem Points.issues (points : ring.Points cursor index) : ring.Issues cursor :=
  ⟨index, points⟩

theorem WellFormed.cursorFor_eq (wellFormed : ring.WellFormed) (index : Nat) :
    ring.cursorFor index =
      .ok (if ring.len ≤ index then ring.finish else ring.registry.slotCursor (ring.place index)) := by
  simp only [cursorFor]
  by_cases beyond : ring.len ≤ index
  · rw [if_pos beyond, if_pos beyond]
    rfl
  · rw [if_neg beyond, if_neg beyond, slotOf_eq wellFormed.sited]
    rfl

theorem WellFormed.cursorFor_exists (wellFormed : ring.WellFormed) (index : Nat) :
    ∃ cursor, ring.cursorFor index = .ok cursor ∧ ring.Points cursor (min index ring.len) := by
  refine ⟨_, wellFormed.cursorFor_eq index, ?_, Nat.min_le_right _ _⟩
  rw [wellFormed.cursorFor_eq]
  by_cases beyond : ring.len ≤ index
  · rw [if_pos beyond, if_pos (by omega)]
  · rw [if_neg beyond, if_neg (by omega), Nat.min_eq_left (by omega)]

theorem WellFormed.points_finish (wellFormed : ring.WellFormed) :
    ring.Points ring.finish ring.len :=
  ⟨by rw [wellFormed.cursorFor_eq, if_pos (Nat.le_refl _)], Nat.le_refl _⟩

theorem WellFormed.issues_finish (wellFormed : ring.WellFormed) : ring.Issues ring.finish :=
  wellFormed.points_finish.issues

namespace Points

theorem eq (points : ring.Points cursor index) (wellFormed : ring.WellFormed) :
    cursor =
      if ring.len ≤ index then ring.finish else ring.registry.slotCursor (ring.place index) := by
  have issued := points.issued
  rw [wellFormed.cursorFor_eq] at issued
  exact (Except.ok.inj issued).symm

theorem vouches (points : ring.Points cursor index) (wellFormed : ring.WellFormed) :
    ring.Vouches cursor := by
  rw [points.eq wellFormed]
  split
  · exact ring.vouches_finish
  · exact wellFormed.vouches_slotCursor (by omega)

theorem owner (points : ring.Points cursor index) (wellFormed : ring.WellFormed) :
    cursor.owner = ring.registry.owner := by
  rw [points.eq wellFormed]
  split <;> rfl

theorem slot (points : ring.Points cursor index) (wellFormed : ring.WellFormed) :
    cursor.slot = if index = ring.len then none else some (ring.place index) := by
  have inside := points.inside
  rw [points.eq wellFormed]
  by_cases final : index = ring.len
  · rw [if_pos (by omega), if_pos final]
    rfl
  · rw [if_neg (by omega), if_neg final]
    rfl

theorem regular (points : ring.Points cursor index) (wellFormed : ring.WellFormed) :
    cursor.Regular := by
  rw [points.eq wellFormed]
  split
  · exact fun _ => rfl
  · exact fun vacant => nomatch vacant

theorem accepted (points : ring.Points cursor index) (wellFormed : ring.WellFormed) :
    ring.registry.accepts cursor = true := by
  have inside := points.inside
  have fits := wellFormed.fits
  rw [points.eq wellFormed]
  by_cases final : ring.len ≤ index
  · rw [if_pos final]
    simp [finish, Registry.accepts, Registry.endCursor]
  · have within : ring.place index < ring.registry.stamps.size := by
      rw [wellFormed.stamped]
      exact place_lt wellFormed.sited (by omega)
    obtain ⟨stamp, found⟩ := Stamps.exists_get? within
    rw [if_neg final]
    simp [Registry.accepts, Registry.slotCursor, found]

theorem resolve (points : ring.Points cursor index) (wellFormed : ring.WellFormed) :
    ring.resolve cursor = .ok index := by
  have inside := points.inside
  have fits := wellFormed.fits
  obtain ⟨found, bound, resolved, stands⟩ :=
    wellFormed.resolve_exists (points.vouches wellFormed) (points.accepted wellFormed)
  rw [points.slot wellFormed] at stands
  rw [resolved]
  congr 1
  rcases stands with ⟨vacant, atEnd⟩ | ⟨same, live⟩
  · split at vacant
    · omega
    · contradiction
  · split at same
    · contradiction
    · exact (place_injective (by omega) (by omega) (Option.some.inj same)).symm

theorem eq_of_resolve {place : Nat} (points : ring.Points cursor index)
    (wellFormed : ring.WellFormed) (resolved : ring.resolve cursor = .ok place) : place = index :=
  Except.ok.inj (resolved.symm.trans (points.resolve wellFormed))

theorem resolveElement (points : ring.Points cursor index) (wellFormed : ring.WellFormed)
    (inside : index < ring.len) : ring.resolveElement cursor = .ok index := by
  rw [Ring.resolveElement, points.resolve wellFormed]
  exact if_neg (Nat.ne_of_lt inside)

theorem resolveElement_refused (points : ring.Points cursor ring.len)
    (wellFormed : ring.WellFormed) :
    ring.resolveElement cursor = .error (.refused .endOfBuffer) := by
  rw [Ring.resolveElement, points.resolve wellFormed]
  exact if_pos rfl

variable {source target : Nat}

theorem resolveRange (firstPoints : ring.Points first source)
    (secondPoints : ring.Points second target) (wellFormed : ring.WellFormed)
    (ordered : source ≤ target) : ring.resolveRange first second = .ok (source, target) := by
  rw [Ring.resolveRange, firstPoints.resolve wellFormed, secondPoints.resolve wellFormed]
  exact if_neg (Nat.not_lt_of_le ordered)

theorem resolveRange_refused (firstPoints : ring.Points first source)
    (secondPoints : ring.Points second target) (wellFormed : ring.WellFormed)
    (crossed : target < source) :
    ring.resolveRange first second = .error (.refused (.invalidRange source target)) := by
  rw [Ring.resolveRange, firstPoints.resolve wellFormed, secondPoints.resolve wellFormed]
  exact if_pos crossed

end Points

/-- A cursor that a ring vouches for resolves to a logical index, or is refused as void. -/
theorem WellFormed.resolve_cases (wellFormed : ring.WellFormed) (vouched : ring.Vouches cursor) :
    (∃ index ≤ ring.len, ring.resolve cursor = .ok index) ∨
      ring.resolve cursor = .error (.refused .invalidCursor) := by
  cases accepted : ring.registry.accepts cursor with
  | true =>
      obtain ⟨index, bound, resolved, -⟩ := wellFormed.resolve_exists vouched accepted
      exact .inl ⟨index, bound, resolved⟩
  | false => exact .inr (resolve_refused accepted)

open Query

theorem WellFormed.resolve_yields (wellFormed : ring.WellFormed) (vouched : ring.Vouches cursor) :
    Yields (ring.resolve cursor) fun index => index ≤ ring.len := by
  rcases wellFormed.resolve_cases vouched with ⟨index, bound, resolved⟩ | refused
  · rw [resolved]
    exact bound
  · rw [refused]
    trivial

theorem WellFormed.resolveElement_cases (wellFormed : ring.WellFormed)
    (vouched : ring.Vouches cursor) :
    (∃ index < ring.len, ring.resolveElement cursor = .ok index ∧
      ring.resolve cursor = .ok index) ∨
      ∃ error, ring.resolveElement cursor = .error (.refused error) := by
  rcases wellFormed.resolve_cases vouched with ⟨index, bound, resolved⟩ | refused
  · by_cases final : index = ring.len
    · refine .inr ⟨.endOfBuffer, ?_⟩
      rw [resolveElement, resolved]
      exact if_pos final
    · refine .inl ⟨index, by omega, ?_, resolved⟩
      rw [resolveElement, resolved]
      exact if_neg final
  · refine .inr ⟨.invalidCursor, ?_⟩
    rw [resolveElement, refused]
    rfl

theorem WellFormed.resolveRange_cases (wellFormed : ring.WellFormed)
    (firstVouched : ring.Vouches first) (secondVouched : ring.Vouches second) :
    (∃ source target, source ≤ target ∧ target ≤ ring.len ∧
      ring.resolveRange first second = .ok (source, target)) ∨
      ∃ error, ring.resolveRange first second = .error (.refused error) := by
  rcases wellFormed.resolve_cases firstVouched with ⟨source, sourceBound, sourceFound⟩ | refused
  · rcases wellFormed.resolve_cases secondVouched with ⟨target, targetBound, targetFound⟩ | refused
    · by_cases crossed : target < source
      · refine .inr ⟨.invalidRange source target, ?_⟩
        rw [resolveRange, sourceFound, targetFound]
        exact if_pos crossed
      · refine .inl ⟨source, target, by omega, targetBound, ?_⟩
        rw [resolveRange, sourceFound, targetFound]
        exact if_neg crossed
    · refine .inr ⟨.invalidCursor, ?_⟩
      rw [resolveRange, sourceFound, refused]
      rfl
  · refine .inr ⟨.invalidCursor, ?_⟩
    rw [resolveRange, refused]
    rfl

theorem WellFormed.cursorFor_yields (wellFormed : ring.WellFormed) (index : Nat) :
    Yields (liftM (ring.cursorFor index)) ring.Issues := by
  obtain ⟨cursor, issued, points⟩ := wellFormed.cursorFor_exists index
  rw [issued, Query.liftM_ok, yields_pure]
  exact points.issues

theorem WellFormed.cursorAt_yields (wellFormed : ring.WellFormed) (index : Nat) :
    Yields (ring.cursorAt index) ring.Issues := by
  simp only [cursorAt]
  by_cases beyond : ring.len < index
  · simp only [if_pos beyond, yields_refuse]
  · simp only [if_neg beyond]
    exact wellFormed.cursorFor_yields index

theorem WellFormed.locate_yields (wellFormed : ring.WellFormed) (vouched : ring.Vouches cursor) :
    Yields (ring.locate cursor) fun found => ring.toList[found.1]? = some found.2 := by
  simp only [locate, yields_bind]
  refine (wellFormed.resolve_yields vouched).mono fun index _ => ?_
  rw [wellFormed.get?_eq, Query.liftM_ok, yields_pure]
  cases found : ring.toList[index]? with
  | none => exact yields_refuse
  | some item => exact found

theorem WellFormed.elementUnder_yields (wellFormed : ring.WellFormed)
    (vouched : ring.Vouches cursor) : Yields (ring.elementUnder cursor) fun _ => True := by
  simp only [elementUnder, yields_bind]
  exact (wellFormed.locate_yields vouched).mono fun _ _ => trivial

theorem WellFormed.offset_yields (wellFormed : ring.WellFormed) (vouched : ring.Vouches cursor)
    (n : Int) : Yields (ring.offset cursor n) ring.Issues := by
  simp only [offset, yields_bind]
  refine (wellFormed.resolve_yields vouched).mono fun index _ => ?_
  cases Word.addSigned? index n with
  | none => exact yields_refuse
  | some target =>
      by_cases inside : target ≤ ring.len
      · simp only [if_pos inside]
        exact wellFormed.cursorFor_yields target
      · simp only [if_neg inside]
        exact yields_refuse

theorem accepts_of_resolve (resolved : ring.resolve cursor = .ok index) :
    ring.registry.accepts cursor = true := by
  by_contra rejected
  rw [resolve_refused (by simpa using rejected)] at resolved
  cases resolved

theorem positionIndex_of_resolve (resolved : ring.resolve cursor = .ok index) :
    Slot.positionIndex cursor.slot ring.start ring.len ring.capacity = .ok index := by
  simp only [Ring.resolve, accepts_of_resolve resolved, if_true] at resolved
  cases position : Slot.positionIndex cursor.slot ring.start ring.len ring.capacity with
  | ok found =>
      rw [position] at resolved
      exact congrArg Except.ok (Except.ok.inj resolved)
  | error fault =>
      rw [position] at resolved
      cases resolved

theorem WellFormed.distance_eq {source target : Nat} (wellFormed : ring.WellFormed)
    (sourceFound : ring.resolve first = .ok source) (sourceBound : source ≤ ring.len)
    (targetFound : ring.resolve second = .ok target) (targetBound : target ≤ ring.len) :
    ring.distance first second = .ok ((target : Int) - source) := by
  have small : ring.len < Word.limit / 2 := by
    have word := wellFormed.capacity_double_lt_word
    have fits := wellFormed.fits
    simp only [Word.limit] at word ⊢
    omega
  have both : (ring.registry.accepts first && ring.registry.accepts second) = true :=
    Bool.and_eq_true_iff.mpr ⟨accepts_of_resolve sourceFound, accepts_of_resolve targetFound⟩
  have steps : Slot.distance first.slot second.slot ring.start ring.len ring.capacity =
      .ok ((target : Int) - source) :=
    Slot.distance_eq
      (positionIndex_of_resolve sourceFound) (Nat.lt_of_le_of_lt sourceBound small)
      (positionIndex_of_resolve targetFound) (Nat.lt_of_le_of_lt targetBound small)
  rw [distance, if_pos both, steps]
  rfl

theorem distance_refused
    (rejected : ring.registry.accepts first = false ∨ ring.registry.accepts second = false) :
    ring.distance first second = .error (.refused .invalidCursor) := by
  have either : ¬ (ring.registry.accepts first && ring.registry.accepts second) = true := by
    rcases rejected with rejected | rejected <;> simp [rejected]
  exact if_neg either

theorem WellFormed.distance_yields (wellFormed : ring.WellFormed)
    (firstVouched : ring.Vouches first) (secondVouched : ring.Vouches second) :
    Yields (ring.distance first second) fun _ => True := by
  by_cases accepted : (ring.registry.accepts first && ring.registry.accepts second) = true
  · have both := Bool.and_eq_true_iff.mp accepted
    obtain ⟨source, sourceBound, sourceFound, -⟩ :=
      wellFormed.resolve_exists firstVouched both.1
    obtain ⟨target, targetBound, targetFound, -⟩ :=
      wellFormed.resolve_exists secondVouched both.2
    rw [wellFormed.distance_eq sourceFound sourceBound targetFound targetBound]
    exact trivial
  · rw [distance_refused (Bool.and_eq_false_iff.mp (eq_false_of_ne_true accepted))]
    exact trivial

theorem WellFormed.compareCursors_yields (wellFormed : ring.WellFormed)
    (firstVouched : ring.Vouches first) (secondVouched : ring.Vouches second) :
    Yields (ring.compareCursors first second) fun _ => True := by
  simp only [compareCursors, yields_bind]
  exact (wellFormed.distance_yields firstVouched secondVouched).mono fun _ _ => trivial

end Ring

end RingDeque
