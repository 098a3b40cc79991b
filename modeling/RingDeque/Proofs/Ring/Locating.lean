import RingDeque.Proofs.Ring.Cursors

/-!
Cursors as logical indices.

A cursor that a ring accepts is the very cursor that the ring would issue now for the index where it
stands, so equal cursors are those of equal indices, and arithmetic on cursors is arithmetic on
indices.
-/

namespace RingDeque.Ring

variable {α : Type} {ring : Ring α} {cursor moved first second : Cursor}
  {index source target : Nat} {item : Item α}

/-- A cursor that stands at an element is the one that the ring issues for it. -/
theorem WellFormed.points_of_resolve (wellFormed : ring.WellFormed)
    (resolved : ring.resolve cursor = .ok index) (inside : index < ring.len) :
    ring.Points cursor index := by
  have accepted := accepts_of_resolve resolved
  simp only [resolve, accepted, if_true] at resolved
  simp only [Registry.accepts, Bool.and_eq_true, beq_iff_eq] at accepted
  obtain ⟨owner, current⟩ := accepted
  cases stands : cursor.slot with
  | none =>
      rw [stands] at resolved
      cases resolved
      omega
  | some slot =>
      simp only [stands, Bool.and_eq_true, beq_iff_eq] at current
      obtain ⟨generation, stamp⟩ := current
      have known : slot < ring.registry.stamps.size := (Array.getElem?_eq_some_iff.mp stamp).1
      rw [wellFormed.stamped] at known
      obtain ⟨place, placeInside, rfl⟩ := exists_place wellFormed.sited known
      rw [stands, Slot.positionIndex, offsetFrom_place wellFormed.sited placeInside] at resolved
      obtain rfl : place = index := Except.ok.inj resolved
      refine ⟨?_, Nat.le_of_lt inside⟩
      rw [wellFormed.cursorFor_eq, if_neg (Nat.not_le_of_lt inside), Registry.slotCursor, stamp,
        ← owner, ← generation, ← stands]
      rfl

/-- A cursor that a ring issued once and accepts now is the one that it issues for some index. -/
theorem WellFormed.issues_of_accepted (wellFormed : ring.WellFormed)
    (vouched : ring.Vouches cursor) (regular : cursor.Regular)
    (accepted : ring.registry.accepts cursor = true) : ring.Issues cursor := by
  obtain ⟨index, bound, resolved, ⟨vacant, rfl⟩ | ⟨-, inside⟩⟩ :=
    wellFormed.resolve_exists vouched accepted
  · simp only [Registry.accepts, vacant, Bool.and_eq_true, beq_iff_eq] at accepted
    have same : cursor = ring.finish := by
      cases cursor
      simp only at vacant accepted
      rw [finish, Registry.endCursor, Cursor.mk.injEq]
      exact ⟨accepted.1, vacant, accepted.2, regular vacant⟩
    exact same ▸ wellFormed.issues_finish
  · exact (wellFormed.points_of_resolve resolved inside).issues

/-- The cursor of an index, given or refused. -/
theorem WellFormed.cursorAt_points (wellFormed : ring.WellFormed) (inside : index ≤ ring.len) :
    ∃ cursor, ring.cursorAt index = .ok cursor ∧ ring.Points cursor index := by
  obtain ⟨cursor, found, points⟩ := wellFormed.cursorFor_exists index
  rw [Nat.min_eq_left inside] at points
  refine ⟨cursor, ?_, points⟩
  rw [cursorAt, if_neg (Nat.not_lt_of_le inside), found, Query.liftM_ok]
  rfl

theorem cursorAt_refused (beyond : ring.len < index) :
    ring.cursorAt index = .error (.refused (.indexOutOfRange index ring.len)) := by
  rw [cursorAt, if_pos beyond]
  rfl

theorem WellFormed.elementUnder_eq (wellFormed : ring.WellFormed)
    (resolved : ring.resolve cursor = .ok index) (listed : ring.toList[index]? = some item) :
    ring.elementUnder cursor = .ok item := by
  simp only [elementUnder, locate, resolved, Query.ok_bind, wellFormed.get?_eq, Query.liftM_ok,
    pure_bind, listed]
  rfl

theorem WellFormed.elementUnder_refused (wellFormed : ring.WellFormed)
    (resolved : ring.resolve cursor = .ok ring.len) :
    ring.elementUnder cursor = .error (.refused .endOfBuffer) := by
  have beyond : ring.toList[ring.len]? = none := by
    rw [List.getElem?_eq_none]
    exact Nat.le_of_eq wellFormed.length_toList
  simp only [elementUnder, locate, resolved, Query.ok_bind, wellFormed.get?_eq, Query.liftM_ok,
    pure_bind, beyond]
  rfl

namespace Points

theorem cursorAt (points : ring.Points cursor index) : ring.cursorAt index = .ok cursor := by
  rw [Ring.cursorAt, if_neg (Nat.not_lt_of_le points.inside), points.issued, Query.liftM_ok]
  rfl

theorem eq_iff (one : ring.Points first source) (other : ring.Points second target)
    (wellFormed : ring.WellFormed) : first = second ↔ source = target := by
  constructor
  · intro same
    subst same
    exact other.eq_of_resolve wellFormed (one.resolve wellFormed)
  · intro same
    subst same
    exact Except.ok.inj (one.issued.symm.trans other.issued)

/-- A cursor that is moved within the ring is the cursor of the sum. -/
theorem offset (points : ring.Points cursor index) (wellFormed : ring.WellFormed) {n : Int}
    (sum : (target : Int) = index + n) (inside : target ≤ ring.len) :
    ring.offset cursor n = ring.cursorAt target := by
  have word := wellFormed.capacity_double_lt_word
  have fits := wellFormed.fits
  have reached : Word.addSigned? index n = some target := by
    rw [Word.addSigned?, ← sum, if_pos (by omega), Int.toNat_natCast]
  rw [Ring.offset, points.resolve wellFormed, Ring.cursorAt, if_neg (Nat.not_lt_of_le inside)]
  simp only [Query.ok_bind, reached, if_pos inside]

theorem offset_refused (points : ring.Points cursor index) (wellFormed : ring.WellFormed) {n : Int}
    (outside : ¬ (0 ≤ index + n ∧ index + n ≤ ring.len)) :
    ring.offset cursor n = .error (.refused (.cursorOutOfRange index n ring.len)) := by
  rw [Ring.offset, points.resolve wellFormed]
  simp only [Query.ok_bind]
  cases reached : Word.addSigned? index n with
  | none => rfl
  | some target =>
      simp only [Word.addSigned?] at reached
      split at reached
      · cases reached
        exact if_neg (by omega)
      · cases reached

theorem distance (one : ring.Points first source) (other : ring.Points second target)
    (wellFormed : ring.WellFormed) :
    ring.distance first second = .ok ((target : Int) - source) :=
  wellFormed.distance_eq (one.resolve wellFormed) one.inside (other.resolve wellFormed) other.inside

theorem compareCursors (one : ring.Points first source) (other : ring.Points second target)
    (wellFormed : ring.WellFormed) :
    ring.compareCursors first second = .ok (compare source target) := by
  have order : (compare ((target : Int) - source) 0).swap = compare source target := by
    rcases Nat.lt_trichotomy source target with before | same | after
    · rw [Nat.compare_eq_lt.mpr before, Int.compare_eq_gt.mpr (by omega)]
      rfl
    · rw [Nat.compare_eq_eq.mpr same, Int.compare_eq_eq.mpr (by omega)]
      rfl
    · rw [Nat.compare_eq_gt.mpr after, Int.compare_eq_lt.mpr (by omega)]
      rfl
  rw [Ring.compareCursors, one.distance other wellFormed, Query.ok_bind, order]
  rfl

/-- Where a cursor was moved to, if it could be moved. -/
theorem of_offset (points : ring.Points cursor index) (wellFormed : ring.WellFormed) {n : Int}
    (reached : ring.offset cursor n = .ok moved) :
    ∃ target : Nat, (target : Int) = index + n ∧ ring.Points moved target := by
  by_cases inside : 0 ≤ index + n ∧ index + n ≤ ring.len
  · have sum : ((index + n).toNat : Int) = index + n := Int.toNat_of_nonneg inside.1
    have bound : (index + n).toNat ≤ ring.len := by omega
    obtain ⟨found, given, stands⟩ := wellFormed.cursorAt_points bound
    rw [points.offset wellFormed sum bound, given] at reached
    cases reached
    exact ⟨_, sum, stands⟩
  · rw [points.offset_refused wellFormed inside] at reached
    cases reached

end Points

/-- The laws for a cursor that a ring accepts: it is the cursor of a logical index, and moving it is
adding to the index. -/
structure Locates (ring : Ring α) (cursor : Cursor) (index : Nat) : Prop where
  inside : index ≤ ring.len
  resolves : ring.resolve cursor = .ok index
  given : ring.cursorAt index = .ok cursor
  moves : ∀ (n : Int) (target : Nat), (target : Int) = index + n → target ≤ ring.len →
    ring.offset cursor n = ring.cursorAt target
  leaves : ∀ n : Int, ¬ (0 ≤ index + n ∧ index + n ≤ ring.len) →
    ring.offset cursor n = .error (.refused (.cursorOutOfRange index n ring.len))
  composes : ∀ (m n : Int) (middle last : Cursor), ring.offset cursor m = .ok middle →
    ring.offset middle n = .ok last → ring.offset cursor (m + n) = .ok last

/-- The laws for two cursors that a ring accepts. -/
structure Relates (ring : Ring α) (first second : Cursor) (source target : Nat) : Prop where
  apart : ring.distance first second = .ok ((target : Int) - source)
  ordered : ring.compareCursors first second = .ok (compare source target)
  same : first = second ↔ source = target
  reaches : ring.offset first ((target : Int) - source) = .ok second

/-- A ring refuses to do anything with a cursor. -/
structure Disowns (ring : Ring α) (cursor : Cursor) : Prop where
  resolve : ring.resolve cursor = .error (.refused .invalidCursor)
  element : ring.elementUnder cursor = .error (.refused .invalidCursor)
  offset : ∀ n, ring.offset cursor n = .error (.refused .invalidCursor)
  next : ring.next cursor = .error (.refused .invalidCursor)
  previous : ring.previous cursor = .error (.refused .invalidCursor)
  distance : ∀ other, ring.distance cursor other = .error (.refused .invalidCursor) ∧
    ring.distance other cursor = .error (.refused .invalidCursor)
  compare : ∀ other, ring.compareCursors cursor other = .error (.refused .invalidCursor) ∧
    ring.compareCursors other cursor = .error (.refused .invalidCursor)

theorem Points.locates (points : ring.Points cursor index) (wellFormed : ring.WellFormed) :
    ring.Locates cursor index where
  inside := points.inside
  resolves := points.resolve wellFormed
  given := points.cursorAt
  moves := fun _ _ sum bound => points.offset wellFormed sum bound
  leaves := fun _ outside => points.offset_refused wellFormed outside
  composes := by
    intro m n middle last reached again
    obtain ⟨between, firstSum, middlePoints⟩ := points.of_offset wellFormed reached
    obtain ⟨target, secondSum, lastPoints⟩ := middlePoints.of_offset wellFormed again
    rw [points.offset wellFormed (by omega) lastPoints.inside]
    exact lastPoints.cursorAt

theorem Points.relates (one : ring.Points first source) (other : ring.Points second target)
    (wellFormed : ring.WellFormed) : ring.Relates first second source target where
  apart := one.distance other wellFormed
  ordered := one.compareCursors other wellFormed
  same := one.eq_iff other wellFormed
  reaches := by
    rw [one.offset wellFormed (by omega) other.inside]
    exact other.cursorAt

theorem disowns_of_void (void : ring.registry.accepts cursor = false) : ring.Disowns cursor := by
  have resolve := resolve_refused void
  have offset : ∀ n, ring.offset cursor n = .error (.refused .invalidCursor) := by
    intro n
    rw [Ring.offset, resolve]
    rfl
  have distance : ∀ other, ring.distance cursor other = .error (.refused .invalidCursor) ∧
      ring.distance other cursor = .error (.refused .invalidCursor) :=
    fun other => ⟨distance_refused (.inl void), distance_refused (.inr void)⟩
  refine ⟨resolve, ?_, offset, offset 1, offset (-1), distance, ?_⟩
  · rw [elementUnder, locate, resolve]
    rfl
  · intro other
    rw [Ring.compareCursors, Ring.compareCursors, (distance other).1, (distance other).2]
    exact ⟨rfl, rfl⟩

end RingDeque.Ring
