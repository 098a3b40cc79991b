import RingDeque.Proofs.Ring.Layout
import RingDeque.Ring.Navigation

/-!
How a ring ages, and what that means for the cursors it issued.

The counters of a ring only grow, and while the generation and the counter of a slot stand still
the element in that slot stays where it is. `Ring.Ages` says so of two moments of a ring, with the
exception of elements that were `written` over in place. A cursor from an earlier moment is one that
the ring vouches for: if it accepts it, there is an element in the slot.
-/

namespace RingDeque

theorem Stamps.exists_get? {stamps : Stamps} {slot : Nat} (known : slot < stamps.size) :
    ∃ stamp, stamps.get? slot = some stamp :=
  ⟨_, Array.getElem?_eq_getElem known⟩

namespace Registry

variable {registry : Registry} {slot other : Nat}

theorem touch_stamps : (registry.touch slot).stamps.get? other =
    if slot = other then (registry.stamps.get? other).map (· + 1) else registry.stamps.get? other := by
  simp only [touch, Stamps.touch, Stamps.get?, Array.getElem?_modify]

@[simp] theorem size_touch : (registry.touch slot).stamps.size = registry.stamps.size :=
  Array.size_modify

end Registry

namespace Ring

variable {α : Type} {written : Prop} {earlier middle later ring after : Ring α} {cursor : Cursor}
  {slot index : Nat} {item : Item α}

/-- What two moments of a ring have in common. -/
structure Ages (written : Prop) (earlier later : Ring α) : Prop where
  owner : later.registry.owner = earlier.registry.owner
  generation : earlier.registry.generation ≤ later.registry.generation
  endGeneration : earlier.registry.endGeneration ≤ later.registry.endGeneration
  tenants : later.registry.generation = earlier.registry.generation →
    ∀ slot stamp, earlier.registry.stamps.get? slot = some stamp →
      ∃ laterStamp, later.registry.stamps.get? slot = some laterStamp ∧ stamp ≤ laterStamp ∧
        (laterStamp = stamp → ∀ item, earlier.block.get? slot = some item →
          ∃ laterItem, later.block.get? slot = some laterItem ∧ (laterItem = item ∨ written))

namespace Ages

theorem refl (ring : Ring α) : Ages written ring ring where
  owner := rfl
  generation := Nat.le_refl _
  endGeneration := Nat.le_refl _
  tenants := fun _ _ stamp found =>
    ⟨stamp, found, Nat.le_refl _, fun _ item held => ⟨item, held, .inl rfl⟩⟩

theorem trans (first : Ages written earlier middle) (second : Ages written middle later) :
    Ages written earlier later where
  owner := second.owner.trans first.owner
  generation := Nat.le_trans first.generation second.generation
  endGeneration := Nat.le_trans first.endGeneration second.endGeneration
  tenants := by
    intro same slot stamp found
    have sameFirst : middle.registry.generation = earlier.registry.generation := by
      have := first.generation
      have := second.generation
      omega
    obtain ⟨middleStamp, middleFound, middleBound, middleTenant⟩ :=
      first.tenants sameFirst slot stamp found
    obtain ⟨laterStamp, laterFound, laterBound, laterTenant⟩ :=
      second.tenants (same.trans sameFirst.symm) slot middleStamp middleFound
    refine ⟨laterStamp, laterFound, by omega, ?_⟩
    intro unmoved item held
    obtain ⟨middleItem, middleHeld, middleSame⟩ := middleTenant (by omega) item held
    obtain ⟨laterItem, laterHeld, laterSame⟩ := laterTenant (by omega) middleItem middleHeld
    refine ⟨laterItem, laterHeld, ?_⟩
    rcases laterSame with rfl | overwritten
    · exact middleSame
    · exact .inr overwritten

theorem mono {more : Prop} (ages : Ages written earlier later) (weaker : written → more) :
    Ages more earlier later where
  owner := ages.owner
  generation := ages.generation
  endGeneration := ages.endGeneration
  tenants := by
    intro same slot stamp found
    obtain ⟨laterStamp, laterFound, bound, tenant⟩ := ages.tenants same slot stamp found
    refine ⟨laterStamp, laterFound, bound, ?_⟩
    intro unmoved item held
    obtain ⟨laterItem, laterHeld, same⟩ := tenant unmoved item held
    exact ⟨laterItem, laterHeld, same.imp_right weaker⟩

/-- The length is not part of what ages. -/
theorem withLen (ages : Ages written earlier later) (len : Nat) :
    Ages written earlier { later with len } :=
  ⟨ages.owner, ages.generation, ages.endGeneration, ages.tenants⟩

/-- With a new generation nothing is promised about slots. -/
theorem of_generation (owner : later.registry.owner = earlier.registry.owner)
    (generation : earlier.registry.generation < later.registry.generation)
    (endGeneration : earlier.registry.endGeneration ≤ later.registry.endGeneration) :
    Ages written earlier later where
  owner
  generation := Nat.le_of_lt generation
  endGeneration
  tenants := fun same => by omega

/-- A ring that differs in its block, and whose tenants are the same or were there none. -/
theorem of_tenants (registry : later.registry = earlier.registry)
    (tenants : ∀ slot item, earlier.block.get? slot = some item →
      ∃ laterItem, later.block.get? slot = some laterItem ∧ (laterItem = item ∨ written)) :
    Ages written earlier later where
  owner := by rw [registry]
  generation := by rw [registry]
  endGeneration := by rw [registry]
  tenants := by
    intro _ slot stamp found
    rw [registry]
    exact ⟨stamp, found, Nat.le_refl _, fun _ => tenants slot⟩

/-- A ring whose block differs in one slot at most, which was vacant. -/
theorem of_vacant (registry : later.registry = earlier.registry)
    (vacant : earlier.block.get? slot = none)
    (contents : ∀ other ≠ slot, later.block.get? other = earlier.block.get? other) :
    Ages written earlier later := by
  apply of_tenants registry
  intro other item held
  have distinct : other ≠ slot := by
    rintro rfl
    rw [held] at vacant
    cases vacant
  exact ⟨item, (contents other distinct).trans held, .inl rfl⟩

/-- A ring whose block differs in one slot at most, the cursors to which are void. -/
theorem of_touch (registry : later.registry = earlier.registry.touch slot)
    (contents : ∀ other ≠ slot, later.block.get? other = earlier.block.get? other) :
    Ages written earlier later where
  owner := by rw [registry]; rfl
  generation := by rw [registry]; rfl
  endGeneration := by rw [registry]; rfl
  tenants := by
    intro _ other stamp found
    rw [registry, Registry.touch_stamps, found]
    split
    · refine ⟨stamp + 1, rfl, by omega, ?_⟩
      intro unmoved
      omega
    · rename_i distinct
      refine ⟨stamp, rfl, Nat.le_refl _, ?_⟩
      intro _ item held
      rw [contents other (Ne.symm distinct)]
      exact ⟨item, held, .inl rfl⟩

end Ages

/-- Whether a cursor may have been issued by a ring at some earlier moment. -/
def Vouches (ring : Ring α) (cursor : Cursor) : Prop :=
  cursor.owner = ring.registry.owner →
    match cursor.slot with
    | none => cursor.generation ≤ ring.registry.endGeneration
    | some slot =>
        cursor.generation ≤ ring.registry.generation ∧
        (cursor.generation = ring.registry.generation →
          ∃ stamp, ring.registry.stamps.get? slot = some stamp ∧ cursor.stamp ≤ stamp ∧
            (stamp = cursor.stamp → (ring.block.get? slot).isSome))

theorem Vouches.of_ages (vouched : earlier.Vouches cursor) (ages : Ages written earlier later) :
    later.Vouches cursor := by
  intro own
  have vouched := vouched (own.trans ages.owner)
  cases stands : cursor.slot with
  | none =>
      simp only [stands] at vouched
      exact Nat.le_trans vouched ages.endGeneration
  | some slot =>
      simp only [stands] at vouched
      obtain ⟨generation, tenant⟩ := vouched
      refine ⟨Nat.le_trans generation ages.generation, ?_⟩
      intro current
      have same : later.registry.generation = earlier.registry.generation := by
        have := ages.generation
        omega
      obtain ⟨stamp, found, bound, held⟩ := tenant (current.trans same)
      obtain ⟨laterStamp, laterFound, laterBound, laterTenant⟩ :=
        ages.tenants same slot stamp found
      refine ⟨laterStamp, laterFound, by omega, ?_⟩
      intro unmoved
      obtain ⟨item, itemHeld⟩ := Option.isSome_iff_exists.mp (held (by omega))
      obtain ⟨laterItem, laterHeld, _⟩ := laterTenant (by omega) item itemHeld
      rw [laterHeld]
      rfl

/-- Void are the cursors to elements, once a generation has passed. -/
theorem Vouches.rejected (vouched : ring.Vouches cursor)
    (owner : after.registry.owner = ring.registry.owner)
    (generation : cursor.isEnd = false → ring.registry.generation < after.registry.generation)
    (endGeneration : cursor.isEnd = true →
      ring.registry.endGeneration < after.registry.endGeneration) :
    after.registry.accepts cursor = false := by
  by_contra accepted
  simp only [Bool.not_eq_false, Registry.accepts, Bool.and_eq_true, beq_iff_eq, owner] at accepted
  obtain ⟨own, current⟩ := accepted
  have known := vouched own
  cases stands : cursor.slot with
  | none =>
      simp only [stands, beq_iff_eq] at known current
      have := endGeneration (by rw [Cursor.isEnd, stands]; rfl)
      omega
  | some slot =>
      simp only [stands, Bool.and_eq_true, beq_iff_eq] at known current
      have := generation (by rw [Cursor.isEnd, stands]; rfl)
      omega

theorem vouches_of_foreign (foreign : cursor.owner ≠ ring.registry.owner) :
    ring.Vouches cursor :=
  fun own => (foreign own).elim

theorem vouches_finish (ring : Ring α) : ring.Vouches ring.finish :=
  fun _ => Nat.le_refl _

theorem WellFormed.vouches_slotCursor (wellFormed : ring.WellFormed) (inside : index < ring.len) :
    ring.Vouches (ring.registry.slotCursor (ring.place index)) := by
  intro _
  have fits := wellFormed.fits
  have within : ring.place index < ring.registry.stamps.size := by
    rw [wellFormed.stamped]
    exact place_lt wellFormed.sited (by omega)
  obtain ⟨stamp, found⟩ := Stamps.exists_get? within
  refine ⟨Nat.le_refl _, fun _ => ⟨stamp, found, ?_, ?_⟩⟩
  · simp [Registry.slotCursor, found]
  · intro _
    exact (wellFormed.isSome_cell (by omega)).mpr inside

/-- The slot of a place is as many steps from the first one as its logical index says. -/
theorem offsetFrom_place (sited : ring.Sited) (inside : index < ring.capacity) :
    Slot.offsetFrom ring.start (ring.place index) ring.capacity = .ok index := by
  have starts := sited.starts
  rw [Slot.offsetFrom_eq (by omega) ring.capacity_lt_word]
  congr 1
  unfold place Slot.wrapped
  split <;> split <;> omega

/-- A cursor that a ring accepts and vouches for stands at an element or one past the last. -/
theorem WellFormed.resolve_exists (wellFormed : ring.WellFormed) (vouched : ring.Vouches cursor)
    (accepted : ring.registry.accepts cursor = true) :
    ∃ index ≤ ring.len, ring.resolve cursor = .ok index ∧
      (cursor.slot = none ∧ index = ring.len ∨
        cursor.slot = some (ring.place index) ∧ index < ring.len) := by
  have accepted' := accepted
  simp only [Registry.accepts, Bool.and_eq_true, beq_iff_eq] at accepted'
  obtain ⟨own, current⟩ := accepted'
  have vouched := vouched own
  cases stands : cursor.slot with
  | none =>
      refine ⟨ring.len, Nat.le_refl _, ?_, .inl ⟨rfl, rfl⟩⟩
      simp only [resolve, accepted, if_true, stands, Slot.positionIndex]
      rfl
  | some slot =>
      simp only [stands, Bool.and_eq_true, beq_iff_eq] at current vouched
      obtain ⟨stamp, found, -, held⟩ := vouched.2 current.1
      rw [current.2, Option.some_inj] at found
      obtain ⟨item, itemHeld⟩ := Option.isSome_iff_exists.mp (held found.symm)
      have slotInside : slot < ring.capacity := Block.lt_size_of_get? itemHeld
      obtain ⟨index, inside, rfl⟩ := exists_place wellFormed.sited slotInside
      have live : index < ring.len := by
        rw [← wellFormed.isSome_cell inside, cell, itemHeld]
        rfl
      refine ⟨index, by omega, ?_, .inr ⟨rfl, live⟩⟩
      simp only [resolve, accepted, if_true, stands, Slot.positionIndex,
        offsetFrom_place wellFormed.sited inside]
      rfl

theorem resolve_refused (rejected : ring.registry.accepts cursor = false) :
    ring.resolve cursor = .error (.refused .invalidCursor) := by
  simp only [resolve, rejected]
  rfl

end Ring

end RingDeque
