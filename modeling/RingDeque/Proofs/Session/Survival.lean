import RingDeque.Proofs.Session.Lapsing
import RingDeque.Proofs.Session.Settling
import RingDeque.Proofs.Session.Tracking

/-!
Exactly which cursors survive an operation.

Main statement: `cursor_survives_exactly`. A cursor to an element of a fixed ring is accepted after an
operation that returns if the operation keeps the cursors to that element, as `Op.Keeps` says, and
otherwise no buffer accepts it. While it is accepted it leads to the same element.
-/

namespace RingDeque

namespace Ring

variable {α : Type} {ring later : Ring α} {cursor : Cursor} {index slot : Nat}

/-- A ring goes on to accept a cursor to a slot as long as nothing it is checked against changes. -/
theorem accepts_iff_retains (accepted : ring.registry.accepts cursor = true)
    (stands : cursor.slot = some slot) :
    later.registry.accepts cursor = true ↔ ring.Retains later slot := by
  simp only [Registry.accepts, stands, Bool.and_eq_true, beq_iff_eq] at accepted ⊢
  obtain ⟨owner, generation, stamp⟩ := accepted
  constructor
  · rintro ⟨laterOwner, laterGeneration, laterStamp⟩
    exact ⟨laterOwner.symm.trans owner, laterGeneration.symm.trans generation,
      laterStamp.trans stamp.symm⟩
  · rintro ⟨sameOwner, sameGeneration, sameStamp⟩
    exact ⟨owner.trans sameOwner.symm, generation.trans sameGeneration.symm,
      sameStamp.trans stamp⟩

end Ring

namespace Session

open Effect Act

variable {α : Type} {session : Session α} {number : Nat} {ring : Ring α} {op : Op α}
  {spared : Nat → Prop} {cursor : Cursor} {index : Nat}

/-- Whether the element at a logical index of the fixed ring under a number keeps its cursors when an
operation returns. -/
def Op.Keeps (session : Session α) (number : Nat) (ring : Ring α) (op : Op α) (index : Nat) : Prop :=
  match op with
  | .destroy target | .drain target _ => target ≠ number
  | .exchange first second => first ≠ number ∧ second ≠ number
  | .on target command _ => target = number → command.Keeps session ring index
  | _ => True

/-- Whether a feed that an operation inserts holds as many elements as it claims. -/
def Op.Truthful : Op α → Prop
  | .on _ command _ => command.Truthful
  | _ => True

/-- Whether an operation with this reply has returned. -/
def Reply.returned : Reply α → Bool
  | .halted _ | .inapplicable => false
  | _ => true

/-- The ring under a number is gone with all its cursors, or spares some of them. -/
def Outlived (number : Nat) (ring : Ring α) (spared : Nat → Prop) (after : Session α) : Prop :=
  (∃ later, after.buffer? number = some (.fixed later) ∧ Spared ring spared later) ∨
    after.buffer? number = none ∧ ∀ place, ¬ spared place

theorem outlived_of_same {after : Session α} (same : after.buffer? number = some (.fixed ring))
    (all : ∀ place, spared place) : Outlived number ring spared after :=
  .inl ⟨ring, same, fun place _ => ⟨fun _ => all place, fun _ => .of_registry rfl⟩⟩

theorem outlived_of_newer {after : Session α} {later : Ring α}
    (present : after.buffer? number = some (.fixed later))
    (newer : ring.registry.generation < later.registry.generation)
    (none : ∀ place, ¬ spared place) : Outlived number ring spared after := by
  refine .inl ⟨later, present, fun place _ => ⟨fun retains => ?_, fun kept => absurd kept (none place)⟩⟩
  have := retains.generation
  omega

/-- Without the buffer under another number, a ring is as it was. -/
theorem outlived_without (found : session.buffer? number = some (.fixed ring)) (target : Nat)
    (ledger : Ledger α) :
    Outlived number ring (fun _ => target ≠ number)
      { session.withoutBuffer target with ledger } := by
  by_cases same : target = number
  · subst same
    exact .inr ⟨lookup_filter_self session.buffers, fun _ other => other rfl⟩
  · exact outlived_of_same ((lookup_filter session.buffers (Ne.symm same)).trans found) fun _ => same

/-- Rings that are exchanged lose all cursors to their elements. -/
theorem outlived_exchange (found : session.buffer? number = some (.fixed ring)) {first second : Nat}
    {source target changed replaced : Buffer α} (distinct : first ≠ second)
    (firstFound : session.buffer? first = some source)
    (secondFound : session.buffer? second = some target)
    (swapped : source.swap? target = some (changed, replaced)) :
    Outlived number ring (fun _ => first ≠ number ∧ second ≠ number)
      ((session.withBuffer first changed).withBuffer second replaced) := by
  by_cases isSecond : second = number
  · subst isSecond
    rw [found] at secondFound
    cases secondFound
    cases source with
    | elastic outer => cases swapped
    | fixed other =>
        cases swapped
        exact outlived_of_newer buffer?_withBuffer_self (Nat.lt_succ_self _) fun _ kept => kept.2 rfl
  by_cases isFirst : first = number
  · subst isFirst
    rw [found] at firstFound
    cases firstFound
    cases target with
    | elastic outer => cases swapped
    | fixed other =>
        cases swapped
        exact outlived_of_newer ((buffer?_withBuffer_of_ne distinct).trans buffer?_withBuffer_self)
          (Nat.lt_succ_self _) fun _ kept => kept.1 rfl
  · apply outlived_of_same
    · rw [buffer?_withBuffer_of_ne (Ne.symm isSecond), buffer?_withBuffer_of_ne (Ne.symm isFirst), found]
    · exact fun _ => ⟨isFirst, isSecond⟩

/-- What an operation that returns leaves of the cursors to the elements of a fixed ring. -/
theorem runOp_outlived [Value α] {writes : Nat → Prop} {origin : Session α} {owned : Multiset Nat}
    (agrees : Agrees writes origin owned session)
    (found : session.buffer? number = some (.fixed ring)) (truthful : op.Truthful) :
    Ends (runOp op) session
      (fun _ after => Outlived number ring (op.Keeps session number ring) after)
      fun _ _ => True := by
  have other_of_vacant : ∀ {target}, session.buffer? target = none → number ≠ target := by
    rintro target vacant rfl
    rw [found] at vacant
    cases vacant
  cases op with
  | build target plan =>
      simp only [runOp, ends_bind, ends_onLedger, ends_pure, ends_modify]
      refine demandVacant_ends (fun vacant => ?_) trivial
      refine Ends.anyhow (fun buffer ledger => ?_) fun _ _ => trivial
      exact outlived_of_same ((buffer?_withBuffer_of_ne (other_of_vacant vacant)).trans found)
        fun _ => trivial
  | duplicate source target =>
      simp only [runOp, ends_bind, ends_onLedger, ends_pure, ends_modify]
      refine demandVacant_ends (fun vacant => ?_) trivial
      refine demandBuffer_ends (fun buffer _ => ?_) trivial
      refine Ends.anyhow (fun copy ledger => ?_) fun _ _ => trivial
      exact outlived_of_same ((buffer?_withBuffer_of_ne (other_of_vacant vacant)).trans found)
        fun _ => trivial
  | destroy target =>
      simp only [runOp, ends_bind, ends_onLedger, ends_pure, ends_modify]
      refine demandBuffer_ends (fun leaving _ => ?_) trivial
      exact Ends.anyhow (fun _ ledger => outlived_without found target ledger) fun _ _ => trivial
  | drain target script =>
      simp only [runOp]
      rw [ends_bind]
      refine demandBuffer_ends (fun leaving _ => ?_) trivial
      cases leaving with
      | elastic outer => trivial
      | fixed other =>
          simp only [ends_bind, ends_onLedger, ends_pure, ends_modify]
          exact Ends.anyhow (fun _ ledger => outlived_without found target ledger) fun _ _ => trivial
  | exchange first second =>
      simp only [runOp]
      by_cases distinct : first = second
      · rw [if_pos distinct]
        trivial
      rw [if_neg distinct, ends_bind]
      refine demandBuffer_ends (fun source firstFound => ?_) trivial
      rw [ends_bind]
      refine demandBuffer_ends (fun target secondFound => ?_) trivial
      cases swapped : source.swap? target with
      | none => trivial
      | some pair => exact outlived_exchange found distinct firstFound secondFound swapped
  | equals first second =>
      apply (runOp_equals_preserves first second session).mono
      · intro reply after preserved
        exact outlived_of_same (preserved.trans found) fun _ => trivial
      · exact fun _ _ _ => trivial
  | order first second =>
      apply (runOp_order_preserves first second session).mono
      · intro reply after preserved
        exact outlived_of_same (preserved.trans found) fun _ => trivial
      · exact fun _ _ _ => trivial
  | armCopy copies => exact outlived_of_same found fun _ => trivial
  | armDestruction value => exact outlived_of_same found fun _ => trivial
  | provide memory => exact outlived_of_same found fun _ => trivial
  | on target command save =>
      by_cases same : target = number
      · subst same
        rw [runOp_on, ends_bind]
        apply (runCommand_settles agrees found truthful).mono
        · rintro outcome after ⟨later, present, spared⟩
          apply (preserves_replying target save outcome after).mono
          · intro reply last unchanged
            exact .inl ⟨later, unchanged.trans present, fun place held => (spared place held).trans
              ⟨fun keeps _ => keeps, fun keeps => keeps rfl⟩⟩
          · exact fun _ _ _ => trivial
        · exact fun _ _ => id
      · exact (runOp_preserves (Ne.symm same) command save session).mono
          (fun _ _ preserved => outlived_of_same (preserved.trans found) fun _ here => absurd here same)
          fun _ _ _ => trivial

/-- Reports of earlier operations have no part in which cursors an operation keeps. -/
theorem Op.keeps_reporting (events : List Event) :
    op.Keeps { session with ledger := { session.ledger with events } } number ring index ↔
      op.Keeps session number ring index := by
  cases op with
  | on target command save => cases command <;> rfl
  | _ => rfl

/-- Only one buffer accepts a cursor. -/
theorem Valid.number_eq (valid : session.Valid) {other : Nat} {first second : Buffer α}
    (firstFound : session.buffer? other = some first)
    (secondFound : session.buffer? number = some second)
    (firstAccepts : first.ring.registry.accepts cursor = true)
    (secondAccepts : second.ring.registry.accepts cursor = true) : other = number := by
  have same := (Registry.owner_of_accepts firstAccepts).symm.trans
    (Registry.owner_of_accepts secondAccepts)
  exact congrArg Prod.fst (List.inj_on_of_nodup_map valid.owners (mem_of_buffer? firstFound)
    (mem_of_buffer? secondFound) same)

/-- A buffer that accepts a cursor after an operation accepted it before, and the cursor leads to the
element in the same slot. -/
theorem step_tracks [Value α] {owned : Multiset Nat} {other slot : Nat} {later : Buffer α}
    (valid : session.Valid)
    (balanced : session.ledger.Balanced (afloat session.buffers + owned))
    (vouches : session.Vouches cursor) (stands : cursor.slot = some slot)
    (present : (session.step op).2.buffer? other = some later)
    (accepted : later.ring.registry.accepts cursor = true) :
    ∃ earlier place item last, session.buffer? other = some earlier ∧
      earlier.ring.registry.accepts cursor = true ∧ earlier.ring.block.get? slot = some item ∧
      later.ring.resolve cursor = .ok place ∧ later.ring.toList[place]? = some last ∧
      (last = item ∨ op.inPlace other = true) := by
  have there : (run [op] session).buffer? other = some later := present
  obtain ⟨earlier, found, accepts, laterVouches, tenants⟩ :=
    run_tracks valid balanced vouches there accepted
  obtain ⟨item, last, held, laterHeld, stays⟩ := tenants slot stands
  obtain ⟨-, lost, agrees, -⟩ := step_sound valid balanced op
  have wellFormed : later.ring.WellFormed := agrees.valid.wellFormed _ (mem_of_buffer? present)
  obtain ⟨place, -, resolved, vacant | ⟨atPlace, inside⟩⟩ :=
    wellFormed.resolve_exists laterVouches accepted
  · rw [stands] at vacant
    cases vacant.1
  · rw [stands, Option.some_inj] at atPlace
    refine ⟨earlier, place, item, last, found, accepts, held, resolved, ?_, ?_⟩
    · rw [← wellFormed.cell_eq inside, Ring.cell, ← atPlace, laterHeld]
    · cases stays with
      | later tenant same rest =>
          cases rest with
          | here _ => exact same

/-- A cursor to an element of a fixed ring is accepted after an operation that returns exactly if the
operation keeps the cursors to that element. Then it stands in the same ring, at the same element. -/
theorem cursor_survives_exactly [Value α] (reachable : session.Reachable) (truthful : op.Truthful)
    (returned : (session.step op).1.returned = true)
    (found : session.buffer? number = some (.fixed ring))
    (resolved : ring.resolve cursor = .ok index) (inside : index < ring.len) :
    ((∃ other later, (session.step op).2.buffer? other = some later ∧
        later.ring.registry.accepts cursor = true) ↔ op.Keeps session number ring index) ∧
      ∀ other later, (session.step op).2.buffer? other = some later →
        later.ring.registry.accepts cursor = true → other = number ∧
          ∃ place, later.ring.resolve cursor = .ok place ∧
            (later.ring.toList[place]? = ring.toList[index]? ∨ op.inPlace number = true) := by
  obtain ⟨owned, agrees⟩ := reachable.agrees (op.inPlace · = true)
  have valid := agrees.valid
  have wellFormed : ring.WellFormed := valid.wellFormed _ (mem_of_buffer? found)
  have accepted := Ring.accepts_of_resolve resolved
  have points := wellFormed.points_of_resolve resolved inside
  have stands : cursor.slot = some (ring.place index) := by
    rw [points.slot wellFormed, if_neg (Nat.ne_of_lt inside)]
  have vouches : session.Vouches cursor := valid.vouches_of_issues (mem_of_buffer? found) points.issues
  -- Whichever buffer accepts the cursor after the operation has the number of this ring.
  have numbered : ∀ other later, (session.step op).2.buffer? other = some later →
      later.ring.registry.accepts cursor = true → other = number := by
    intro other later present accepts
    obtain ⟨earlier, -, -, -, earlierFound, earlierAccepts, -⟩ :=
      step_tracks valid agrees.balanced vouches stands present accepts
    exact valid.number_eq earlierFound found earlierAccepts accepted
  constructor
  · rcases step_ends (runOp_outlived agrees.silenced found truthful) with
      outlived | ⟨halt, halted, -⟩ | ⟨idle, -⟩
    · rcases outlived with ⟨after, present, spared⟩ | ⟨gone, none⟩
      · have kept := (spared index inside).trans (Op.keeps_reporting [])
        rw [← kept, ← Ring.accepts_iff_retains accepted stands]
        constructor
        · rintro ⟨other, later, there, accepts⟩
          obtain rfl := numbered other later there accepts
          rw [present, Option.some_inj] at there
          subst there
          exact accepts
        · intro accepts
          exact ⟨number, .fixed after, present, accepts⟩
      · constructor
        · rintro ⟨other, later, there, accepts⟩
          obtain rfl := numbered other later there accepts
          rw [gone] at there
          cases there
        · intro keeps
          exact absurd ((Op.keeps_reporting []).mpr keeps) (none index)
    · rw [halted] at returned
      cases returned
    · rw [idle] at returned
      cases returned
  · intro other later present accepts
    obtain rfl := numbered other later present accepts
    obtain ⟨earlier, place, item, last, earlierFound, -, held, there, listed, same⟩ :=
      step_tracks valid agrees.balanced vouches stands present accepts
    rw [found, Option.some_inj] at earlierFound
    subst earlierFound
    refine ⟨rfl, place, there, same.imp_left fun unchanged => ?_⟩
    rw [listed, unchanged, ← wellFormed.cell_eq inside]
    exact held.symm

/-- Erasing the second of four elements moves the first one, and the cursor to it is void. The cursor
to the third one, which does not move, leads to it under its new logical index. -/
theorem cursor_survives_exactly_erased :
    let session := run [.build 0 (.ring 4), .on 0 (.push .back (.int 6)) none,
      .on 0 (.push .back (.int 7)) none, .on 0 (.push .back (.int 8)) none,
      .on 0 (.push .back (.int 9)) none] (blank (.below 8) : Session Datum)
    let erased := (session.step (.on 0 (.erase .back (.index 1)) none)).2
    ¬ (∃ other later, erased.buffer? other = some later ∧
      later.ring.registry.accepts ⟨0, some 0, 0, 0⟩ = true) ∧
    ∃ later place, erased.buffer? 0 = some later ∧
      later.ring.resolve ⟨0, some 2, 0, 0⟩ = .ok place ∧
      later.ring.toList[place]? = some ⟨2, .int 8⟩ := by
  intro session erased
  obtain ⟨ring, found, length, first, third, listed⟩ : ∃ ring : Ring Datum,
      session.buffer? 0 = some (.fixed ring) ∧ ring.len = 4 ∧
        ring.resolve ⟨0, some 0, 0, 0⟩ = .ok 0 ∧ ring.resolve ⟨0, some 2, 0, 0⟩ = .ok 2 ∧
          ring.toList[2]? = some ⟨2, .int 8⟩ := ⟨_, rfl, rfl, rfl, rfl, rfl⟩
  have removal : ∀ place, ring.KeptByRemoval .back 1 1 place ↔ 2 ≤ place := by
    intro place
    simp [Ring.KeptByRemoval, length, End.shorter]
  have truthful : (Op.on 0 (.erase .back (.index 1)) none : Op Datum).Truthful := trivial
  have returned : (session.step (.on 0 (.erase .back (.index 1)) none)).1.returned = true := by
    decide +kernel
  constructor
  · intro survives
    have keeps := (cursor_survives_exactly ⟨.below 8, _, rfl⟩ truthful returned found first
      (by omega)).1.mp survives
    obtain ⟨target, ⟨rfl⟩, kept⟩ := keeps rfl
    have := (removal 0).mp kept
    omega
  · obtain ⟨survives, tracks⟩ := cursor_survives_exactly ⟨.below 8, _, rfl⟩ truthful returned found third
      (by omega)
    obtain ⟨other, later, present, accepts⟩ :=
      survives.mpr fun _ => ⟨1, rfl, (removal 2).mpr (Nat.le_refl 2)⟩
    obtain ⟨rfl, place, there, same | impossible⟩ := tracks other later present accepts
    · exact ⟨later, place, present, there, same.trans listed⟩
    · cases impossible

end Session

end RingDeque
