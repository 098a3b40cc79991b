import RingDeque.Datum
import RingDeque.Proofs.Session.Lapsing

/-!
Operations that are refused.

A refused operation leaves every fixed ring as it was, its slots and its cursors included. It also
leaves the ring inside an elastic one as it was; the limits around it may be those that the
operation demanded.
-/

namespace RingDeque

open Effect Act

variable {α : Type}

namespace Ring

theorem takeNth_unrefused (side : End) (skipped : Nat) : Unrefused (takeNth (α := α) side skipped) := by
  induction skipped with
  | zero => exact unrefused_update _
  | succ skipped ih =>
      refine (unrefused_update _).bind fun popped => ?_
      cases popped with
      | none => exact haltsOnly_pure _
      | some item => exact (haltsOnly_ledger (Ledger.destroy_unrefused item)).bind fun _ => ih

theorem takeMany_unrefused (side : End) (count : Nat) : Unrefused (takeMany (α := α) side count) := by
  induction count with
  | zero => exact haltsOnly_pure _
  | succ count ih =>
      refine (unrefused_update _).bind fun popped => ?_
      cases popped with
      | none => exact haltsOnly_pure _
      | some item => exact ih.bind fun _ => haltsOnly_pure _

theorem drain_unrefused (step : Traversal.Step) : Unrefused (drain (α := α) step) := by
  cases step with
  | next | nextBack | nth | nthBack => exact (takeNth_unrefused _ _).bind fun _ => haltsOnly_pure _
  | length | bounds => exact haltsOnly_buffer fun _ => haltsOnly_pure _
  | rest | reversed =>
      exact haltsOnly_buffer fun _ => (takeMany_unrefused _ _).bind fun _ => haltsOnly_pure _

end Ring

/-- What an action leaves behind is destroyed or discarded without being refused. -/
theorem spending_unrefused {β γ : Type} {act : Act β α γ} {initial : β}
    {runs : β → Checked (List (Item α) × List (Item α))} (unrefused : Unrefused act) :
    Unrefused (spending initial runs act) := by
  intro ledger
  rw [Act.ends_spending]
  apply (unrefused ⟨initial, ledger⟩).mono
  · intro value after _
    exact (unrefused_checked _).bind
      (fun _ => (Ledger.destroyRun_unrefused _).bind fun _ => haltsOnly_pure value) after.ledger
  · intro halt after stopped
    exact (unrefused_checked _).bind
      (fun _ => (Ledger.discard_unrefused _).bind fun _ => haltsOnly_throw stopped) after.ledger

namespace Session

variable {session : Session α} {number : Nat} {buffer : Buffer α} {op : Op α}

theorem drainScript_unrefused (script : List Traversal.Step) :
    Unrefused (drainScript (α := α) script) := by
  induction script with
  | nil => exact haltsOnly_pure _
  | cons step rest ih =>
      refine (Ring.drain_unrefused step).bind fun answer => ?_
      exact (haltsOnly_ledger (haltsOnly_modify _)).bind fun _ => ih.bind fun _ => haltsOnly_pure _

/-- What a refusal of an operation leaves of the buffer under a number. -/
def Harmless (number : Nat) (buffer : Buffer α) (op : Op α) (stop : Stop) (after : Session α) : Prop :=
  ∀ error, stop = .halted (.refused error) → ∃ later, after.buffer? number = some later ∧
    (later = buffer ∨ ∃ command save, op = .on number command save ∧
      buffer.Lapses command (.refused error) later)

theorem runOp_harmless [Value α] {writes : Nat → Prop} {origin : Session α} {owned : Multiset Nat}
    (agrees : Agrees writes origin owned session) (found : session.buffer? number = some buffer)
    (op : Op α) :
    Ends (runOp op) session (fun _ _ => True) (Harmless number buffer op) := by
  -- A step that is not refused, or that is refused while the buffer is still in place.
  have kept : ∀ {stop : Stop} {after : Session α}, after.buffer? number = some buffer →
      Harmless number buffer op stop after := fun present _ _ => ⟨buffer, present, .inl rfl⟩
  have unrefused : ∀ {halt : Halt} {after : Session α}, halt.isRefusal = false →
      Harmless number buffer op (.halted halt) after := by
    rintro _ after other error ⟨rfl⟩
    contradiction
  cases op with
  | build target plan =>
      simp only [runOp, ends_bind, ends_onLedger, ends_pure, ends_modify]
      refine demandVacant_ends (fun vacant => ?_) (kept found)
      exact Ends.anyhow (fun _ _ => trivial) fun _ _ => kept found
  | duplicate source target =>
      simp only [runOp, ends_bind, ends_onLedger, ends_pure, ends_modify]
      refine demandVacant_ends (fun vacant => ?_) (kept found)
      refine demandBuffer_ends (fun _ _ => ?_) (kept found)
      exact Ends.anyhow (fun _ _ => trivial) fun _ _ => kept found
  | destroy target =>
      simp only [runOp, ends_bind, ends_onLedger, ends_pure, ends_modify]
      refine demandBuffer_ends (fun leaving _ => ?_) (kept found)
      exact (leaving.ring.destroy_unrefused _).mono (fun _ _ => id) fun _ _ => unrefused
  | drain target script =>
      simp only [runOp]
      rw [ends_bind]
      refine demandBuffer_ends (fun leaving _ => ?_) (kept found)
      cases leaving with
      | elastic outer => exact kept found
      | fixed ring =>
          simp only [ends_bind, ends_onLedger, ends_pure, ends_modify]
          exact (spending_unrefused (drainScript_unrefused script) _).mono (fun _ _ => id)
            fun _ _ => unrefused
  | exchange first second =>
      simp only [runOp]
      by_cases distinct : first = second
      · rw [if_pos distinct]
        exact kept found
      rw [if_neg distinct, ends_bind]
      refine demandBuffer_ends (fun source _ => ?_) (kept found)
      rw [ends_bind]
      refine demandBuffer_ends (fun target _ => ?_) (kept found)
      cases source.swap? target with
      | none => exact kept found
      | some pair => trivial
  | equals first second =>
      apply (runOp_equals_preserves first second session).mono (fun _ _ _ => trivial)
      intro stop after preserved
      exact kept (preserved.trans found)
  | order first second =>
      apply (runOp_order_preserves first second session).mono (fun _ _ _ => trivial)
      intro stop after preserved
      exact kept (preserved.trans found)
  | armCopy copies => trivial
  | armDestruction value => trivial
  | provide memory => trivial
  | on target command save =>
      by_cases same : target = number
      · subst same
        apply (runOp_lapses agrees found command save).mono (fun _ _ => id)
        rintro stop after lapses error ⟨rfl⟩
        obtain ⟨later, present, lapsed⟩ := lapses _ rfl trivial
        exact ⟨later, present, .inr ⟨command, save, rfl, lapsed⟩⟩
      · apply (runOp_preserves (Ne.symm same) command save session).mono (fun _ _ _ => trivial)
        intro stop after preserved
        exact kept (preserved.trans found)

/-- What one operation leaves of a buffer when it is refused. -/
theorem step_harmless [Value α] (reachable : session.Reachable) {error : Error}
    (refused : (session.step op).1 = .halted (.refused error))
    (found : session.buffer? number = some buffer) :
    ∃ later, (session.step op).2.buffer? number = some later ∧
      (later = buffer ∨ ∃ command save, op = .on number command save ∧
        buffer.Lapses command (.refused error) later) := by
  obtain ⟨owned, agrees⟩ := reachable.agrees (op.inPlace · = true)
  have harmless := runOp_harmless agrees.silenced found op
  exact (step_halted agrees (fun _ => id) harmless refused).2 error rfl

/-- A refused operation changes no fixed ring: not the slots, the first of them or the number of
elements, and not what is known about the cursors. -/
theorem refused_leaves_fixed [Value α] (reachable : session.Reachable) {error : Error}
    (refused : (session.step op).1 = .halted (.refused error)) {ring : Ring α}
    (found : session.buffer? number = some (.fixed ring)) :
    (session.step op).2.buffer? number = some (.fixed ring) := by
  obtain ⟨later, present, same | ⟨command, save, -, lapses⟩⟩ := step_harmless reachable refused found
  · rw [present, same]
  · cases later with
    | fixed changed =>
        obtain rfl : changed = ring := lapses rfl
        exact present
    | elastic outer => exact lapses.elim

/-- There is no memory for a larger block, for one of two slots, or for the counters beside one of
three. A ring of four slots can then neither grow nor shrink, nor be refilled in three slots. -/
theorem refused_leaves_fixed_resized :
    let memory : Memory := {
      block := fun capacity => capacity < 16 && capacity != 2
      stamps := fun capacity => capacity != 3 }
    let session := run [.build 0 (.ring 4), .on 0 (.push .back (.int 7)) none, .provide memory]
      (blank Ledger.ordinaryMemory : Session Datum)
    let refuses (ring : Ring Datum) (command : Command Datum) (capacity : Nat) : Prop :=
      (session.step (.on 0 command none)).1 = .halted (.refused (.allocationFailed capacity)) ∧
        (session.step (.on 0 command none)).2.buffer? 0 = some (.fixed ring)
    ∃ ring, session.buffer? 0 = some (.fixed ring) ∧
      refuses ring (.resize .back 16 (.int 1)) 16 ∧
      refuses ring (.setCapacity .front ⟨2, none⟩) 2 ∧
      refuses ring (.setCapacity .back ⟨3, none⟩) 3 ∧
      refuses ring (.assignWithin ⟨3, none⟩ 1 (.int 9)) 3 := by
  intro memory session refuses
  have found : session.buffer? 0 = some (.fixed _) := rfl
  have kept : ∀ command capacity, (session.step (.on 0 command none)).1 =
      .halted (.refused (.allocationFailed capacity)) → refuses _ command capacity :=
    fun _ _ refused => ⟨refused, refused_leaves_fixed ⟨_, _, rfl⟩ refused found⟩
  exact ⟨_, found, kept _ _ rfl, kept _ _ rfl, kept _ _ rfl, kept _ _ rfl⟩

/-- The limits that an operation puts in force for the elastic ring under a number before it can
still be refused. -/
def Op.demands (op : Op α) (number : Nat) (outer : ElasticRing α) (limits : Limits) : Prop :=
  match op with
  | .on target command _ => target = number ∧ command.demands outer limits
  | _ => False

/-- A refused operation leaves the ring inside an elastic one as it was, and the limits too but for
the three commands that set limits before they ask for a block. -/
theorem refused_leaves_elastic [Value α] (reachable : session.Reachable) {error : Error}
    (refused : (session.step op).1 = .halted (.refused error)) {outer : ElasticRing α}
    (found : session.buffer? number = some (.elastic outer)) :
    ∃ later, (session.step op).2.buffer? number = some (.elastic later) ∧
      later.ring = outer.ring ∧
      (later.limits = outer.limits ∨ op.demands number outer later.limits) := by
  obtain ⟨later, present, same | ⟨command, save, addressed, lapses⟩⟩ :=
    step_harmless reachable refused found
  · exact ⟨outer, by rw [present, same], rfl, .inl rfl⟩
  · cases later with
    | fixed ring => exact lapses.elim
    | elastic later =>
        obtain ⟨ring, limited⟩ := lapses.1 rfl
        refine ⟨later, present, ring, limited.imp_right fun demanded => ?_⟩
        rw [addressed]
        exact ⟨rfl, demanded⟩

/-- A floor above the ceiling is refused, and the elastic ring is as it was. -/
theorem refused_leaves_elastic_floored :
    let session := run [.build 0 (.elastic ⟨4, none⟩)] (blank Ledger.ordinaryMemory : Session Datum)
    ∃ outer later, session.buffer? 0 = some (.elastic outer) ∧
      (session.step (.on 0 (.setFloor 5) none)).2.buffer? 0 = some (.elastic later) ∧
      later.ring = outer.ring ∧ (later.limits = outer.limits ∨
        (.on 0 (.setFloor 5) none : Op Datum).demands 0 outer later.limits) := by
  intro session
  have found : session.buffer? 0 = some (.elastic _) := rfl
  have refused : (session.step (.on 0 (.setFloor 5) none)).1 =
      .halted (.refused (.invalidCapacity 4 5)) := rfl
  obtain ⟨later, kept⟩ := refused_leaves_elastic ⟨_, _, rfl⟩ refused found
  exact ⟨_, later, found, kept⟩

/-- There is no memory for the new floor, yet the new limits stay, and the block is below them. -/
theorem refused_limits_stay :
    let session := run [.build 0 (.elastic ⟨4, none⟩)] (blank Ledger.ordinaryMemory : Session Datum)
    let refused := session.step (.on 0 (.setCapacity .front ⟨2 ^ 60, some (2 ^ 60)⟩) none)
    ∃ outer later, session.buffer? 0 = some (.elastic outer) ∧
      refused.1 = .halted (.refused (.allocationFailed (2 ^ 60))) ∧
      refused.2.buffer? 0 = some (.elastic later) ∧
      outer.capacity = 4 ∧ later.capacity = 2 ^ 60 ∧ later.physical = 0 :=
  ⟨_, _, rfl, rfl, rfl, rfl, rfl, rfl⟩

end Session

end RingDeque
