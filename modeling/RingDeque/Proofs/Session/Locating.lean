import RingDeque.Datum
import RingDeque.Proofs.Session.Tracking

/-!
Cursors that circulate in a session.

A cursor may be kept for any number of operations, and whoever holds it may ask any buffer about it.
Main statement: `cursors_are_indices`. To a buffer that accepts it, such a cursor is a logical index.
-/

namespace RingDeque.Session

variable {α : Type} {session : Session α} {number : Nat} {buffer : Buffer α} {cursor : Cursor}
  {owned : Multiset Nat}

/-- A cursor that some buffer issued, at this moment or at an earlier one. -/
def Circulates [Value α] (session : Session α) (cursor : Cursor) : Prop :=
  ∃ (earlier : Session α) (ops : List (Op α)) (number index : Nat),
    earlier.Reachable ∧ earlier.Issued number index cursor ∧ run ops earlier = session

theorem run_vouches [Value α] (valid : session.Valid)
    (balanced : session.ledger.Balanced (afloat session.buffers + owned))
    (vouches : session.Vouches cursor) (ops : List (Op α)) : (run ops session).Vouches cursor := by
  induction ops generalizing session owned with
  | nil => exact vouches
  | cons op rest ih =>
      obtain ⟨-, lost, agrees, -⟩ := step_sound valid balanced op
      exact ih agrees.valid agrees.balanced (vouches.of_descends agrees.descends)

theorem Circulates.vouches [Value α] (circulates : session.Circulates cursor) :
    session.Vouches cursor := by
  obtain ⟨earlier, ops, number, index, reachable, issued, rfl⟩ := circulates
  have vouches := (issued.stands reachable).vouches
  obtain ⟨memory, past, rfl⟩ := reachable
  obtain ⟨valid, lost, balanced⟩ := run_sound (blank_valid memory) (blank_balanced memory) past
  exact run_vouches valid balanced vouches ops

/-- Every index up to the length has a cursor. Each cursor that a buffer accepts is the cursor of its
index: cursors are equal if their indices are, they compare and differ as their indices do, and
moving a cursor is adding to its index, which is refused if it leads out of the ring. A cursor that
the buffer does not accept is refused. -/
theorem cursors_are_indices [Value α] (reachable : session.Reachable)
    (found : session.buffer? number = some buffer) :
    (∀ index ≤ buffer.ring.len, ∃ cursor, buffer.ring.cursorAt index = .ok cursor ∧
      buffer.ring.registry.accepts cursor = true ∧ buffer.ring.resolve cursor = .ok index) ∧
    (∀ index, buffer.ring.len < index → buffer.ring.cursorAt index =
      .error (.refused (.indexOutOfRange index buffer.ring.len))) ∧
    (∀ first second, session.Circulates first → session.Circulates second →
      buffer.ring.registry.accepts first = true → buffer.ring.registry.accepts second = true →
      ∃ source target, buffer.ring.Locates first source ∧ buffer.ring.Locates second target ∧
        buffer.ring.Relates first second source target) ∧
    ∀ cursor, buffer.ring.registry.accepts cursor = false → buffer.ring.Disowns cursor := by
  obtain ⟨memory, past, rfl⟩ := reachable
  obtain ⟨valid, -⟩ := run_sound (blank_valid memory) (blank_balanced memory) past
  have wellFormed : buffer.ring.WellFormed := valid.wellFormed _ (mem_of_buffer? found)
  refine ⟨?_, fun index => Ring.cursorAt_refused, ?_, fun cursor => Ring.disowns_of_void⟩
  · intro index inside
    obtain ⟨cursor, given, points⟩ := wellFormed.cursorAt_points inside
    exact ⟨cursor, given, points.accepted wellFormed, points.resolve wellFormed⟩
  · intro first second firstKnown secondKnown firstAccepted secondAccepted
    obtain ⟨source, one⟩ := wellFormed.issues_of_accepted (firstKnown.vouches.of_found found)
      firstKnown.vouches.regular firstAccepted
    obtain ⟨target, other⟩ := wellFormed.issues_of_accepted (secondKnown.vouches.of_found found)
      secondKnown.vouches.regular secondAccepted
    exact ⟨source, target, one.locates wellFormed, other.locates wellFormed,
      one.relates other wellFormed⟩

/-- In a full ring whose first element is in its last slot, the cursors of the first element and of
the end are two apart. -/
theorem cursors_are_indices_full :
    let session := run [.build 0 (.ring 2), .on 0 (.push .back (.int 7)) none,
      .on 0 (.push .back (.int 8)) none, .on 0 (.pop .front) none,
      .on 0 (.push .back (.int 9)) none] (blank (.below 8) : Session Datum)
    ∃ buffer, session.buffer? 0 = some buffer ∧
      buffer.ring.Locates ⟨0, some 1, 0, 0⟩ 0 ∧ buffer.ring.Locates ⟨0, none, 0, 0⟩ 2 ∧
      buffer.ring.Relates ⟨0, some 1, 0, 0⟩ ⟨0, none, 0, 0⟩ 0 2 := by
  intro session
  have reachable : session.Reachable := ⟨.below 8, _, rfl⟩
  have found : session.buffer? 0 = some _ := rfl
  have first : session.Circulates ⟨0, some 1, 0, 0⟩ :=
    ⟨session, [], 0, 0, reachable, .given found (by decide) rfl, rfl⟩
  have last : session.Circulates ⟨0, none, 0, 0⟩ :=
    ⟨session, [], 0, 2, reachable, .given found (by decide) rfl, rfl⟩
  obtain ⟨-, -, related, -⟩ := cursors_are_indices reachable found
  obtain ⟨source, target, one, other, relates⟩ := related _ _ first last rfl rfl
  obtain rfl : 0 = source := Except.ok.inj one.resolves
  obtain rfl : 2 = target := Except.ok.inj other.resolves
  exact ⟨_, found, one, other, relates⟩

end RingDeque.Session
