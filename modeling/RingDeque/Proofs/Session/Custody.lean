import Mathlib.Algebra.BigOperators.Group.List.Lemmas
import RingDeque.Datum
import RingDeque.Proofs.Session.Integrity

/-!
Where the elements are.

Main statement: `run_accounts`. At the end of every operation each element made so far is in exactly
one place: at one index of one buffer, handed back to the caller, or destroyed.
-/

namespace RingDeque.Session

variable {α : Type} {session : Session α} {owned : Multiset Nat}

/-- The identities of all elements, with one entry for each place that has the element. -/
def whereabouts (session : Session α) : List Nat :=
  (session.buffers.flatMap fun entry => entry.2.ring.toList).map Item.id ++
    session.ledger.destroyed.map Item.id ++ session.ledger.returned.map Item.id

/-- In a run, no buffer is made after a prototype whose destruction fails. -/
def Spares [Value α] : List (Op α) → Session α → Prop
  | [], _ => True
  | op :: rest, session => ¬ op.Fragile session.ledger ∧ Spares rest (session.step op).2

theorem ids_flatMap (buffers : List (Nat × Buffer α)) :
    ids (buffers.flatMap fun entry => entry.2.ring.toList) = afloat buffers := by
  induction buffers with
  | nil => rfl
  | cons entry rest ih => rw [List.flatMap_cons, ids_append, ih, afloat_cons]

/-- A run without such a prototype accounts for all elements. -/
theorem run_balanced [Value α] (valid : session.Valid)
    (balanced : session.ledger.Balanced (afloat session.buffers + owned)) {ops : List (Op α)}
    (spared : Spares ops session) :
    (run ops session).ledger.Balanced (afloat (run ops session).buffers + owned) := by
  induction ops generalizing session with
  | nil => exact balanced
  | cons op rest ih =>
      obtain ⟨-, lost, agrees, blame⟩ := step_sound valid balanced op
      have none := blame.resolve_right spared.1
      rw [none, zero_add] at agrees
      exact ih agrees.valid agrees.balanced spared.2

/-- A balanced ledger as a list of identities. -/
theorem whereabouts_perm (balanced : session.ledger.Balanced (afloat session.buffers)) :
    session.whereabouts.Perm (List.range session.ledger.created) := by
  rw [← Multiset.coe_eq_coe]
  change _ = Multiset.range _
  rw [← balanced, ← ids_flatMap]
  simp only [whereabouts, Ledger.settled, ids, Multiset.coe_add]
  exact Multiset.coe_eq_coe.mpr (by
    rw [List.append_assoc]
    exact List.perm_append_comm)

/-- The elements that exist are those in the buffers. -/
theorem live_eq (wellFormed : ∀ entry ∈ session.buffers, entry.2.ring.WellFormed)
    (accounted : session.whereabouts.Perm (List.range session.ledger.created)) :
    session.ledger.live = (session.buffers.map fun entry => entry.2.ring.len).sum := by
  have lengths : ∀ buffers : List (Nat × Buffer α),
      (∀ entry ∈ buffers, entry.2.ring.WellFormed) →
      (buffers.flatMap fun entry => entry.2.ring.toList).length =
        (buffers.map fun entry => entry.2.ring.len).sum := by
    intro buffers wellFormed
    rw [List.length_flatMap]
    congr 1
    exact List.map_congr_left fun entry member => (wellFormed entry member).length_toList
  have counted := accounted.length_eq
  simp only [whereabouts, List.length_append, List.length_map, List.length_range,
    lengths _ wellFormed] at counted
  simp only [Ledger.live]
  omega

theorem run_accounts [Value α] (memory : Memory) (ops : List (Op α))
    (spared : Spares ops (blank memory)) :
    let session := run ops (blank memory)
    session.whereabouts.Perm (List.range session.ledger.created) ∧
    session.ledger.live = (session.buffers.map fun entry => entry.2.ring.len).sum ∧
    ∃ after, session.finish = .ok after ∧
      after.whereabouts.Perm (List.range session.ledger.created) ∧ after.ledger.live = 0 := by
  obtain ⟨valid, -⟩ := run_sound (blank_valid memory) (blank_balanced memory) ops
  have balanced := run_balanced (blank_valid memory) (blank_balanced memory) spared
  rw [add_zero] at balanced
  have accounted := whereabouts_perm balanced
  refine ⟨accounted, live_eq valid.wellFormed accounted, _, valid.finish_eq, ?_⟩
  -- What the buffers held is now among the destroyed elements.
  have discarded : ({ run ops (blank memory) with
      buffers := []
      ledger := (run ops (blank memory)).ledger.discarding
        ((run ops (blank memory)).buffers.flatMap fun entry => entry.2.ring.toList) }
        : Session α).whereabouts.Perm (List.range (run ops (blank memory)).ledger.created) := by
    refine List.Perm.trans ?_ accounted
    simp only [whereabouts, Ledger.discarding, List.flatMap_nil, List.map_nil, List.nil_append,
      List.map_append, List.map_reverse]
    exact ((List.reverse_perm _).append_right _).append_right _
  exact ⟨discarded, live_eq (by simp) discarded⟩

/-- A prototype is destroyed although the destruction of another value would fail. -/
theorem run_accounts_filled :
    Spares [.armDestruction (some (.int 9)), .build 0 (.filledRing 2 (.int 7)),
      .on 0 (.push .back (.int 8)) none] (blank (.below 8) : Session Datum) ∧
    (run [.armDestruction (some (.int 9)), .build 0 (.filledRing 2 (.int 7)),
      .on 0 (.push .back (.int 8)) none] (blank (.below 8) : Session Datum)).whereabouts.Perm
        [0, 1, 2, 3] := by
  have spared : Spares [.armDestruction (some (.int 9)), .build 0 (.filledRing 2 (.int 7)),
      .on 0 (.push .back (.int 8)) none] (blank (.below 8) : Session Datum) := by
    refine ⟨id, ?_, id, trivial⟩
    intro given
    obtain ⟨value, copied, fails, armed, id, failing⟩ := given
    cases copied
    cases armed
    cases failing
  exact ⟨spared, (run_accounts (.below 8) _ spared).1⟩

end RingDeque.Session
