import RingDeque.Datum
import RingDeque.Proofs.Session.Lapsing

/-!
Commands to an elastic ring that are interrupted.

A copy, a destruction or a supply that fails leaves the block of an elastic ring within its limits,
except that some commands install a block of another size before they put the limits for it in
force. If they are interrupted in between, the old limits stay around the new block.
-/

namespace RingDeque.Session

variable {α : Type} {session : Session α} {number : Nat}

/-- An interrupted command leaves an elastic ring within its limits, or with the block it installed
under the limits from before. -/
theorem interrupted_leaves_elastic [Value α] (reachable : session.Reachable) {command : Command α}
    {save : Option String} {cause : Interruption}
    (interrupted : (session.step (.on number command save)).1 = .halted (.interrupted cause))
    {outer : ElasticRing α} (found : session.buffer? number = some (.elastic outer))
    (within : outer.WithinLimits) :
    ∃ later, (session.step (.on number command save)).2.buffer? number = some (.elastic later) ∧
      later.len ≤ later.physical ∧
      (later.WithinLimits ∨
        later.limits = outer.limits ∧ command.installs outer later.physical) := by
  obtain ⟨owned, agrees⟩ := reachable.agrees ((Op.on number command save).inPlace · = true)
  have lapses := runOp_lapses agrees.silenced found command save
  obtain ⟨orderly, left⟩ := step_halted agrees (fun _ => id) lapses interrupted
  obtain ⟨later, present, lapsed⟩ := left _ rfl orderly
  obtain ⟨-, lost, sound, -⟩ := step_sound agrees.valid agrees.balanced (.on number command save)
  cases later with
  | fixed ring => exact lapsed.elim
  | elastic later =>
      have wellFormed : later.ring.WellFormed := sound.wellFormed present
      refine ⟨later, present, wellFormed.fits, ?_⟩
      exact (lapsed.2 rfl within).imp_left fun bounded => bounded.within wellFormed

/-- The destruction of an element that is cleared fails, and the block stays as it is. -/
theorem interrupted_leaves_elastic_cleared :
    let session := run [.build 0 (.elastic ⟨1, some 1⟩), .on 0 (.push .back (.int 1)) none,
      .armDestruction (some (.int 1))] (blank Ledger.ordinaryMemory : Session Datum)
    ∃ outer later, session.buffer? 0 = some (.elastic outer) ∧ outer.WithinLimits ∧
      (session.step (.on 0 .clear none)).2.buffer? 0 = some (.elastic later) ∧
      later.len ≤ later.physical ∧ (later.WithinLimits ∨
        later.limits = outer.limits ∧ (.clear : Command Datum).installs outer later.physical) := by
  intro session
  obtain ⟨outer, found, within⟩ : ∃ outer, session.buffer? 0 = some (.elastic outer) ∧
      outer.WithinLimits := ⟨_, rfl, ⟨Nat.le_refl 1, Nat.le_refl 1, Nat.le_refl 1⟩⟩
  have interrupted : (session.step (.on 0 .clear none)).1 =
      .halted (.interrupted .destructionFailed) := rfl
  obtain ⟨later, left⟩ := interrupted_leaves_elastic ⟨_, _, rfl⟩ interrupted found within
  exact ⟨outer, later, found, within, left⟩

/-- The destruction of the old element fails after a block was installed that is larger than the
old ceiling. -/
theorem interrupted_assign_exceeds_ceiling :
    let session := run [.build 0 (.elastic ⟨1, some 1⟩), .on 0 (.push .back (.int 1)) none,
      .armDestruction (some (.int 1))] (blank Ledger.ordinaryMemory : Session Datum)
    let interrupted := session.step (.on 0 (.assign 2 (.int 7)) none)
    ∃ outer later, session.buffer? 0 = some (.elastic outer) ∧ outer.WithinLimits ∧
      interrupted.1 = .halted (.interrupted .destructionFailed) ∧
      interrupted.2.buffer? 0 = some (.elastic later) ∧ later.capacity = 1 ∧ later.physical = 2 :=
  ⟨_, _, rfl, ⟨Nat.le_refl 1, Nat.le_refl 1, Nat.le_refl 1⟩, rfl, rfl, rfl, rfl⟩

end RingDeque.Session
