import RingDeque.Proofs.Elastic.Replacing
import RingDeque.Session.Buffer

/-!
Making buffers of either kind.

A buffer that cannot be completed is given up with everything in it. There is one exception: a plan
may call for copies of a prototype, and if the buffer is complete when the destruction of the
prototype fails, the buffer is lost with its elements.
-/

namespace RingDeque

open Effect

namespace Ledger

variable {α : Type} {origin ledger : Ledger α} {owned : Multiset Nat}

theorem makeAll_ends (keeps : origin.Keeps owned ledger) (values : List α)
    {halts : Halt → Ledger α → Prop} :
    Ends (values.mapM make) ledger (fun items after => origin.Keeps (ids items + owned) after)
      halts := by
  induction values generalizing ledger owned with
  | nil => exact keeps.of_eq (by simp)
  | cons value rest ih =>
      simp only [List.mapM_cons, ends_bind, ends_pure]
      refine (make_ends keeps value).mono ?_ fun _ _ => id
      intro item middle ended
      obtain ⟨-, held⟩ := ended
      refine (ih held).mono ?_ fun _ _ => id
      intro items after final
      exact final.of_eq (by rw [ids_cons]; abel)

end Ledger

namespace Session

open RingDeque.Ring (Made Fails Loses)

variable {α : Type} {earlier ledger : Ledger α} {owned : Multiset Nat} {breaks : Prop}
  {refuses : Error → Prop} {buffer : Buffer α} {bounds : Bounds}

/-- The value of which a plan calls for copies. -/
def Plan.prototype? : Plan α → Option α
  | .filledRing _ value | .elasticCopies _ _ value | .filledElastic _ value => some value
  | _ => none

/-- Whether the destruction of the prototype of a plan would fail. -/
def Plan.Fragile (plan : Plan α) (ledger : Ledger α) : Prop :=
  ∃ value, plan.prototype? = some value ∧ ∃ fails, ledger.brittle = some fails ∧
    ∃ id, fails ⟨id, value⟩ = true

/-- A buffer that could not be made, or was lost when it was complete. -/
structure Spoils (plan : Plan α) (earlier : Ledger α) (owned : Multiset Nat) (halt : Halt)
    (ledger : Ledger α) : Prop where
  orderly : halt.Orderly
  keeps : ∃ lost, earlier.Keeps (lost + owned) ledger ∧ (lost = 0 ∨ plan.Fragile earlier)

variable {plan : Plan α}

theorem Spoils.of_keeps {halt : Halt} (orderly : halt.Orderly)
    (keeps : earlier.Keeps owned ledger) : Spoils plan earlier owned halt ledger :=
  ⟨orderly, 0, by simpa using keeps, .inl rfl⟩

theorem Spoils.of_fails {halt : Halt} (fails : Fails earlier breaks refuses owned halt ledger) :
    Spoils plan earlier owned halt ledger :=
  .of_keeps fails.due.orderly fails.keeps

theorem Spoils.of_loses {halt : Halt} {middle : Ledger α} {model : Item α} {value : α}
    (loses : Loses middle breaks refuses model owned halt ledger) (follows : earlier.Follows middle)
    (copied : plan.prototype? = some value) (same : model.value = value) :
    Spoils plan earlier owned halt ledger := by
  obtain ⟨due, lost, keeps, blame⟩ := loses
  refine ⟨due.orderly, lost, keeps.since follows, blame.imp_right ?_⟩
  intro given
  obtain ⟨fails, armed, failing⟩ := given
  refine ⟨value, copied, fails, ?_, model.id, by rw [← same]; exact failing⟩
  rcases follows.brittle with kept | lifted
  · rw [← kept, armed]
  · rw [lifted] at armed
    contradiction

/-- Bounds that make no sense are refused before anything is made. -/
theorem demand_ends {act : Limits → Effect (Ledger α) (Buffer α)}
    (keeps : earlier.Keeps owned ledger)
    (next : ∀ limits, Ends (act limits) ledger
      (fun buffer after => Made earlier owned buffer.ring after) (Spoils plan earlier owned)) :
    Ends (do act (← bounds.demand)) ledger
      (fun buffer after => Made earlier owned buffer.ring after) (Spoils plan earlier owned) := by
  simp only [ends_bind, Bounds.demand]
  cases bounds.limits with
  | ok limits => exact next limits
  | error error => exact .of_keeps trivial keeps

/-- A buffer after a prototype, which is made for it. -/
theorem prototype_ends (breaks : Prop) (refuses : Error → Prop) {act : Item α → Effect (Ledger α) (Buffer α)} {value : α}
    (keeps : earlier.Keeps owned ledger) (copied : plan.prototype? = some value)
    (next : ∀ model middle, middle.Keeps ({model.id} + owned) middle →
      Ends (act model) middle
        (fun buffer after => Made middle owned buffer.ring after)
        (Loses middle breaks refuses model owned)) :
    Ends (do act (← Ledger.make value)) ledger
      (fun buffer after => Made earlier owned buffer.ring after) (Spoils plan earlier owned) := by
  simp only [ends_bind]
  refine (Ledger.make_ends keeps value).mono ?_ fun _ _ => id
  intro model middle ended
  obtain ⟨same, held⟩ := ended
  refine (next model middle ⟨.refl _, held.balanced⟩).mono ?_ ?_
  · intro buffer after made
    exact ⟨made.wellFormed, Nat.le_trans held.follows.rings made.fresh, made.known,
      made.keeps.since held.follows⟩
  · intro halt after loses
    exact .of_loses loses held.follows copied same

theorem build_ends (keeps : earlier.Keeps owned ledger) :
    Ends (Buffer.build plan) ledger
      (fun buffer after => Made earlier owned buffer.ring after) (Spoils plan earlier owned) := by
  cases plan with
  | emptyRing =>
      simp only [Buffer.build, ends_bind, ends_pure]
      exact (Ring.empty_ends keeps).mono (fun _ _ made => made.1) fun _ _ => id
  | ring capacity =>
      simp only [Buffer.build, ends_bind, ends_pure]
      exact (Ring.new_ends False (fun _ => True) keeps capacity fun _ => trivial).mono
        (fun _ _ made => made.1) fun _ _ => .of_fails
  | filledRing capacity value =>
      refine prototype_ends False (fun _ => True) keeps rfl
        fun model middle held => ?_
      simp only [ends_bind, ends_pure]
      exact (Ring.filled_ends held capacity fun _ => trivial).mono
        (fun _ _ made => made.1) fun _ _ => id
  | ringFrom capacity feed =>
      simp only [Buffer.build, ends_bind, ends_pure]
      exact (Ring.ofSupply_ends (fun _ => True) keeps capacity _ fun _ => trivial).mono
        (fun _ _ made => made.1) fun _ _ => .of_fails
  | ringOf values =>
      simp only [Buffer.build, ends_bind, ends_pure]
      refine (Ledger.makeAll_ends keeps values).mono ?_ fun _ _ => id
      intro items middle held
      exact (Ring.ofItems_ends held).mono (fun _ _ made => made.1)
        fun _ _ thwarts => .of_keeps thwarts.orderly thwarts.keeps
  | emptyElastic =>
      simp only [Buffer.build, ends_bind, ends_pure]
      exact ElasticRing.empty_ends keeps
  | elastic bounds =>
      refine demand_ends keeps fun limits => ?_
      simp only [ends_bind, ends_pure]
      exact (ElasticRing.new_ends False keeps).mono
        (fun _ _ made => made.1) fun _ _ => .of_fails
  | elasticCopies bounds n value =>
      refine demand_ends keeps fun limits => ?_
      refine prototype_ends False (fun _ => True) keeps rfl fun model middle held => ?_
      simp only [ends_bind, ends_pure]
      exact (ElasticRing.ofCopies_ends held).mono (fun _ _ made => made.1)
        fun _ _ => id
  | filledElastic bounds value =>
      refine demand_ends keeps fun limits => ?_
      refine prototype_ends False (fun _ => True) keeps rfl fun model middle held => ?_
      simp only [ends_bind, ends_pure, ElasticRing.filled]
      exact (ElasticRing.ofCopies_ends held).mono (fun _ _ made => made.1)
        fun _ _ => id
  | elasticFrom bounds feed =>
      refine demand_ends keeps fun limits => ?_
      simp only [ends_bind, ends_pure]
      exact (ElasticRing.ofFeed_ends keeps).mono
        (fun _ _ made => made.1) fun _ _ => .of_fails

theorem duplicate_ends (keeps : earlier.Keeps owned ledger) (wellFormed : buffer.ring.WellFormed) :
    Ends buffer.duplicate ledger
      (fun copy after => Made earlier owned copy.ring after)
      (fun halt after => halt.Orderly ∧ earlier.Keeps owned after) := by
  cases buffer with
  | fixed ring =>
      simp only [Buffer.duplicate, ends_bind, ends_pure]
      exact (Ring.duplicate_ends keeps wellFormed).mono (fun _ _ made => made.1)
        fun _ _ thwarts => ⟨thwarts.orderly, thwarts.keeps⟩
  | elastic outer =>
      simp only [Buffer.duplicate, ends_bind, ends_pure]
      exact (ElasticRing.duplicate_ends keeps wellFormed).mono (fun _ _ => id)
        fun _ _ thwarts => ⟨thwarts.orderly, thwarts.keeps⟩

end Session

end RingDeque
