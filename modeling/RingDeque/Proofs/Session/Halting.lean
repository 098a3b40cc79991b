import RingDeque.Proofs.Elastic.Interrupting
import RingDeque.Proofs.Elastic.Refusing
import RingDeque.Proofs.Session.Commanding

/-!
What a halted command leaves of the buffer it was addressed to.

A refusal leaves a fixed ring as it was. It leaves an elastic ring as it was but for its limits, and
an interruption leaves the block of an elastic ring within its limits but for its size; the commands
that make these exceptions are named by `Command.demands` and `Command.installs`.
-/

namespace RingDeque.Session

open Effect Act
open RingDeque.Ring (Sound)

variable {α γ δ : Type} {written : Prop} {origin : Tracked (Ring α) α} {owned : Multiset Nat}

/-- The limits that a command puts in force before it can still be refused. -/
def Command.demands (outer : ElasticRing α) : Command α → Limits → Prop
  | .resize _ n _, limits => outer.len < n ∧ limits = outer.limits.raisedTo n
  | .setCapacity _ bounds, limits => bounds.limits = .ok limits
  | .setFloor floor, limits => limits.ceiling = outer.capacity ∧ limits.floor = floor
  | _, _ => False

/-- The sizes that a command gives the block before it puts the limits for them in force. -/
def Command.installs (outer : ElasticRing α) : Command α → Nat → Prop
  | .setCapacity _ bounds, size => bounds.ceiling < outer.physical ∧ size = bounds.ceiling
  | .assign n _, size => size = n
  | .assignWithin bounds n _, size => size = max (bounds.floor.getD 0) n
  | .assignFeed feed, size => size = feed.claimed
  | .assignFeedWithin bounds _, size => size = bounds.ceiling
  | _, _ => False

/-- What a halted command leaves of a buffer. -/
def Buffer.Lapses (command : Command α) (halt : Halt) : Buffer α → Buffer α → Prop
  | .fixed ring, .fixed later => halt.isRefusal = true → later = ring
  | .elastic outer, .elastic later =>
      (halt.isRefusal = true → ElasticRing.Undone (command.demands outer) outer later) ∧
      (halt.isRefusal = false → outer.WithinLimits → later.Bounded ∨
        later.limits = outer.limits ∧ command.installs outer later.physical)
  | _, _ => False

variable {command : Command α} {halt : Halt}

theorem Buffer.Lapses.refl (buffer : Buffer α) : buffer.Lapses command halt buffer := by
  cases buffer with
  | fixed ring => exact fun _ => rfl
  | elastic outer => exact ⟨fun _ => ⟨rfl, .inl rfl⟩, fun _ within => .inl within.bounded⟩

/-- An action that leaves what a halted command may leave. -/
def Lapsing (command : Command α) (act : Act (Buffer α) α γ) (before : Tracked (Buffer α) α) :
    Prop :=
  Ends act before (fun _ _ => True) fun halt after =>
    halt.Orderly → before.buffer.Lapses command halt after.buffer

variable {before : Tracked (Buffer α) α} {ledger : Ledger α}

theorem lapsing_of_smooth {act : Act (Buffer α) α γ} (smooth : Smooth act) :
    Lapsing command act before :=
  (smooth before).mono (fun _ _ => id) fun _ _ disorderly orderly => absurd orderly disorderly

theorem lapsing_making {act : Item α → Act (Buffer α) α γ} {value : α}
    (sound : Sound written origin owned before.buffer.ring before.ledger)
    (next : ∀ item ledger,
      Sound written origin ({item.id} + owned) before.buffer.ring ledger →
      Lapsing command (act item) ⟨before.buffer, ledger⟩) :
    Lapsing command (do act (← Ledger.make value)) before := by
  simp only [Lapsing, ends_bind, ends_ledger]
  exact (sound.make_ends value).mono (fun item ledger made => next item ledger made.2) fun _ _ => id

section

variable {onFixed : Act (Ring α) α γ} {onElastic : Act (ElasticRing α) α γ} {ring : Ring α}
  {outer : ElasticRing α}

theorem lapsing_fixed (atomic : Atomic onFixed) :
    Lapsing command (Buffer.either onFixed onElastic) ⟨.fixed ring, ledger⟩ := by
  rw [Lapsing, Buffer.ends_fixed]
  exact (atomic ⟨ring, ledger⟩).mono (fun _ _ => id) fun _ _ undone _ => undone

theorem lapsing_elastic
    (reverts : ElasticRing.Reverts (command.demands outer) onElastic ⟨outer, ledger⟩)
    (withstands : outer.WithinLimits →
      ElasticRing.Withstands (command.installs outer) onElastic ⟨outer, ledger⟩) :
    Lapsing command (Buffer.either onFixed onElastic) ⟨.elastic outer, ledger⟩ := by
  rw [Lapsing, Buffer.ends_elastic]
  by_cases within : outer.WithinLimits
  · exact (reverts.and (withstands within)).mono (fun _ _ _ => trivial)
      fun _ _ halted _ => ⟨halted.1, fun other _ => halted.2 other⟩
  · exact reverts.mono (fun _ _ _ => trivial)
      fun _ _ undone _ => ⟨undone, fun _ now => absurd now within⟩

/-- Bounds that make no sense are refused at once. -/
theorem lapsing_demand {bounds : Bounds} {onElastic : Limits → Act (ElasticRing α) α γ}
    (next : ∀ limits, bounds.limits = .ok limits → Lapsing command
      (Buffer.either onFixed (onElastic limits)) ⟨.elastic outer, ledger⟩) :
    Lapsing command (Buffer.either onFixed do onElastic (← bounds.demand))
      ⟨.elastic outer, ledger⟩ := by
  rw [Lapsing, Buffer.ends_elastic]
  simp only [Bounds.demand, ends_bind]
  cases made : bounds.limits with
  | ok limits =>
      have lapsing := next limits made
      rw [Lapsing, Buffer.ends_elastic] at lapsing
      exact lapsing
  | error error => exact fun _ => Buffer.Lapses.refl (Buffer.elastic outer)

end

/-- The limits that bounds describe have their ceiling, and their floor if they name one. -/
theorem Bounds.limits_eq {bounds : Bounds} {limits : Limits} (made : bounds.limits = .ok limits) :
    limits.ceiling = bounds.ceiling ∧ limits.floor = bounds.floor.getD 0 := by
  simp only [Bounds.limits] at made
  cases named : bounds.floor with
  | none =>
      rw [named] at made
      cases made
      exact ⟨rfl, rfl⟩
  | some floor =>
      simp only [named, Limits.new] at made
      split at made
      · cases made
        exact ⟨rfl, rfl⟩
      · cases made

namespace Buffer

variable {item model : Item α} {side trim toward yields : End} {cursor first last : Cursor}
  {n : Nat} {bounds : Bounds} {feed : Feed α} {value : α} {site other : Site}

theorem push_lapsing
    (sound : Sound written origin ({item.id} + owned) before.buffer.ring before.ledger) :
    Lapsing (.push side value) (push side item) before := by
  obtain ⟨buffer, ledger⟩ := before
  cases buffer with
  | fixed ring => exact lapsing_fixed (.of_unrefused (unrefused_update _))
  | elastic outer =>
      exact lapsing_elastic (ElasticRing.reverts_of_atomic (ElasticRing.push_atomic side item))
        fun within => (ElasticRing.push_keepsBounds within sound).withstands

theorem pop_lapsing (sound : Sound written origin owned before.buffer.ring before.ledger) :
    Lapsing (.pop side) (pop side) before := by
  obtain ⟨buffer, ledger⟩ := before
  cases buffer with
  | fixed ring => exact lapsing_fixed (.of_unrefused (unrefused_update _))
  | elastic outer =>
      exact lapsing_elastic
        (ElasticRing.reverts_of_atomic (.of_unrefused (ElasticRing.pop_unrefused side)))
        fun within => (ElasticRing.pop_keepsBounds within sound).withstands

theorem insert_lapsing
    (sound : Sound written origin ({item.id} + owned) before.buffer.ring before.ledger)
    (vouched : before.buffer.ring.Vouches cursor) :
    Lapsing (.insert yields site value) (insert yields cursor item) before := by
  obtain ⟨buffer, ledger⟩ := before
  cases buffer with
  | fixed ring => exact lapsing_fixed (Ring.insert_atomic yields cursor item)
  | elastic outer =>
      exact lapsing_elastic (ElasticRing.insert_reverts sound vouched)
        fun within => (ElasticRing.insert_keepsBounds within sound vouched).withstands

theorem insertCopies_lapsing
    (sound : Sound written origin ({model.id} + owned) before.buffer.ring before.ledger)
    (vouched : before.buffer.ring.Vouches cursor) :
    Lapsing (.insertCopies yields site n value) (insertCopies yields cursor n model) before := by
  obtain ⟨buffer, ledger⟩ := before
  cases buffer with
  | fixed ring => exact lapsing_fixed (Ring.insertCopies_atomic yields cursor n model)
  | elastic outer =>
      exact lapsing_elastic (ElasticRing.insertCopies_reverts sound vouched)
        fun within => (ElasticRing.insertCopies_keepsBounds within sound vouched).withstands

theorem insertFeed_lapsing
    (sound : Sound written origin owned before.buffer.ring before.ledger)
    (vouched : before.buffer.ring.Vouches cursor) :
    Lapsing (.insertFeed yields site feed) (insertFeed yields cursor feed) before := by
  obtain ⟨buffer, ledger⟩ := before
  cases buffer with
  | fixed ring => exact lapsing_fixed (Ring.insertFeed_atomic yields cursor feed)
  | elastic outer =>
      exact lapsing_elastic (ElasticRing.insertFeed_reverts sound vouched)
        fun within => (ElasticRing.insertFeed_keepsBounds within sound vouched).withstands

theorem erase_lapsing (sound : Sound written origin owned before.buffer.ring before.ledger)
    (vouched : before.buffer.ring.Vouches cursor) :
    Lapsing (.erase toward site) (erase toward cursor) before := by
  obtain ⟨buffer, ledger⟩ := before
  cases buffer with
  | fixed ring => exact lapsing_fixed (Ring.erase_atomic toward cursor)
  | elastic outer =>
      exact lapsing_elastic (ElasticRing.erase_reverts sound vouched)
        fun within => (ElasticRing.erase_keepsBounds within sound vouched).withstands

theorem eraseRange_lapsing (sound : Sound written origin owned before.buffer.ring before.ledger)
    (firstVouched : before.buffer.ring.Vouches first)
    (lastVouched : before.buffer.ring.Vouches last) :
    Lapsing (.eraseRange toward site other) (eraseRange toward first last) before := by
  obtain ⟨buffer, ledger⟩ := before
  cases buffer with
  | fixed ring => exact lapsing_fixed (Ring.eraseRange_atomic toward first last)
  | elastic outer =>
      exact lapsing_elastic (ElasticRing.eraseRange_reverts sound firstVouched lastVouched)
        fun within =>
          (ElasticRing.eraseRange_keepsBounds within sound firstVouched lastVouched).withstands

theorem clear_lapsing (sound : Sound written origin owned before.buffer.ring before.ledger) :
    Lapsing .clear clear before := by
  obtain ⟨buffer, ledger⟩ := before
  cases buffer with
  | fixed ring => exact lapsing_fixed (.of_unrefused Ring.clear_unrefused)
  | elastic outer =>
      exact lapsing_elastic
        (ElasticRing.reverts_of_atomic (.of_unrefused ElasticRing.clear_unrefused))
        fun within => (ElasticRing.clear_keepsBounds within sound).withstands

theorem extend_lapsing (entries : List (Entry α)) {ring : Ring α} :
    Lapsing command (onRing (Ring.extend entries)) ⟨.fixed ring, ledger⟩ :=
  lapsing_fixed (.of_unrefused (Ring.extend_unrefused entries))

theorem setCapacity_lapsing (sound : Sound written origin owned before.buffer.ring before.ledger) :
    Lapsing (.setCapacity trim bounds) (setCapacity trim bounds) before := by
  obtain ⟨buffer, ledger⟩ := before
  cases buffer with
  | fixed ring => exact lapsing_fixed (Ring.setCapacity_atomic trim _)
  | elastic outer =>
      refine lapsing_demand fun limits made => lapsing_elastic ?_ fun within => ?_
      · have reverts : ElasticRing.Reverts (· = limits) (ElasticRing.setLimits trim limits)
          ⟨outer, ledger⟩ := ElasticRing.setLimits_reverts sound trim limits
        apply reverts.mono (fun _ _ => id)
        intro halt after undone refused
        obtain ⟨ring, limited⟩ := undone refused
        refine ⟨ring, limited.imp_right fun same => ?_⟩
        rw [same]
        exact made
      · obtain ⟨ceiling, -⟩ := Bounds.limits_eq made
        have withstands : ElasticRing.Withstands _ (ElasticRing.setLimits trim limits)
          ⟨outer, ledger⟩ := ElasticRing.setLimits_withstands within sound trim limits
        rw [ceiling] at withstands
        exact withstands

theorem setFloor_lapsing (sound : Sound written origin owned before.buffer.ring before.ledger)
    (floor : Nat) :
    Lapsing (.setFloor floor) (either (pure ()) (ElasticRing.setFloor floor)) before := by
  obtain ⟨buffer, ledger⟩ := before
  cases buffer with
  | fixed ring => exact lapsing_fixed (.of_unrefused (haltsOnly_pure _))
  | elastic outer =>
      exact lapsing_elastic (ElasticRing.setFloor_reverts sound floor)
        fun within => ElasticRing.setFloor_withstands within sound floor

theorem resize_lapsing
    (sound : Sound written origin ({model.id} + owned) before.buffer.ring before.ledger) :
    Lapsing (.resize side n value) (resize side n model) before := by
  obtain ⟨buffer, ledger⟩ := before
  cases buffer with
  | fixed ring => exact lapsing_fixed (Ring.resize_atomic side.opposite n model)
  | elastic outer =>
      exact lapsing_elastic (ElasticRing.resize_reverts sound)
        fun within => (ElasticRing.resize_keepsBounds within sound).withstands

theorem assign_lapsing : Lapsing (.assign n value) (assign n model) before := by
  obtain ⟨buffer, ledger⟩ := before
  cases buffer with
  | fixed ring => exact lapsing_fixed (Ring.assign_atomic n model)
  | elastic outer =>
      exact lapsing_elastic (ElasticRing.reverts_of_atomic (ElasticRing.assign_atomic n model))
        fun within => ElasticRing.assign_withstands within n model

theorem assignWithin_lapsing :
    Lapsing (.assignWithin bounds n value) (assignWithin bounds n value) before := by
  obtain ⟨buffer, ledger⟩ := before
  cases buffer with
  | fixed ring =>
      exact lapsing_fixed (Atomic.of_ledger fun model => Ring.assignWithin_atomic _ n model)
  | elastic outer =>
      refine lapsing_demand fun limits made => lapsing_elastic ?_ fun within => ?_
      · exact ElasticRing.reverts_of_atomic
          (Atomic.of_ledger fun model => ElasticRing.assignUnder_atomic limits n model)
      · obtain ⟨-, floor⟩ := Bounds.limits_eq made
        have withstands : ∀ model ledger, ElasticRing.Withstands _
            (ElasticRing.assignUnder limits n model) ⟨outer, ledger⟩ :=
          fun model _ => ElasticRing.assignUnder_withstands within limits n model
        rw [floor] at withstands
        simp only [ElasticRing.Withstands, ends_bind, ends_ledger]
        exact Ends.anyhow (fun model later => withstands model later) fun _ _ _ => .inl within.bounded

theorem assignFeed_lapsing : Lapsing (.assignFeed feed) (assignFeed feed) before := by
  obtain ⟨buffer, ledger⟩ := before
  cases buffer with
  | fixed ring => exact lapsing_fixed (Ring.assignFeed_atomic feed)
  | elastic outer =>
      exact lapsing_elastic (ElasticRing.reverts_of_atomic (ElasticRing.assignFeed_atomic feed))
        fun within => ElasticRing.assignFeed_withstands within feed

theorem assignFeedWithin_lapsing
    (sound : Sound written origin owned before.buffer.ring before.ledger) :
    Lapsing (.assignFeedWithin bounds feed) (assignFeedWithin bounds feed) before := by
  obtain ⟨buffer, ledger⟩ := before
  cases buffer with
  | fixed ring => exact lapsing_fixed (Ring.assignFeedWithin_atomic _ feed)
  | elastic outer =>
      refine lapsing_demand fun limits made => lapsing_elastic ?_ fun within => ?_
      · exact ElasticRing.reverts_of_atomic (ElasticRing.assignFeedUnder_atomic limits feed)
      · obtain ⟨ceiling, -⟩ := Bounds.limits_eq made
        have withstands : ElasticRing.Withstands _ (ElasticRing.assignFeedUnder limits feed)
          ⟨outer, ledger⟩ := ElasticRing.assignFeedUnder_withstands within sound limits feed
        rw [ceiling] at withstands
        exact withstands

end Buffer

end RingDeque.Session
