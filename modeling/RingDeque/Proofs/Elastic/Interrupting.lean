import RingDeque.Elastic.Replacement
import RingDeque.Proofs.Elastic.Replacing
import RingDeque.Proofs.Ring.Capacity

/-!
The block of an elastic ring after an interruption.

Within the limits, growing and shrinking the block is never interrupted: nothing is trimmed. What is
interrupted is the work on the elements, and that keeps the size of the block. The exceptions are the
operations that give the ring a block for other limits, and put these in force only when the elements
they give up are destroyed.
-/

namespace RingDeque.ElasticRing

open Effect Act
open RingDeque.Ring (Sound Stops KeepsSize Resizes)

variable {α : Type} {written : Prop} {origin : Tracked (Ring α) α}
  {before : Tracked (ElasticRing α) α} {elastic : ElasticRing α} {owned : Multiset Nat}
  {item model : Item α} {side trim yields toward : End} {cursor first last : Cursor} {n : Nat}
  {limits : Limits} {feed : Feed α} {ring : Ring α} {items : List (Item α)}

/-- The size of the block lies between the floor and the ceiling. -/
structure Bounded (elastic : ElasticRing α) : Prop where
  above_floor : elastic.limits.floor ≤ elastic.physical
  below_ceiling : elastic.physical ≤ elastic.capacity

theorem WithinLimits.bounded (within : elastic.WithinLimits) : elastic.Bounded :=
  ⟨within.above_floor, within.below_ceiling⟩

theorem Bounded.within (bounded : elastic.Bounded) (wellFormed : elastic.ring.WellFormed) :
    elastic.WithinLimits :=
  ⟨wellFormed.fits, bounded.above_floor, bounded.below_ceiling⟩

/-- Another ring in a block of the same size. -/
theorem Bounded.refilled (bounded : elastic.Bounded) (sized : ring.capacity = elastic.ring.capacity) :
    Bounded { elastic with ring } := by
  have above := bounded.above_floor
  have below := bounded.below_ceiling
  simp only [physical] at above below
  rw [← sized] at above below
  exact ⟨above, below⟩

/-- However the work on the ring ends, the block keeps its size. -/
theorem Bounded.onRing {act : Act (Ring α) α γ} (bounded : before.buffer.Bounded)
    (keeps : KeepsSize act) :
    Ends (ElasticRing.onRing act) before (fun _ after => after.buffer.Bounded)
      fun _ after => after.buffer.Bounded := by
  rw [ends_onRing]
  apply (keeps ⟨before.buffer.ring, before.ledger⟩).mono
  · exact fun _ _ kept => bounded.refilled (kept.resolve_right id)
  · exact fun _ _ kept => bounded.refilled (kept.resolve_right id)

/-- A block in which all elements fit is refused, or exchanged without a halt. -/
theorem setCapacity_halts (sound : Sound written origin owned before.buffer.ring before.ledger)
    {size : Nat} (fits : before.buffer.len ≤ size) :
    Ends (ElasticRing.onRing (Ring.setCapacity trim size)) before (fun _ _ => True)
      fun halt after => halt.isRefusal = true ∧ after.buffer = before.buffer := by
  rw [ends_onRing]
  apply (Ring.setCapacity_ends False (fun _ => True) sound trim size fun _ => trivial).mono
  · exact fun _ _ _ => trivial
  · rintro halt after ⟨-, ⟨⟨error, rfl⟩, rfl⟩ | tight⟩
    · exact ⟨rfl, rfl⟩
    · exact absurd fits (Nat.not_le_of_lt tight)

/-- Within the limits the block is enlarged, or stays as it is. -/
theorem WithinLimits.secure_ends (within : before.buffer.WithinLimits)
    (sound : Sound written origin owned before.buffer.ring before.ledger) (n : Nat) :
    Ends (secure n) before
      (fun _ after => Sound written origin owned after.buffer.ring after.ledger ∧
        after.buffer.WithinLimits)
      (fun halt after => halt.isRefusal = true ∧ after.buffer = before.buffer) := by
  have grows : Ends (secure n) before _ fun halt after => Stops written origin False
    (fun _ => True) owned halt after.buffer.ring after.ledger :=
      ElasticRing.secure_ends sound n fun _ => trivial
  have halts : Ends (secure n) before (fun _ _ => True) fun halt after =>
      halt.isRefusal = true ∧ after.buffer = before.buffer := by
    simp only [secure, ends_bind, ends_buffer]
    by_cases enough : Word.saturatingAdd before.buffer.len n ≤ before.buffer.physical
    · simp only [if_pos enough, ends_pure]
    simp only [if_neg enough]
    by_cases same : before.buffer.grownSize (Word.saturatingAdd before.buffer.len n) =
        before.buffer.physical
    · simp only [ne_eq, same, not_true, if_false, ends_pure]
    · have larger := (grownSize_bounds within.below_ceiling (Nat.min_le_right (before.buffer.len + n) _)).1
      have fits := within.fits
      simp only [ne_eq, same, not_false_iff, if_true, ends_bind, ends_report]
      exact setCapacity_halts sound (Nat.le_trans fits larger)
  exact (grows.and halts).mono
    (fun _ _ ended => ⟨ended.1.1, (ended.1.2 within).holds.within⟩) fun _ _ halted => halted.2

/-- Within the limits giving up storage never halts. -/
theorem WithinLimits.settle_ends (within : before.buffer.WithinLimits)
    (sound : Sound written origin owned before.buffer.ring before.ledger) :
    Ends settle before
      (fun _ after => Sound written origin owned after.buffer.ring after.ledger ∧
        after.buffer.WithinLimits)
      (fun _ _ => False) := by
  have settles : Ends settle before _ fun halt after => Stops written origin False
    (fun _ => True) owned halt after.buffer.ring after.ledger := ElasticRing.settle_ends sound
  have never : Ends settle before (fun _ _ => True) fun _ _ => False := by
    simp only [settle, ends_bind, ends_buffer]
    by_cases same : before.buffer.settledSize = before.buffer.physical
    · simp only [if_pos same, ends_pure]
    simp only [if_neg same, ends_tryCatch, ends_bind, ends_report]
    apply (setCapacity_halts sound within.settledSize_bounds.1).mono
    · exact fun _ _ => id
    · rintro halt after ⟨refused, -⟩
      cases halt with
      | refused error => simp only [ends_report]
      | interrupted cause => contradiction
      | fault fault => contradiction
  exact (settles.and never).mono
    (fun _ _ ended => ⟨ended.1.1, (ended.1.2 within).within⟩) fun _ _ halted => halted.2

/-- However the action ends, the block lies between the floor and the ceiling. -/
def KeepsBounds (act : Act (ElasticRing α) α γ) (before : Tracked (ElasticRing α) α) : Prop :=
  Ends act before (fun _ after => after.buffer.Bounded) fun _ after => after.buffer.Bounded

theorem WithinLimits.settle_keepsBounds (within : before.buffer.WithinLimits)
    (sound : Sound written origin owned before.buffer.ring before.ledger) :
    KeepsBounds settle before :=
  (within.settle_ends sound).mono (fun _ _ ended => ended.2.bounded) fun _ _ => False.elim

theorem KeepsBounds.consuming {act : Act (ElasticRing α) α γ} (keeps : KeepsBounds act before) :
    KeepsBounds (consuming item act) before := by
  simp only [KeepsBounds, RingDeque.consuming, ends_bind, ends_ledger, ends_pure]
  apply (ends_holding Bounded keeps).mono
  · exact fun _ _ bounded => Ends.anyhow (fun _ _ => bounded) fun _ _ => bounded
  · exact fun _ _ => id

/-- Work on the ring, followed by what is known to keep the bounds from there on. -/
theorem Bounded.onRing_bind {act : Act (Ring α) α γ} {rest : γ → Act (ElasticRing α) α δ}
    {known : γ → Tracked (Ring α) α → Prop} (bounded : before.buffer.Bounded)
    (keeps : KeepsSize act)
    (ends : Ends act ⟨before.buffer.ring, before.ledger⟩ known fun _ _ => True)
    (next : ∀ value ring ledger, known value ⟨ring, ledger⟩ →
      Bounded { before.buffer with ring } →
      KeepsBounds (rest value) ⟨{ before.buffer with ring }, ledger⟩) :
    KeepsBounds (ElasticRing.onRing act >>= rest) before := by
  simp only [KeepsBounds, ends_bind, ends_onRing]
  apply ((keeps ⟨before.buffer.ring, before.ledger⟩).and ends).mono
  · rintro value middle ⟨kept, found⟩
    exact next value middle.buffer middle.ledger found (bounded.refilled (kept.resolve_right id))
  · rintro halt middle ⟨kept, -⟩
    exact bounded.refilled (kept.resolve_right id)

theorem push_keepsBounds (within : before.buffer.WithinLimits)
    (sound : Sound written origin ({item.id} + owned) before.buffer.ring before.ledger) :
    KeepsBounds (push side item) before := by
  have secured : Ends (do
        unless (← Act.buffer).isFull do
          secure 1 : Act (ElasticRing α) α Unit) before
      (fun _ after => Sound written origin ({item.id} + owned) after.buffer.ring after.ledger ∧
        after.buffer.WithinLimits)
      fun _ after => after.buffer.Bounded := by
    simp only [ends_bind, ends_buffer]
    by_cases full : before.buffer.isFull = true
    · simp only [if_pos full, ends_pure]
      exact ⟨sound, within⟩
    · simp only [if_neg full]
      apply (within.secure_ends sound 1).mono
      · exact fun _ _ => id
      · rintro halt after ⟨-, same⟩
        rw [same]
        exact within.bounded
  simp only [KeepsBounds, push, ends_bind]
  apply (ends_holding Bounded secured).mono
  · rintro _ middle ⟨held, within⟩
    rw [ends_onRing]
    apply (Ring.push_ends held side).mono
    · exact fun _ _ ended => within.bounded.refilled ended.2.sized
    · exact fun _ _ => id
  · exact fun _ _ => id

theorem pop_keepsBounds (within : before.buffer.WithinLimits)
    (sound : Sound written origin owned before.buffer.ring before.ledger) :
    KeepsBounds (pop side) before := by
  apply within.bounded.onRing_bind (Ring.resizes_update (Ring.pop_steady side))
    (Ring.pop_ends sound side)
  rintro popped ring ledger ⟨-, leaves⟩ bounded
  have reduced := bounded.within leaves.sound.wellFormed
  cases popped with
  | none => exact bounded
  | some item =>
      simp only [KeepsBounds, ends_bind, ends_pure]
      exact ends_holding Bounded (reduced.settle_keepsBounds leaves.sound)

theorem clear_keepsBounds (within : before.buffer.WithinLimits)
    (sound : Sound written origin owned before.buffer.ring before.ledger) :
    KeepsBounds clear before := by
  apply within.bounded.onRing_bind Ring.clear_keepsSize
    ((Ring.clear_ends False (fun _ => True) sound).mono (fun _ _ => id) fun _ _ _ => trivial)
  intro _ ring ledger leaves bounded
  exact (bounded.within leaves.sound.wellFormed).settle_keepsBounds leaves.sound

theorem settleKeeping_keepsBounds (within : before.buffer.WithinLimits)
    (sound : Sound written origin owned before.buffer.ring before.ledger) {index : Nat}
    (points : before.buffer.ring.Points cursor index) :
    KeepsBounds (settleKeeping cursor) before := by
  simp only [KeepsBounds, settleKeeping, ends_bind, ends_buffer,
    points.resolve sound.wellFormed, liftM_answer, ends_pure]
  apply (within.settle_keepsBounds sound).mono
  · intro _ after bounded
    cases after.buffer.ring.cursorFor index with
    | ok issued => exact bounded
    | error fault => exact bounded
  · exact fun _ _ => id

theorem erase_keepsBounds (within : before.buffer.WithinLimits)
    (sound : Sound written origin owned before.buffer.ring before.ledger)
    (vouched : before.buffer.ring.Vouches cursor) : KeepsBounds (erase toward cursor) before := by
  apply within.bounded.onRing_bind (Ring.erase_keepsSize toward cursor)
    ((Ring.erase_ends False sound vouched).mono (fun _ _ => id) fun _ _ _ => trivial)
  rintro issued ring ledger ⟨held, index, -, -, erases⟩ bounded
  exact settleKeeping_keepsBounds (bounded.within held.wellFormed) held erases.points

theorem eraseRange_keepsBounds (within : before.buffer.WithinLimits)
    (sound : Sound written origin owned before.buffer.ring before.ledger)
    (firstVouched : before.buffer.ring.Vouches first)
    (lastVouched : before.buffer.ring.Vouches last) :
    KeepsBounds (eraseRange toward first last) before := by
  apply within.bounded.onRing_bind (Ring.eraseRange_keepsSize toward first last)
    ((Ring.eraseRange_ends False sound firstVouched lastVouched).mono (fun _ _ => id)
      fun _ _ _ => trivial)
  rintro issued ring ledger ⟨held, source, target, -, -, -, erases⟩ bounded
  exact settleKeeping_keepsBounds (bounded.within held.wellFormed) held erases.points

theorem WithinLimits.prepare_ends (within : before.buffer.WithinLimits)
    (sound : Sound written origin owned before.buffer.ring before.ledger)
    (vouched : before.buffer.ring.Vouches cursor) (n : Nat) :
    Ends (prepare cursor n) before
      (fun _ after => Sound written origin owned after.buffer.ring after.ledger ∧
        after.buffer.WithinLimits)
      fun _ after => after.buffer.Bounded := by
  simp only [prepare, ends_bind, ends_buffer, ends_pure]
  rcases sound.wellFormed.resolve_cases vouched with ⟨index, -, resolved⟩ | refused
  · simp only [resolved, liftM_answer, ends_pure]
    apply (within.secure_ends sound n).mono
    · exact fun _ _ => id
    · rintro halt after ⟨-, same⟩
      rw [same]
      exact within.bounded
  · simp only [refused]
    exact within.bounded

/-- An insertion at the place of an index, in a block that was prepared for it. -/
theorem keepsBounds_atPlace {act : Act (ElasticRing α) α Nat}
    {operation : Cursor → Act (Ring α) α Cursor}
    (ends : Ends act before
      (fun _ after => Sound written origin owned after.buffer.ring after.ledger ∧
        after.buffer.WithinLimits)
      fun _ after => after.buffer.Bounded)
    (keeps : ∀ place, KeepsSize (operation place)) :
    KeepsBounds (do
      let index ← act
      let place ← (← Act.buffer).ring.cursorFor index
      onRing (operation place)) before := by
  rw [KeepsBounds, ends_bind]
  apply ends.mono
  · rintro index middle ⟨held, within⟩
    obtain ⟨place, found, -⟩ := held.wellFormed.cursorFor_exists index
    simp only [ends_bind, ends_buffer, found, liftM_ok, ends_pure]
    exact within.bounded.onRing (keeps place)
  · exact fun _ _ => id

theorem insert_keepsBounds (within : before.buffer.WithinLimits)
    (sound : Sound written origin ({item.id} + owned) before.buffer.ring before.ledger)
    (vouched : before.buffer.ring.Vouches cursor) :
    KeepsBounds (insert yields cursor item) before :=
  keepsBounds_atPlace (ends_holding Bounded (within.prepare_ends sound vouched 1)) fun place =>
    Ring.insert_keepsSize yields place item

theorem insertCopies_keepsBounds (within : before.buffer.WithinLimits)
    (sound : Sound written origin ({model.id} + owned) before.buffer.ring before.ledger)
    (vouched : before.buffer.ring.Vouches cursor) :
    KeepsBounds (insertCopies yields cursor n model) before :=
  keepsBounds_atPlace (ends_holding Bounded (within.prepare_ends sound vouched n)) fun place =>
    Ring.insertCopies_keepsSize yields place n model

theorem insertFeed_keepsBounds (within : before.buffer.WithinLimits)
    (sound : Sound written origin owned before.buffer.ring before.ledger)
    (vouched : before.buffer.ring.Vouches cursor) :
    KeepsBounds (insertFeed yields cursor feed) before :=
  keepsBounds_atPlace (within.prepare_ends sound vouched feed.claimed) fun place =>
    Ring.insertFeed_keepsSize yields place feed

/-- A higher ceiling leaves the block within the limits. -/
theorem WithinLimits.raisedTo (within : elastic.WithinLimits) (n : Nat) :
    WithinLimits { elastic with limits := elastic.limits.raisedTo n } :=
  ⟨within.fits, within.above_floor, Nat.le_trans within.below_ceiling (Nat.le_max_left _ _)⟩

theorem resize_keepsBounds (within : before.buffer.WithinLimits)
    (sound : Sound written origin ({model.id} + owned) before.buffer.ring before.ledger) :
    KeepsBounds (resize side n model) before := by
  by_cases longer : before.buffer.len < n
  · have grown : Ends (do
          setLimitsOnly (before.buffer.limits.raisedTo n)
          secure (n - before.buffer.len)) before
        (fun _ after => after.buffer.ring.WellFormed ∧ after.buffer.WithinLimits)
        fun _ after => after.buffer.Bounded := by
      let raised : Tracked (ElasticRing α) α :=
        ⟨{ before.buffer with limits := before.buffer.limits.raisedTo n }, before.ledger⟩
      have held : Sound written origin ({model.id} + owned) raised.buffer.ring raised.ledger :=
        sound
      simp only [setLimitsOnly, ends_bind, ends_buffer, ends_become]
      apply ((within.raisedTo n).secure_ends held (n - before.buffer.len)).mono
      · exact fun _ _ secured => ⟨secured.1.wellFormed, secured.2⟩
      · rintro halt after ⟨-, same⟩
        rw [same]
        exact (within.raisedTo n).bounded
    apply ends_expanding (ends_holding Bounded grown) longer
    intro middle cursor within _
    exact (ends_onRing.mp (within.bounded.onRing
      (Ring.insertCopies_keepsSize side.opposite cursor (n - before.buffer.len) model)))
  · apply ends_curtailing (Nat.le_of_not_lt longer)
    apply KeepsBounds.consuming
    have evicted : Ends (Ring.evict side (before.buffer.len - n))
        ⟨before.buffer.ring, before.ledger⟩ _ fun halt after => Stops written origin False
          (fun _ => True) ({model.id} + owned) halt after.buffer after.ledger :=
      Ring.evict_ends sound side _
    apply within.bounded.onRing_bind (Ring.evict_keepsSize side _)
      (evicted.mono (fun _ _ => id) fun _ _ _ => trivial)
    intro _ ring ledger leaves bounded
    exact (bounded.within leaves.sound.wellFormed).settle_keepsBounds leaves.sound

/-- After an interruption the block lies within the limits, or it has one of the given sizes while
the limits are still those of before. -/
def Withstands (installs : Nat → Prop) (act : Act (ElasticRing α) α γ)
    (before : Tracked (ElasticRing α) α) : Prop :=
  Ends act before (fun _ _ => True) fun halt after => halt.isRefusal = false →
    after.buffer.Bounded ∨
      after.buffer.limits = before.buffer.limits ∧ installs after.buffer.physical

theorem KeepsBounds.withstands {installs : Nat → Prop} {act : Act (ElasticRing α) α γ}
    (keeps : KeepsBounds act before) : Withstands installs act before :=
  keeps.mono (fun _ _ _ => trivial) fun _ _ bounded _ => .inl bounded

/-- A block for other limits, before these are put in force. -/
theorem withstands_installing {act : Act (Ring α) α Unit} {size : Nat}
    {rest : Act (ElasticRing α) α Unit} {known : Tracked (Ring α) α → Prop}
    (bounded : before.buffer.Bounded) (resizes : Resizes (· = size) act)
    (ends : Ends act ⟨before.buffer.ring, before.ledger⟩ (fun _ => known) fun _ _ => True)
    (next : ∀ middle, known middle → Ends rest ⟨{ before.buffer with ring := middle.buffer },
      middle.ledger⟩ (fun _ _ => True) fun halt _ => halt.isRefusal = true) :
    Withstands (· = size) (onRing act >>= fun _ => rest) before := by
  simp only [Withstands, ends_bind, ends_onRing]
  apply ((resizes ⟨before.buffer.ring, before.ledger⟩).and ends).mono
  · rintro _ middle ⟨-, found⟩
    apply (next middle found).mono
    · exact fun _ _ => id
    · intro halt after refused other
      rw [refused] at other
      contradiction
  · rintro halt middle ⟨resized, -⟩ -
    rcases resized with kept | installed
    · exact .inl (bounded.refilled kept)
    · exact .inr ⟨trivial, installed⟩

/-- Enforcing limits is refused a block, at worst. -/
theorem enforce_halts (sound : Sound written origin owned before.buffer.ring before.ledger)
    (below : before.buffer.physical ≤ limits.ceiling) :
    Ends (enforce limits) before (fun _ _ => True) fun halt _ => halt.isRefusal = true := by
  let limited : Tracked (ElasticRing α) α := ⟨{ before.buffer with limits }, before.ledger⟩
  have held : Sound written origin owned limited.buffer.ring limited.ledger := sound
  have fits : limited.buffer.len ≤ limited.buffer.physical := sound.wellFormed.fits
  by_cases low : before.buffer.physical < limits.floor
  · rw [ends_enforce_of_lt low]
    apply (setCapacity_halts held (Nat.le_trans fits (Nat.le_of_lt low))).mono
    · exact fun _ _ => id
    · exact fun _ _ halted => halted.1
  · rw [ends_enforce_of_le (Nat.le_of_not_lt low)]
    have within : limited.buffer.WithinLimits := ⟨fits, Nat.le_of_not_lt low, below⟩
    exact (within.settle_ends held).mono (fun _ _ _ => trivial) fun _ _ => False.elim

theorem setLimits_withstands (within : before.buffer.WithinLimits)
    (sound : Sound written origin owned before.buffer.ring before.ledger) (trim : End)
    (limits : Limits) :
    Withstands (fun size => limits.ceiling < before.buffer.physical ∧ size = limits.ceiling)
      (setLimits trim limits) before := by
  by_cases large : limits.ceiling < before.buffer.physical
  · have installing : Withstands (· = limits.ceiling) (do
        onRing (Ring.setCapacity trim limits.ceiling)
        enforce limits) before := by
      have trimmed : Ends (Ring.setCapacity trim limits.ceiling)
          ⟨before.buffer.ring, before.ledger⟩ _ _ :=
        Ring.setCapacity_ends False (fun _ => True) sound trim limits.ceiling fun _ => trivial
      apply withstands_installing within.bounded (Ring.setCapacity_resizes trim limits.ceiling)
        (trimmed.mono (fun _ _ => id) fun _ _ _ => trivial)
      intro middle leaves
      exact enforce_halts leaves.sound leaves.sized.le
    rw [Withstands, ends_setLimits_of_lt large]
    apply installing.mono
    · exact fun _ _ => id
    · intro halt after withstood other
      exact (withstood other).imp_right fun stale => ⟨stale.1, large, stale.2⟩
  · rw [Withstands, ends_setLimits_of_le (Nat.le_of_not_lt large)]
    apply (enforce_halts sound (Nat.le_of_not_lt large)).mono
    · exact fun _ _ => id
    · intro halt after refused other
      rw [refused] at other
      contradiction

/-- Another floor never trims the block, so it is not interrupted. -/
theorem setFloor_withstands (within : before.buffer.WithinLimits)
    (sound : Sound written origin owned before.buffer.ring before.ledger) (floor : Nat) :
    Withstands (fun _ => False) (setFloor floor) before := by
  simp only [Withstands, setFloor, ends_bind, ends_buffer, Limits.new]
  by_cases ordered : floor ≤ before.buffer.limits.ceiling
  · simp only [dif_pos ordered]
    apply (setLimits_withstands within sound .front
      ⟨before.buffer.limits.ceiling, floor, ordered⟩).mono
    · exact fun _ _ => id
    · intro halt after withstood other
      have below := within.below_ceiling
      exact (withstood other).imp_right fun stale =>
        ⟨stale.1, absurd stale.2.1 (Nat.not_lt_of_le below)⟩
  · simp only [dif_neg ordered, ends_refuse]
    intro impossible
    cases impossible

theorem setLimitsOnly_halts {halts : Halt → Tracked (ElasticRing α) α → Prop} :
    Ends (setLimitsOnly limits) before (fun _ _ => True) halts := by
  simp only [setLimitsOnly, ends_bind, ends_buffer, ends_become]

theorem assign_withstands (within : before.buffer.WithinLimits) (n : Nat) (model : Item α) :
    Withstands (· = n) (assign n model) before :=
  withstands_installing within.bounded (Ring.assignWithin_resizes n n model) Ends.somehow
    fun _ _ => setLimitsOnly_halts

theorem assignUnder_withstands (within : before.buffer.WithinLimits) (limits : Limits) (n : Nat)
    (model : Item α) :
    Withstands (· = max limits.floor n) (assignUnder limits n model) before := by
  simp only [assignUnder]
  by_cases small : limits.ceiling < n
  · simp only [if_pos small]
    exact KeepsBounds.withstands (ends_holding Bounded within.bounded)
  · simp only [if_neg small]
    exact withstands_installing within.bounded (Ring.assignWithin_resizes _ n model) Ends.somehow
      fun _ _ => setLimitsOnly_halts

theorem assignFeed_withstands (within : before.buffer.WithinLimits) (feed : Feed α) :
    Withstands (· = feed.claimed) (assignFeed feed) before :=
  withstands_installing within.bounded (Ring.replaceContents_resizes _ _) Ends.somehow
    fun _ _ => setLimitsOnly_halts

theorem assignFeedUnder_withstands (within : before.buffer.WithinLimits)
    (sound : Sound written origin owned before.buffer.ring before.ledger) (limits : Limits)
    (feed : Feed α) :
    Withstands (· = limits.ceiling) (assignFeedUnder limits feed) before := by
  have replaced : Ends (Ring.assignFeedWithin limits.ceiling feed)
      ⟨before.buffer.ring, before.ledger⟩ _ _ :=
    Ring.replaceContents_ends (fun _ => True) sound limits.ceiling fun _ => trivial
  apply withstands_installing within.bounded (Ring.replaceContents_resizes _ _)
    (replaced.mono (fun _ _ => id) fun _ _ _ => trivial)
  rintro middle ⟨held, sized⟩
  let limited : Tracked (ElasticRing α) α := ⟨⟨middle.buffer, limits⟩, middle.ledger⟩
  have limitedSound : Sound written origin owned limited.buffer.ring limited.ledger := held
  have reached : limited.buffer.physical = limits.ceiling := sized
  have ordered := limits.floor_le_ceiling
  have within : limited.buffer.WithinLimits :=
    ⟨held.wellFormed.fits, by rw [reached]; exact ordered, reached.le⟩
  simp only [setLimitsOnly, ends_bind, ends_buffer, ends_become]
  exact (within.settle_ends limitedSound).mono (fun _ _ _ => trivial) fun _ _ => False.elim

end RingDeque.ElasticRing
