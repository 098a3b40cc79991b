import RingDeque.Proofs.Elastic.Editing
import RingDeque.Proofs.Ring.Replacing
import RingDeque.Elastic.Replacement

/-!
Making elastic rings, and operations that change their contents as a whole.

A new elastic ring lies within its limits, whichever way it is made.
-/

namespace RingDeque.ElasticRing

open Effect
open RingDeque.Ring (Sound Stops Made Fails Loses Thwarts)

variable {α : Type} {written : Prop} {origin : Tracked (Ring α) α}
  {before : Tracked (ElasticRing α) α} {elastic : ElasticRing α} {owned : Multiset Nat}
  {breaks : Prop} {refuses : Error → Prop} {model : Item α} {side : End} {n : Nat}
  {limits : Limits} {feed : Feed α} {earlier ledger : Ledger α}

theorem withinLimits_of_capacity {ring : Ring α} (wellFormed : ring.WellFormed)
    (above : limits.floor ≤ ring.capacity) (below : ring.capacity ≤ limits.ceiling) :
    WithinLimits ⟨ring, limits⟩ :=
  ⟨wellFormed.fits, above, below⟩

theorem empty_ends (keeps : earlier.Keeps owned ledger) {halts : Halt → Ledger α → Prop} :
    Ends (empty (α := α)) ledger
      (fun made after => Made earlier owned made.ring after) halts := by
  simp only [empty, ends_bind, ends_pure]
  exact (Ring.empty_ends keeps).mono (fun _ _ made => made.1) fun _ _ => id

theorem new_ends (breaks : Prop) (keeps : earlier.Keeps owned ledger) :
    Ends (new limits) ledger
      (fun made after => Made earlier owned made.ring after ∧
        made.limits = limits ∧ made.WithinLimits ∧ made.ring.toList = [])
      (Fails earlier breaks (fun _ => True) owned) := by
  simp only [new, ends_bind, ends_pure]
  refine (Ring.new_ends _ _ keeps limits.floor fun _ => trivial).mono ?_ fun _ _ => id
  intro ring after ended
  obtain ⟨made, sized, listed⟩ := ended
  refine ⟨made, trivial, ?_, listed⟩
  exact withinLimits_of_capacity made.wellFormed sized.ge (sized.trans_le limits.floor_le_ceiling)

theorem ofCopies_ends (keeps : earlier.Keeps ({model.id} + owned) ledger) :
    Ends (ofCopies limits n model) ledger
      (fun made after => Made earlier owned made.ring after ∧
        made.limits = limits ∧ made.WithinLimits)
      (Loses earlier breaks (fun _ => True) model owned) := by
  refine Ring.consuming_made ElasticRing.ring _ ?_
  by_cases small : limits.ceiling < n
  · simp only [if_pos small, ends_bind, ends_refuse]
    exact ⟨.refusal trivial, keeps⟩
  · simp only [if_neg small, ends_bind, ends_pure]
    refine (Ring.ofSupply_ends (fun _ => True) keeps (max limits.floor n) (.copies model n)
      fun _ => trivial).mono ?_ ?_
    · intro ring after ended
      obtain ⟨made, sized, -⟩ := ended
      have ordered := limits.floor_le_ceiling
      refine ⟨made, trivial, ?_⟩
      exact withinLimits_of_capacity made.wellFormed (by omega) (by omega)
    · intro halt after fails
      exact fails.mono fun member => by cases List.eq_of_mem_replicate member

theorem ofFeed_ends (keeps : earlier.Keeps owned ledger) :
    Ends (ofFeed limits feed) ledger
      (fun made after => Made earlier owned made.ring after ∧
        made.limits = limits ∧ made.WithinLimits)
      (Fails earlier (.breaks ∈ feed.entries) (fun _ => True) owned) := by
  simp only [ofFeed, ends_bind]
  refine (Ring.ofSupply_ends _ keeps _ (.listed feed.entries) fun _ => trivial).mono ?_
    fun _ _ => id
  intro ring middle ended
  obtain ⟨made, sized, -⟩ := ended
  have ordered := limits.floor_le_ceiling
  have within : WithinLimits ⟨ring, limits⟩ :=
    withinLimits_of_capacity made.wellFormed (by omega) (by omega)
  refine Ring.building_ends False ElasticRing.ring _ made ?_
  refine (settle_ends made.sound).mono ?_ fun _ _ => id
  intro _ after ended
  obtain ⟨sound, settles⟩ := ended
  exact ⟨sound, (settles within).limited, (settles within).within⟩

theorem duplicate_ends (keeps : earlier.Keeps owned ledger) (wellFormed : elastic.ring.WellFormed) :
    Ends elastic.duplicate ledger
      (fun made after => Made earlier owned made.ring after)
      (Thwarts earlier .duplicate elastic.physical owned) := by
  simp only [duplicate, ends_bind, ends_pure]
  exact (Ring.duplicate_ends keeps wellFormed).mono (fun _ _ made => made.1) fun _ _ => id

/-- A ring that grows to `n` elements secures the room first. The copies go behind a cursor at the
end that grows, whichever end it is and whatever the size of the block. -/
theorem ends_expanding {returns : Unit → Tracked (ElasticRing α) α → Prop}
    {stops : Halt → Tracked (ElasticRing α) α → Prop} {ready : Tracked (ElasticRing α) α → Prop}
    (grown : Ends (holding model do
        setLimitsOnly (before.buffer.limits.raisedTo n)
        secure (n - before.buffer.len)) before
      (fun _ middle => middle.buffer.ring.WellFormed ∧ ready middle) stops)
    (longer : before.buffer.len < n)
    (copies : ∀ middle cursor, ready middle →
      middle.buffer.ring.Points cursor (side.opposite.farIndex middle.buffer.ring.len) →
      Ends (Ring.insertCopies side.opposite cursor (n - before.buffer.len) model)
        ⟨middle.buffer.ring, middle.ledger⟩
        (fun _ after => returns () ⟨{ middle.buffer with ring := after.buffer }, after.ledger⟩)
        fun halt after => stops halt ⟨{ middle.buffer with ring := after.buffer }, after.ledger⟩) :
    Ends (resize side n model) before returns stops := by
  simp only [resize, ends_bind, Act.ends_buffer, if_pos longer,
    Word.sub_eq (Nat.le_of_lt longer), liftM_ok, ends_pure]
  apply grown.mono _ fun _ _ => id
  rintro _ middle ⟨wellFormed, isReady⟩
  cases side with
  | front =>
      obtain ⟨cursor, found, points⟩ := wellFormed.cursorFor_exists 0
      rw [Nat.zero_min] at points
      simp only [Ring.begin, found, liftM_ok, ends_bind, ends_pure, ends_onRing]
      exact copies middle cursor isReady points
  | back =>
      simp only [ends_bind, ends_pure, ends_onRing]
      exact copies middle _ isReady wellFormed.points_finish

/-- A ring that shrinks gives up elements, and then storage. -/
theorem ends_curtailing {returns : Unit → Tracked (ElasticRing α) α → Prop}
    {stops : Halt → Tracked (ElasticRing α) α → Prop} (shorter : n ≤ before.buffer.len)
    (ends : Ends (consuming model do
        onRing (Ring.evict side (before.buffer.len - n))
        settle) before returns stops) :
    Ends (resize side n model) before returns stops := by
  simp only [resize, ends_bind, Act.ends_buffer, if_neg (Nat.not_lt_of_le shorter)]
  exact ends

theorem resize_ends
    (sound : Sound written origin ({model.id} + owned) before.buffer.ring before.ledger) :
    Ends (resize side n model) before
      (fun _ after => Sound written origin owned after.buffer.ring after.ledger)
      (fun halt after => Stops written origin True (fun _ => True) owned halt after.buffer.ring
        after.ledger) := by
  by_cases longer : before.buffer.len < n
  · have secured : Ends (do
          setLimitsOnly (before.buffer.limits.raisedTo n)
          secure (n - before.buffer.len)) before
        (fun _ after =>
          after.buffer.ring.WellFormed ∧
            Sound written origin ({model.id} + owned) after.buffer.ring after.ledger)
        (fun halt after => Stops written origin True (fun _ => True) ({model.id} + owned) halt
          after.buffer.ring after.ledger) := by
      simp only [setLimitsOnly, ends_bind, Act.ends_buffer, Act.ends_become]
      refine Ends.mono (secure_ends ?_ _ fun _ => trivial) ?_ fun _ _ => id
      · exact sound
      · exact fun _ _ ended => ⟨ended.1.wellFormed, ended.1⟩
    apply ends_expanding (Ring.holding_ends _ secured) longer
    intro middle cursor held points
    exact (Ring.insertCopies_ends held (points.vouches held.wellFormed)).mono
      (fun _ _ ended => ended.1) fun _ _ stops => stops.anyhow
  · have reduced : Ends (do
          onRing (Ring.evict side (before.buffer.len - n))
          settle) before
        (fun _ after =>
          Sound written origin ({model.id} + owned) after.buffer.ring after.ledger ∧ True)
        (fun halt after => Stops written origin True (fun _ => True) ({model.id} + owned) halt
          after.buffer.ring after.ledger) := by
      simp only [ends_bind, ends_onRing]
      apply (Ring.evict_ends sound side _).mono
      · intro _ middle leaves
        exact (settle_ends leaves.sound).mono (fun _ _ ended => ⟨ended.1, trivial⟩) fun _ _ => id
      · exact fun _ _ => id
    apply ends_curtailing (Nat.le_of_not_lt longer)
    exact (Ring.consuming_ends _ (fun _ _ => True) reduced).mono
      (fun _ _ ended => ended.1) fun _ _ => id

theorem assign_ends
    (sound : Sound written origin ({model.id} + owned) before.buffer.ring before.ledger) :
    Ends (assign n model) before
      (fun _ after => Sound written origin owned after.buffer.ring after.ledger)
      (fun halt after => Stops written origin True (fun _ => True) owned halt after.buffer.ring
        after.ledger) := by
  simp only [assign, setLimitsOnly, ends_bind, ends_onRing, Act.ends_buffer, Act.ends_become]
  exact Ring.assignWithin_ends sound

theorem assignUnder_ends
    (sound : Sound written origin ({model.id} + owned) before.buffer.ring before.ledger) :
    Ends (assignUnder limits n model) before
      (fun _ after => Sound written origin owned after.buffer.ring after.ledger)
      (fun halt after => Stops written origin True (fun _ => True) owned halt after.buffer.ring
        after.ledger) := by
  simp only [assignUnder]
  by_cases small : limits.ceiling < n
  · simp only [if_pos small]
    refine Ring.holding_ends _ ?_
    simp only [ends_refuse]
    exact ⟨.refusal trivial, sound⟩
  · simp only [if_neg small, setLimitsOnly, ends_bind, ends_onRing, Act.ends_buffer,
      Act.ends_become]
    exact Ring.assignWithin_ends sound

theorem assignFeed_ends (sound : Sound written origin owned before.buffer.ring before.ledger) :
    Ends (assignFeed feed) before
      (fun _ after => Sound written origin owned after.buffer.ring after.ledger)
      (fun halt after => Stops written origin True (fun _ => True) owned halt after.buffer.ring
        after.ledger) := by
  simp only [assignFeed, setLimitsOnly, ends_bind, ends_onRing, Act.ends_buffer, Act.ends_become]
  exact Ring.assignFeedWithin_ends sound

theorem assignFeedUnder_ends
    (sound : Sound written origin owned before.buffer.ring before.ledger) :
    Ends (assignFeedUnder limits feed) before
      (fun _ after => Sound written origin owned after.buffer.ring after.ledger)
      (fun halt after => Stops written origin True (fun _ => True) owned halt after.buffer.ring
        after.ledger) := by
  simp only [assignFeedUnder, setLimitsOnly, ends_bind, ends_onRing, Act.ends_buffer,
    Act.ends_become]
  refine (Ring.assignFeedWithin_ends sound).mono ?_
    fun _ _ => id
  intro _ middle held
  exact (settle_ends held).mono
    (fun _ _ ended => ended.1) fun _ _ => id

end RingDeque.ElasticRing
