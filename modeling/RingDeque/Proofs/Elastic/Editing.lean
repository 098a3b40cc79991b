import RingDeque.Elastic.Editing
import RingDeque.Proofs.Elastic.Sizing
import RingDeque.Proofs.Ring.Inserting

/-!
Adding and removing elements of an elastic ring, against lists bounded by the ceiling.

An operation sees the block after it was enlarged. The block is then as large as the ceiling or has
room for everything that is added, and in both cases as many elements give way, and as many are
admitted, as in a block as large as the ceiling.
-/

namespace RingDeque

open Effect

namespace End

variable {β : Type} {items : List β} {item : β} {capacity physical : Nat}

theorem pushed_eq (side : End) (below : physical ≤ capacity)
    (room : items.length < physical ∨ physical = capacity) :
    side.pushed physical items item = side.pushed capacity items item := by
  rcases room with room | rfl
  · simp only [pushed]
    rw [if_neg (show physical ≠ 0 by omega), if_pos room, if_neg (show capacity ≠ 0 by omega),
      if_pos (Nat.lt_of_lt_of_le room below)]
  · rfl

end End

namespace ElasticRing

open RingDeque.Ring (Sound Stops Leaves Inserts Gains Rejects)

variable {α : Type} {written : Prop} {origin : Tracked (Ring α) α}
  {before : Tracked (ElasticRing α) α} {elastic middle : ElasticRing α} {owned : Multiset Nat}
  {breaks : Prop} {refuses : Error → Prop} {item model : Item α} {side yields toward : End}
  {cursor issued first last : Cursor} {n index count : Nat}

theorem WithinLimits.len_le_capacity (within : elastic.WithinLimits) :
    elastic.len ≤ elastic.capacity :=
  Nat.le_trans within.fits within.below_ceiling

theorem push_ends (breaks : Prop) (refuses : Error → Prop)
    (sound : Sound written origin ({item.id} + owned) before.buffer.ring before.ledger)
    (scarce : ∀ size, refuses (.allocationFailed size)) :
    Ends (push side item) before
      (fun evicted after =>
        Sound written origin (ids evicted.toList + owned) after.buffer.ring after.ledger ∧
        (before.buffer.WithinLimits →
          evicted = (side.pushed before.buffer.capacity before.buffer.ring.toList item).1 ∧
          Holds before.buffer.limits
            (side.pushed before.buffer.capacity before.buffer.ring.toList item).2 after.buffer))
      (fun halt after =>
        Stops written origin breaks refuses owned halt after.buffer.ring after.ledger) := by
  have secured : Ends (do
        unless (← Act.buffer).isFull do
          secure 1 : Act (ElasticRing α) α Unit) before
      (fun _ after =>
        Sound written origin ({item.id} + owned) after.buffer.ring after.ledger ∧
        (before.buffer.WithinLimits → Secured 1 before.buffer after.buffer))
      (fun halt after => Stops written origin breaks refuses ({item.id} + owned) halt
        after.buffer.ring after.ledger) := by
    simp only [ends_bind, Act.ends_buffer, isFull, decide_eq_true_eq]
    by_cases full : before.buffer.capacity ≤ before.buffer.len
    · simp only [if_pos full, ends_pure]
      refine ⟨sound, fun within => ⟨within.holds, .inr ?_⟩⟩
      have fits := within.fits
      have below := within.below_ceiling
      omega
    · simp only [if_neg full]
      exact secure_ends sound 1 scarce
  simp only [push, ends_bind, ends_onRing]
  refine (Ring.holding_ends _ secured).mono ?_ fun _ _ => id
  intro _ middle ended
  obtain ⟨held, secures⟩ := ended
  refine (Ring.push_ends held side).mono ?_
    fun _ _ => id
  intro evicted after ended
  obtain ⟨rfl, leaves⟩ := ended
  refine ⟨leaves.sound, fun within => ?_⟩
  obtain ⟨holds, room⟩ := secures within
  have below := holds.within.below_ceiling
  have counted := sound.wellFormed.length_toList
  have same : side.pushed middle.buffer.ring.capacity middle.buffer.ring.toList item =
      side.pushed before.buffer.capacity before.buffer.ring.toList item := by
    rw [holds.toList]
    refine End.pushed_eq side ?_ (by rwa [counted])
    simpa only [capacity, physical, holds.limited] using below
  have final := holds.refilled leaves.sound.wellFormed leaves.sized
  rw [leaves.toList, same] at final
  exact ⟨congrArg Prod.fst same, final⟩

theorem pop_ends (breaks : Prop) (refuses : Error → Prop)
    (sound : Sound written origin owned before.buffer.ring before.ledger) :
    Ends (pop side) before
      (fun popped after =>
        Sound written origin (ids popped.toList + owned) after.buffer.ring after.ledger ∧
        (before.buffer.WithinLimits →
          popped = side.last? before.buffer.ring.toList ∧
          Holds before.buffer.limits (side.trim 1 before.buffer.ring.toList) after.buffer))
      (fun halt after =>
        Stops written origin breaks refuses owned halt after.buffer.ring after.ledger) := by
  simp only [pop, ends_bind, ends_onRing]
  refine (Ring.pop_ends sound side).mono ?_
    fun _ _ => id
  intro popped after ended
  obtain ⟨rfl, leaves⟩ := ended
  have reduced : before.buffer.WithinLimits →
      Holds before.buffer.limits (side.trim 1 before.buffer.ring.toList)
        { before.buffer with ring := after.buffer } := by
    intro within
    have final := within.holds.refilled leaves.sound.wellFormed leaves.sized
    rwa [leaves.toList] at final
  cases last : side.last? before.buffer.ring.toList with
  | none =>
      rw [last] at leaves
      exact ⟨leaves.sound, fun within => ⟨rfl, reduced within⟩⟩
  | some item =>
      simp only [ends_bind, ends_pure]
      have owns : Sound written origin ({item.id} + owned) after.buffer after.ledger :=
        leaves.sound.of_eq (by rw [last]; simp)
      refine (Ring.holding_ends _
        (settle_ends
          owns)).mono ?_ fun _ _ => id
      intro _ final ended
      obtain ⟨kept, holds⟩ := ended
      refine ⟨kept.of_eq (by simp), fun within => ⟨trivial, ?_⟩⟩
      have settled := holds (reduced within).within
      rwa [(reduced within).toList] at settled

/-- A cursor is resolved before the block is enlarged, which does not move it. -/
theorem prepare_ends (sound : Sound written origin owned before.buffer.ring before.ledger)
    (vouched : before.buffer.ring.Vouches cursor) (n : Nat) :
    Ends (prepare cursor n) before
      (fun index after =>
        before.buffer.ring.resolve cursor = .ok index ∧ index ≤ before.buffer.len ∧
        Sound written origin owned after.buffer.ring after.ledger ∧
        (before.buffer.WithinLimits → Secured n before.buffer after.buffer))
      (fun halt after => Stops written origin breaks
        (OrUnallocated (before.buffer.ring.Rejects cursor)) owned halt after.buffer.ring after.ledger) := by
  simp only [prepare, ends_bind, Act.ends_buffer, ends_pure]
  rcases sound.wellFormed.resolve_cases vouched with ⟨index, inside, resolved⟩ | refused
  · simp only [resolved, liftM_answer, ends_pure]
    exact (secure_ends sound n orUnallocated).mono (fun _ _ ended => ⟨trivial, inside, ended.1, ended.2⟩)
      fun _ _ => id
  · simp only [refused]
    exact ⟨.refusal (.inl refused), sound⟩

/-- What an insertion makes of an elastic ring within its limits. -/
structure Grows (yields : End) (cursor : Cursor) (n : Nat) (values : Nat → List (Option α))
    (before : ElasticRing α) (issued : Cursor) (after : ElasticRing α) : Prop where
  holds : Holds before.limits after.ring.toList after
  gains : ∃ index, before.ring.resolve cursor = .ok index ∧
    Gains yields before.capacity index
      (yields.admitted before.capacity before.ring.toList.length index n)
      (values (yields.admitted before.capacity before.ring.toList.length index n))
      before.ring.toList issued after.ring

theorem Secured.admits_eq (secured : Secured n elastic middle) (wellFormed : elastic.ring.WellFormed)
    (middleWellFormed : middle.ring.WellFormed) (inside : index ≤ elastic.len) :
    middle.ring.admits yields index n =
      yields.admitted elastic.capacity elastic.ring.toList.length index n := by
  have below : middle.physical ≤ elastic.capacity := by
    simpa only [capacity, secured.holds.limited] using secured.holds.within.below_ceiling
  rw [Ring.admits, ← middleWellFormed.length_toList, secured.holds.toList, wellFormed.length_toList]
  exact yields.admitted_eq inside below secured.room

/-- An insertion into the enlarged block is one under the ceiling. -/
theorem Secured.grows {ring : Ring α} {values : Nat → List (Option α)}
    (secured : Secured n elastic middle) (wellFormed : elastic.ring.WellFormed)
    (middleWellFormed : middle.ring.WellFormed) (ringWellFormed : ring.WellFormed)
    (inside : index ≤ elastic.len) (resolved : elastic.ring.resolve cursor = .ok index)
    (inserts : Inserts yields index (middle.ring.admits yields index n)
      (values (middle.ring.admits yields index n)) middle.ring issued ring) :
    Grows yields cursor n values elastic issued { middle with ring } := by
  have length := wellFormed.length_toList
  have below : middle.physical ≤ elastic.capacity := by
    simpa only [capacity, secured.holds.limited] using secured.holds.within.below_ceiling
  have gains := inserts.gains middleWellFormed
  rw [secured.admits_eq wellFormed middleWellFormed inside, secured.holds.toList] at gains
  refine ⟨secured.holds.refilled ringWellFormed inserts.sized, index, resolved, ?_⟩
  have surplus := End.surplus_eq elastic.ring.toList.length
    (yields.admitted elastic.capacity elastic.ring.toList.length index n) below (by
      rw [length]
      exact secured.room.imp_left fun room =>
        Nat.le_trans (Nat.add_le_add_left (Nat.min_le_right _ n) _) room)
  obtain ⟨⟨new, same, placed⟩, points⟩ := gains
  simp only [physical] at surplus
  rw [surplus] at points
  rw [End.inserted, surplus] at placed
  exact ⟨⟨new, same, placed⟩, points⟩

/-- The cursor to the index that was resolved stands at that index in the enlarged block. -/
theorem Secured.index_eq {prepared : Cursor} {place : Nat} (secured : Secured n elastic middle)
    (wellFormed : elastic.ring.WellFormed) (middleWellFormed : middle.ring.WellFormed)
    (inside : index ≤ elastic.len)
    (points : middle.ring.Points prepared (min index middle.ring.len))
    (resolved : middle.ring.resolve prepared = .ok place) : place = index := by
  have counted := middleWellFormed.length_toList
  rw [secured.holds.toList, wellFormed.length_toList] at counted
  rw [points.resolve middleWellFormed, ← counted] at resolved
  exact (Except.ok.inj resolved).symm.trans (Nat.min_eq_left inside)

theorem insert_ends (breaks : Prop)
    (sound : Sound written origin ({item.id} + owned) before.buffer.ring before.ledger)
    (vouched : before.buffer.ring.Vouches cursor) :
    Ends (insert yields cursor item) before
      (fun issued after => Sound written origin owned after.buffer.ring after.ledger ∧
        after.buffer.ring.Issues issued ∧
        (before.buffer.WithinLimits →
          Grows yields cursor 1 ([some item.value].take ·) before.buffer issued after.buffer))
      (fun halt after => Stops written origin breaks
        (OrUnallocated (before.buffer.ring.Rejects cursor)) owned halt after.buffer.ring after.ledger) := by
  simp only [insert, ends_bind]
  refine (Ring.holding_ends _ (prepare_ends sound vouched 1)).mono ?_
    fun _ _ => id
  intro index middle ended
  obtain ⟨resolved, inside, held, secures⟩ := ended
  obtain ⟨prepared, found, points⟩ := held.wellFormed.cursorFor_exists index
  simp only [Act.ends_buffer, found, liftM_ok, ends_pure, ends_onRing]
  refine (Ring.insert_ends breaks held
    (points.vouches held.wellFormed)).mono ?_ ?_
  · intro issued after ended
    obtain ⟨final, place, placed, inserts⟩ := ended
    refine ⟨final, inserts.points.issues, fun within => ?_⟩
    have secured := secures within
    obtain rfl := secured.index_eq sound.wellFormed held.wellFormed inside points placed
    exact secured.grows sound.wellFormed held.wellFormed
      final.wellFormed inside resolved inserts
  · intro halt after stops
    exact stops.mono id fun _ rejected =>
      (points.not_rejected held.wellFormed rejected).elim

theorem insertCopies_ends
    (sound : Sound written origin ({model.id} + owned) before.buffer.ring before.ledger)
    (vouched : before.buffer.ring.Vouches cursor) :
    Ends (insertCopies yields cursor n model) before
      (fun issued after => Sound written origin owned after.buffer.ring after.ledger ∧
        after.buffer.ring.Issues issued ∧
        (before.buffer.WithinLimits →
          Grows yields cursor n (List.replicate · (some model.value)) before.buffer issued
            after.buffer))
      (fun halt after => Stops written origin False
        (OrUnallocated (before.buffer.ring.Rejects cursor)) owned halt after.buffer.ring after.ledger) := by
  simp only [insertCopies, ends_bind]
  refine (Ring.holding_ends _ (prepare_ends sound vouched n)).mono ?_
    fun _ _ => id
  intro index middle ended
  obtain ⟨resolved, inside, held, secures⟩ := ended
  obtain ⟨prepared, found, points⟩ := held.wellFormed.cursorFor_exists index
  simp only [Act.ends_buffer, found, liftM_ok, ends_pure, ends_onRing]
  refine (Ring.insertCopies_ends held
    (points.vouches held.wellFormed)).mono ?_ ?_
  · intro issued after ended
    obtain ⟨final, place, placed, inserts⟩ := ended
    refine ⟨final, inserts.points.issues, fun within => ?_⟩
    have secured := secures within
    obtain rfl := secured.index_eq sound.wellFormed held.wellFormed inside points placed
    exact secured.grows sound.wellFormed
      held.wellFormed final.wellFormed inside resolved inserts
  · intro halt after stops
    exact stops.mono id fun _ rejected =>
      (points.not_rejected held.wellFormed rejected).elim

theorem insertFeed_ends {feed : Feed α}
    (sound : Sound written origin owned before.buffer.ring before.ledger)
    (vouched : before.buffer.ring.Vouches cursor) :
    Ends (insertFeed yields cursor feed) before
      (fun issued after => Sound written origin owned after.buffer.ring after.ledger ∧
        after.buffer.ring.Issues issued ∧
        (before.buffer.WithinLimits →
          Grows yields cursor feed.claimed (fun count => (Ring.chosen yields count feed).map
            Entry.value?) before.buffer issued after.buffer ∧
          ∀ index, before.buffer.ring.resolve cursor = .ok index →
            .breaks ∉ Ring.asked yields (yields.admitted before.buffer.capacity
              before.buffer.ring.toList.length index feed.claimed) feed))
      (fun halt after => Stops written origin True
        (OrUnallocated (before.buffer.ring.Rejects cursor)) owned halt after.buffer.ring after.ledger) := by
  simp only [insertFeed, ends_bind]
  refine (prepare_ends sound vouched feed.claimed).mono ?_ fun _ _ => id
  intro index middle ended
  obtain ⟨resolved, inside, held, secures⟩ := ended
  obtain ⟨prepared, found, points⟩ := held.wellFormed.cursorFor_exists index
  simp only [Act.ends_buffer, found, liftM_ok, ends_pure, ends_onRing]
  refine (Ring.insertFeed_ends held
    (points.vouches held.wellFormed)).mono ?_ ?_
  · intro issued after ended
    obtain ⟨final, place, placed, unbroken, inserts⟩ := ended
    refine ⟨final, inserts.points.issues, fun within => ?_⟩
    have secured := secures within
    obtain rfl := secured.index_eq sound.wellFormed held.wellFormed inside points placed
    refine ⟨secured.grows
      sound.wellFormed held.wellFormed final.wellFormed inside resolved inserts, ?_⟩
    intro other same
    rw [resolved] at same
    obtain rfl := Except.ok.inj same
    rwa [secured.admits_eq sound.wellFormed held.wellFormed inside] at unbroken
  · intro halt after stops
    exact stops.mono (fun _ => trivial) fun _ rejected =>
      (points.not_rejected held.wellFormed rejected).elim

/-- What an erasure of `count` elements makes of an elastic ring within its limits. -/
structure Shrinks (toward : End) (index count : Nat) (before : ElasticRing α) (issued : Cursor)
    (after : ElasticRing α) : Prop where
  holds : Holds before.limits (before.ring.without index count) after
  points : after.ring.Points issued (toward.beside index count)

/-- After an erasure storage is given up, which moves elements but not the cursor. -/
theorem settled_shrinks {ring : Ring α} {ledger : Ledger α}
    (sound : Sound written origin owned ring ledger)
    (erases : Ring.Erases toward index count elastic.ring issued ring) :
    Ends (settleKeeping issued) ⟨{ elastic with ring }, ledger⟩
      (fun kept after => Sound written origin owned after.buffer.ring after.ledger ∧
        after.buffer.ring.Issues kept ∧
        (elastic.WithinLimits → Shrinks toward index count elastic kept after.buffer))
      (fun halt after =>
        Stops written origin breaks refuses owned halt after.buffer.ring after.ledger) := by
  refine (settleKeeping_ends sound
    erases.points).mono ?_ fun _ _ => id
  intro kept after ended
  obtain ⟨final, issues, settles⟩ := ended
  refine ⟨final, issues, fun within => ?_⟩
  have reduced := within.holds.refilled sound.wellFormed erases.sized
  obtain ⟨holds, points⟩ := settles reduced.within
  simp only [erases.toList] at holds
  exact ⟨holds, points⟩

theorem erase_ends (breaks : Prop) (sound : Sound written origin owned before.buffer.ring before.ledger)
    (vouched : before.buffer.ring.Vouches cursor) :
    Ends (erase toward cursor) before
      (fun issued after => Sound written origin owned after.buffer.ring after.ledger ∧
        after.buffer.ring.Issues issued ∧
        (before.buffer.WithinLimits →
          ∃ index < before.buffer.len, before.buffer.ring.resolve cursor = .ok index ∧
            Shrinks toward index 1 before.buffer issued after.buffer))
      (fun halt after => Stops written origin breaks
        (fun error => before.buffer.ring.resolveElement cursor = .error (.refused error)) owned halt
        after.buffer.ring after.ledger) := by
  simp only [erase, ends_bind, ends_onRing]
  refine (Ring.erase_ends _ sound vouched).mono ?_
    fun _ _ => id
  intro issued middle ended
  obtain ⟨held, index, bound, resolved, erases⟩ := ended
  exact (settled_shrinks held erases).mono (fun _ _ settled =>
    ⟨settled.1, settled.2.1, fun within => ⟨index, bound, resolved, settled.2.2 within⟩⟩) fun _ _ => id

theorem eraseRange_ends (breaks : Prop) (sound : Sound written origin owned before.buffer.ring before.ledger)
    (firstVouched : before.buffer.ring.Vouches first)
    (lastVouched : before.buffer.ring.Vouches last) :
    Ends (eraseRange toward first last) before
      (fun issued after => Sound written origin owned after.buffer.ring after.ledger ∧
        after.buffer.ring.Issues issued ∧
        (before.buffer.WithinLimits → ∃ source target,
          before.buffer.ring.resolveRange first last = .ok (source, target) ∧
          source ≤ target ∧ target ≤ before.buffer.len ∧
          Shrinks toward source (target - source) before.buffer issued after.buffer))
      (fun halt after => Stops written origin breaks
        (fun error => before.buffer.ring.resolveRange first last = .error (.refused error)) owned
        halt after.buffer.ring after.ledger) := by
  simp only [eraseRange, ends_bind, ends_onRing]
  refine (Ring.eraseRange_ends _ sound firstVouched
    lastVouched).mono ?_ fun _ _ => id
  intro issued middle ended
  obtain ⟨held, source, target, found, ordered, bound, erases⟩ := ended
  exact (settled_shrinks held erases).mono (fun _ _ settled =>
    ⟨settled.1, settled.2.1, fun within =>
      ⟨source, target, found, ordered, bound, settled.2.2 within⟩⟩) fun _ _ => id

theorem clear_ends (breaks : Prop) (refuses : Error → Prop)
    (sound : Sound written origin owned before.buffer.ring before.ledger) :
    Ends clear before
      (fun _ after => Sound written origin owned after.buffer.ring after.ledger ∧
        (before.buffer.WithinLimits → Holds before.buffer.limits [] after.buffer))
      (fun halt after =>
        Stops written origin breaks refuses owned halt after.buffer.ring after.ledger) := by
  simp only [clear, ends_bind, ends_onRing]
  refine (Ring.clear_ends _ _ sound).mono ?_
    fun _ _ => id
  intro _ middle leaves
  refine (settle_ends
    leaves.sound).mono ?_ fun _ _ => id
  intro _ after ended
  obtain ⟨final, settles⟩ := ended
  refine ⟨final, fun within => ?_⟩
  have emptied := within.holds.refilled leaves.sound.wellFormed leaves.sized
  rw [leaves.toList] at emptied
  have settled := settles emptied.within
  rwa [emptied.toList] at settled

end ElasticRing

end RingDeque
