import RingDeque.Proofs.Session.Buffers
import RingDeque.Proofs.Session.Edits

/-!
Buffers of either kind, as callers see them.

Whatever an edit is, a fixed ring and an elastic one that show the same contents show the same
contents after it. The size of the block behind an elastic ring does not come into this.
-/

namespace RingDeque.Session

open Effect
open RingDeque.Ring (Sound Stops)

variable {α γ : Type} {written : Prop} {origin : Tracked (Buffer α) α} {owned : Multiset Nat}
  {contents : Contents α} {ledger : Ledger α} {item model : Item α} {cursor first last : Cursor}
  {side yields toward trim : End} {index count n : Nat} {feed : Feed α} {broken scarce : Prop}

namespace Buffer

/-- The number of elements that a buffer holds at most. -/
def bound : Buffer α → Nat
  | .fixed ring => ring.capacity
  | .elastic outer => outer.capacity

def isElastic : Buffer α → Bool
  | .fixed _ => false
  | .elastic _ => true

theorem exists_elastic {buffer : Buffer α} (kind : buffer.isElastic = true) :
    ∃ outer, buffer = .elastic outer := by
  cases buffer with
  | fixed ring => cases kind
  | elastic outer => exact ⟨outer, rfl⟩

theorem exists_fixed {buffer : Buffer α} (kind : buffer.isElastic = false) :
    ∃ ring, buffer = .fixed ring := by
  cases buffer with
  | fixed ring => exact ⟨ring, rfl⟩
  | elastic outer => cases kind

/-- A buffer in which a caller sees given contents. The block of an elastic one is within its
limits. -/
structure Shows (buffer : Buffer α) (contents : Contents α) : Prop where
  wellFormed : buffer.ring.WellFormed
  bound : buffer.bound = contents.bound
  values : buffer.ring.toList.map Item.value = contents.values
  within : ∀ outer, buffer = .elastic outer → outer.WithinLimits

theorem shows_fixed {ring : Ring α} (wellFormed : ring.WellFormed)
    (sized : ring.capacity = contents.bound)
    (listed : ring.toList.map Item.value = contents.values) :
    (Buffer.fixed ring).Shows contents := by
  refine ⟨wellFormed, sized, listed, ?_⟩
  intro _ impossible
  cases impossible

theorem shows_elastic {outer : ElasticRing α} {limits : Limits} {items : List (Item α)}
    (wellFormed : outer.ring.WellFormed) (holds : outer.Holds limits items)
    (ceiling : limits.ceiling = contents.bound)
    (listed : items.map Item.value = contents.values) : (Buffer.elastic outer).Shows contents := by
  refine ⟨wellFormed, ?_, ?_, ?_⟩
  · rw [bound, ElasticRing.capacity, holds.limited, ceiling]
  · rw [ring, holds.toList, listed]
  · intro _ impossible
    cases impossible
    exact holds.within

theorem Shows.length (shows : origin.buffer.Shows contents) :
    contents.values.length = origin.buffer.ring.len := by
  rw [← shows.values, List.length_map, shows.wellFormed.length_toList]

/-- What keeps an action from a result that the contents allow: a failure that was set, a source
that is `broken`, or a block that is `scarce`. An elastic ring may need a block at any time. -/
def Hinders (buffer : Buffer α) (broken scarce : Prop) (ledger : Ledger α) : Halt → Prop :=
  ledger.Due (buffer.isElastic = true ∨ broken) fun error =>
    (∃ size, error = .allocationFailed size) ∧ (buffer.isElastic = true ∨ scarce)

/-- A later buffer of the same kind, with given contents. -/
structure Arrives (origin : Tracked (Buffer α) α) (contents : Contents α)
    (after : Tracked (Buffer α) α) : Prop where
  shows : after.buffer.Shows contents
  kind : after.buffer.isElastic = origin.buffer.isElastic
  follows : origin.ledger.Follows after.ledger

/-- An action with a good result, which leaves given contents unless something hinders it. -/
def Delivers (origin : Tracked (Buffer α) α) (broken scarce : Prop) (contents : Contents α)
    (good : γ → Ring α → Prop) (act : Act (Buffer α) α γ) (before : Tracked (Buffer α) α) : Prop :=
  Ends act before
    (fun value after => good value after.buffer.ring ∧ ¬ broken ∧ Arrives origin contents after)
    (fun halt _ => origin.buffer.Hinders broken scarce origin.ledger halt)

theorem hinders_fixed {ring : Ring α} {breaks : Prop} {refuses : Error → Prop} {halt : Halt}
    {earlier : Ledger α} (due : earlier.Due breaks refuses halt) (breaking : breaks → broken)
    (refusing : ∀ error, refuses error → scarce ∧ ∃ size, error = .allocationFailed size) :
    (Buffer.fixed ring).Hinders broken scarce earlier halt :=
  due.mono (fun breaks => .inr (breaking breaks)) fun error refused =>
    ⟨(refusing error refused).2, .inr (refusing error refused).1⟩

theorem hinders_elastic {outer : ElasticRing α} {breaks : Prop} {refuses : Error → Prop}
    {halt : Halt} {earlier : Ledger α}
    (due : earlier.Due breaks (ElasticRing.OrUnallocated refuses) halt)
    (never : ∀ error, ¬ refuses error) :
    (Buffer.elastic outer).Hinders broken scarce earlier halt := by
  refine due.mono (fun _ => .inl rfl) fun error refused => ⟨?_, .inl rfl⟩
  exact refused.resolve_left (never error)

theorem push_delivers
    (sound : Sound written ⟨origin.buffer.ring, origin.ledger⟩ ({item.id} + owned)
      origin.buffer.ring ledger)
    (shows : origin.buffer.Shows contents) :
    Delivers origin False False
      { contents with values := (side.pushed contents.bound contents.values item.value).2 }
      (fun evicted _ => evicted.map Item.value =
        (side.pushed contents.bound contents.values item.value).1)
      (push side item) ⟨origin.buffer, ledger⟩ := by
  obtain ⟨buffer, earlier⟩ := origin
  have mapped := side.pushed_map Item.value contents.bound buffer.ring.toList item
  rw [shows.values] at mapped
  rw [mapped, ← shows.bound]
  cases buffer with
  | fixed ring =>
      refine ends_fixed.mpr ((Ring.push_ends sound side).mono ?_ fun _ _ => id)
      intro evicted after ended
      obtain ⟨rfl, leaves⟩ := ended
      exact ⟨rfl, id, shows_fixed leaves.sound.wellFormed leaves.sized (congrArg _ leaves.toList), rfl, leaves.sound.follows⟩
  | elastic outer =>
      refine ends_elastic.mpr ((ElasticRing.push_ends False
        (ElasticRing.OrUnallocated fun _ => False) sound ElasticRing.orUnallocated).mono ?_ ?_)
      · intro evicted after ended
        obtain ⟨final, pushed⟩ := ended
        obtain ⟨rfl, holds⟩ := pushed (shows.within outer rfl)
        exact ⟨rfl, id, shows_elastic final.wellFormed holds rfl rfl, rfl, final.follows⟩
      · intro halt after stops
        exact hinders_elastic stops.due fun _ => id

theorem pop_delivers
    (sound : Sound written ⟨origin.buffer.ring, origin.ledger⟩ owned origin.buffer.ring ledger)
    (shows : origin.buffer.Shows contents) :
    Delivers origin False False { contents with values := side.trim 1 contents.values }
      (fun popped _ => popped.map Item.value = side.last? contents.values)
      (pop side) ⟨origin.buffer, ledger⟩ := by
  obtain ⟨buffer, earlier⟩ := origin
  rw [← shows.values, End.trim_map, End.last?_map]
  cases buffer with
  | fixed ring =>
      refine ends_fixed.mpr ((Ring.pop_ends sound side).mono ?_ fun _ _ => id)
      intro popped after ended
      obtain ⟨rfl, leaves⟩ := ended
      exact ⟨rfl, id, shows_fixed leaves.sound.wellFormed (leaves.sized.trans shows.bound)
        (congrArg _ leaves.toList), rfl, leaves.sound.follows⟩
  | elastic outer =>
      refine ends_elastic.mpr ((ElasticRing.pop_ends False
        (ElasticRing.OrUnallocated fun _ => False) sound).mono ?_ ?_)
      · intro popped after ended
        obtain ⟨final, reduced⟩ := ended
        obtain ⟨rfl, holds⟩ := reduced (shows.within outer rfl)
        exact ⟨rfl, id, shows_elastic final.wellFormed holds shows.bound rfl, rfl, final.follows⟩
      · intro halt after stops
        exact hinders_elastic stops.due fun _ => id

theorem clear_delivers
    (sound : Sound written ⟨origin.buffer.ring, origin.ledger⟩ owned origin.buffer.ring ledger)
    (shows : origin.buffer.Shows contents) :
    Delivers origin False False { contents with values := [] } (fun _ _ => True) clear
      ⟨origin.buffer, ledger⟩ := by
  obtain ⟨buffer, earlier⟩ := origin
  cases buffer with
  | fixed ring =>
      refine ends_fixed.mpr ((Ring.clear_ends False (fun _ => False) sound).mono ?_ ?_)
      · intro _ after leaves
        exact ⟨trivial, id, shows_fixed leaves.sound.wellFormed (leaves.sized.trans shows.bound)
          (congrArg _ leaves.toList), rfl, leaves.sound.follows⟩
      · intro halt after stops
        exact hinders_fixed stops.due id fun _ => False.elim
  | elastic outer =>
      refine ends_elastic.mpr ((ElasticRing.clear_ends False
        (ElasticRing.OrUnallocated fun _ => False) sound).mono ?_ ?_)
      · intro _ after ended
        obtain ⟨final, cleared⟩ := ended
        exact ⟨trivial, id, shows_elastic final.wellFormed (cleared (shows.within outer rfl))
          shows.bound rfl, rfl, final.follows⟩
      · intro halt after stops
        exact hinders_elastic stops.due fun _ => id

/-- A cursor to the place that a reply names. -/
def Names (expected : Reply α) (cursor : Cursor) (ring : Ring α) : Prop :=
  ∃ place, expected = .cursor place (place == ring.len) ∧ ring.Points cursor place

theorem names_pointing {ring : Ring α} {place : Nat} {values : List α} (contents : Contents α)
    (wellFormed : ring.WellFormed) (listed : ring.toList.map Item.value = values)
    (points : ring.Points cursor place) : Names (contents.pointing place values).1 cursor ring := by
  refine ⟨place, ?_, points⟩
  rw [Contents.pointing, ← listed, List.length_map, wellFormed.length_toList]

/-- The elements that came in are those expected, and the cursor points to the first of them. -/
theorem gains_expected {values : List (Option α)} {items : List (Item α)} {after : Ring α}
    {issued : Cursor} {new : Nat → List α}
    (gains : Ring.Gains yields contents.bound index
      (yields.admitted contents.bound items.length index n) values items issued after)
    (wellFormed : after.WellFormed) (listed : items.map Item.value = contents.values)
    (same : values.filterMap id = new (yields.admitted contents.bound items.length index n)) :
    Names (contents.insert yields index n new).1 issued after ∧
      after.toList.map Item.value = (contents.insert yields index n new).2.values := by
  obtain ⟨⟨added, rfl, placed⟩, points⟩ := gains
  have counted : items.length = contents.values.length := by rw [← listed, List.length_map]
  have fresh : added.map Item.value = new (yields.admitted contents.bound items.length index n) := by
    simpa [List.filterMap_map, Function.comp_def] using same
  have result : after.toList.map Item.value = (contents.insert yields index n new).2.values := by
    rw [placed, ← End.inserted_map, fresh, listed, counted]
    rfl
  refine ⟨names_pointing contents wellFormed result ?_, result⟩
  rw [← counted]
  exact points

theorem fixed_inserts {ring after : Ring α} {values : List (Option α)} {issued : Cursor}
    {earlier : Ledger α} (new : Nat → List α) (shows : (Buffer.fixed ring).Shows contents)
    (final : Sound written ⟨ring, earlier⟩ owned after ledger)
    (inserts : Ring.Inserts yields index (ring.admits yields index n) values ring issued after)
    (same : values.filterMap id = new (ring.admits yields index n)) :
    Names (contents.insert yields index n new).1 issued after ∧
      Arrives ⟨.fixed ring, earlier⟩ (contents.insert yields index n new).2
        ⟨.fixed after, ledger⟩ := by
  have wellFormed : ring.WellFormed := shows.wellFormed
  have bound : ring.capacity = contents.bound := shows.bound
  have gains := inserts.gains wellFormed
  rw [Ring.admits, ← wellFormed.length_toList] at gains same
  rw [bound] at gains same
  obtain ⟨names, listed⟩ := gains_expected gains final.wellFormed shows.values same
  exact ⟨names, shows_fixed final.wellFormed (inserts.sized.trans bound) listed, rfl,
    final.follows⟩

theorem elastic_grows {outer after : ElasticRing α} {values : Nat → List (Option α)}
    {issued : Cursor} {earlier : Ledger α} (new : Nat → List α)
    (shows : (Buffer.elastic outer).Shows contents) (points : outer.ring.Points cursor index)
    (final : Sound written ⟨outer.ring, earlier⟩ owned after.ring ledger)
    (grows : ElasticRing.Grows yields cursor n values outer issued after)
    (same : ∀ count, (values count).filterMap id = new count) :
    Names (contents.insert yields index n new).1 issued after.ring ∧
      Arrives ⟨.elastic outer, earlier⟩ (contents.insert yields index n new).2
        ⟨.elastic after, ledger⟩ := by
  obtain ⟨holds, place, resolved, gains⟩ := grows
  obtain rfl := points.eq_of_resolve shows.wellFormed resolved
  have bound : outer.capacity = contents.bound := shows.bound
  rw [bound] at gains
  obtain ⟨names, listed⟩ := gains_expected gains final.wellFormed shows.values (same _)
  exact ⟨names, shows_elastic final.wellFormed holds bound listed, rfl, final.follows⟩

theorem insert_delivers
    (sound : Sound written ⟨origin.buffer.ring, origin.ledger⟩ ({item.id} + owned)
      origin.buffer.ring ledger)
    (shows : origin.buffer.Shows contents) (points : origin.buffer.ring.Points cursor index) :
    Delivers origin False False (contents.insert yields index 1 ([item.value].take ·)).2
      (Names (contents.insert yields index 1 ([item.value].take ·)).1)
      (insert yields cursor item) ⟨origin.buffer, ledger⟩ := by
  obtain ⟨buffer, earlier⟩ := origin
  have wellFormed := shows.wellFormed
  have taken : ∀ count,
      ([some item.value].take count).filterMap id = [item.value].take count := by
    intro count
    cases count <;> simp
  cases buffer with
  | fixed ring =>
      refine ends_fixed.mpr
        ((Ring.insert_ends False sound (points.vouches wellFormed)).mono ?_ ?_)
      · intro issued after ended
        obtain ⟨final, place, resolved, inserts⟩ := ended
        obtain rfl := points.eq_of_resolve wellFormed resolved
        obtain ⟨names, arrives⟩ := fixed_inserts ([item.value].take ·) shows final inserts (taken _)
        exact ⟨names, id, arrives⟩
      · intro halt after stops
        exact hinders_fixed stops.due id fun _ rejected =>
          (points.not_rejected wellFormed rejected).elim
  | elastic outer =>
      refine ends_elastic.mpr
        ((ElasticRing.insert_ends False sound (points.vouches wellFormed)).mono ?_ ?_)
      · intro issued after ended
        obtain ⟨final, -, grows⟩ := ended
        obtain ⟨names, arrives⟩ :=
          elastic_grows ([item.value].take ·) shows points final (grows (shows.within outer rfl)) taken
        exact ⟨names, id, arrives⟩
      · intro halt after stops
        exact hinders_elastic stops.due fun _ => points.not_rejected wellFormed

theorem insertCopies_delivers
    (sound : Sound written ⟨origin.buffer.ring, origin.ledger⟩ ({model.id} + owned)
      origin.buffer.ring ledger)
    (shows : origin.buffer.Shows contents) (points : origin.buffer.ring.Points cursor index) :
    Delivers origin False False (contents.insert yields index n (List.replicate · model.value)).2
      (Names (contents.insert yields index n (List.replicate · model.value)).1)
      (insertCopies yields cursor n model) ⟨origin.buffer, ledger⟩ := by
  obtain ⟨buffer, earlier⟩ := origin
  have wellFormed := shows.wellFormed
  have copied : ∀ count,
      (List.replicate count (some model.value)).filterMap id = List.replicate count model.value := by
    intro count
    simp
  cases buffer with
  | fixed ring =>
      refine ends_fixed.mpr ((Ring.insertCopies_ends sound (points.vouches wellFormed)).mono ?_ ?_)
      · intro issued after ended
        obtain ⟨final, place, resolved, inserts⟩ := ended
        obtain rfl := points.eq_of_resolve wellFormed resolved
        obtain ⟨names, arrives⟩ :=
          fixed_inserts (List.replicate · model.value) shows final inserts (copied _)
        exact ⟨names, id, arrives⟩
      · intro halt after stops
        exact hinders_fixed stops.due id fun _ rejected =>
          (points.not_rejected wellFormed rejected).elim
  | elastic outer =>
      refine ends_elastic.mpr
        ((ElasticRing.insertCopies_ends sound (points.vouches wellFormed)).mono ?_ ?_)
      · intro issued after ended
        obtain ⟨final, -, grows⟩ := ended
        obtain ⟨names, arrives⟩ := elastic_grows (List.replicate · model.value) shows points final
          (grows (shows.within outer rfl)) copied
        exact ⟨names, id, arrives⟩
      · intro halt after stops
        exact hinders_elastic stops.due fun _ => points.not_rejected wellFormed

theorem insertFeed_delivers
    (sound : Sound written ⟨origin.buffer.ring, origin.ledger⟩ owned origin.buffer.ring ledger)
    (shows : origin.buffer.Shows contents) (points : origin.buffer.ring.Points cursor index) :
    Delivers origin ((Edit.insertFeed yields index feed).Broken contents) False
      (contents.insert yields index feed.claimed fun count =>
        (Ring.chosen yields count feed).filterMap Entry.value?).2
      (Names (contents.insert yields index feed.claimed fun count =>
        (Ring.chosen yields count feed).filterMap Entry.value?).1)
      (insertFeed yields cursor feed) ⟨origin.buffer, ledger⟩ := by
  obtain ⟨buffer, earlier⟩ := origin
  have wellFormed := shows.wellFormed
  have inside := points.inside
  have length := shows.length
  simp only [Edit.Broken, length, ← shows.bound]
  have yielded : ∀ count, ((Ring.chosen yields count feed).map Entry.value?).filterMap id =
      (Ring.chosen yields count feed).filterMap Entry.value? := by
    intro count
    simp [List.filterMap_map]
  cases buffer with
  | fixed ring =>
      refine ends_fixed.mpr ((Ring.insertFeed_ends sound (points.vouches wellFormed)).mono ?_ ?_)
      · intro issued after ended
        obtain ⟨final, place, resolved, unbroken, inserts⟩ := ended
        obtain rfl := points.eq_of_resolve wellFormed resolved
        obtain ⟨names, arrives⟩ := fixed_inserts
          (fun count => (Ring.chosen yields count feed).filterMap Entry.value?) shows final inserts
          (yielded _)
        exact ⟨names, fun broken => unbroken broken.2, arrives⟩
      · intro halt after stops
        refine hinders_fixed stops.due ?_ fun _ rejected =>
          (points.not_rejected wellFormed rejected).elim
        intro given
        obtain ⟨place, resolved, broken⟩ := given
        obtain rfl := points.eq_of_resolve wellFormed resolved
        exact ⟨inside, broken⟩
  | elastic outer =>
      refine ends_elastic.mpr
        ((ElasticRing.insertFeed_ends sound (points.vouches wellFormed)).mono ?_ ?_)
      · intro issued after ended
        obtain ⟨final, -, grows⟩ := ended
        obtain ⟨grown, unbroken⟩ := grows (shows.within outer rfl)
        obtain ⟨names, arrives⟩ := elastic_grows
          (fun count => (Ring.chosen yields count feed).filterMap Entry.value?) shows points final
          grown yielded
        refine ⟨names, fun broken => unbroken index (points.resolve wellFormed) ?_, arrives⟩
        have counted : outer.ring.toList.length = outer.ring.len := wellFormed.length_toList
        rw [counted]
        exact broken.2
      · intro halt after stops
        exact hinders_elastic stops.due fun _ => points.not_rejected wellFormed

theorem without_map (ring : Ring α) (index count : Nat) :
    (ring.without index count).map Item.value =
      (ring.toList.map Item.value).take index ++
        (ring.toList.map Item.value).drop (index + count) := by
  simp only [Ring.without, List.map_append, List.map_take, List.map_drop]

theorem fixed_erases {ring after : Ring α} {issued : Cursor} {earlier : Ledger α}
    (shows : (Buffer.fixed ring).Shows contents)
    (final : Sound written ⟨ring, earlier⟩ owned after ledger)
    (erases : Ring.Erases toward index count ring issued after) :
    Names (contents.erase toward index count).1 issued after ∧
      Arrives ⟨.fixed ring, earlier⟩ (contents.erase toward index count).2
        ⟨.fixed after, ledger⟩ := by
  have listed := congrArg (List.map Item.value) erases.toList
  rw [without_map, show ring.toList.map Item.value = contents.values from shows.values] at listed
  exact ⟨names_pointing contents final.wellFormed listed erases.points,
    shows_fixed final.wellFormed (erases.sized.trans shows.bound) listed, rfl, final.follows⟩

theorem elastic_shrinks {outer after : ElasticRing α} {issued : Cursor} {earlier : Ledger α}
    (shows : (Buffer.elastic outer).Shows contents)
    (final : Sound written ⟨outer.ring, earlier⟩ owned after.ring ledger)
    (shrinks : ElasticRing.Shrinks toward index count outer issued after) :
    Names (contents.erase toward index count).1 issued after.ring ∧
      Arrives ⟨.elastic outer, earlier⟩ (contents.erase toward index count).2
        ⟨.elastic after, ledger⟩ := by
  have listed := without_map outer.ring index count
  rw [show outer.ring.toList.map Item.value = contents.values from shows.values] at listed
  refine ⟨names_pointing contents final.wellFormed ?_ shrinks.points,
    shows_elastic final.wellFormed shrinks.holds shows.bound listed, rfl, final.follows⟩
  rw [shrinks.holds.toList, listed]

theorem erase_delivers
    (sound : Sound written ⟨origin.buffer.ring, origin.ledger⟩ owned origin.buffer.ring ledger)
    (shows : origin.buffer.Shows contents) (points : origin.buffer.ring.Points cursor index)
    (inside : index < origin.buffer.ring.len) :
    Delivers origin False False (contents.erase toward index 1).2
      (Names (contents.erase toward index 1).1) (erase toward cursor)
      ⟨origin.buffer, ledger⟩ := by
  obtain ⟨buffer, earlier⟩ := origin
  have wellFormed := shows.wellFormed
  have element := points.resolveElement wellFormed inside
  cases buffer with
  | fixed ring =>
      refine ends_fixed.mpr ((Ring.erase_ends False sound (points.vouches wellFormed)).mono ?_ ?_)
      · intro issued after ended
        obtain ⟨final, place, -, resolved, erases⟩ := ended
        obtain rfl := points.eq_of_resolve wellFormed resolved
        obtain ⟨names, arrives⟩ := fixed_erases shows final erases
        exact ⟨names, id, arrives⟩
      · intro halt after stops
        refine hinders_fixed stops.due id fun error refused => ?_
        cases element.symm.trans refused
  | elastic outer =>
      refine ends_elastic.mpr
        ((ElasticRing.erase_ends False sound (points.vouches wellFormed)).mono ?_ ?_)
      · intro issued after ended
        obtain ⟨final, -, reduced⟩ := ended
        obtain ⟨place, -, resolved, shrinks⟩ := reduced (shows.within outer rfl)
        obtain rfl := points.eq_of_resolve wellFormed resolved
        obtain ⟨names, arrives⟩ := elastic_shrinks shows final shrinks
        exact ⟨names, id, arrives⟩
      · intro halt after stops
        refine hinders_elastic (stops.due.mono id fun _ => .inl) fun error refused => ?_
        cases element.symm.trans refused

theorem eraseRange_delivers {source target : Nat}
    (sound : Sound written ⟨origin.buffer.ring, origin.ledger⟩ owned origin.buffer.ring ledger)
    (shows : origin.buffer.Shows contents) (firstPoints : origin.buffer.ring.Points first source)
    (lastPoints : origin.buffer.ring.Points last target) (ordered : source ≤ target) :
    Delivers origin False False (contents.erase toward source (target - source)).2
      (Names (contents.erase toward source (target - source)).1) (eraseRange toward first last)
      ⟨origin.buffer, ledger⟩ := by
  obtain ⟨buffer, earlier⟩ := origin
  have wellFormed := shows.wellFormed
  have range := firstPoints.resolveRange lastPoints wellFormed ordered
  cases buffer with
  | fixed ring =>
      refine ends_fixed.mpr ((Ring.eraseRange_ends False sound (firstPoints.vouches wellFormed)
        (lastPoints.vouches wellFormed)).mono ?_ ?_)
      · intro issued after ended
        obtain ⟨final, _, _, found, -, -, erases⟩ := ended
        obtain ⟨rfl, rfl⟩ := Prod.mk.inj (Except.ok.inj (range.symm.trans found))
        obtain ⟨names, arrives⟩ := fixed_erases shows final erases
        exact ⟨names, id, arrives⟩
      · intro halt after stops
        refine hinders_fixed stops.due id fun error refused => ?_
        cases range.symm.trans refused
  | elastic outer =>
      refine ends_elastic.mpr ((ElasticRing.eraseRange_ends False sound
        (firstPoints.vouches wellFormed) (lastPoints.vouches wellFormed)).mono ?_ ?_)
      · intro issued after ended
        obtain ⟨final, -, reduced⟩ := ended
        obtain ⟨_, _, found, -, -, shrinks⟩ := reduced (shows.within outer rfl)
        obtain ⟨rfl, rfl⟩ := Prod.mk.inj (Except.ok.inj (range.symm.trans found))
        obtain ⟨names, arrives⟩ := elastic_shrinks shows final shrinks
        exact ⟨names, id, arrives⟩
      · intro halt after stops
        refine hinders_elastic (stops.due.mono id fun _ => .inl) fun error refused => ?_
        cases range.symm.trans refused

/-- The place one past the last element has none to erase. -/
theorem erase_refused {buffer : Buffer α} (wellFormed : buffer.ring.WellFormed)
    (points : buffer.ring.Points cursor buffer.ring.len) :
    Ends (erase toward cursor) ⟨buffer, ledger⟩ (fun _ _ => False)
      (fun halt after => halt = .refused .endOfBuffer ∧ after = ⟨buffer, ledger⟩) := by
  have refused := points.resolveElement_refused wellFormed
  cases buffer with
  | fixed ring =>
      refine ends_fixed.mpr ?_
      simp only [Buffer.ring] at refused
      simp only [Ring.erase, ends_bind, Act.ends_buffer, refused]
      exact ⟨rfl, rfl⟩
  | elastic outer =>
      refine ends_elastic.mpr ?_
      simp only [Buffer.ring] at refused
      simp only [ElasticRing.erase, Ring.erase, ends_bind, ElasticRing.ends_onRing,
        Act.ends_buffer, refused]
      exact ⟨rfl, rfl⟩

theorem eraseRange_refused {buffer : Buffer α} {source target : Nat}
    (wellFormed : buffer.ring.WellFormed) (firstPoints : buffer.ring.Points first source)
    (lastPoints : buffer.ring.Points last target) (crossed : target < source) :
    Ends (eraseRange toward first last) ⟨buffer, ledger⟩ (fun _ _ => False)
      (fun halt after => halt = .refused (.invalidRange source target) ∧
        after = ⟨buffer, ledger⟩) := by
  have refused := firstPoints.resolveRange_refused lastPoints wellFormed crossed
  cases buffer with
  | fixed ring =>
      refine ends_fixed.mpr ?_
      simp only [Buffer.ring] at refused
      simp only [Ring.eraseRange, ends_bind, Act.ends_buffer, refused]
      exact ⟨rfl, rfl⟩
  | elastic outer =>
      refine ends_elastic.mpr ?_
      simp only [Buffer.ring] at refused
      simp only [ElasticRing.eraseRange, Ring.eraseRange, ends_bind, ElasticRing.ends_onRing,
        Act.ends_buffer, refused]
      exact ⟨rfl, rfl⟩

theorem linearize_delivers
    (sound : Sound written ⟨origin.buffer.ring, origin.ledger⟩ owned origin.buffer.ring ledger)
    (shows : origin.buffer.Shows contents) :
    Delivers origin False False contents
      (fun _ ring => ring.runs = .ok (ring.toList, [])) (onRing Ring.linearize)
      ⟨origin.buffer, ledger⟩ := by
  obtain ⟨buffer, earlier⟩ := origin
  cases buffer with
  | fixed ring =>
      refine ends_fixed.mpr ((Ring.linearize_ends sound).mono ?_ fun _ _ => id)
      intro items after ended
      obtain ⟨-, run, leaves⟩ := ended
      exact ⟨leaves.sound.wellFormed.runs_of_start run, id, shows_fixed leaves.sound.wellFormed
        (leaves.sized.trans shows.bound) (leaves.toList ▸ shows.values), rfl, leaves.sound.follows⟩
  | elastic outer =>
      refine ends_elastic.mpr (ElasticRing.ends_onRing.mpr
        ((Ring.linearize_ends sound).mono ?_ fun _ _ => id))
      intro items after ended
      obtain ⟨-, run, leaves⟩ := ended
      have holds := (shows.within outer rfl).holds.refilled leaves.sound.wellFormed leaves.sized
      rw [leaves.toList] at holds
      exact ⟨leaves.sound.wellFormed.runs_of_start run, id,
        shows_elastic leaves.sound.wellFormed holds shows.bound shows.values, rfl,
        leaves.sound.follows⟩

theorem setCapacity_delivers {limits : Limits}
    (sound : Sound written ⟨origin.buffer.ring, origin.ledger⟩ owned origin.buffer.ring ledger)
    (shows : origin.buffer.Shows contents) :
    Delivers origin False (origin.ledger.Scarce limits.ceiling)
      ⟨limits.ceiling, trim.trim (contents.values.length - limits.ceiling) contents.values⟩
      (fun _ _ => True) (setCapacity trim ⟨limits.ceiling, some limits.floor⟩)
      ⟨origin.buffer, ledger⟩ := by
  obtain ⟨buffer, earlier⟩ := origin
  have demanded : (⟨limits.ceiling, some limits.floor⟩ : Bounds).limits = .ok limits :=
    dif_pos limits.floor_le_ceiling
  rw [shows.length, ← shows.values, End.trim_map]
  cases buffer with
  | fixed ring =>
      refine ends_fixed.mpr ((Ring.setCapacity_ends False (fun error =>
        earlier.Scarce limits.ceiling ∧ error = .allocationFailed limits.ceiling) sound trim
        limits.ceiling fun scarce => ⟨scarce, rfl⟩).mono ?_ ?_)
      · intro _ after leaves
        exact ⟨trivial, id, shows_fixed leaves.sound.wellFormed leaves.sized
          (congrArg _ leaves.toList), rfl, leaves.sound.follows⟩
      · intro halt after stopped
        obtain ⟨stops, -⟩ := stopped
        exact hinders_fixed stops.due id fun error refused => ⟨refused.1, _, refused.2⟩
  | elastic outer =>
      refine ends_elastic.mpr ?_
      simp only [Bounds.demand, demanded, ends_bind, ends_pure]
      refine (ElasticRing.setLimits_ends False (ElasticRing.OrUnallocated fun _ => False) sound
        trim limits ElasticRing.orUnallocated).mono ?_ ?_
      · intro _ after ended
        obtain ⟨final, holds⟩ := ended
        exact ⟨trivial, id, shows_elastic final.wellFormed (holds (shows.within outer rfl)) rfl rfl,
          rfl, final.follows⟩
      · intro halt after stops
        exact hinders_elastic stops.due fun _ => id

theorem setFloor_delivers {outer : ElasticRing α} {earlier : Ledger α} {floor : Nat}
    {onFixed : Act (Ring α) α Unit}
    (sound : Sound written ⟨outer.ring, earlier⟩ owned outer.ring ledger)
    (shows : (Buffer.elastic outer).Shows contents) (ordered : floor ≤ contents.bound) :
    Delivers ⟨.elastic outer, earlier⟩ False False contents (fun _ _ => True)
      (either onFixed (ElasticRing.setFloor floor)) ⟨.elastic outer, ledger⟩ := by
  have bound : outer.capacity = contents.bound := shows.bound
  refine ends_elastic.mpr ((ElasticRing.setFloor_ends False sound floor).mono ?_ ?_)
  · intro _ after ended
    obtain ⟨final, holds⟩ := ended
    obtain ⟨limits, ceiling, holds⟩ := holds (shows.within outer rfl)
    exact ⟨trivial, id, shows_elastic final.wellFormed holds (ceiling.trans bound) shows.values,
      rfl, final.follows⟩
  · intro halt after stopped
    obtain ⟨stops, -⟩ := stopped
    exact hinders_elastic stops.due fun _ => Nat.not_lt_of_le (ordered.trans_eq bound.symm)

theorem setFloor_refused {outer : ElasticRing α} {floor : Nat} {onFixed : Act (Ring α) α Unit}
    (high : outer.capacity < floor) :
    Ends (either onFixed (ElasticRing.setFloor floor)) ⟨.elastic outer, ledger⟩ (fun _ _ => False)
      (fun halt after => halt = .refused (.invalidCapacity outer.capacity floor) ∧
        after = ⟨.elastic outer, ledger⟩) := by
  have refused : Limits.new outer.limits.ceiling floor =
      .error (.invalidCapacity outer.capacity floor) := dif_neg (Nat.not_le_of_lt high)
  refine ends_elastic.mpr ?_
  simp only [ElasticRing.setFloor, ends_bind, Act.ends_buffer, refused]
  exact ⟨rfl, rfl⟩

end Buffer

end RingDeque.Session
