import RingDeque.Proofs.Ring.Gap
import RingDeque.Proofs.Ring.Supplying

/-!
Insertion against lists.

Elements give way at one end, and the new ones come to stand between the two parts of what is left.
How many are asked for is decided before anything moves, so a source that yields fewer of them
leaves fewer, and the ring is whole even if the source breaks.
-/

namespace RingDeque

namespace End

variable {β : Type} {items new : List β} {capacity index count : Nat}

/-- The number of entries that can be put before an index. -/
def roomAt (yields : End) (capacity length index : Nat) : Nat :=
  match yields with
  | .front => capacity - (length - index)
  | .back => capacity - index

/-- How many of `n` entries are put before an index. -/
def admitted (yields : End) (capacity length index n : Nat) : Nat :=
  min (yields.roomAt capacity length index) n

/-- Where an index stands after entries have given way. -/
def shifted (yields : End) (index evicted : Nat) : Nat :=
  match yields with
  | .front => index - evicted
  | .back => index

/-- A list with new entries before an index, after others gave way to `count` of them. -/
def inserted (yields : End) (capacity index count : Nat) (new items : List β) : List β :=
  let rest := yields.trim (items.length + count - capacity) items
  let place := yields.shifted index (items.length + count - capacity)
  rest.take place ++ new ++ rest.drop place

theorem shifted_zero (yields : End) (index : Nat) : yields.shifted index 0 = index := by
  cases yields <;> rfl

/-- With room for all entries under two capacities, the larger one admits no more. -/
theorem admitted_eq (yields : End) {physical length n : Nat} (inside : index ≤ length)
    (below : physical ≤ capacity) (room : length + n ≤ physical ∨ physical = capacity) :
    yields.admitted physical length index n = yields.admitted capacity length index n := by
  rcases room with room | rfl
  · cases yields <;> simp only [admitted, roomAt] <;> omega
  · rfl

theorem surplus_eq {physical : Nat} (length count : Nat) (below : physical ≤ capacity)
    (room : length + count ≤ physical ∨ physical = capacity) :
    length + count - physical = length + count - capacity := by
  omega

theorem inserted_nothing (yields : End) (fits : items.length ≤ capacity) :
    yields.inserted capacity index 0 [] items = items := by
  simp only [inserted, Nat.add_zero, Nat.sub_eq_zero_of_le fits, trim_zero, shifted_zero,
    List.append_nil, List.take_append_drop]

end End

namespace Ring

open Effect

variable {α : Type} {written : Prop} {origin before : Tracked (Ring α) α}
  {owned : Multiset Nat} {ring : Ring α} {refuses : Error → Prop} {breaks : Prop}
  {index count capacity : Nat} {cursor : Cursor} {item model : Item α} {entries : List (Entry α)}
  {yields : End}

/-- How many of `n` elements there is room for before a logical index. -/
def admits (ring : Ring α) (yields : End) (index n : Nat) : Nat :=
  yields.admitted ring.capacity ring.len index n

theorem WellFormed.room_eq (wellFormed : ring.WellFormed) (inside : index ≤ ring.len) :
    ring.room yields index = .ok (yields.roomAt ring.capacity ring.len index) := by
  have fits := wellFormed.fits
  cases yields with
  | front =>
      simp only [room, Word.sub_eq inside, Checked.ok_bind, End.roomAt]
      exact Word.sub_eq (by omega)
  | back => exact Word.sub_eq (by omega)

theorem makeRoom_ends (sound : Sound written origin owned before.buffer before.ledger)
    (inside : index ≤ before.buffer.len)
    (fits : count ≤ yields.roomAt before.buffer.capacity before.buffer.len index) :
    Ends (makeRoom yields index count) before
      (fun place after =>
        place = yields.shifted index (before.buffer.len + count - before.buffer.capacity) ∧
        place ≤ after.buffer.len ∧ after.buffer.len + count ≤ before.buffer.capacity ∧
        Leaves written origin owned before.buffer.capacity
          (yields.trim (before.buffer.len + count - before.buffer.capacity) before.buffer.toList)
          after.buffer after.ledger)
      (fun halt after =>
        Stops written origin breaks refuses owned halt after.buffer after.ledger) := by
  have held := sound.wellFormed.fits
  have word := sound.wellFormed.capacity_double_lt_word
  have length := sound.wellFormed.length_toList
  have bound : count ≤ before.buffer.capacity := by
    cases yields <;> simp only [End.roomAt] at fits <;> omega
  simp only [makeRoom, ends_bind, Act.ends_buffer, liftM_ok, ends_pure,
    Word.add_eq (show before.buffer.len + count < Word.limit by omega)]
  refine (evict_ends sound yields _).mono ?_ fun _ _ => id
  intro _ after leaves
  have left : after.buffer.len =
      before.buffer.len - (before.buffer.len + count - before.buffer.capacity) := by
    rw [leaves.len, End.length_trim, length]
  cases yields with
  | front =>
      simp only [End.roomAt] at fits
      rw [Word.sub_eq (by omega)]
      exact ⟨rfl, by simp only [left]; omega, by omega, leaves⟩
  | back =>
      simp only [End.roomAt] at fits
      exact ⟨rfl, by simp only [left]; omega, by omega, leaves⟩

/-- What an insertion of `count` elements at a logical index makes of a ring: the new elements are
in place, and the cursor points to the first of them. -/
structure Inserts (yields : End) (index count : Nat) (values : List (Option α)) (before : Ring α)
    (cursor : Cursor) (after : Ring α) : Prop where
  sized : after.capacity = before.capacity
  placed : ∃ new, values = new.map (some ·.value) ∧
    after.toList = yields.inserted before.capacity index count new before.toList
  points : after.Points cursor (yields.shifted index (before.len + count - before.capacity))

/-- A list of elements with those of an insertion among them, under any bound for their number. -/
structure Gains (yields : End) (bound index count : Nat) (values : List (Option α))
    (items : List (Item α)) (cursor : Cursor) (after : Ring α) : Prop where
  placed : ∃ new, values = new.map (some ·.value) ∧
    after.toList = yields.inserted bound index count new items
  points : after.Points cursor (yields.shifted index (items.length + count - bound))

theorem Inserts.gains {values : List (Option α)} {issued : Cursor} {after : Ring α}
    (inserts : Inserts yields index count values ring issued after) (wellFormed : ring.WellFormed) :
    Gains yields ring.capacity index count values ring.toList issued after :=
  ⟨inserts.placed, by
    rw [wellFormed.length_toList]
    exact inserts.points⟩

/-- Inserting nothing leaves the contents, and points to where nothing was inserted. -/
theorem WellFormed.inserts_nothing (yields : End) (wellFormed : ring.WellFormed) (inside : index ≤ ring.len) :
    ∃ cursor, ring.cursorFor index = .ok cursor ∧ Inserts yields index 0 [] ring cursor ring := by
  have fits := wellFormed.fits
  have length := wellFormed.length_toList
  obtain ⟨cursor, issued, points⟩ := wellFormed.cursorFor_exists index
  rw [Nat.min_eq_left inside] at points
  refine ⟨cursor, issued, rfl, ⟨[], rfl, ?_⟩, ?_⟩
  · rw [End.inserted_nothing yields (by omega)]
  · rw [Nat.add_zero, Nat.sub_eq_zero_of_le fits, yields.shifted_zero]
    exact points

/-- Splicing elements into the room that was made for them. -/
theorem splice_inserts {items : List (Item α)} {middle : Ring α} {place : Nat}
    {ledger : Ledger α} (wellFormed : ring.WellFormed)
    (sound : Sound written origin (ids items + owned) middle ledger)
    (sized : middle.capacity = ring.capacity)
    (listed : middle.toList = yields.trim (ring.len + count - ring.capacity) ring.toList)
    (placed : place = yields.shifted index (ring.len + count - ring.capacity))
    (inside : place ≤ middle.len) (room : middle.len + count ≤ ring.capacity)
    (few : items.length ≤ count) :
    ∃ after cursor, middle.splice place count yields.opposite items = .ok after ∧
      after.cursorFor place = .ok cursor ∧ Sound written origin owned after ledger ∧
      Inserts yields index count (items.map (some ·.value)) ring cursor after := by
  obtain ⟨after, spliced, becomes⟩ := splice_exists
    sound.wellFormed yields.opposite inside (by rw [sized]; exact room) few
  obtain ⟨cursor, issued, points⟩ := becomes.wellFormed.cursorFor_exists place
  have placeAfter : place ≤ after.len := by
    rw [becomes.len, List.length_append, List.length_append, List.length_take,
      sound.wellFormed.length_toList]
    omega
  rw [Nat.min_eq_left placeAfter, placed] at points
  refine ⟨after, cursor, spliced, issued, sound.turn becomes.turnsInto ?_,
    becomes.capacity.trans sized, ⟨items, rfl, ?_⟩, points⟩
  · have parts : ids (middle.toList.take place ++ middle.toList.drop place) = _ := ids_append
    rw [List.take_append_drop] at parts
    rw [ids_append, ids_append, parts]
    abel
  · rw [becomes.toList, listed, placed, End.inserted, wellFormed.length_toList]

/-- The insertion of what entries yield, once their number is settled. -/
theorem insertEntries_ends (refuses : Error → Prop) (sound : Sound written origin owned before.buffer before.ledger)
    (inside : index ≤ before.buffer.len)
    (fits : count ≤ yields.roomAt before.buffer.capacity before.buffer.len index) :
    Ends (insertEntries yields index count entries) before
      (fun cursor after => Sound written origin owned after.buffer after.ledger ∧
        Inserts yields index count ((entries.take count).map Entry.value?) before.buffer cursor
          after.buffer)
      (fun halt after => Stops written origin (.breaks ∈ entries.take count) refuses owned halt
        after.buffer after.ledger) := by
  simp only [insertEntries]
  by_cases nothing : count = 0
  · obtain ⟨cursor, issued, inserts⟩ :=
      sound.wellFormed.inserts_nothing yields inside
    subst nothing
    simp only [if_true, ends_bind, Act.ends_buffer, issued, liftM_ok, ends_pure]
    exact ⟨sound, inserts⟩
  simp only [if_neg nothing, ends_bind, Act.ends_ledger]
  refine (makeRoom_ends sound inside fits).mono ?_ fun _ _ => id
  intro place middle ended
  obtain ⟨placed, placeInside, room, leaves⟩ := ended
  refine (Entry.produceAll_ends refuses leaves.sound.keeps).mono ?_ fun _ _ => id
  intro reached ledger ended
  obtain ⟨items, halt⟩ := reached
  obtain ⟨keeps, produced, outcome⟩ := ended
  have owns : Sound written origin (ids items + owned) middle.buffer ledger :=
    leaves.sound.step (keeps.of_eq (by abel))
  obtain ⟨after, cursor, spliced, issued, final, inserts⟩ :=
    splice_inserts sound.wellFormed owns leaves.sized leaves.toList placed placeInside room (by
      simp only [List.length_take] at produced
      omega)
  rw [Act.ends_alter spliced]
  cases halt with
  | some halt =>
      simp only [ends_throw]
      exact ⟨outcome, final⟩
  | none =>
      simp only [ends_bind, Act.ends_buffer, issued, liftM_ok, ends_pure]
      exact ⟨final, outcome ▸ inserts⟩

theorem insert_ends (breaks : Prop) (sound : Sound written origin ({item.id} + owned) before.buffer before.ledger)
    (vouched : before.buffer.Vouches cursor) :
    Ends (insert yields cursor item) before
      (fun issued after => Sound written origin owned after.buffer after.ledger ∧
        ∃ index, before.buffer.resolve cursor = .ok index ∧
        Inserts yields index (before.buffer.admits yields index 1)
          ([some item.value].take (before.buffer.admits yields index 1)) before.buffer issued
          after.buffer)
      (fun halt after => Stops written origin breaks (before.buffer.Rejects cursor) owned
        halt after.buffer after.ledger) := by
  have asked : Ends (do liftM ((← Act.buffer).resolve cursor) : Act (Ring α) α Nat) before
      (fun index after => after = before ∧ before.buffer.resolve cursor = .ok index ∧
        index ≤ before.buffer.len)
      (fun halt after => Stops written origin breaks (before.buffer.Rejects cursor)
        ({item.id} + owned) halt after.buffer after.ledger) := by
    simp only [ends_bind, Act.ends_buffer]
    exact resolve_ends sound vouched
  simp only [insert, ends_bind]
  refine (holding_ends (fun ring => ring) asked).mono ?_ fun _ _ => id
  intro index after ended
  obtain ⟨rfl, resolved, inside⟩ := ended
  simp only [Act.ends_buffer, sound.wellFormed.room_eq inside, liftM_ok, ends_pure]
  by_cases full : yields.roomAt after.buffer.capacity after.buffer.len index = 0
  · obtain ⟨issued, found, inserts⟩ :=
      sound.wellFormed.inserts_nothing _ inside
    simp only [if_pos full, ends_bind, Act.ends_ledger, Act.ends_buffer, found, liftM_ok, ends_pure]
    refine sound.destroy_ends.mono ?_ fun _ _ => id
    intro _ ledger gone
    refine ⟨gone, index, resolved, ?_⟩
    rw [admits, End.admitted, full, Nat.zero_min]
    exact inserts
  · have one : after.buffer.admits yields index 1 = 1 := by
      simp only [admits, End.admitted]
      omega
    simp only [if_neg full, ends_bind]
    refine (holding_ends (fun ring => ring)
      (makeRoom_ends sound inside (show 1 ≤ _ by omega))).mono ?_ fun _ _ => id
    intro place middle ended
    obtain ⟨placed, placeInside, room, leaves⟩ := ended
    have owns : Sound written origin (ids [item] + owned) middle.buffer middle.ledger :=
      leaves.sound.of_eq (by simp)
    obtain ⟨final, issued, spliced, found, sound, inserts⟩ :=
      splice_inserts sound.wellFormed owns leaves.sized leaves.toList placed placeInside room
        (Nat.le_refl 1)
    rw [Act.ends_alter spliced]
    simp only [Act.ends_buffer, found, liftM_ok, ends_pure]
    refine ⟨sound, index, resolved, ?_⟩
    rw [one]
    exact inserts

theorem insertCopies_ends {n : Nat}
    (sound : Sound written origin ({model.id} + owned) before.buffer before.ledger)
    (vouched : before.buffer.Vouches cursor) :
    Ends (insertCopies yields cursor n model) before
      (fun issued after => Sound written origin owned after.buffer after.ledger ∧
        ∃ index, before.buffer.resolve cursor = .ok index ∧
        Inserts yields index (before.buffer.admits yields index n)
          (List.replicate (before.buffer.admits yields index n) (some model.value))
          before.buffer issued after.buffer)
      (fun halt after => Stops written origin False (before.buffer.Rejects cursor) owned halt
        after.buffer after.ledger) := by
  refine consuming_ends (fun ring => ring) (fun issued after => ∃ index, before.buffer.resolve cursor = .ok index ∧
      Inserts yields index (before.buffer.admits yields index n)
        (List.replicate (before.buffer.admits yields index n) (some model.value))
        before.buffer issued after) ?_
  simp only [ends_bind, Act.ends_buffer]
  refine (resolve_ends sound vouched).mono ?_ fun _ _ => id
  intro index after ended
  obtain ⟨rfl, resolved, inside⟩ := ended
  simp only [sound.wellFormed.room_eq inside, liftM_ok, ends_pure]
  refine (insertEntries_ends (after.buffer.Rejects cursor) sound inside
    (Nat.min_le_left _ _)).mono ?_ ?_
  · intro issued final ended
    obtain ⟨finalSound, inserts⟩ := ended
    refine ⟨finalSound, index, resolved, ?_⟩
    rwa [List.take_of_length_le (by simp), List.map_replicate] at inserts
  · intro halt final stops
    refine stops.mono (fun member => ?_) fun _ => id
    cases List.eq_of_mem_replicate (List.mem_of_mem_take member)

/-- The entries of a feed that are inserted when there is room for `count` elements. -/
def chosen (yields : End) (count : Nat) (feed : Feed α) : List (Entry α) :=
  match yields with
  | .front => (feed.entries.drop (feed.claimed - count)).take count
  | .back => feed.entries.take count

/-- The entries of a feed that are asked for: those inserted, and those skipped before them. -/
def asked (yields : End) (count : Nat) (feed : Feed α) : List (Entry α) :=
  match yields with
  | .front => feed.entries.take (feed.claimed - count) ++ chosen .front count feed
  | .back => chosen .back count feed

/-- Entries that yield elements do not break. -/
theorem Inserts.unbroken {issued : Cursor} {after : Ring α}
    (inserts : Inserts yields index count (entries.map Entry.value?) ring issued after) :
    .breaks ∉ entries := by
  intro broken
  obtain ⟨new, values, -⟩ := inserts.placed
  have member := List.mem_map_of_mem (f := Entry.value?) broken
  rw [values] at member
  simp [Entry.value?] at member

theorem insertFeed_ends {feed : Feed α}
    (sound : Sound written origin owned before.buffer before.ledger)
    (vouched : before.buffer.Vouches cursor) :
    Ends (insertFeed yields cursor feed) before
      (fun issued after => Sound written origin owned after.buffer after.ledger ∧
        ∃ index, before.buffer.resolve cursor = .ok index ∧
          .breaks ∉ asked yields (before.buffer.admits yields index feed.claimed) feed ∧
          Inserts yields index (before.buffer.admits yields index feed.claimed)
            ((chosen yields (before.buffer.admits yields index feed.claimed) feed).map Entry.value?)
            before.buffer issued after.buffer)
      (fun halt after => Stops written origin
        (∃ index, before.buffer.resolve cursor = .ok index ∧
          .breaks ∈ asked yields (before.buffer.admits yields index feed.claimed) feed)
        (before.buffer.Rejects cursor) owned halt after.buffer after.ledger) := by
  simp only [insertFeed, ends_bind, Act.ends_buffer]
  refine (resolve_ends sound vouched).mono ?_ fun _ _ => id
  intro index after ended
  obtain ⟨rfl, resolved, inside⟩ := ended
  simp only [sound.wellFormed.room_eq inside, liftM_ok, ends_pure]
  have fits : after.buffer.admits yields index feed.claimed ≤
      yields.roomAt after.buffer.capacity after.buffer.len index := Nat.min_le_left _ _
  cases yields with
  | front =>
      simp only [ends_bind, Act.ends_ledger, Feed.skipSurplus_eq]
      refine (Entry.skip_ends (after.buffer.Rejects cursor) sound.keeps).mono ?_ ?_
      · intro left middle ended
        obtain ⟨rfl, skipped, keeps⟩ := ended
        refine Ends.mono (insertEntries_ends (after.buffer.Rejects cursor) (sound.step keeps)
          inside fits) ?_ ?_
        · intro issued final ended
          obtain ⟨finalSound, inserts⟩ := ended
          refine ⟨finalSound, index, resolved, ?_, inserts⟩
          intro member
          rcases List.mem_append.mp member with early | late
          · exact skipped early
          · exact inserts.unbroken late
        · intro halt final stops
          exact stops.mono (fun broken => ⟨index, resolved, List.mem_append_right _ broken⟩)
            fun _ => id
      · intro halt middle stopped
        obtain ⟨due, keeps⟩ := stopped
        exact ⟨due.mono (fun broken => ⟨index, resolved, List.mem_append_left _ broken⟩) fun _ => id,
          sound.step keeps⟩
  | back =>
      simp only [ends_bind, ends_pure]
      refine (insertEntries_ends (after.buffer.Rejects cursor) sound inside fits).mono
        ?_ ?_
      · intro issued final ended
        obtain ⟨finalSound, inserts⟩ := ended
        exact ⟨finalSound, index, resolved, inserts.unbroken, inserts⟩
      · intro halt final stops
        exact stops.mono (fun broken => ⟨index, resolved, broken⟩) fun _ => id

end Ring

end RingDeque
