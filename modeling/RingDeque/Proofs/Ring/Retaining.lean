import RingDeque.Proofs.Halting
import RingDeque.Proofs.Ring.Gathering
import RingDeque.Proofs.Ring.Sparing
import RingDeque.Ring.Erasure

/-!
Which elements of a ring keep their cursors when an action at an end or in the middle returns: all
but those that go, and those on the side that moves.
-/

namespace RingDeque

open Effect

namespace Act

variable {α β : Type} {act : Act β α γ} {item : Item α} {before : Tracked β α}

/-- A checked step does not touch the buffer. -/
theorem returns_checked {step : Checked γ} {returns : γ → Tracked β α → Prop}
    (holds : ∀ value, returns value before) :
    Ends (liftM step : Act β α γ) before returns fun _ _ => True := by
  cases step with
  | ok value => exact holds value
  | error fault => trivial

theorem returns_update {step : β → Checked (γ × β)} {returns : γ → Tracked β α → Prop}
    (gives : (step before.buffer).Gives fun reached => returns reached.1 ⟨reached.2, before.ledger⟩) :
    Ends (Act.update step) before returns fun _ _ => True := by
  cases stepped : step before.buffer with
  | ok reached =>
      rw [ends_update (show step before.buffer = .ok (reached.1, reached.2) from stepped)]
      exact gives reached stepped
  | error fault =>
      simp only [update, ends_bind, ends_buffer, stepped]
      trivial

theorem returns_alter {step : β → Checked β} {returns : Unit → Tracked β α → Prop}
    (gives : (step before.buffer).Gives fun reached => returns () ⟨reached, before.ledger⟩) :
    Ends (Act.alter step) before returns fun _ _ => True := by
  cases stepped : step before.buffer with
  | ok reached =>
      rw [ends_alter stepped]
      exact gives reached stepped
  | error fault =>
      simp only [alter, ends_bind, ends_buffer, stepped]
      trivial

/-- An element that is held while an action runs makes no difference to the buffer it returns. -/
theorem returns_holding (good : γ → β → Prop)
    (ends : Ends act before (fun value after => good value after.buffer) fun _ _ => True) :
    Ends (holding item act) before (fun value after => good value after.buffer) fun _ _ => True := by
  simp only [holding, ends_tryCatch]
  refine ends.mono (fun _ _ => id) ?_
  intro halt after _
  cases halt with
  | refused error =>
      simp only [ends_bind, ends_ledger, ends_refuse]
      exact .somehow
  | interrupted cause =>
      simp only [ends_bind, ends_ledger, ends_throw]
      exact .somehow
  | fault fault => trivial

theorem returns_consuming (good : γ → β → Prop)
    (ends : Ends act before (fun value after => good value after.buffer) fun _ _ => True) :
    Ends (consuming item act) before (fun value after => good value after.buffer)
      fun _ _ => True := by
  simp only [consuming, ends_bind, ends_ledger, ends_pure]
  refine (returns_holding good ends).mono ?_ fun _ _ => id
  intro value after holds
  exact Ends.anyhow (fun _ _ => holds) fun _ _ => trivial

end Act

namespace Entry

variable {α : Type}

/-- Entries that do not fail yield an element each. -/
theorem produceAll_returns (entries : List (Entry α)) (ledger : Ledger α) :
    Ends (produceAll entries) ledger
      (fun made _ => made.2 = none → made.1.length = entries.length) fun _ _ => True := by
  induction entries generalizing ledger with
  | nil => exact fun _ => rfl
  | cons entry rest ih =>
      simp only [produceAll, ends_bind, ends_observing, ends_pure]
      apply Ends.anyhow
      · intro item after
        apply (ih after).mono
        · intro made final complete ended
          rw [List.length_cons, List.length_cons, complete ended]
        · exact fun _ _ => id
      · intro halt after impossible
        cases impossible

/-- Skipping entries leaves the others. -/
theorem skip_returns (count : Nat) (entries : List (Entry α)) (ledger : Ledger α) :
    Ends (skip count entries) ledger (fun left _ => left = entries.drop count) fun _ _ => True := by
  induction count generalizing entries ledger with
  | zero => rfl
  | succ count ih =>
      cases entries with
      | nil => rfl
      | cons entry rest =>
          simp only [skip, ends_bind]
          exact Ends.anyhow (fun item after =>
            Ends.anyhow (fun _ last => ih rest last) fun _ _ => trivial) fun _ _ => trivial

end Entry

namespace Ring

variable {α : Type} {before : Tracked (Ring α) α} {ring : Ring α} {act : Act (Ring α) α γ}
  {spared : Nat → Prop} {index count : Nat} {side yields toward : End} {item model : Item α}
  {entries : List (Entry α)} {cursor first last : Cursor}

/-- An action that spares the cursors to the elements at some logical indices, and voids those to
the others. -/
def Sparing (act : Act (Ring α) α γ) (before : Tracked (Ring α) α) (spared : Nat → Prop) : Prop :=
  Ends act before (fun _ after => ∀ place < before.buffer.len,
    (before.buffer.Retains after.buffer (before.buffer.place place) ↔ spared place)) fun _ _ => True

/-- An action that leaves the counters as they are, or does not return. -/
theorem sparing_all (same : Ends act before
      (fun _ after => after.buffer.registry = before.buffer.registry) fun _ _ => True) :
    Sparing act before fun _ => True :=
  same.mono (fun _ _ same _ _ => ⟨fun _ => trivial, fun _ => .of_registry same⟩) fun _ _ => id

/-- An action that begins another generation. -/
theorem sparing_none (newer : Ends act before
      (fun _ after => before.buffer.registry.generation < after.buffer.registry.generation)
      fun _ _ => True) :
    Sparing act before fun _ => False :=
  newer.mono (fun _ _ newer _ _ => ⟨fun retains => by
    have := retains.generation
    omega, False.elim⟩) fun _ _ => id

theorem Sparing.congr {other : Nat → Prop} (sparing : Sparing act before spared)
    (same : ∀ place < before.buffer.len, spared place ↔ other place) : Sparing act before other :=
  sparing.mono (fun _ _ holds place held => (holds place held).trans (same place held))
    fun _ _ => id

theorem push_sparing (wellFormed : before.buffer.WellFormed) (side : End) (item : Item α) :
    Sparing (Act.update (push side · item)) before fun place =>
      before.buffer.len < before.buffer.capacity ∨
        side.opposite.Leaves before.buffer.len 1 place :=
  Act.returns_update (push_retains wellFormed side item)

theorem pop_sparing (wellFormed : before.buffer.WellFormed) (side : End) :
    Sparing (Act.update (pop side)) before (side.Leaves before.buffer.len 1) := by
  obtain ⟨found, after, popped, trims, -⟩ := pop_trims wellFormed side
  rw [Sparing, Act.ends_update popped]
  exact trims.retains

/-- Eviction trims the ring at an end. -/
theorem evict_trims (wellFormed : before.buffer.WellFormed) (side : End) (count : Nat) :
    Ends (evict side count) before (fun _ after => Trims side count before.buffer after.buffer)
      fun _ _ => True := by
  induction count generalizing before with
  | zero => exact .refl wellFormed side
  | succ count ih =>
      obtain ⟨found, middle, popped, trims, empty⟩ := pop_trims wellFormed side
      simp only [evict, ends_bind]
      rw [Act.ends_update popped]
      cases found with
      | none =>
          have unchanged := pop_empty side (empty rfl)
          rw [popped] at unchanged
          cases unchanged
          exact .of_empty wellFormed (empty rfl) side _
      | some item =>
          simp only [ends_bind, Act.ends_ledger]
          apply Ends.anyhow
          · intro _ ledger
            have rest : Ends (evict side count) ⟨middle, ledger⟩ _ _ := ih trims.wellFormed
            apply rest.mono
            · intro _ after later
              rw [Nat.add_comm]
              exact trims.trans wellFormed later
            · exact fun _ _ => id
          · exact fun _ _ => trivial

theorem evict_sparing (wellFormed : before.buffer.WellFormed) (side : End) (count : Nat) :
    Sparing (evict side count) before (side.Leaves before.buffer.len count) :=
  (evict_trims wellFormed side count).mono (fun _ _ trims => trims.retains) fun _ _ => id

theorem makeRoom_trims (wellFormed : before.buffer.WellFormed) (yields : End)
    (word : before.buffer.len + count < Word.limit) :
    Ends (makeRoom yields index count) before
      (fun place after =>
        place = yields.shifted index (before.buffer.len + count - before.buffer.capacity) ∧
        Trims yields (before.buffer.len + count - before.buffer.capacity) before.buffer after.buffer)
      fun _ _ => True := by
  simp only [makeRoom, ends_bind, Act.ends_buffer, Word.add_eq word, liftM_ok, ends_pure]
  refine (evict_trims wellFormed yields _).mono ?_ fun _ _ => id
  intro _ after trims
  cases yields with
  | back => exact ⟨rfl, trims⟩
  | front =>
      simp only [Word.sub]
      split
      · exact ⟨rfl, trims⟩
      · trivial

/-- Whether an element keeps its place when `count` others are put before a logical index: it must
not give way, and then lie on the side of the gap that does not move. -/
def KeptByInsertion (ring : Ring α) (yields : End) (index count place : Nat) : Prop :=
  count = 0 ∨
    let evicted := ring.len + count - ring.capacity
    let gap := yields.shifted index evicted
    yields.Leaves ring.len evicted place ∧
      (End.shorter gap (ring.len - evicted - gap) yields.opposite).Spares gap
        (yields.shifted place evicted)

/-- Where the gap of an insertion is, and that there is room for it, once others have given way. -/
theorem gap_fits (fits : ring.len ≤ ring.capacity) (inside : index ≤ ring.len)
    (room : count ≤ yields.roomAt ring.capacity ring.len index) :
    yields.shifted index (ring.len + count - ring.capacity) ≤
        ring.len - (ring.len + count - ring.capacity) ∧
      ring.len - (ring.len + count - ring.capacity) + count ≤ ring.capacity := by
  cases yields <;> simp only [End.roomAt, End.shifted] at * <;> omega

/-- Elements that are spliced in after others gave way. -/
theorem splicing_sparing {middle : Tracked (Ring α) α} {items : List (Item α)}
    (wellFormed : ring.WellFormed) (inside : index ≤ ring.len)
    (room : count ≤ yields.roomAt ring.capacity ring.len index) (any : count ≠ 0)
    (trims : Trims yields (ring.len + count - ring.capacity) ring middle.buffer)
    (counted : items.length = count) :
    Ends (do
        Act.alter (·.splice (yields.shifted index (ring.len + count - ring.capacity)) count
          yields.opposite items)
        (← Act.buffer).cursorFor (yields.shifted index (ring.len + count - ring.capacity)) :
          Act (Ring α) α Cursor) middle
      (fun _ after => ∀ place < ring.len, (ring.Retains after.buffer (ring.place place) ↔
        ring.KeptByInsertion yields index count place)) fun _ _ => True := by
  obtain ⟨gapInside, gapFits⟩ := gap_fits wellFormed.fits inside room
  rw [← trims.len] at gapInside gapFits
  rw [← trims.capacity] at gapFits
  subst counted
  obtain ⟨after, spliced, becomes⟩ := splice_exists trims.wellFormed yields.opposite gapInside gapFits
    (Nat.le_refl items.length)
  obtain ⟨cursor, issued, -⟩ := becomes.wellFormed.cursorFor_exists
    (yields.shifted index (ring.len + items.length - ring.capacity))
  rw [ends_bind, Act.ends_alter spliced]
  simp only [ends_bind, Act.ends_buffer, issued, liftM_ok, ends_pure]
  intro place held
  rw [retains_trans trims.ages becomes.ages (wellFormed.slot_known held), trims.retains place held,
    KeptByInsertion, or_iff_right any]
  refine and_congr_right fun left => ?_
  have still : yields.shifted place (ring.len + items.length - ring.capacity) < middle.buffer.len := by
    rw [trims.len]
    cases yields <;> simp only [End.Leaves, End.shifted] at * <;> omega
  rw [← trims.places place held left, ← trims.len]
  exact splice_retains trims.wellFormed gapInside gapFits still _ spliced

theorem insertEntries_sparing (wellFormed : before.buffer.WellFormed)
    (inside : index ≤ before.buffer.len)
    (room : count ≤ yields.roomAt before.buffer.capacity before.buffer.len index)
    (enough : count ≤ entries.length) :
    Sparing (insertEntries yields index count entries) before
      (before.buffer.KeptByInsertion yields index count) := by
  have bound : count ≤ before.buffer.capacity := by
    cases yields <;> simp only [End.roomAt] at room <;> omega
  have fits := wellFormed.fits
  have word := wellFormed.capacity_double_lt_word
  by_cases nothing : count = 0
  · obtain ⟨cursor, issued, -⟩ := wellFormed.cursorFor_exists index
    simp only [Sparing, insertEntries, if_pos nothing, ends_bind, Act.ends_buffer, issued, liftM_ok,
      ends_pure]
    exact fun place _ => ⟨fun _ => .inl nothing, fun _ => .of_registry rfl⟩
  simp only [Sparing, insertEntries, if_neg nothing, ends_bind, Act.ends_ledger]
  refine (makeRoom_trims wellFormed yields (by omega)).mono ?_ fun _ _ => id
  rintro place middle ⟨rfl, trims⟩
  apply (Entry.produceAll_returns (entries.take count) middle.ledger).mono
  · rintro ⟨items, halt⟩ ledger complete
    cases halt with
    | some halt => exact Ends.anyhow (fun _ _ => trivial) fun _ _ => trivial
    | none =>
        have counted : items.length = count := by
          rw [complete rfl, List.length_take]
          omega
        have here : Trims yields _ before.buffer (Tracked.mk middle.buffer ledger).buffer := trims
        exact ends_bind.mp (splicing_sparing wellFormed inside room nothing here counted)
  · exact fun _ _ => id

theorem insert_sparing (wellFormed : before.buffer.WellFormed)
    (resolved : before.buffer.resolve cursor = .ok index) (inside : index ≤ before.buffer.len) :
    Sparing (insert yields cursor item) before
      (before.buffer.KeptByInsertion yields index (before.buffer.admits yields index 1)) := by
  have fits := wellFormed.fits
  have word := wellFormed.capacity_double_lt_word
  have asked : Ends (holding item do liftM ((← Act.buffer).resolve cursor) : Act (Ring α) α Nat)
      before (fun value after => value = index ∧ after.buffer = before.buffer) fun _ _ => True := by
    refine Act.returns_holding (fun value buffer => value = index ∧ buffer = before.buffer) ?_
    simp only [ends_bind, Act.ends_buffer, resolved, liftM_answer, ends_pure, and_self]
  simp only [Sparing, insert, ends_bind]
  refine asked.mono ?_ fun _ _ => id
  rintro place ⟨buffer, ledger⟩ ⟨rfl, rfl⟩
  simp only [Act.ends_buffer, wellFormed.room_eq inside, liftM_ok, ends_pure]
  by_cases full : yields.roomAt before.buffer.capacity before.buffer.len place = 0
  · obtain ⟨cursor, issued, -⟩ := wellFormed.cursorFor_exists place
    simp only [if_pos full, ends_bind, Act.ends_ledger, Act.ends_buffer, issued, liftM_ok, ends_pure]
    have none : before.buffer.admits yields place 1 = 0 := by
      rw [admits, End.admitted, full, Nat.zero_min]
    exact Ends.anyhow (fun _ _ _ _ => ⟨fun _ => .inl none, fun _ => .of_registry rfl⟩)
      fun _ _ => trivial
  · have one : before.buffer.admits yields place 1 = 1 := by
      simp only [admits, End.admitted]
      omega
    have room : 1 ≤ yields.roomAt before.buffer.capacity before.buffer.len place := by omega
    rw [one]
    simp only [if_neg full, ends_bind]
    have short : before.buffer.len + 1 < Word.limit := by
      cases yields <;> simp only [End.roomAt] at full <;> omega
    have here : (Tracked.mk before.buffer ledger).buffer.WellFormed := wellFormed
    have made : Ends (makeRoom yields place 1) _ _ _ := makeRoom_trims here yields short
    refine (Act.returns_holding (fun gap buffer =>
      gap = yields.shifted place (before.buffer.len + 1 - before.buffer.capacity) ∧
      Trims yields (before.buffer.len + 1 - before.buffer.capacity) before.buffer buffer) made).mono
      ?_ fun _ _ => id
    rintro gap middle ⟨rfl, trims⟩
    have counted : [item].length = 1 := rfl
    have spliced := splicing_sparing wellFormed inside room Nat.one_ne_zero trims counted
    simp only [ends_bind] at spliced
    exact spliced

theorem insertCopies_sparing {n : Nat} (wellFormed : before.buffer.WellFormed)
    (resolved : before.buffer.resolve cursor = .ok index) (inside : index ≤ before.buffer.len) :
    Sparing (insertCopies yields cursor n model) before
      (before.buffer.KeptByInsertion yields index (before.buffer.admits yields index n)) := by
  refine Act.returns_consuming (fun _ after => ∀ place < before.buffer.len,
    (before.buffer.Retains after (before.buffer.place place) ↔
      before.buffer.KeptByInsertion yields index (before.buffer.admits yields index n) place)) ?_
  simp only [ends_bind, Act.ends_buffer, resolved, liftM_answer, ends_pure,
    wellFormed.room_eq inside, liftM_ok]
  exact insertEntries_sparing wellFormed inside (Nat.min_le_left _ _)
    (Nat.le_of_eq List.length_replicate.symm)

/-- A feed that holds what it claims fills the gap that is opened for it. -/
theorem insertFeed_sparing {feed : Feed α} (wellFormed : before.buffer.WellFormed)
    (truthful : feed.claimed = feed.entries.length)
    (resolved : before.buffer.resolve cursor = .ok index) (inside : index ≤ before.buffer.len) :
    Sparing (insertFeed yields cursor feed) before
      (before.buffer.KeptByInsertion yields index
        (before.buffer.admits yields index feed.claimed)) := by
  have fewer : before.buffer.admits yields index feed.claimed ≤ feed.entries.length := by
    rw [← truthful]
    exact Nat.min_le_right _ _
  have room : before.buffer.admits yields index feed.claimed ≤
      yields.roomAt before.buffer.capacity before.buffer.len index := Nat.min_le_left _ _
  simp only [Sparing, insertFeed, ends_bind, Act.ends_buffer, resolved, liftM_answer, ends_pure,
    wellFormed.room_eq inside, liftM_ok]
  cases yields with
  | back => exact insertEntries_sparing wellFormed inside room fewer
  | front =>
      simp only [ends_bind, Act.ends_ledger, Feed.skipSurplus_eq]
      refine (Entry.skip_returns _ feed.entries before.ledger).mono ?_ fun _ _ => id
      rintro left ledger rfl
      have enough : before.buffer.admits .front index feed.claimed ≤ (feed.entries.drop
          (feed.claimed - before.buffer.admits .front index feed.claimed)).length := by
        rw [List.length_drop, truthful]
        rw [truthful] at fewer
        omega
      have inserted : Sparing (insertEntries .front index _ _) ⟨before.buffer, ledger⟩ _ :=
        insertEntries_sparing wellFormed inside room enough
      exact inserted

section

variable {halt : Halt} {n : Nat} {feed : Feed α}

/-! A cursor that does not stand at a logical index is refused before anything else. -/

theorem insert_rejected (rejected : before.buffer.resolve cursor = .error halt) :
    Ends (insert yields cursor item) before (fun _ _ => False) fun _ _ => True := by
  have asked : Ends (holding item do liftM ((← Act.buffer).resolve cursor) : Act (Ring α) α Nat)
      before (fun _ _ => False) fun _ _ => True := by
    refine Act.returns_holding (fun _ _ => False) ?_
    simp only [ends_bind, Act.ends_buffer, rejected]
    trivial
  simp only [insert]
  rw [ends_bind]
  exact asked.mono (fun _ _ => False.elim) fun _ _ => id

theorem insertCopies_rejected (rejected : before.buffer.resolve cursor = .error halt) :
    Ends (insertCopies yields cursor n model) before (fun _ _ => False) fun _ _ => True := by
  refine Act.returns_consuming (fun _ _ => False) ?_
  simp only [ends_bind, Act.ends_buffer, rejected]
  trivial

theorem insertFeed_rejected (rejected : before.buffer.resolve cursor = .error halt) :
    Ends (insertFeed yields cursor feed) before (fun _ _ => False) fun _ _ => True := by
  simp only [insertFeed, ends_bind, Act.ends_buffer, rejected]
  trivial

theorem erase_rejected (rejected : before.buffer.resolve cursor = .error halt) :
    Ends (erase toward cursor) before (fun _ _ => False) fun _ _ => True := by
  simp only [erase, resolveElement, ends_bind, Act.ends_buffer, rejected]
  trivial

theorem eraseRange_rejected (rejected : before.buffer.resolveRange first last = .error halt) :
    Ends (eraseRange toward first last) before (fun _ _ => False) fun _ _ => True := by
  simp only [eraseRange, ends_bind, Act.ends_buffer, rejected]
  trivial

end

/-- Whether an element keeps its place when `count` elements from a logical index on are removed: it
must lie outside of them, on the side that does not move. -/
def KeptByRemoval (ring : Ring α) (toward : End) (index count place : Nat) : Prop :=
  count = 0 ∨
    match End.shorter index (ring.len - index - count) toward with
    | .front => index + count ≤ place
    | .back => place < index

/-- Evicting from a ring whose elements have changed places. -/
theorem moved_evict_retains {middle : Ring α} {ledger : Ledger α} (wellFormed : ring.WellFormed)
    (moves : ring.Moves middle) (valid : middle.WellFormed) (side : End) (count : Nat) :
    Ends (evict side count) ⟨middle, ledger⟩
      (fun _ final => ∀ place < ring.len, (ring.Retains final.buffer (ring.place place) ↔
        ring.Retains middle (ring.place place) ∧ side.Leaves ring.len count place))
      fun _ _ => True := by
  have evicted : Ends (evict side count) ⟨middle, ledger⟩ _ _ := evict_trims valid side count
  refine evicted.mono ?_ fun _ _ => id
  intro _ final trims place held
  have left := trims.retains place (by rw [moves.len]; exact held)
  rw [moves.place, moves.len] at left
  rw [retains_trans moves.ages trims.ages (wellFormed.slot_known held), left]

/-- What lies behind the removed elements stays when they are gathered in front. The elements before
them move `count` places on, and they come to lie where those that stay do not. -/
theorem gatherFront_retains {middle : Ring α} (wellFormed : ring.WellFormed)
    (bound : index + count ≤ ring.len)
    (shifted : ring.shiftBack count (List.range index).reverse = .ok middle) :
    ring.Moves middle ∧ ∀ place < ring.len,
      (ring.Retains middle (ring.place place) ∧ End.front.Leaves ring.len count place ↔
        index + count ≤ place) := by
  have fits := wellFormed.fits
  obtain ⟨moves, retains⟩ := shiftBack_retains wellFormed.sited (by
    intro other member
    simp only [List.mem_reverse, List.mem_range] at member
    omega) shifted
  refine ⟨moves, fun place held => ?_⟩
  rw [retains _ (place_lt wellFormed.sited (by omega))]
  simp only [List.mem_reverse, List.mem_range, End.Leaves]
  constructor
  · rintro ⟨apart, behind⟩
    by_contra doomed
    apply (apart (place - count) (by omega)).2
    rw [Nat.sub_add_cancel behind]
  · intro behind
    refine ⟨fun other below => ⟨fun same => ?_, fun same => ?_⟩, by omega⟩
    · have := place_injective (by omega) (by omega) same
      omega
    · have := place_injective (by omega) (by omega) same
      omega

/-- What lies before the removed elements stays when they are gathered at the back. -/
theorem gatherBack_retains {middle : Ring α} (wellFormed : ring.WellFormed)
    (bound : index + count ≤ ring.len)
    (shifted : ring.shiftFront count
      (List.range' (index + count) (ring.len - index - count)) = .ok middle) :
    ring.Moves middle ∧ ∀ place < ring.len,
      (ring.Retains middle (ring.place place) ∧ End.back.Leaves ring.len count place ↔
        place < index) := by
  have fits := wellFormed.fits
  obtain ⟨moves, retains⟩ := shiftFront_retains wellFormed.sited (by
    intro other member
    simp only [List.mem_range'_1] at member
    omega) shifted
  refine ⟨moves, fun place held => ?_⟩
  rw [retains _ (place_lt wellFormed.sited (by omega))]
  simp only [List.mem_range'_1, End.Leaves]
  constructor
  · rintro ⟨apart, left⟩
    by_contra behind
    apply (apart (place + count) (by omega)).2
    rw [Nat.add_sub_cancel]
  · intro ahead
    refine ⟨fun other between => ⟨fun same => ?_, fun same => ?_⟩, by omega⟩
    · have := place_injective (by omega) (by omega) same
      omega
    · have := place_injective (by omega) (by omega) same
      omega

theorem removeRange_sparing (wellFormed : before.buffer.WellFormed)
    (bound : index + count ≤ before.buffer.len) :
    Sparing (removeRange index count toward) before
      (before.buffer.KeptByRemoval toward index count) := by
  have word := before.buffer.capacity_lt_word
  have fits := wellFormed.fits
  by_cases nothing : count = 0
  · simp only [Sparing, removeRange, if_pos nothing, ends_pure]
    exact fun place _ => ⟨fun _ => .inl nothing, fun _ => .of_registry rfl⟩
  simp only [Sparing, removeRange, if_neg nothing, ends_bind, Act.ends_buffer, liftM_ok, ends_pure,
    Word.sub_eq (show index ≤ before.buffer.len by omega),
    Word.sub_eq (show count ≤ before.buffer.len - index by omega), KeptByRemoval,
    or_iff_right nothing]
  -- The removed elements are gathered at the nearer end first, then evicted from it.
  cases End.shorter index (before.buffer.len - index - count) toward with
  | front =>
      obtain ⟨middle, gathered, shifted, becomes, -⟩ := gatherFront_exists wellFormed bound
      obtain ⟨moves, retains⟩ := gatherFront_retains wellFormed bound shifted
      simp only [ends_bind]
      rw [Act.ends_alter shifted]
      refine (moved_evict_retains wellFormed moves becomes.wellFormed .front count).mono ?_
        fun _ _ => id
      exact fun _ final kept place held => (kept place held).trans (retains place held)
  | back =>
      obtain ⟨middle, gathered, shifted, becomes, -⟩ := gatherBack_exists wellFormed bound
      obtain ⟨moves, retains⟩ := gatherBack_retains wellFormed bound shifted
      simp only [ends_bind, Word.add_eq (show index + count < Word.limit by omega), liftM_ok,
        ends_pure]
      rw [Act.ends_alter shifted]
      refine (moved_evict_retains wellFormed moves becomes.wellFormed .back count).mono ?_
        fun _ _ => id
      exact fun _ final kept place held => (kept place held).trans (retains place held)

theorem erase_sparing (wellFormed : before.buffer.WellFormed)
    (resolved : before.buffer.resolve cursor = .ok index) (inside : index ≤ before.buffer.len) :
    Sparing (erase toward cursor) before (before.buffer.KeptByRemoval toward index 1) := by
  simp only [Sparing, erase, resolveElement, ends_bind, Act.ends_buffer, resolved, Query.ok_bind]
  by_cases final : index = before.buffer.len
  · rw [if_pos final]
    trivial
  · rw [if_neg final]
    have removed : Sparing (removeRange index 1 toward) before _ :=
      removeRange_sparing wellFormed (by omega)
    refine removed.mono ?_ fun _ _ => id
    intro _ after kept
    exact Act.returns_checked fun _ => kept

theorem eraseRange_sparing {source target : Nat} (wellFormed : before.buffer.WellFormed)
    (firstResolved : before.buffer.resolve first = .ok source)
    (lastResolved : before.buffer.resolve last = .ok target)
    (inside : target ≤ before.buffer.len) :
    Sparing (eraseRange toward first last) before
      (before.buffer.KeptByRemoval toward source (target - source)) := by
  simp only [Sparing, eraseRange, ends_bind, Act.ends_buffer]
  by_cases reversed : target < source
  · have refused : before.buffer.resolveRange first last =
        .error (.refused (.invalidRange source target)) := by
      simp only [resolveRange, firstResolved, lastResolved, Query.ok_bind, if_pos reversed]
      rfl
    rw [refused]
    trivial
  have range : before.buffer.resolveRange first last = .ok (source, target) := by
    simp only [resolveRange, firstResolved, lastResolved, Query.ok_bind, if_neg reversed]
    rfl
  simp only [range, liftM_answer, ends_pure]
  by_cases nothing : source = target
  · have kept : Sparing (do liftM ((← Act.buffer).cursorFor source)) before fun _ => True :=
      sparing_all (Act.returns_checked fun _ => rfl)
    simp only [if_pos nothing]
    exact kept.congr fun place _ => ⟨fun _ => .inl (by omega), fun _ => trivial⟩
  · have removed : Sparing (removeRange source (target - source) toward) before _ :=
      removeRange_sparing wellFormed (by omega)
    simp only [if_neg nothing, ends_bind, Word.sub_eq (show source ≤ target by omega), liftM_ok,
      ends_pure]
    refine removed.mono ?_ fun _ _ => id
    intro _ after kept
    exact Act.returns_checked fun _ => kept

end Ring

end RingDeque
