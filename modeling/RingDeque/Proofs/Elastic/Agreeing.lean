import RingDeque.Proofs.Elastic.Proportions
import RingDeque.Proofs.Elastic.Replacing
import RingDeque.Proofs.Ring.Assigning

/-!
Two ways to the same contents: an elastic ring made of a feed, and one that is assigned the feed.

The new ring starts with a block for what the feed claims to hold, the other one with a block for all
that the ceiling allows, and both settle on what the elements need. If the feed tells the truth about
its length they come to the same. But there may be no memory for as many elements as the ceiling
allows, and then only the new ring is had. Main statement: `ElasticRing.assignment_agrees`.
-/

namespace RingDeque

namespace Entry

theorem length_produced_of_smooth {α : Type} {outcomes : List (Except Interruption α)}
    (smooth : failure? outcomes = none) : (produced outcomes).length = outcomes.length := by
  induction outcomes with
  | nil => rfl
  | cons outcome rest ih =>
      cases outcome with
      | ok value => exact congrArg Nat.succ (ih smooth)
      | error cause => cases smooth

end Entry

theorem Item.length_numbered {α : Type} (first : Nat) (values : List α) :
    (numbered first values).length = values.length := by
  induction values generalizing first with
  | nil => rfl
  | cons value rest ih => exact congrArg Nat.succ (ih (first + 1))

theorem Ledger.length_yielded {α : Type} {ledger : Ledger α} {entries : List (Entry α)}
    (smooth : ledger.failure? entries = none) :
    (ledger.yielded entries).length = entries.length := by
  rw [yielded, Item.length_numbered, Entry.length_produced_of_smooth smooth, Entry.length_outcomes]

/-- A capacity that is not less than what there is to keep makes no difference. -/
theorem End.kept_min {β : Type} {items : List β} {capacity size : Nat}
    (fits : items.length ≤ size) : End.kept (min capacity size) items = End.kept capacity items := by
  have same : items.length - min capacity size = items.length - capacity := by omega
  rw [kept, kept, same]

namespace ElasticRing

open Effect

variable {α : Type} {elastic : ElasticRing α} {ledger left : Ledger α} {limits : Limits}
  {feed : Feed α} {items : List (Item α)}

/-- The size of the block that a new elastic ring starts with. -/
def firstSize (limits : Limits) (claimed : Nat) : Nat :=
  min limits.ceiling (max limits.floor claimed)

theorem WithinLimits.settle_holds (within : elastic.WithinLimits)
    (wellFormed : elastic.ring.WellFormed) (ledger : Ledger α) :
    ∃ after, settle ⟨elastic, ledger⟩ = .ok () after ∧ after.buffer.ring.WellFormed ∧
      Holds elastic.limits elastic.ring.toList after.buffer := by
  obtain ⟨fits, above, below⟩ := within.settledSize_bounds
  obtain ⟨size, after, ran, turns, limited, -, sized⟩ := settle_keeps wellFormed fits ledger
  have bounds : elastic.limits.floor ≤ size ∧ size ≤ elastic.limits.ceiling := by
    rcases sized with rfl | ⟨rfl, -⟩
    · exact ⟨above, below⟩
    · exact ⟨within.above_floor, within.below_ceiling⟩
  have room : WithinLimits ⟨after.buffer.ring, elastic.limits⟩ :=
    withinLimits_of_capacity turns.wellFormed (turns.sized ▸ bounds.1) (turns.sized ▸ bounds.2)
  rw [← limited] at room
  exact ⟨after, ran, turns.wellFormed, limited, room, turns.toList⟩

theorem ofFeed_eq {ring : Ring α} {final : Tracked (ElasticRing α) α}
    (made : Ring.ofSupply (firstSize limits feed.claimed) (.listed feed.entries) ledger =
      .ok ring left)
    (settled : settle ⟨⟨ring, limits⟩, left⟩ = .ok () final) :
    ofFeed limits feed ledger = .ok final.buffer final.ledger := by
  have same : ofFeed limits feed ledger =
      building { ring, limits } (·.ring.contents) settle left := bind_of_ok made
  rw [same]
  simp only [building, settled]

theorem ofFeed_holds (calm : ledger.brittle = none)
    (truthful : feed.claimed = feed.entries.length)
    (smooth : ledger.failure? feed.entries = none)
    (plenty : ¬ ledger.Scarce (firstSize limits feed.claimed)) :
    ∃ made left, ofFeed limits feed ledger = .ok made left ∧ made.ring.WellFormed ∧
      Holds limits (End.kept limits.ceiling (ledger.yielded feed.entries)) made := by
  have counted : (ledger.yielded feed.entries).length = feed.claimed := by
    rw [Ledger.length_yielded smooth, truthful]
  obtain ⟨ring, left, supplied, wellFormed, sized, listed, -⟩ :=
    (Ring.ofSupply_foretold calm plenty (.listed feed.entries)).1 smooth
  have within : WithinLimits ⟨ring, limits⟩ := by
    have ordered := limits.floor_le_ceiling
    simp only [firstSize] at sized
    exact withinLimits_of_capacity wellFormed (by omega) (by omega)
  obtain ⟨after, settled, valid, holds⟩ := within.settle_holds wellFormed left
  have same : ring.toList = End.kept limits.ceiling (ledger.yielded feed.entries) :=
    listed.trans (End.kept_min (counted.trans_le (Nat.le_max_right _ _)))
  rw [same] at holds
  exact ⟨_, _, ofFeed_eq supplied settled, valid, holds⟩

theorem ofFeed_returned (calm : ledger.brittle = none)
    (returned : ofFeed limits feed ledger = .ok elastic left) :
    ledger.failure? feed.entries = none ∧ ¬ ledger.Scarce (firstSize limits feed.claimed) := by
  have plenty : ¬ ledger.Scarce (firstSize limits feed.claimed) := by
    intro scarce
    have refused : ofFeed limits feed ledger = _ :=
      bind_of_error (Ring.ofSupply_refused scarce (.listed feed.entries))
    cases refused.symm.trans returned
  refine ⟨?_, plenty⟩
  cases failure : ledger.failure? feed.entries with
  | none => rfl
  | some cause =>
      obtain ⟨left, stopped, -⟩ :=
        (Ring.ofSupply_foretold calm plenty (.listed feed.entries)).2 cause failure
      have interrupted : ofFeed limits feed ledger = _ := bind_of_error stopped
      cases interrupted.symm.trans returned

theorem assignFeedUnder_holds (wellFormed : elastic.ring.WellFormed) (calm : ledger.brittle = none)
    (smooth : ledger.failure? feed.entries = none)
    (granted : limits.ceiling = elastic.physical ∨ ¬ ledger.Scarce limits.ceiling) :
    ∃ after, assignFeedUnder limits feed ⟨elastic, ledger⟩ = .ok () after ∧
      after.buffer.ring.WellFormed ∧
      Holds limits (End.kept limits.ceiling (ledger.yielded feed.entries)) after.buffer := by
  have assigns :=
    Ring.replaceContents_assigns wellFormed calm limits.ceiling (.listed feed.entries)
  -- The ring itself is filled, in the block that is there or in another one.
  obtain ⟨middle, filled, renews⟩ : ∃ middle,
      Ring.assignFeedWithin limits.ceiling feed ⟨elastic.ring, ledger⟩ = .ok () middle ∧
      Ring.Renews limits.ceiling (ledger.yielded feed.entries) [] ⟨elastic.ring, ledger⟩ middle := by
    by_cases same : limits.ceiling = elastic.ring.capacity
    · have refilled := assigns.refilled same
      rw [Supply.entries, smooth] at refilled
      exact refilled
    · exact assigns.exchanged same (granted.resolve_left same) smooth
  have within : WithinLimits ⟨middle.buffer, limits⟩ :=
    withinLimits_of_capacity renews.wellFormed (renews.sized ▸ limits.floor_le_ceiling)
      (Nat.le_of_eq renews.sized)
  obtain ⟨after, settled, valid, holds⟩ := within.settle_holds renews.wellFormed middle.ledger
  rw [renews.toList] at holds
  refine ⟨after, ?_, valid, holds⟩
  apply eq_ok_of_ends
  simp only [assignFeedUnder, setLimitsOnly, ends_bind, ends_onRing, Act.ends_buffer,
    Act.ends_become]
  rw [ends_of_ok filled, ends_of_ok settled]
  exact ⟨trivial, rfl⟩

theorem assignFeedUnder_refused (wellFormed : elastic.ring.WellFormed)
    (calm : ledger.brittle = none) (other : limits.ceiling ≠ elastic.physical)
    (scarce : ledger.Scarce limits.ceiling) (feed : Feed α) :
    assignFeedUnder limits feed ⟨elastic, ledger⟩ =
      .error (.refused (.allocationFailed limits.ceiling)) ⟨elastic, ledger⟩ := by
  have assigns :=
    Ring.replaceContents_assigns wellFormed calm limits.ceiling (.listed feed.entries)
  have refused : Ring.assignFeedWithin limits.ceiling feed ⟨elastic.ring, ledger⟩ = _ :=
    assigns.refused other scarce
  apply eq_error_of_ends
  simp only [assignFeedUnder, ends_bind, ends_onRing]
  rw [ends_of_error refused]
  exact ⟨rfl, rfl⟩

/-- An elastic ring is made of a feed exactly if the feed does not fail and there is memory for what
it holds. Then every other elastic ring can be assigned the feed too, unless this takes a block at
the ceiling for which there is no memory, and both hold the last elements that the ceiling allows.
-/
theorem assignment_agrees (wellFormed : elastic.ring.WellFormed) (calm : ledger.brittle = none)
    (truthful : feed.claimed = feed.entries.length) (limits : Limits) :
    ((∃ made left, ofFeed limits feed ledger = .ok made left) ↔
      ledger.failure? feed.entries = none ∧ ¬ ledger.Scarce (firstSize limits feed.claimed)) ∧
    ∀ made left, ofFeed limits feed ledger = .ok made left →
      made.ring.WellFormed ∧
      Holds limits (End.kept limits.ceiling (ledger.yielded feed.entries)) made ∧
      (limits.ceiling = elastic.physical ∨ ¬ ledger.Scarce limits.ceiling → ∃ after,
        assignFeedUnder limits feed ⟨elastic, ledger⟩ = .ok () after ∧
        after.buffer.ring.WellFormed ∧
        Holds limits (End.kept limits.ceiling (ledger.yielded feed.entries)) after.buffer) ∧
      (limits.ceiling ≠ elastic.physical → ledger.Scarce limits.ceiling →
        assignFeedUnder limits feed ⟨elastic, ledger⟩ =
          .error (.refused (.allocationFailed limits.ceiling)) ⟨elastic, ledger⟩) := by
  constructor
  · constructor
    · intro possible
      obtain ⟨made, left, returned⟩ := possible
      exact ofFeed_returned calm returned
    · intro possible
      obtain ⟨made, left, returned, -⟩ := ofFeed_holds calm truthful possible.1 possible.2
      exact ⟨made, left, returned⟩
  · intro made left returned
    obtain ⟨smooth, plenty⟩ := ofFeed_returned calm returned
    obtain ⟨_, _, again, valid, holds⟩ := ofFeed_holds calm truthful smooth plenty
    cases again.symm.trans returned
    exact ⟨valid, holds, assignFeedUnder_holds wellFormed calm smooth,
      fun other scarce => assignFeedUnder_refused wellFormed calm other scarce feed⟩

/-- The last two of three elements, in a new ring and in one that had a block of four slots. -/
theorem assignment_agrees_turned :
    let ledger : Ledger Nat := { Ledger.blank (.below 16) with created := 4 }
    let limits : Limits := ⟨2, 1, by decide⟩
    let feed := Feed.ofValues [50, 60, 70]
    (∃ made left, ofFeed limits feed ledger = .ok made left ∧ made.limits = limits ∧
      made.ring.toList = [⟨5, 60⟩, ⟨6, 70⟩]) ∧
    ∃ after, assignFeedUnder limits feed ⟨⟨Ring.turned, ⟨10, 0, by decide⟩⟩, ledger⟩ = .ok () after ∧
      after.buffer.limits = limits ∧ after.buffer.ring.toList = [⟨5, 60⟩, ⟨6, 70⟩] := by
  intro ledger limits feed
  -- As long as the ring is a variable, no step of the proof runs the operations on it.
  obtain ⟨ring, same⟩ : ∃ ring, ring = Ring.turned := ⟨_, rfl⟩
  have wellFormed : ring.WellFormed := same ▸ Ring.turned_wellFormed
  have plenty : ∀ size, size ≤ 2 → ¬ ledger.Scarce size := by
    intro size few scarce
    have bounds := (Ledger.scarce_below rfl).mp scarce
    simp only [Stamps.limit] at bounds
    omega
  have whole : (ElasticRing.mk ring ⟨10, 0, by decide⟩).ring.WellFormed := wellFormed
  obtain ⟨possible, agrees⟩ := assignment_agrees whole
    (show ledger.brittle = none from rfl) (show feed.claimed = feed.entries.length from rfl) limits
  obtain ⟨made, left, returned⟩ := possible.mpr ⟨rfl, plenty _ (Nat.min_le_left _ _)⟩
  obtain ⟨-, holds, assigned, -⟩ := agrees made left returned
  obtain ⟨after, ran, -, held⟩ := assigned (.inr (plenty _ (Nat.le_refl 2)))
  rw [← same]
  exact ⟨⟨made, left, returned, holds.limited, holds.toList⟩, after, ran, held.limited, held.toList⟩

/-- With a ceiling that no block can reach, a ring for one element is made, but no ring can be
assigned that element. -/
theorem unneeded_block_refused :
    let ledger : Ledger Nat := { Ledger.blank Ledger.ordinaryMemory with created := 4 }
    let limits := Limits.ofCeiling 0x1000000000000000
    let feed := Feed.ofValues [50]
    (∃ made left, ofFeed limits feed ledger = .ok made left ∧ made.ring.toList = [⟨4, 50⟩]) ∧
    assignFeedUnder limits feed ⟨⟨Ring.turned, ⟨10, 0, by decide⟩⟩, ledger⟩ =
      .error (.refused (.allocationFailed 0x1000000000000000))
        ⟨⟨Ring.turned, ⟨10, 0, by decide⟩⟩, ledger⟩ := by
  intro ledger limits feed
  have calm : ledger.brittle = none := rfl
  obtain ⟨ring, same⟩ : ∃ ring, ring = Ring.turned := ⟨_, rfl⟩
  have wellFormed : ring.WellFormed := same ▸ Ring.turned_wellFormed
  have size : ring.capacity = 4 := by rw [same]; rfl
  rw [← same]
  constructor
  · obtain ⟨made, left, returned, -, holds⟩ :
        ∃ made left, ofFeed limits feed ledger = .ok made left ∧ _ :=
      ofFeed_holds calm rfl rfl (by decide)
    have fits : (ledger.yielded feed.entries).length ≤ limits.ceiling := by decide
    exact ⟨made, left, returned, holds.toList.trans (End.kept_of_le fits)⟩
  · have whole : (ElasticRing.mk ring ⟨10, 0, by decide⟩).ring.WellFormed := wellFormed
    apply assignFeedUnder_refused whole calm
    · simp only [physical, size]
      decide
    · decide

end ElasticRing

end RingDeque
