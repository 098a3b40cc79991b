import RingDeque.Proofs.Destruction
import RingDeque.Proofs.Ring.Queueing
import RingDeque.Proofs.Ring.Trimming

/-!
Assignment: all contents replaced by those of a supply.

A block of the right size is filled again where it is, so a supply that fails leaves what it yielded
up to then. Otherwise the new contents are complete before the ring takes them over, and a failure
leaves the ring as it was. Both ways come to the same if nothing fails. Main statement:
`Ring.assignment_replaces`.
-/

namespace RingDeque

open Effect

/-- The end of an operation that returns unless there is a cause for its interruption. -/
def Effect.ended {σ : Type} (cause? : Option Interruption) (after : σ) :
    EStateM.Result Halt σ Unit :=
  match cause? with
  | none => .ok () after
  | some cause => .error (.interrupted cause) after

namespace End

variable {β : Type} {items rest : List β} {capacity : Nat}

/-- The entries that `kept` leaves out. -/
def excess (capacity : Nat) (items : List β) : List β :=
  End.front.trimmed (items.length - capacity) items

theorem excess_of_le (fits : items.length ≤ capacity) : excess capacity items = [] := by
  rw [excess, Nat.sub_eq_zero_of_le fits, trimmed_zero]

theorem excess_append :
    excess capacity (items ++ rest) =
      excess capacity items ++ excess capacity (kept capacity items ++ rest) := by
  by_cases long : capacity ≤ items.length
  · have surplus : items.length + rest.length - capacity =
        items.length - capacity + rest.length := by omega
    have left : items.length - (items.length - capacity) + rest.length - capacity =
        rest.length := by omega
    have few : items.length - capacity ≤ items.length := Nat.sub_le _ _
    simp only [excess, trimmed, kept, trim, List.length_append, List.length_drop, surplus, left,
      List.take_add]
    rw [List.take_append_of_le_length few, List.drop_append_of_le_length few]
  · rw [excess_of_le (show items.length ≤ capacity by omega), List.nil_append,
      kept_of_le (show items.length ≤ capacity by omega)]

theorem perm_excess_kept (capacity : Nat) (items : List β) :
    items.Perm (excess capacity items ++ kept capacity items) :=
  End.front.perm_trimmed_trim _ items

/-- What pushing at the back hands out is what does not fit. -/
theorem excess_pushed (fits : items.length ≤ capacity) (item : β) :
    excess capacity (items ++ [item]) = (End.back.pushed capacity items item).1.toList := by
  simp only [excess, pushed, opposite, trimmed, List.length_append, List.length_singleton]
  by_cases none : capacity = 0
  · have nothing : items = [] := List.eq_nil_of_length_eq_zero (by omega)
    rw [if_pos none, none, nothing]
    rfl
  rw [if_neg none]
  by_cases room : items.length < capacity
  · rw [if_pos room, Nat.sub_eq_zero_of_le (by omega), List.take_zero]
    rfl
  · have surplus : items.length + 1 - capacity = 1 := by omega
    rw [if_neg room, surplus, List.take_append_of_le_length (by omega), List.take_one]
    rfl

end End

/-- New elements with these values, numbered from `first` on. -/
def Item.numbered (first : Nat) : List α → List (Item α)
  | [] => []
  | value :: rest => ⟨first, value⟩ :: numbered (first + 1) rest

namespace Ledger

variable {α : Type} {ledger middle : Ledger α} {entry : Entry α} {value : α}
  {cause : Interruption}

/-- The elements that entries yield up to the first failure. -/
def yielded (ledger : Ledger α) (entries : List (Entry α)) : List (Item α) :=
  Item.numbered ledger.created (Entry.produced (Entry.outcomes ledger.copiesLeft entries))

/-- The cause of the first failure, if entries fail. -/
def failure? (ledger : Ledger α) (entries : List (Entry α)) : Option Interruption :=
  Entry.failure? (Entry.outcomes ledger.copiesLeft entries)

theorem yielded_cons (rest : List (Entry α))
    (yields : entry.outcome ledger.copiesLeft = .ok value)
    (created : middle.created = ledger.created + 1)
    (copiesLeft : middle.copiesLeft = ledger.copiesLeft.map (· - entry.cost)) :
    ledger.yielded (entry :: rest) = ⟨ledger.created, value⟩ :: middle.yielded rest ∧
      ledger.failure? (entry :: rest) = middle.failure? rest := by
  simp only [yielded, failure?, Entry.outcomes, yields, Entry.produced, Entry.failure?,
    Item.numbered, created, copiesLeft, and_self]

theorem yielded_broken (rest : List (Entry α))
    (fails : entry.outcome ledger.copiesLeft = .error cause) :
    ledger.yielded (entry :: rest) = [] ∧ ledger.failure? (entry :: rest) = some cause := by
  simp only [yielded, failure?, Entry.outcomes, fails, Entry.produced, Entry.failure?,
    Item.numbered, and_self]

end Ledger

namespace Ring

variable {α : Type} {ring : Ring α} {ledger : Ledger α} {before middle after : Tracked (Ring α) α}
  {new further : List (Item α)} {capacity : Nat} {entries : List (Entry α)}
  {act : Act (Ring α) α Unit}

/-- New elements came in after the last one, and those that had to give way were destroyed. -/
structure TakesIn (new : List (Item α)) (before after : Tracked (Ring α) α) : Prop where
  becomes : before.buffer.Becomes after.buffer
    (End.kept before.buffer.capacity (before.buffer.toList ++ new))
  records : before.ledger.Records new.length
    (End.excess before.buffer.capacity (before.buffer.toList ++ new)) after.ledger

theorem TakesIn.nothing (wellFormed : before.buffer.WellFormed)
    (buffer : after.buffer = before.buffer) (records : before.ledger.Records 0 [] after.ledger) :
    TakesIn [] before after := by
  have fits : before.buffer.toList.length ≤ before.buffer.capacity :=
    wellFormed.length_toList ▸ wellFormed.fits
  constructor
  · rw [buffer, List.append_nil, End.kept_of_le fits]
    exact .refl wellFormed
  · rw [List.append_nil, End.excess_of_le fits]
    exact records

theorem TakesIn.trans (first : TakesIn new before middle) (second : TakesIn further middle after) :
    TakesIn (new ++ further) before after := by
  have becomes := second.becomes
  have records := first.records.trans second.records
  rw [first.becomes.toList, first.becomes.capacity, End.kept_append] at becomes
  rw [first.becomes.toList, first.becomes.capacity, ← End.excess_append] at records
  rw [List.append_assoc] at becomes records
  constructor
  · exact first.becomes.trans becomes
  · rw [List.length_append]
    exact records

theorem takeIn_foretold (wellFormed : ring.WellFormed) (calm : ledger.brittle = none)
    {entry : Entry α} {value : α} (yields : entry.outcome ledger.copiesLeft = .ok value) :
    ∃ after, takeIn entry ⟨ring, ledger⟩ = .ok () after ∧
      TakesIn [⟨ledger.created, value⟩] ⟨ring, ledger⟩ after ∧
      after.ledger.copiesLeft = ledger.copiesLeft.map (· - entry.cost) := by
  have fits : ring.toList.length ≤ ring.capacity := wellFormed.length_toList ▸ wellFormed.fits
  obtain ⟨made, ran, records, left⟩ := Entry.produce_of_ok yields
  obtain ⟨pushed, stepped, becomes⟩ := push_exists wellFormed .back ⟨ledger.created, value⟩
  have gives := End.excess_pushed fits (⟨ledger.created, value⟩ : Item α)
  rw [End.pushed_back_eq fits] at becomes
  have ends : Ends (takeIn entry) ⟨ring, ledger⟩
      (fun _ after => TakesIn [⟨ledger.created, value⟩] ⟨ring, ledger⟩ after ∧
        after.ledger.copiesLeft = ledger.copiesLeft.map (· - entry.cost)) fun _ _ => False := by
    simp only [takeIn, ends_bind, Act.ends_ledger]
    rw [ends_of_ok ran, Act.ends_update_mk stepped]
    cases evicted : (End.back.pushed ring.capacity ring.toList ⟨ledger.created, value⟩).1 with
    | none =>
        rw [evicted] at gives
        exact ⟨⟨becomes, gives ▸ records⟩, left⟩
    | some old =>
        rw [evicted] at gives
        have lasts : ¬ made.FailsOn old := Ledger.not_failsOn (records.brittle.trans calm)
        simp only [Act.ends_ledger]
        rw [ends_of_ok (Ledger.destroy_of_lasting lasts)]
        exact ⟨⟨becomes, gives ▸ records.trans (.discarding [old])⟩, left⟩
  obtain ⟨_, after, reached, taken⟩ := ends.returned fun _ _ => id
  exact ⟨after, reached, taken⟩

/-- A supply decides how its extension of a ring ends, and both ends leave the same: what it yielded
is in the ring, as far as it fits. -/
theorem extend_foretold (wellFormed : ring.WellFormed) (ledger : Ledger α)
    (calm : ledger.brittle = none) (entries : List (Entry α)) :
    ∃ after, extend entries ⟨ring, ledger⟩ = ended (ledger.failure? entries) after ∧
      TakesIn (ledger.yielded entries) ⟨ring, ledger⟩ after := by
  induction entries generalizing ring ledger with
  | nil => exact ⟨_, rfl, .nothing wellFormed rfl (.refl ledger)⟩
  | cons entry rest ih =>
      rw [extend_cons]
      cases outcome : entry.outcome ledger.copiesLeft with
      | ok value =>
          obtain ⟨middle, first, taken, left⟩ := takeIn_foretold wellFormed calm outcome
          obtain ⟨after, ran, further⟩ :=
            ih taken.becomes.wellFormed middle.ledger (taken.records.brittle.trans calm)
          obtain ⟨new, failing⟩ :=
            Ledger.yielded_cons rest outcome taken.records.created left
          rw [bind_of_ok first, new, failing]
          exact ⟨after, ran, taken.trans further⟩
      | error cause =>
          obtain ⟨made, ran, records⟩ := Entry.produce_of_error outcome
          have stopped : takeIn entry ⟨ring, ledger⟩ =
              .error (.interrupted cause) ⟨ring, made⟩ := by
            apply eq_error_of_ends
            simp only [takeIn, ends_bind, Act.ends_ledger]
            rw [ends_of_error ran]
            exact ⟨rfl, rfl⟩
          obtain ⟨new, failing⟩ := Ledger.yielded_broken rest outcome
          rw [bind_of_error stopped, new, failing]
          exact ⟨_, rfl, .nothing wellFormed rfl records⟩

theorem ofSupply_foretold (calm : ledger.brittle = none) (plenty : ¬ ledger.Scarce capacity)
    (supply : Supply α) :
    (ledger.failure? supply.entries = none → ∃ fresh left,
      ofSupply capacity supply ledger = .ok fresh left ∧ fresh.WellFormed ∧
      fresh.capacity = capacity ∧
      fresh.toList = End.kept capacity (ledger.yielded supply.entries) ∧
      ledger.Records (ledger.yielded supply.entries).length
        (End.excess capacity (ledger.yielded supply.entries)) left) ∧
    ∀ cause, ledger.failure? supply.entries = some cause → ∃ left,
      ofSupply capacity supply ledger = .error (.interrupted cause) left ∧
      ledger.Records (ledger.yielded supply.entries).length
        (ledger.yielded supply.entries) left := by
  obtain ⟨ring, _, made, -, wellFormed, rfl, listed, rfl⟩ :=
    (new_exactly capacity ledger).returned fun _ _ stopped => plenty stopped.2.1
  -- The new ring has an identity, and the entries yield the same as before it had one.
  obtain ⟨after, ran, taken⟩ : ∃ after,
      extend supply.entries ⟨ring, { ledger with rings := ledger.rings + 1 }⟩ =
        ended (ledger.failure? supply.entries) after ∧
      TakesIn (ledger.yielded supply.entries)
        ⟨ring, { ledger with rings := ledger.rings + 1 }⟩ after :=
    extend_foretold wellFormed { ledger with rings := ledger.rings + 1 } calm supply.entries
  have becomes := taken.becomes
  have records : ledger.Records _ _ after.ledger :=
    ⟨taken.records.created, taken.records.destroyed, taken.records.brittle⟩
  rw [listed, List.nil_append] at becomes records
  rw [ofSupply, bind_of_ok made]
  constructor
  · intro smooth
    rw [smooth] at ran
    refine ⟨after.buffer, after.ledger, ?_, becomes.wellFormed, becomes.capacity, becomes.toList,
      records⟩
    simp only [building, ran, ended]
  · intro cause failed
    rw [failed] at ran
    have whole := (records.trans (.discarding after.buffer.toList)).of_perm
      (becomes.toList ▸ (End.perm_excess_kept ring.capacity _).symm)
    refine ⟨_, ?_, whole⟩
    simp only [building, ran, ended, becomes.wellFormed.contents_eq]
    rfl

theorem ofSupply_refused (scarce : ledger.Scarce capacity) (supply : Supply α) :
    ofSupply capacity supply ledger = .error (.refused (.allocationFailed capacity)) ledger := by
  obtain ⟨halt, left, ran, rfl, -, rfl⟩ :=
    (new_exactly capacity ledger).halted fun _ _ ended => ended.1 scarce
  exact bind_of_error ran

/-- What an assignment leaves of the elements `new` in a block of `capacity` slots, and what it
destroys: the old elements, those new ones that do not fit, and those `spent` on it. -/
structure Renews (capacity : Nat) (new spent : List (Item α)) (before after : Tracked (Ring α) α) :
    Prop where
  wellFormed : after.buffer.WellFormed
  sized : after.buffer.capacity = capacity
  toList : after.buffer.toList = End.kept capacity new
  void : ∀ cursor, before.buffer.Vouches cursor → after.buffer.registry.accepts cursor = false
  records : before.ledger.Records new.length
    (spent ++ (before.buffer.toList ++ End.excess capacity new)) after.ledger

/-- An assignment of what entries yield, in a block of `capacity` slots. -/
structure Assigns (capacity : Nat) (entries : List (Entry α)) (spent : List (Item α))
    (act : Act (Ring α) α Unit) (before : Tracked (Ring α) α) : Prop where
  /-- Whether the entries fail or not, a block of the right size is filled again. -/
  refilled : capacity = before.buffer.capacity → ∃ after,
    act before = ended (before.ledger.failure? entries) after ∧
    Renews capacity (before.ledger.yielded entries) spent before after
  exchanged : capacity ≠ before.buffer.capacity → ¬ before.ledger.Scarce capacity →
    before.ledger.failure? entries = none → ∃ after, act before = .ok () after ∧
      Renews capacity (before.ledger.yielded entries) spent before after
  /-- If the entries fail while another block is filled, the ring is the one it was. -/
  spared : capacity ≠ before.buffer.capacity → ¬ before.ledger.Scarce capacity →
    ∀ cause, before.ledger.failure? entries = some cause → ∃ left,
      act before = .error (.interrupted cause) ⟨before.buffer, left⟩ ∧
      before.ledger.Records (before.ledger.yielded entries).length
        (spent ++ before.ledger.yielded entries) left
  refused : capacity ≠ before.buffer.capacity → before.ledger.Scarce capacity →
    act before = .error (.refused (.allocationFailed capacity))
      ⟨before.buffer, before.ledger.discarding spent⟩

theorem refill_renews (wellFormed : ring.WellFormed) (calm : ledger.brittle = none)
    (entries : List (Entry α)) :
    ∃ after, (clear >>= fun _ => extend entries) ⟨ring, ledger⟩ =
        ended (ledger.failure? entries) after ∧
      Renews ring.capacity (ledger.yielded entries) [] ⟨ring, ledger⟩ after := by
  obtain ⟨emptied, valid, sized, listed, registry, destroys⟩ := clear_empties wellFormed
  have cleared := (destroys ledger).returned fun _ _ => Ledger.not_failsOn calm
  obtain ⟨after, ran, taken⟩ : ∃ after,
      extend entries ⟨emptied, ledger.discarding ring.toList⟩ =
        ended (ledger.failure? entries) after ∧
      TakesIn (ledger.yielded entries) ⟨emptied, ledger.discarding ring.toList⟩ after :=
    extend_foretold valid (ledger.discarding ring.toList) calm entries
  have becomes := taken.becomes
  have records := (Ledger.Records.discarding ring.toList).trans taken.records
  simp only [listed, sized, List.nil_append, Nat.zero_add] at becomes records
  refine ⟨after, (bind_of_ok cleared).trans ran, becomes.wellFormed,
    becomes.capacity.trans sized, becomes.toList, ?_, records⟩
  intro cursor vouched
  have generation := becomes.ages.generation
  have endGeneration := becomes.ages.endGeneration
  have owner := becomes.ages.owner
  rw [registry] at owner generation endGeneration
  exact Vouches.rejected vouched owner (fun _ => generation) fun _ => endGeneration

theorem replaceContents_assigns (wellFormed : ring.WellFormed) (calm : ledger.brittle = none)
    (capacity : Nat) (supply : Supply α) :
    Assigns capacity supply.entries [] (replaceContents capacity supply) ⟨ring, ledger⟩ where
  refilled := by
    intro same
    cases same
    have refilling : replaceContents ring.capacity supply ⟨ring, ledger⟩ =
        (clear >>= fun _ => extend supply.entries) ⟨ring, ledger⟩ := by
      rw [replaceContents, bind_of_ok (show Act.buffer _ = .ok ring ⟨ring, ledger⟩ from rfl),
        if_pos rfl]
    rw [refilling]
    exact refill_renews wellFormed calm supply.entries
  exchanged := by
    intro other plenty smooth
    obtain ⟨fresh, left, made, valid, rfl, listed, records⟩ :=
      (ofSupply_foretold calm plenty supply).1 smooth
    have turned := adopt_turnsInto ring False valid
    have gone : ∀ events, Ledger.destroyRun ring.toList { left with events } =
        .ok () (Ledger.discarding { left with events } ring.toList) := by
      intro events
      apply Ledger.destroyRun_of_lasting
      exact fun _ _ => Ledger.not_failsOn (records.brittle.trans calm)
    have ends : Ends (replaceContents fresh.capacity supply) ⟨ring, ledger⟩
        (fun _ after => after.buffer = (ring.adopt fresh).voided ∧
          left.Records 0 ring.toList after.ledger) fun _ _ => False := by
      simp only [replaceContents, ends_bind, Act.ends_buffer, if_neg other, Act.ends_ledger]
      rw [ends_of_ok made]
      simp only [Act.ends_report, Act.ends_become, wellFormed.destroy_eq]
      rw [ends_of_ok (gone _)]
      exact ⟨trivial, rfl, (List.reverse_perm _).append_right _, rfl⟩
    obtain ⟨_, after, ran, same, dropped⟩ := ends.returned fun _ _ => id
    rw [← same] at turned
    refine ⟨after, ran, turned.wellFormed, turned.sized, turned.toList.trans listed, ?_,
      (records.trans dropped).of_perm List.perm_append_comm⟩
    intro cursor vouched
    have owner : after.buffer.registry.owner = ring.registry.owner := turned.ages.owner
    rw [same] at owner ⊢
    exact Vouches.rejected vouched owner (fun _ => Nat.lt_succ_self _) fun _ => Nat.lt_succ_self _
  spared := by
    intro other plenty cause failed
    obtain ⟨left, ran, records⟩ := (ofSupply_foretold calm plenty supply).2 cause failed
    refine ⟨left, ?_, records⟩
    apply eq_error_of_ends
    simp only [replaceContents, ends_bind, Act.ends_buffer, if_neg other, Act.ends_ledger]
    rw [ends_of_error ran]
    exact ⟨rfl, rfl⟩
  refused := by
    intro other scarce
    apply eq_error_of_ends
    simp only [replaceContents, ends_bind, Act.ends_buffer, if_neg other, Act.ends_ledger]
    rw [ends_of_error (ofSupply_refused scarce supply)]
    exact ⟨rfl, rfl⟩

theorem consuming_of_ended {cause? : Option Interruption} (ran : act before = ended cause? after)
    (calm : after.ledger.brittle = none) (item : Item α) :
    consuming item act before = ended cause? ⟨after.buffer, after.ledger.discarding [item]⟩ := by
  cases cause? with
  | none => exact Act.consuming_of_ok ran (Ledger.not_failsOn calm)
  | some cause =>
      apply eq_error_of_ends
      simp only [consuming, holding, ends_bind, ends_tryCatch, ends_of_error ran, Act.ends_ledger,
        Ledger.discard, ends_modify, ends_throw, and_self]

theorem Renews.spending (renews : Renews capacity new [] before after) (item : Item α) :
    Renews capacity new [item] before ⟨after.buffer, after.ledger.discarding [item]⟩ :=
  ⟨renews.wellFormed, renews.sized, renews.toList, renews.void,
    (renews.records.trans (.discarding [item])).of_perm List.perm_append_comm⟩

theorem Assigns.congr {other : Act (Ring α) α Unit} {spent : List (Item α)}
    (assigns : Assigns capacity entries spent act before) (same : other before = act before) :
    Assigns capacity entries spent other before := by
  constructor
  · rw [same]
    exact assigns.refilled
  · rw [same]
    exact assigns.exchanged
  · rw [same]
    exact assigns.spared
  · rw [same]
    exact assigns.refused

theorem Assigns.consuming (assigns : Assigns capacity entries [] act before)
    (calm : before.ledger.brittle = none) (item : Item α) :
    Assigns capacity entries [item] (consuming item act) before where
  refilled := by
    intro same
    obtain ⟨after, ran, renews⟩ := assigns.refilled same
    have left := renews.records.brittle.trans calm
    exact ⟨_, consuming_of_ended ran left item, renews.spending item⟩
  exchanged := by
    intro other plenty smooth
    obtain ⟨after, ran, renews⟩ := assigns.exchanged other plenty smooth
    have left := renews.records.brittle.trans calm
    have returned : act before = ended none after := ran
    exact ⟨_, consuming_of_ended returned left item, renews.spending item⟩
  spared := by
    intro other plenty cause failed
    obtain ⟨left, ran, records⟩ := assigns.spared other plenty cause failed
    have stopped : act before = ended (some cause) ⟨before.buffer, left⟩ := ran
    exact ⟨_, consuming_of_ended stopped (records.brittle.trans calm) item,
      (records.trans (.discarding [item])).of_perm List.perm_append_comm⟩
  refused := by
    intro other scarce
    have lasts : ¬ before.ledger.FailsOn item := Ledger.not_failsOn calm
    have gone := Ledger.destroy_of_lasting lasts
    apply eq_error_of_ends
    simp only [RingDeque.consuming, holding, ends_bind, ends_tryCatch,
      ends_of_error (assigns.refused other scarce), Act.ends_ledger]
    exact (ends_of_ok gone).mpr ⟨rfl, rfl⟩

/-- An assignment replaces the contents by what its supply yields, as far as it fits, and destroys
what was there. A failure leaves what was yielded up to it in a block that is filled again, and all
of the old contents if there was to be another block. -/
theorem assignment_replaces (wellFormed : ring.WellFormed) (calm : ledger.brittle = none) :
    (∀ n (model : Item α), Assigns (max ring.capacity n) (List.replicate n (.copyOf model)) [model]
      (assign n model) ⟨ring, ledger⟩) ∧
    (∀ capacity n (model : Item α), n ≤ capacity →
      Assigns capacity (List.replicate n (.copyOf model)) [model]
        (assignWithin capacity n model) ⟨ring, ledger⟩) ∧
    (∀ feed : Feed α, Assigns (max ring.capacity feed.claimed) feed.entries []
      (assignFeed feed) ⟨ring, ledger⟩) ∧
    ∀ capacity (feed : Feed α), Assigns capacity feed.entries []
      (assignFeedWithin capacity feed) ⟨ring, ledger⟩ := by
  constructor
  · intro n model
    have replaced : Assigns (max ring.capacity n) (List.replicate n (.copyOf model)) []
        (do replaceContents (max (← Act.buffer).capacity n) (.copies model n)) ⟨ring, ledger⟩ :=
      (replaceContents_assigns wellFormed calm _ (.copies model n)).congr rfl
    exact replaced.consuming calm model
  constructor
  · intro capacity n model fits
    have replaced := replaceContents_assigns wellFormed calm capacity (.copies model n)
    have same : assignWithin capacity n model =
        consuming model (replaceContents capacity (.copies model n)) := by
      simp only [assignWithin, if_neg (Nat.not_lt_of_le fits)]
    rw [same]
    exact replaced.consuming calm model
  constructor
  · intro feed
    exact (replaceContents_assigns wellFormed calm _ (.listed feed.entries)).congr rfl
  · intro capacity feed
    exact replaceContents_assigns wellFormed calm capacity (.listed feed.entries)

/-- The second of two copies fails, in the block that is there and in a larger one; the last two of
three elements are kept in a smaller block; and there is no room for as many as a feed claims. -/
theorem assignment_replaces_turned :
    let ledger : Ledger Nat := { Ledger.blank (.below 16) with created := 4, copiesLeft := some 1 }
    (∃ after, assign 2 ⟨9, 70⟩ ⟨turned, ledger⟩ = .error (.interrupted .copyFailed) after ∧
      after.buffer.toList = [⟨4, 70⟩] ∧
      after.ledger.destroyed.Perm [⟨9, 70⟩, ⟨0, 10⟩, ⟨1, 20⟩, ⟨2, 30⟩, ⟨3, 40⟩]) ∧
    (∃ left, assignWithin 6 2 ⟨9, 70⟩ ⟨turned, ledger⟩ =
        .error (.interrupted .copyFailed) ⟨turned, left⟩ ∧
      left.destroyed.Perm [⟨9, 70⟩, ⟨4, 70⟩]) ∧
    (∃ after, assignFeedWithin 2 ⟨[.fresh 50, .fresh 60, .fresh 70], 1⟩ ⟨turned, ledger⟩ =
        .ok () after ∧
      after.buffer.toList = [⟨5, 60⟩, ⟨6, 70⟩] ∧
      after.buffer.registry.accepts ⟨0, none, 0, 0⟩ = false) ∧
    assignFeed ⟨[.fresh 50], 20⟩ ⟨turned, ledger⟩ =
      .error (.refused (.allocationFailed 20)) ⟨turned, ledger⟩ := by
  intro ledger
  -- As long as the ring is a variable, no step of the proof runs the operations on it.
  obtain ⟨ring, same⟩ : ∃ ring, ring = turned := ⟨_, rfl⟩
  have wellFormed : ring.WellFormed := same ▸ turned_wellFormed
  have listed : ring.toList = [⟨0, 10⟩, ⟨1, 20⟩, ⟨2, 30⟩, ⟨3, 40⟩] := same ▸ turned_toList
  have size : ring.capacity = 4 := by rw [same]; rfl
  obtain ⟨copies, copiesWithin, feeds, feedsWithin⟩ :=
    assignment_replaces wellFormed (show ledger.brittle = none from rfl)
  rw [← same]
  refine ⟨?_, ?_, ?_, ?_⟩
  · have assigns := copies 2 ⟨9, 70⟩
    rw [size] at assigns
    obtain ⟨after, ran, renews⟩ := assigns.refilled size.symm
    have destroyed := renews.records.destroyed
    rw [listed] at destroyed
    exact ⟨after, ran, renews.toList, destroyed⟩
  · obtain ⟨left, ran, records⟩ := (copiesWithin 6 2 ⟨9, 70⟩ (by decide)).spared
      (by rw [size]; decide) (show ¬ ledger.Scarce 6 by decide) .copyFailed rfl
    exact ⟨left, ran, records.destroyed⟩
  · obtain ⟨after, ran, renews⟩ := (feedsWithin 2 ⟨[.fresh 50, .fresh 60, .fresh 70], 1⟩).exchanged
      (by rw [size]; decide) (show ¬ ledger.Scarce 2 by decide) rfl
    have known : ring.Vouches ⟨0, none, 0, 0⟩ := fun _ => Nat.zero_le _
    exact ⟨after, ran, renews.toList, renews.void _ known⟩
  · have assigns := feeds ⟨[.fresh 50], 20⟩
    rw [size] at assigns
    have scarce : ledger.Scarce 20 := by decide
    exact assigns.refused (by rw [size]; decide) scarce

end Ring

end RingDeque
