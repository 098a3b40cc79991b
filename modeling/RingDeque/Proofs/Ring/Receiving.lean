import RingDeque.Proofs.Foretelling
import RingDeque.Proofs.Ring.Gathering
import RingDeque.Proofs.Ring.Inserting
import RingDeque.Proofs.Ring.Storing
import RingDeque.Ring.Replacement

/-!
Insertion that may be interrupted at any element.

The elements before and behind the gap are settled once room has been made: they are those of the
ring, without the ones that gave way. Whatever the source of the new elements does then, the ring
ends up with the elements that were produced between the two. Main statement:
`Ring.interrupted_insertion`.
-/

namespace RingDeque

open Effect

namespace End

variable {β : Type} {items : List β} {item : β} {capacity index count evicted : Nat}

/-- The entries before an index, without those that gave way at the end `yields`. -/
def ahead (yields : End) (index evicted : Nat) (items : List β) : List β :=
  match yields with
  | .front => (items.take index).drop evicted
  | .back => items.take index

/-- The entries from an index on, without those that gave way at the end `yields`. -/
def behind (yields : End) (index evicted : Nat) (items : List β) : List β :=
  match yields with
  | .front => items.drop index
  | .back => (items.take (items.length - evicted)).drop index

/-- The entries that give way to what there is room for lie on the side `yields` of the index. -/
def Flanks (yields : End) (length index evicted : Nat) : Prop :=
  match yields with
  | .front => evicted ≤ index
  | .back => index ≤ length - evicted

theorem take_trim {yields : End} (flanks : yields.Flanks items.length index evicted) :
    (yields.trim evicted items).take (yields.shifted index evicted) =
      yields.ahead index evicted items := by
  cases yields with
  | front => exact List.drop_take.symm
  | back =>
      simp only [Flanks] at flanks
      simp only [trim, shifted, ahead, List.take_take, Nat.min_eq_left flanks]

theorem drop_trim {yields : End} (flanks : yields.Flanks items.length index evicted) :
    (yields.trim evicted items).drop (yields.shifted index evicted) =
      yields.behind index evicted items := by
  cases yields with
  | front =>
      simp only [Flanks] at flanks
      simp only [trim, shifted, behind, List.drop_drop, Nat.add_sub_cancel' flanks]
  | back => rfl

theorem length_ahead (yields : End) (evicted : Nat) (inside : index ≤ items.length) :
    (yields.ahead index evicted items).length = yields.shifted index evicted := by
  cases yields <;> simp only [ahead, shifted, List.length_drop, List.length_take] <;> omega

theorem perm_trimmed_succ {side : End} (count : Nat) (found : side.last? items = some item) :
    (side.trimmed (count + 1) items).Perm (item :: side.trimmed count (side.trim 1 items)) := by
  cases side with
  | front =>
      cases items with
      | nil => simp [last?] at found
      | cons first rest =>
          simp only [last?, List.head?_cons, Option.some.injEq] at found
          simp [trim, trimmed, found]
  | back =>
      simp only [last?, List.getLast?_eq_some_iff] at found
      obtain ⟨front, rfl⟩ := found
      have split : front.length + 1 - (count + 1) = front.length - count := by omega
      simp only [trim, trimmed, List.length_append, List.length_singleton, Nat.add_sub_cancel,
        List.take_left', split, List.drop_append_of_le_length (Nat.sub_le front.length count)]
      exact List.perm_append_singleton _ _

end End

namespace Act

variable {α β : Type} {act : Act β α γ} {before : Tracked β α} {item : Item α}
  {good : γ → Tracked β α → Prop} {stops : Interruption → Tracked β α → Prop}
  {doomed : Item α → Prop}

/-- What is so and stays so when elements are destroyed. -/
def Lasting (holds : Tracked β α → Prop) : Prop :=
  ∀ buffer ledger items, holds ⟨buffer, ledger⟩ → holds ⟨buffer, ledger.discarding items⟩

theorem holding_interrupted (item : Item α) (lasting : ∀ cause, Lasting (stops cause))
    (ends : Ends act before good (Interrupted stops)) :
    Ends (holding item act) before good (Interrupted stops) := by
  simp only [holding, ends_tryCatch]
  apply ends.mono (fun _ _ => id)
  intro halt after stopped
  obtain ⟨cause, rfl, reached⟩ := stopped
  simp only [ends_bind, ends_ledger, Ledger.discard, ends_modify, ends_throw]
  exact ⟨cause, rfl, lasting cause _ _ _ reached⟩

/-- An element that is only looked at is destroyed in the end, which may fail in turn. -/
theorem consuming_interrupted
    (calm : ∀ value after, good value after → after.ledger.brittle = before.ledger.brittle)
    (lasting : ∀ value, Lasting (good value)) (stopsLasting : ∀ cause, Lasting (stops cause))
    (ends : Ends act before good
      (Interrupted fun cause after =>
        before.ledger.FailsAmong doomed cause ∨ stops cause after)) :
    Ends (consuming item act) before good
      (Interrupted fun cause after =>
        before.ledger.FailsAmong (fun other => doomed other ∨ other = item) cause ∨
          stops cause after) := by
  simp only [consuming, ends_bind, ends_ledger, ends_pure]
  have held := holding_interrupted item
    (fun cause _ _ _ => Or.imp_right (stopsLasting cause _ _ _)) ends
  apply held.mono
  · intro value middle found
    apply (Ledger.destroy_exactly item middle.ledger).mono
    · intro _ after same
      subst same
      exact lasting value _ _ _ found
    · intro halt after stopped
      apply stopped.mono
      intro cause among
      obtain ⟨same, other, rfl, fails, armed, failing⟩ := among
      rw [calm value middle found] at armed
      exact .inl ⟨same, _, .inr rfl, fails, armed, failing⟩
  · intro halt after stopped
    apply stopped.mono
    intro cause
    exact Or.imp_left fun among => among.mono fun _ => .inl

end Act

namespace Ring

variable {α : Type} {ring : Ring α} {ledger : Ledger α} {index count n : Nat} {cursor : Cursor}
  {yields : End} {entries : List (Entry α)} {model : Item α}

/-- A cursor that a ring accepts for a logical index, with the element there; the end if there is
none. -/
structure Denotes (ring : Ring α) (cursor : Cursor) (index : Nat) (item? : Option (Item α)) :
    Prop where
  accepted : ring.registry.accepts cursor = true
  resolves : ring.resolve cursor = .ok index
  element : ring.toList[index]? = item?
  isEnd : cursor.isEnd = item?.isNone

theorem Points.denotes (points : ring.Points cursor index) (wellFormed : ring.WellFormed) :
    ring.Denotes cursor index ring.toList[index]? := by
  apply Denotes.mk (points.accepted wellFormed) (points.resolve wellFormed) rfl
  have inside := points.inside
  rw [Cursor.isEnd, points.slot wellFormed]
  by_cases final : index = ring.len
  · rw [if_pos final, List.getElem?_eq_none (by rw [wellFormed.length_toList]; omega)]
    rfl
  · rw [if_neg final, List.getElem?_eq_getElem (by rw [wellFormed.length_toList]; omega)]
    rfl

theorem evict_exactly (wellFormed : ring.WellFormed) (side : End) (count : Nat)
    (ledger : Ledger α) :
    Ends (evict side count) ⟨ring, ledger⟩
      (fun _ after => ring.Becomes after.buffer (side.trim count ring.toList) ∧
        ∃ gone, gone.Perm (side.trimmed count ring.toList) ∧
          after.ledger = ledger.discarding gone)
      (Interrupted fun cause _ => ledger.FailsAmong (· ∈ side.trimmed count ring.toList) cause) := by
  -- Each turn pops the outermost element and destroys it; a failure leaves the others to the ring.
  induction count generalizing ring ledger with
  | zero =>
      simp only [evict, ends_pure, side.trim_zero, side.trimmed_zero]
      exact ⟨.refl wellFormed, [], List.Perm.refl _, rfl⟩
  | succ count ih =>
      obtain ⟨popped, stepped, becomes⟩ := pop_exists wellFormed side
      simp only [End.popped] at stepped becomes
      simp only [evict, ends_bind]
      rw [Act.ends_update_mk stepped]
      cases last : side.last? ring.toList with
      | none =>
          rw [(side.last?_eq_none_iff _).mp last, side.trim_nil] at becomes ⊢
          exact ⟨becomes, [], by cases side <;> simp [End.trimmed], rfl⟩
      | some item =>
          have perm := End.perm_trimmed_succ count last
          simp only [ends_bind, Act.ends_ledger]
          apply (Ledger.destroy_exactly item ledger).mono
          · intro _ left same
            subst same
            apply (ih becomes.wellFormed (ledger.discarding [item])).mono
            · intro _ after ended
              obtain ⟨final, gone, same, discarded⟩ := ended
              rw [becomes.toList] at final same
              rw [side.trim_trim, Nat.add_comm 1 count] at final
              constructor
              · exact becomes.trans final
              · exact ⟨item :: gone, (same.cons item).trans perm.symm, by
                  simp [discarded, Ledger.discarding]⟩
            · intro halt after stopped
              apply stopped.mono
              intro cause among
              rw [becomes.toList] at among
              exact Ledger.FailsAmong.mono among fun other member =>
                perm.mem_iff.mpr (List.mem_cons_of_mem _ member)
          · intro halt left stopped
            apply stopped.mono
            intro cause among
            apply among.mono
            intro other same
            rw [same]
            exact perm.mem_iff.mpr List.mem_cons_self

/-- The number of elements that have to give way to `count` new ones. -/
def surplus (ring : Ring α) (count : Nat) : Nat :=
  ring.len + count - ring.capacity

/-- Those that give way lie on one side of the index, and leave room for the new ones. -/
theorem WellFormed.surplus_bounds (wellFormed : ring.WellFormed) (inside : index ≤ ring.len)
    (room : count ≤ yields.roomAt ring.capacity ring.len index) :
    yields.Flanks ring.len index (ring.surplus count) ∧
      ring.len - ring.surplus count + count ≤ ring.capacity := by
  have fits := wellFormed.fits
  cases yields <;> simp only [End.roomAt, End.Flanks, surplus] at * <;> omega

theorem makeRoom_exactly (wellFormed : ring.WellFormed) (inside : index ≤ ring.len)
    (room : count ≤ yields.roomAt ring.capacity ring.len index) (ledger : Ledger α) :
    Ends (makeRoom yields index count) ⟨ring, ledger⟩
      (fun place after => place = yields.shifted index (ring.surplus count) ∧
        ring.Becomes after.buffer (yields.trim (ring.surplus count) ring.toList) ∧
        ledger.Draws 0 0 after.ledger)
      (Interrupted fun cause _ =>
        ledger.FailsAmong (· ∈ yields.trimmed (ring.surplus count) ring.toList) cause) := by
  have word := wellFormed.capacity_double_lt_word
  obtain ⟨flanks, fits⟩ := wellFormed.surplus_bounds inside room
  have held := wellFormed.fits
  simp only [makeRoom, ends_bind, Act.ends_buffer, liftM_ok, ends_pure,
    Word.add_eq (show ring.len + count < Word.limit by omega)]
  apply (evict_exactly wellFormed yields (ring.surplus count) ledger).mono _ fun _ _ => id
  intro _ after ended
  obtain ⟨becomes, gone, -, discarded⟩ := ended
  have draws : ledger.Draws 0 0 after.ledger := discarded ▸ .discarding gone
  cases yields with
  | front =>
      simp only [End.Flanks, surplus] at flanks
      rw [Word.sub_eq flanks]
      exact ⟨rfl, becomes, draws⟩
  | back => exact ⟨rfl, becomes, draws⟩

/-- A ring that received new elements before a logical index, after `evicted` of its elements gave
way at the end `yields`. -/
structure Receives (yields : End) (index evicted : Nat) (new : List (Item α))
    (before after : Ring α) : Prop where
  wellFormed : after.WellFormed
  capacity : after.capacity = before.capacity
  toList : after.toList = yields.ahead index evicted before.toList ++ new ++
    yields.behind index evicted before.toList

theorem splice_receives {middle : Ring α} {new : List (Item α)} {evicted : Nat}
    (wellFormed : ring.WellFormed) (inside : index ≤ ring.len)
    (flanks : yields.Flanks ring.len index evicted)
    (becomes : ring.Becomes middle (yields.trim evicted ring.toList))
    (fits : ring.len - evicted + count ≤ ring.capacity) (few : new.length ≤ count) :
    ∃ after issued,
      middle.splice (yields.shifted index evicted) count yields.opposite new = .ok after ∧
      after.cursorFor (yields.shifted index evicted) = .ok issued ∧
      Receives yields index evicted new ring after ∧
      after.Denotes issued (yields.shifted index evicted)
        (new ++ yields.behind index evicted ring.toList).head? := by
  have length := wellFormed.length_toList
  have ahead := yields.length_ahead evicted
    (show index ≤ ring.toList.length by omega)
  have left : middle.len = ring.len - evicted := by
    rw [becomes.len, End.length_trim, length]
  have placeInside : yields.shifted index evicted ≤ middle.len := by
    cases yields <;> simp only [End.Flanks, End.shifted] at * <;> omega
  obtain ⟨after, spliced, final⟩ := splice_exists becomes.wellFormed yields.opposite placeInside
    (show middle.len + count ≤ middle.capacity by rw [left, becomes.capacity]; exact fits) few
  rw [← length] at flanks
  rw [becomes.toList, End.take_trim flanks, End.drop_trim flanks] at final
  obtain ⟨issued, given, points⟩ :=
    final.wellFormed.cursorFor_exists (yields.shifted index evicted)
  rw [Nat.min_eq_left (by rw [final.len, List.length_append, List.length_append, ahead]; omega)]
    at points
  have denotes := points.denotes final.wellFormed
  rw [final.toList, List.append_assoc, List.getElem?_append_right (Nat.le_of_eq ahead), ahead,
    Nat.sub_self, ← List.head?_eq_getElem?] at denotes
  exact ⟨after, issued, spliced, given,
    ⟨final.wellFormed, final.capacity.trans becomes.capacity, final.toList⟩, denotes⟩

/-- Inserting nothing changes nothing, and the cursor is one to where nothing was inserted. -/
theorem WellFormed.receives_nothing (yields : End) (wellFormed : ring.WellFormed)
    (inside : index ≤ ring.len) :
    ∃ issued, ring.cursorFor index = .ok issued ∧
      Receives yields index (ring.surplus 0) [] ring ring ∧
      ring.Denotes issued (yields.shifted index (ring.surplus 0))
        ([] ++ yields.behind index (ring.surplus 0) ring.toList).head? := by
  obtain ⟨issued, given, points⟩ := wellFormed.cursorFor_exists index
  rw [Nat.min_eq_left inside] at points
  have denotes := points.denotes wellFormed
  have none : ring.surplus 0 = 0 := Nat.sub_eq_zero_of_le wellFormed.fits
  have front : yields.ahead index 0 ring.toList = ring.toList.take index := by
    cases yields <;> simp [End.ahead]
  have back : yields.behind index 0 ring.toList = ring.toList.drop index := by
    cases yields <;> simp [End.behind]
  rw [none, yields.shifted_zero, List.nil_append, back, List.head?_drop]
  exact ⟨issued, given, ⟨wellFormed, rfl, by
    rw [front, back, List.append_nil, List.take_append_drop]⟩, denotes⟩

theorem insertEntries_exactly (wellFormed : ring.WellFormed) (inside : index ≤ ring.len)
    (room : count ≤ yields.roomAt ring.capacity ring.len index) (entries : List (Entry α))
    (ledger : Ledger α) :
    let evicted := ring.surplus count
    let outcomes := Entry.outcomes ledger.copiesLeft (entries.take count)
    Ends (insertEntries yields index count entries) ⟨ring, ledger⟩
      (fun issued after => Entry.failure? outcomes = none ∧
        (∃ new, new.map (·.value) = Entry.produced outcomes ∧
          Receives yields index evicted new ring after.buffer ∧
          after.buffer.Denotes issued (yields.shifted index evicted)
            (new ++ yields.behind index evicted ring.toList).head?) ∧
        ledger.Draws (entries.take count).length (Entry.costs (entries.take count)) after.ledger)
      (Interrupted fun cause after =>
        ledger.FailsAmong (· ∈ yields.trimmed evicted ring.toList) cause ∨
        Entry.failure? outcomes = some cause ∧
          ∃ new, new.map (·.value) = Entry.produced outcomes ∧
            Receives yields index evicted new ring after.buffer) := by
  intro evicted outcomes
  simp only [insertEntries]
  by_cases nothing : count = 0
  · subst nothing
    obtain ⟨issued, given, receives, denotes⟩ := wellFormed.receives_nothing yields inside
    simp only [if_true, ends_bind, Act.ends_buffer, given, liftM_ok, ends_pure]
    exact ⟨rfl, ⟨[], rfl, receives, denotes⟩, .refl ledger⟩
  simp only [if_neg nothing, ends_bind, Act.ends_ledger]
  apply (makeRoom_exactly wellFormed inside room ledger).mono
  · intro place middle ended
    obtain ⟨rfl, becomes, drawn⟩ := ended
    apply (Entry.produceAll_exactly (entries.take count) middle.ledger).mono _ fun _ _ => False.elim
    intro made left ended
    obtain ⟨items, halt⟩ := made
    obtain ⟨values, failing, draws⟩ := ended
    rw [drawn.copiesLeft, Entry.copies_sub_zero] at values failing
    have few : items.length ≤ count := by
      have bound := Entry.length_produced outcomes
      rw [Entry.length_outcomes, List.length_take, ← values, List.length_map] at bound
      exact Nat.le_trans bound (Nat.min_le_left _ _)
    obtain ⟨flanks, fits⟩ := wellFormed.surplus_bounds inside room
    obtain ⟨after, issued, spliced, given, receives, denotes⟩ :=
      splice_receives wellFormed inside flanks becomes fits few
    rw [Act.ends_alter spliced]
    cases failed : Entry.failure? outcomes with
    | none =>
        simp only [outcomes] at failed
        simp only [failed, Option.map_none] at failing
        subst failing
        simp only [ends_bind, Act.ends_buffer, given, liftM_ok, ends_pure]
        have whole := drawn.trans (draws rfl)
        rw [Nat.zero_add, Nat.zero_add] at whole
        exact ⟨trivial, ⟨items, values, receives, denotes⟩, whole⟩
    | some cause =>
        simp only [outcomes] at failed
        simp only [failed, Option.map_some] at failing
        subst failing
        simp only [ends_throw]
        exact ⟨cause, rfl, .inr ⟨rfl, items, values, receives⟩⟩
  · intro halt after stopped
    exact stopped.mono fun _ => .inl

theorem insertEntries_copies (wellFormed : ring.WellFormed) (inside : index ≤ ring.len)
    (room : count ≤ yields.roomAt ring.capacity ring.len index) (model : Item α)
    (ledger : Ledger α) :
    let evicted := ring.surplus count
    let stored := Entry.copyable ledger.copiesLeft count
    Ends (insertEntries yields index count (List.replicate count (.copyOf model))) ⟨ring, ledger⟩
      (fun issued after => stored = count ∧
        (∃ new, new.map (·.value) = List.replicate stored model.value ∧
          Receives yields index evicted new ring after.buffer ∧
          after.buffer.Denotes issued (yields.shifted index evicted)
            (new ++ yields.behind index evicted ring.toList).head?) ∧
        ledger.Draws stored stored after.ledger)
      (Interrupted fun cause after =>
        ledger.FailsAmong (· ∈ yields.trimmed evicted ring.toList) cause ∨
        cause = .copyFailed ∧ stored < count ∧
          ∃ new, new.map (·.value) = List.replicate stored model.value ∧
            Receives yields index evicted new ring after.buffer) := by
  intro evicted stored
  obtain ⟨values, failing⟩ := Entry.outcomes_replicate ledger.copiesLeft count model
  have whole : (List.replicate count (Entry.copyOf model)).take count =
      List.replicate count (.copyOf model) := List.take_of_length_le (by simp)
  apply (insertEntries_exactly wellFormed inside room _ ledger).mono
  · intro issued after ended
    rw [whole, values, failing, Entry.costs_replicate, List.length_replicate] at ended
    obtain ⟨calm, received, draws⟩ := ended
    have all : stored = count := by
      have most := Entry.copyable_le ledger.copiesLeft count
      split at calm
      · contradiction
      · omega
    exact ⟨all, received, all ▸ draws⟩
  · intro halt after stopped
    apply stopped.mono
    intro cause reason
    rw [whole, values, failing] at reason
    apply reason.imp_right
    intro failed
    obtain ⟨same, received⟩ := failed
    split at same
    · exact ⟨(Option.some.inj same).symm, ‹_›, received⟩
    · contradiction

theorem insertCopies_exactly (wellFormed : ring.WellFormed)
    (resolved : ring.resolve cursor = .ok index) (inside : index ≤ ring.len) (n : Nat)
    (model : Item α) (ledger : Ledger α) :
    let count := ring.admits yields index n
    let evicted := ring.surplus count
    let stored := Entry.copyable ledger.copiesLeft count
    Ends (insertCopies yields cursor n model) ⟨ring, ledger⟩
      (fun issued after => stored = count ∧
        (∃ new, new.map (·.value) = List.replicate stored model.value ∧
          Receives yields index evicted new ring after.buffer ∧
          after.buffer.Denotes issued (yields.shifted index evicted)
            (new ++ yields.behind index evicted ring.toList).head?) ∧
        ledger.Draws stored stored after.ledger)
      (Interrupted fun cause after =>
        ledger.FailsAmong
          (fun item => item ∈ yields.trimmed evicted ring.toList ∨ item = model) cause ∨
        cause = .copyFailed ∧ stored < count ∧
          ∃ new, new.map (·.value) = List.replicate stored model.value ∧
            Receives yields index evicted new ring after.buffer) := by
  intro count evicted stored
  apply Act.consuming_interrupted
  · intro _ after ended
    exact ended.2.2.brittle
  · intro _ buffer left items ended
    exact ⟨ended.1, ended.2.1, ended.2.2.trans (.discarding items)⟩
  · exact fun _ _ _ _ => id
  simp only [ends_bind, Act.ends_buffer, resolved, wellFormed.room_eq inside, liftM_ok,
    liftM_answer, ends_pure]
  exact insertEntries_copies wellFormed inside (Nat.min_le_left _ _) model ledger

/-- How many entries of a feed are left out before those that are inserted. -/
def skips (yields : End) (claimed count : Nat) : Nat :=
  match yields with
  | .front => claimed - count
  | .back => 0

theorem insertFeed_exactly (yields : End) (wellFormed : ring.WellFormed)
    (resolved : ring.resolve cursor = .ok index) (inside : index ≤ ring.len) (feed : Feed α)
    (ledger : Ledger α) :
    let count := ring.admits yields index feed.claimed
    let evicted := ring.surplus count
    let outcomes := Entry.outcomes ledger.copiesLeft feed.entries
    let early := outcomes.take (skips yields feed.claimed count)
    let late := (outcomes.drop (skips yields feed.claimed count)).take count
    Ends (insertFeed yields cursor feed) ⟨ring, ledger⟩
      (fun issued after => Entry.failure? early = none ∧ Entry.failure? late = none ∧
        ∃ new, new.map (·.value) = Entry.produced late ∧
          Receives yields index evicted new ring after.buffer ∧
          after.buffer.Denotes issued (yields.shifted index evicted)
            (new ++ yields.behind index evicted ring.toList).head?)
      (Interrupted fun cause after =>
        ledger.FailsAmong
          (fun item => ledger.created ≤ item.id ∨ item ∈ yields.trimmed evicted ring.toList) cause ∨
        Entry.failure? early = some cause ∧ after.buffer = ring ∨
        Entry.failure? early = none ∧ Entry.failure? late = some cause ∧
          ∃ new, new.map (·.value) = Entry.produced late ∧
            Receives yields index evicted new ring after.buffer) := by
  intro count evicted outcomes early late
  have room : count ≤ yields.roomAt ring.capacity ring.len index := Nat.min_le_left _ _
  have counted : min (yields.roomAt ring.capacity ring.len index) feed.claimed = count := rfl
  simp only [insertFeed, ends_bind, Act.ends_buffer, resolved, wellFormed.room_eq inside, liftM_ok,
    liftM_answer, ends_pure, counted]
  cases yields with
  | front =>
      simp only [ends_bind, Act.ends_ledger]
      rw [Feed.skipSurplus_eq]
      apply (Entry.skip_exactly (feed.claimed - count) feed.entries ledger).mono
      · intro _ left ended
        obtain ⟨rfl, calm, draws⟩ := ended
        rw [Entry.outcomes_take] at calm
        have rest : Entry.outcomes left.copiesLeft
            ((feed.entries.drop (feed.claimed - count)).take count) = late := by
          rw [Entry.outcomes_take, draws.copiesLeft]
          exact congrArg (List.take count) (Entry.outcomes_drop _ _ _)
        apply (insertEntries_exactly wellFormed inside room _ left).mono
        · intro issued after ended
          rw [rest] at ended
          exact ⟨calm, ended.1, ended.2.1⟩
        · intro halt after stopped
          apply stopped.mono
          intro cause reason
          rw [rest] at reason
          rcases reason with among | reached
          · exact .inl ((draws.failsAmong among).mono fun _ => .inr)
          · exact .inr (.inr ⟨calm, reached⟩)
      · intro halt left stopped
        apply stopped.mono
        intro cause reason
        rw [Entry.outcomes_take] at reason
        rcases reason with among | failed
        · exact .inl (among.mono fun _ => .inl)
        · exact .inr (.inl ⟨failed, rfl⟩)
  | back =>
      simp only [ends_bind, ends_pure]
      apply (insertEntries_exactly wellFormed inside room feed.entries ledger).mono
      · intro issued after ended
        rw [Entry.outcomes_take] at ended
        exact ⟨rfl, ended.1, ended.2.1⟩
      · intro halt after stopped
        apply stopped.mono
        intro cause reason
        rw [Entry.outcomes_take] at reason
        rcases reason with among | reached
        · exact .inl (among.mono fun _ => .inr)
        · exact .inr (.inr ⟨rfl, reached⟩)

theorem setCapacity_grows (wellFormed : ring.WellFormed) (trim : End) (larger : ring.capacity < n)
    (plenty : ¬ ledger.Scarce n) :
    Ends (setCapacity trim n) ⟨ring, ledger⟩
      (fun _ after => after.buffer.WellFormed ∧ after.buffer.capacity = n ∧
        after.buffer.toList = ring.toList ∧ ledger.Draws 0 0 after.ledger)
      (fun _ _ => False) := by
  have fits := wellFormed.fits
  apply (setCapacity_exactly wellFormed trim (Nat.ne_of_gt larger) (by omega) ledger).mono
  · intro _ after ended
    obtain ⟨turns, recorded⟩ := ended
    rw [recorded]
    exact ⟨turns.wellFormed, turns.sized, turns.toList, rfl, Entry.copies_sub_zero.symm, rfl⟩
  · exact fun _ _ stopped => plenty stopped.2.1

/-- A ring that grew by new elements at one of its ends, in a block for at least `n`. -/
structure Grows (side : End) (n : Nat) (new : List (Item α)) (before after : Ring α) : Prop where
  wellFormed : after.WellFormed
  capacity : after.capacity = max before.capacity n
  toList : after.toList = side.flank new before.toList

theorem Receives.grows {new : List (Item α)} {after : Ring α} (fits : n ≤ ring.capacity)
    (receives : Receives yields (match yields with | .front => ring.len | .back => 0) 0 new ring after)
    (length : ring.toList.length = ring.len) : Grows yields.opposite n new ring after := by
  apply Grows.mk receives.wellFormed
  · rw [receives.capacity, Nat.max_eq_left fits]
  · rw [receives.toList]
    cases yields <;> simp [End.ahead, End.behind, End.opposite, End.flank, ← length]

theorem growing_exactly (wellFormed : ring.WellFormed) (longer : ring.len ≤ n)
    (fits : n ≤ ring.capacity) (yields : End) (model : Item α) (ledger : Ledger α) :
    let stored := Entry.copyable ledger.copiesLeft (n - ring.len)
    Ends (do
        let len := (← Act.buffer).len
        let count ← Word.sub n len
        let index := match yields with
          | .front => len
          | .back => 0
        let _ ← insertEntries yields index count (List.replicate count (.copyOf model))
        pure ()) ⟨ring, ledger⟩
      (fun _ after => stored = n - ring.len ∧
        (∃ new, new.map (·.value) = List.replicate stored model.value ∧
          Grows yields.opposite n new ring after.buffer) ∧
        ledger.Draws stored stored after.ledger)
      (Interrupted fun cause after => cause = .copyFailed ∧ stored < n - ring.len ∧
        ∃ new, new.map (·.value) = List.replicate stored model.value ∧
          Grows yields.opposite n new ring after.buffer) := by
  intro stored
  have length := wellFormed.length_toList
  have none : ring.surplus (n - ring.len) = 0 := by
    rw [surplus]
    omega
  simp only [ends_bind, Act.ends_buffer, Word.sub_eq longer, liftM_ok, ends_pure]
  have inside : (match yields with | .front => ring.len | .back => 0) ≤ ring.len := by
    cases yields <;> simp
  apply (insertEntries_copies wellFormed inside
    (by cases yields <;> simp only [End.roomAt] <;> omega) model ledger).mono
  · intro _ after ended
    rw [none] at ended
    obtain ⟨all, ⟨new, values, receives, -⟩, draws⟩ := ended
    exact ⟨all, ⟨new, values, receives.grows fits length⟩, draws⟩
  · intro halt after stopped
    apply stopped.mono
    intro cause reason
    rw [none, yields.trimmed_zero] at reason
    rcases reason with ⟨-, item, member, -⟩ | ⟨same, fewer, new, values, receives⟩
    · cases member
    · exact ⟨same, fewer, new, values, receives.grows fits length⟩

theorem resize_grows (wellFormed : ring.WellFormed) (longer : ring.len < n)
    (plenty : ring.capacity < n → ¬ ledger.Scarce n) (yields : End) (model : Item α) :
    let stored := Entry.copyable ledger.copiesLeft (n - ring.len)
    Ends (resize yields n model) ⟨ring, ledger⟩
      (fun _ after => stored = n - ring.len ∧
        (∃ new, new.map (·.value) = List.replicate stored model.value ∧
          Grows yields.opposite n new ring after.buffer) ∧
        ledger.Draws stored stored after.ledger)
      (Interrupted fun cause after => ledger.FailsAmong (fun item => False ∨ item = model) cause ∨
        cause = .copyFailed ∧ stored < n - ring.len ∧
          ∃ new, new.map (·.value) = List.replicate stored model.value ∧
            Grows yields.opposite n new ring after.buffer) := by
  intro stored
  apply Act.consuming_interrupted
  · intro _ after ended
    exact ended.2.2.brittle
  · intro _ buffer left items ended
    exact ⟨ended.1, ended.2.1, ended.2.2.trans (.discarding items)⟩
  · exact fun _ _ _ _ => id
  simp only [ends_bind, Act.ends_buffer, if_pos longer]
  by_cases tight : ring.capacity < n
  · simp only [if_pos tight]
    rw [ends_bind]
    apply (setCapacity_grows wellFormed yields tight (plenty tight)).mono _ fun _ _ => False.elim
    intro _ middle ended
    obtain ⟨middleWellFormed, sized, same, drawn⟩ := ended
    have length : middle.buffer.len = ring.len := by
      rw [← middleWellFormed.length_toList, same, wellFormed.length_toList]
    have transfer : ∀ new after, Grows yields.opposite n new middle.buffer after →
        Grows yields.opposite n new ring after := by
      intro new after grows
      apply Grows.mk grows.wellFormed _ (same ▸ grows.toList)
      rw [grows.capacity, sized, Nat.max_self, Nat.max_eq_right (Nat.le_of_lt tight)]
    have grown := growing_exactly middleWellFormed (length ▸ Nat.le_of_lt longer)
      (Nat.le_of_eq sized.symm) yields model middle.ledger
    rw [length, drawn.copiesLeft, Entry.copies_sub_zero] at grown
    apply grown.mono
    · intro _ after ended
      obtain ⟨all, ⟨new, values, grows⟩, draws⟩ := ended
      have whole := drawn.trans draws
      rw [Nat.zero_add] at whole
      exact ⟨all, ⟨new, values, transfer new _ grows⟩, whole⟩
    · intro halt after stopped
      apply stopped.mono
      intro cause reason
      obtain ⟨same, fewer, new, values, grows⟩ := reason
      exact .inr ⟨same, fewer, new, values, transfer new _ grows⟩
  · simp only [if_neg tight]
    apply (growing_exactly wellFormed (Nat.le_of_lt longer) (by omega) yields model ledger).mono
      fun _ _ => id
    intro halt after stopped
    exact stopped.mono fun _ => .inr

/-- Whatever interrupts an insertion, or ends it early, the elements that did not give way keep
their order around those that were produced. The entries to be left out at the front are asked for
before anything changes, and a ring that grows does so in a larger block already. -/
theorem interrupted_insertion (yields : End) (wellFormed : ring.WellFormed)
    (resolved : ring.resolve cursor = .ok index) (inside : index ≤ ring.len) (ledger : Ledger α) :
    (∀ feed : Feed α,
      let count := ring.admits yields index feed.claimed
      let evicted := ring.surplus count
      let outcomes := Entry.outcomes ledger.copiesLeft feed.entries
      let early := outcomes.take (skips yields feed.claimed count)
      let late := (outcomes.drop (skips yields feed.claimed count)).take count
      Ends (insertFeed yields cursor feed) ⟨ring, ledger⟩
        (fun issued after => Entry.failure? early = none ∧ Entry.failure? late = none ∧
          ∃ new, new.map (·.value) = Entry.produced late ∧
            Receives yields index evicted new ring after.buffer ∧
            after.buffer.Denotes issued (yields.shifted index evicted)
              (new ++ yields.behind index evicted ring.toList).head?)
        (Interrupted fun cause after =>
          ledger.FailsAmong (fun item =>
            ledger.created ≤ item.id ∨ item ∈ yields.trimmed evicted ring.toList) cause ∨
          Entry.failure? early = some cause ∧ after.buffer = ring ∨
          Entry.failure? early = none ∧ Entry.failure? late = some cause ∧
            ∃ new, new.map (·.value) = Entry.produced late ∧
              Receives yields index evicted new ring after.buffer)) ∧
    (∀ (n : Nat) (model : Item α),
      let count := ring.admits yields index n
      let evicted := ring.surplus count
      let stored := Entry.copyable ledger.copiesLeft count
      Ends (insertCopies yields cursor n model) ⟨ring, ledger⟩
        (fun issued after => stored = count ∧
          ∃ new, new.map (·.value) = List.replicate stored model.value ∧
            Receives yields index evicted new ring after.buffer ∧
            after.buffer.Denotes issued (yields.shifted index evicted)
              (new ++ yields.behind index evicted ring.toList).head?)
        (Interrupted fun cause after =>
          ledger.FailsAmong
            (fun item => item ∈ yields.trimmed evicted ring.toList ∨ item = model) cause ∨
          cause = .copyFailed ∧ stored < count ∧
            ∃ new, new.map (·.value) = List.replicate stored model.value ∧
              Receives yields index evicted new ring after.buffer)) ∧
    (∀ (n : Nat) (model : Item α), ring.len < n → (ring.capacity < n → ¬ ledger.Scarce n) →
      let count := n - ring.len
      let stored := Entry.copyable ledger.copiesLeft count
      Ends (resize yields n model) ⟨ring, ledger⟩
        (fun _ after => stored = count ∧
          ∃ new, new.map (·.value) = List.replicate stored model.value ∧
            Grows yields.opposite n new ring after.buffer)
        (Interrupted fun cause after => ledger.FailsAmong (· = model) cause ∨
          cause = .copyFailed ∧ stored < count ∧
            ∃ new, new.map (·.value) = List.replicate stored model.value ∧
              Grows yields.opposite n new ring after.buffer)) := by
  refine ⟨fun feed => insertFeed_exactly yields wellFormed resolved inside feed ledger, ?_, ?_⟩
  · intro n model
    apply (insertCopies_exactly wellFormed resolved inside n model ledger).mono _ fun _ _ => id
    intro issued after ended
    exact ⟨ended.1, ended.2.1⟩
  · intro n model longer plenty
    apply (resize_grows wellFormed longer plenty yields model).mono
    · intro _ after ended
      exact ⟨ended.1, ended.2.1⟩
    · intro halt after stopped
      exact stopped.mono fun cause => Or.imp_left fun among => among.mono fun item same => by
        simpa using same

/-- A full ring of four elements that starts in the third slot. -/
def turned : Ring Nat where
  block := ⟨#[some ⟨2, 30⟩, some ⟨3, 40⟩, some ⟨0, 10⟩, some ⟨1, 20⟩], by decide⟩
  start := 2
  len := 4
  registry := ⟨0, 0, 0, ⟨#[0, 0, 0, 0], by decide⟩⟩

theorem turned_toList : turned.toList = [⟨0, 10⟩, ⟨1, 20⟩, ⟨2, 30⟩, ⟨3, 40⟩] := by
  decide

theorem turned_wellFormed : turned.WellFormed :=
  ⟨by decide, by decide, rfl, by simp only [Holds]; decide⟩

/-- A feed of three breaks after its second element, so that one of the places made for it is closed
again; and a ring that was to grow by two copies gets one. -/
theorem interrupted_insertion_turned :
    let ledger : Ledger Nat := { Ledger.blank (.below 16) with created := 4, copiesLeft := some 1 }
    (∃ after, insertFeed .front ⟨0, some 1, 0, 0⟩ ⟨[.fresh 50, .fresh 60, .breaks], 3⟩
        ⟨turned, ledger⟩ = .error (.interrupted .sourceFailed) after ∧
      after.buffer.toList.map (·.value) = [50, 60, 40]) ∧
    ∃ after, resize .front 6 ⟨9, 70⟩ ⟨turned, ledger⟩ =
        .error (.interrupted .copyFailed) after ∧
      after.buffer.capacity = 6 ∧ after.buffer.toList.map (·.value) = [10, 20, 30, 40, 70] := by
  intro ledger
  -- As long as the ring is a variable, no step of the proof runs the operations on it.
  obtain ⟨ring, same⟩ : ∃ ring, ring = turned := ⟨_, rfl⟩
  have resolved : ring.resolve ⟨0, some 1, 0, 0⟩ = .ok 3 := by
    rw [same]
    rfl
  obtain ⟨feeds, -, growths⟩ :=
    interrupted_insertion .front (same ▸ turned_wellFormed) resolved (by rw [same]; decide) ledger
  rw [← same]
  constructor
  · obtain ⟨halt, after, ran, cause, rfl, reason⟩ :=
      Ends.halted (feeds ⟨[.fresh 50, .fresh 60, .breaks], 3⟩) fun _ _ ended => by
        rw [same] at ended
        exact absurd ended.2.1 (by decide)
    rw [same] at reason
    rcases reason with ⟨-, item, -, fails, armed, -⟩ | ⟨failed, -⟩ | ⟨-, failed, new, values, receives⟩
    · cases armed
    · cases failed
    · cases failed
      exact ⟨after, ran, by rw [receives.toList, List.map_append, List.map_append, values]; rfl⟩
  · have plenty : ¬ ledger.Scarce 6 := by decide
    obtain ⟨halt, after, ran, cause, rfl, reason⟩ :=
      Ends.halted (growths 6 ⟨9, 70⟩ (by rw [same]; decide) fun _ => plenty) fun _ _ ended => by
        rw [same] at ended
        exact absurd ended.1 (by decide)
    rw [same] at reason
    rcases reason with ⟨-, item, -, fails, armed, -⟩ | ⟨rfl, -, new, values, grows⟩
    · cases armed
    · have listed : after.buffer.toList = turned.toList ++ new := grows.toList
      exact ⟨after, ran, grows.capacity, by rw [listed, List.map_append, values]; rfl⟩

end Ring

end RingDeque
