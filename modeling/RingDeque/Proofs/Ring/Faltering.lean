import RingDeque.Proofs.Destruction
import RingDeque.Proofs.Ring.Removing

/-!
Destruction of elements one by one, up to the first that fails.

An element leaves the ring before it is destroyed. A destruction that fails therefore finds a ring
that is whole, without the elements that went so far, and nothing that was to follow happens. Main
statement: `Ring.faltering_removal`.
-/

namespace RingDeque

open Effect

namespace End

variable {β : Type} {items more : List β} {item : β} {count : Nat}

/-- The entries that go, one by one, when up to `count` entries are removed at an end. -/
def leaving (side : End) (count : Nat) (items : List β) : List β :=
  match side with
  | .front => items.take count
  | .back => items.reverse.take count

theorem leaving_zero (side : End) (items : List β) : side.leaving 0 items = [] := by
  cases side <;> simp [leaving]

theorem leaving_nil (side : End) (count : Nat) : side.leaving count ([] : List β) = [] := by
  cases side <;> simp [leaving]

theorem leaving_succ {side : End} (count : Nat) (found : side.last? items = some item) :
    side.leaving (count + 1) items = item :: side.leaving count (side.trim 1 items) := by
  cases side with
  | front =>
      cases items with
      | nil => simp [last?] at found
      | cons first rest =>
          simp only [last?, List.head?_cons, Option.some.injEq] at found
          simp [leaving, trim, found]
  | back =>
      simp only [last?, List.getLast?_eq_some_iff] at found
      obtain ⟨front, rfl⟩ := found
      simp [leaving, trim]

theorem leaving_flank (side : End) (more items : List β) :
    side.leaving more.length (side.flank more items) = side.leaving more.length more := by
  cases side with
  | front => simp [leaving, flank]
  | back =>
      rw [leaving, leaving, flank, List.reverse_append]
      exact List.take_append_of_le_length (Nat.le_of_eq List.length_reverse.symm)

theorem flank_nil (side : End) (items : List β) : side.flank [] items = items := by
  cases side <;> simp [flank]

theorem perm_leaving (side : End) (items : List β) :
    (side.leaving items.length items).Perm items := by
  cases side with
  | front => rw [leaving, List.take_length]
  | back =>
      rw [leaving, List.take_of_length_le (Nat.le_of_eq List.length_reverse)]
      exact List.reverse_perm items

theorem perm_trim_leaving (side : End) (count : Nat) (items : List β) :
    (side.trim count items).Perm ((side.leaving items.length items).drop count) := by
  cases side with
  | front => rw [leaving, List.take_length, trim]
  | back =>
      rw [leaving, List.take_of_length_le (Nat.le_of_eq List.length_reverse), List.drop_reverse]
      exact (List.reverse_perm _).symm

theorem trim_flank_of_le {side : End} (few : count ≤ more.length) :
    side.trim count (side.flank more items) = side.flank (side.trim count more) items := by
  cases side with
  | front => exact List.drop_append_of_le_length few
  | back =>
      simp only [trim, flank, List.length_append, Nat.add_sub_assoc few]
      exact List.take_length_add_append _

end End

namespace Ring

variable {α : Type} {before : Tracked (Ring α) α} {act : Act (Ring α) α γ} {ring : Ring α}
  {ledger record : Ledger α} {items : List (Item α)} {index count place source target n : Nat}
  {cursor first last : Cursor} {side yields : End}

/-- A destruction fails. The ring is left whole, with these elements, and the failure that the
record tells of is lifted. -/
def Falters (act : Act (Ring α) α γ) (before : Tracked (Ring α) α) (items : List (Item α))
    (record : Ledger α) : Prop :=
  Ends act before (fun _ _ => False) fun halt after =>
    halt = .interrupted .destructionFailed ∧ before.buffer.Becomes after.buffer items ∧
      after.ledger = record.disarmed

namespace Falters

/-- What was to follow does not happen. -/
theorem unreturned {returns : γ → Tracked (Ring α) α → Prop}
    (falters : Falters act before items record) :
    Ends act before returns fun halt after =>
      halt = .interrupted .destructionFailed ∧ before.buffer.Becomes after.buffer items ∧
        after.ledger = record.disarmed :=
  Ends.mono falters (fun _ _ => False.elim) fun _ _ => id

theorem bind {next : γ → Act (Ring α) α δ} (falters : Falters act before items record) :
    Falters (act >>= next) before items record := by
  rw [Falters, ends_bind]
  exact falters.unreturned

theorem holding (item : Item α) (falters : Falters act before items record) :
    Falters (holding item act) before items (record.discarding [item]) := by
  rw [Falters, RingDeque.holding, ends_tryCatch]
  apply Ends.mono falters fun _ _ => False.elim
  intro halt after stopped
  obtain ⟨rfl, becomes, recorded⟩ := stopped
  simp only [ends_bind, Act.ends_ledger, Ledger.discard, ends_modify, ends_throw, recorded]
  exact ⟨trivial, becomes, rfl⟩

theorem consuming (item : Item α) (falters : Falters act before items record) :
    Falters (consuming item act) before items (record.discarding [item]) :=
  (falters.holding item).bind

theorem interrupted (falters : Falters act before items record) :
    ∃ after, act before = .error (.interrupted .destructionFailed) ⟨after, record.disarmed⟩ ∧
      before.buffer.Becomes after items := by
  obtain ⟨halt, ⟨after, left⟩, ran, rfl, becomes, recorded⟩ :=
    Ends.halted falters fun _ _ => id
  cases recorded
  exact ⟨after, ran, becomes⟩

end Falters

theorem evict_falters (wellFormed : ring.WellFormed)
    (fails : ledger.FailsAfter place (side.leaving count ring.toList)) :
    Falters (evict side count) ⟨ring, ledger⟩ (side.trim (place + 1) ring.toList)
      (ledger.discarding ((side.leaving count ring.toList).take (place + 1))) := by
  -- The element popped first is the one that fails, or the failure is one place nearer after it.
  induction count generalizing ring ledger place with
  | zero =>
      rw [side.leaving_zero] at fails
      exact absurd fails.lt (Nat.not_lt_zero _)
  | succ count ih =>
      obtain ⟨popped, stepped, becomes⟩ := pop_exists wellFormed side
      simp only [End.popped] at stepped becomes
      rw [Falters, evict, ends_bind, Act.ends_update_mk stepped]
      cases last : side.last? ring.toList with
      | none =>
          rw [(side.last?_eq_none_iff _).mp last, side.leaving_nil] at fails
          exact absurd fails.lt (Nat.not_lt_zero _)
      | some item =>
          rw [End.leaving_succ count last] at fails ⊢
          simp only [ends_bind, Act.ends_ledger]
          cases place with
          | zero =>
              rw [Ledger.failsAfter_zero] at fails
              rw [ends_of_error (Ledger.destroy_of_failing fails)]
              exact ⟨rfl, becomes, rfl⟩
          | succ place =>
              obtain ⟨lasts, later⟩ := Ledger.failsAfter_succ.mp fails
              rw [← becomes.toList] at later
              have further : (ledger.discarding [item]).FailsAfter place
                  (side.leaving count popped.toList) := later
              rw [ends_of_ok (Ledger.destroy_of_lasting lasts)]
              apply Ends.mono (ih becomes.wellFormed further) fun _ _ => False.elim
              intro halt after stopped
              obtain ⟨rfl, final, recorded⟩ := stopped
              rw [becomes.toList, side.trim_trim, Nat.add_comm 1] at final
              rw [becomes.toList, Ledger.discarding_discarding] at recorded
              exact ⟨rfl, becomes.trans final, recorded⟩

theorem gathered_falters {middle : Ring α} {gathered : List (Item α)}
    (becomes : ring.Becomes middle (side.flank gathered items)) (ledger : Ledger α)
    (fails : ledger.FailsAfter place (side.leaving gathered.length gathered)) :
    Ends (evict side gathered.length) ⟨middle, ledger⟩ (fun _ _ => False)
      fun halt after => halt = .interrupted .destructionFailed ∧
        ring.Becomes after.buffer (side.flank (side.trim (place + 1) gathered) items) ∧
        after.ledger = (ledger.discarding
          ((side.leaving gathered.length gathered).take (place + 1))).disarmed := by
  have few : place + 1 ≤ gathered.length := by
    rw [← (side.perm_leaving gathered).length_eq]
    exact fails.lt
  rw [← side.leaving_flank gathered items, ← becomes.toList] at fails
  apply Ends.mono (evict_falters becomes.wellFormed fails) fun _ _ => False.elim
  intro halt after stopped
  obtain ⟨rfl, final, recorded⟩ := stopped
  rw [becomes.toList, End.trim_flank_of_le few] at final
  rw [becomes.toList, side.leaving_flank] at recorded
  exact ⟨rfl, becomes.trans final, recorded⟩

/-- Which of the doomed elements goes first depends on the ring alone, and so does the end where
those stay that had not gone yet. -/
theorem removeRange_falters (tie : End) (wellFormed : ring.WellFormed)
    (bound : index + count ≤ ring.len) (some : count ≠ 0)
    (moved : End.shorter index (ring.len - index - count) tie = side) :
    ∃ order, order.Perm (ring.doomed index count) ∧
      ∀ ledger place, ledger.FailsAfter place order →
        ∃ left, left.Perm (order.drop (place + 1)) ∧
          Falters (removeRange index count tie) ⟨ring, ledger⟩
            (side.flank left (ring.without index count))
            (ledger.discarding (order.take (place + 1))) := by
  obtain ⟨after, gathered, same, becomes, ends⟩ := removeRange_gathers wellFormed bound some moved
  have counted : gathered.length = count := by
    rw [same.length_eq, wellFormed.length_doomed bound]
  refine ⟨side.leaving gathered.length gathered, (side.perm_leaving gathered).trans same, ?_⟩
  intro ledger place fails
  refine ⟨side.trim (place + 1) gathered, side.perm_trim_leaving _ gathered, ?_⟩
  rw [Falters, ends, ← counted]
  rw [← counted] at becomes
  exact gathered_falters becomes ledger fails

theorem eraseRange_falters (wellFormed : ring.WellFormed) (firstAt : ring.resolve first = .ok source)
    (lastAt : ring.resolve last = .ok target) (ordered : source ≤ target) (inside : target ≤ ring.len)
    (toward : End) :
    ∃ order, order.Perm (ring.doomed source (target - source)) ∧
      ∀ ledger place, ledger.FailsAfter place order →
        ∃ left, left.Perm (order.drop (place + 1)) ∧
          Falters (eraseRange toward first last) ⟨ring, ledger⟩
            ((End.shorter source (ring.len - target) toward).flank left
              (ring.without source (target - source)))
            (ledger.discarding (order.take (place + 1))) := by
  by_cases nothing : source = target
  · refine ⟨[], by simp [doomed, nothing], ?_⟩
    intro ledger place fails
    exact absurd fails.lt (Nat.not_lt_zero _)
  have range : ring.resolveRange first last = .ok (source, target) := by
    rw [resolveRange, firstAt, lastAt]
    exact if_neg (Nat.not_lt_of_le ordered)
  have behind : ring.len - source - (target - source) = ring.len - target := by omega
  obtain ⟨order, same, falters⟩ := removeRange_falters toward wellFormed
    (show source + (target - source) ≤ ring.len by omega) (by omega)
    (congrArg (End.shorter source · toward) behind)
  refine ⟨order, same, ?_⟩
  intro ledger place fails
  obtain ⟨left, rest, falters⟩ := falters ledger place fails
  refine ⟨left, rest, ?_⟩
  rw [Falters]
  simp only [eraseRange, ends_bind, Act.ends_buffer, range, liftM_answer, ends_pure,
    if_neg nothing, Word.sub_eq ordered, liftM_ok]
  exact falters.unreturned

theorem erase_falters (wellFormed : ring.WellFormed) (resolved : ring.resolve cursor = .ok index)
    (inside : index < ring.len) (toward : End) {item : Item α}
    (here : ring.toList[index]? = some item) (fails : ledger.FailsOn item) :
    Falters (erase toward cursor) ⟨ring, ledger⟩ (ring.without index 1)
      (ledger.discarding [item]) := by
  have element : ring.resolveElement cursor = .ok index := by
    rw [resolveElement, resolved]
    exact if_neg (Nat.ne_of_lt inside)
  have doomed : ring.doomed index 1 = [item] := by
    rw [Ring.doomed, List.take_one, List.head?_drop, here]
    rfl
  obtain ⟨order, same, falters⟩ :=
    removeRange_falters toward wellFormed inside Nat.one_ne_zero rfl
  rw [doomed, List.perm_singleton] at same
  subst same
  obtain ⟨left, rest, falters⟩ := falters ledger 0 (Ledger.failsAfter_zero.mpr fails)
  have nothing : left = [] := List.perm_nil.mp rest
  rw [nothing, End.flank_nil] at falters
  rw [Falters]
  simp only [erase, ends_bind, Act.ends_buffer, element, liftM_answer, ends_pure]
  exact falters.unreturned

theorem makeRoom_falters (wellFormed : ring.WellFormed) (inside : index ≤ ring.len)
    (room : count ≤ yields.roomAt ring.capacity ring.len index)
    (fails : ledger.FailsAfter place (yields.leaving (ring.surplus count) ring.toList)) :
    Falters (makeRoom yields index count) ⟨ring, ledger⟩ (yields.trim (place + 1) ring.toList)
      (ledger.discarding ((yields.leaving (ring.surplus count) ring.toList).take (place + 1))) := by
  have word := wellFormed.capacity_double_lt_word
  have held := wellFormed.fits
  have least : count ≤ ring.capacity := by
    cases yields <;> simp only [End.roomAt] at room <;> omega
  rw [Falters]
  simp only [makeRoom, ends_bind, Act.ends_buffer, liftM_ok, ends_pure,
    Word.add_eq (show ring.len + count < Word.limit by omega)]
  exact (evict_falters wellFormed fails).unreturned

theorem not_failsAfter_surplus_zero (wellFormed : ring.WellFormed) :
    ¬ ledger.FailsAfter place (yields.leaving (ring.surplus 0) ring.toList) := by
  rw [surplus, Nat.add_zero, Nat.sub_eq_zero_of_le wellFormed.fits, yields.leaving_zero]
  exact fun fails => absurd fails.lt (Nat.not_lt_zero _)

theorem insertEntries_falters (wellFormed : ring.WellFormed) (inside : index ≤ ring.len)
    (room : count ≤ yields.roomAt ring.capacity ring.len index) (entries : List (Entry α))
    (fails : ledger.FailsAfter place (yields.leaving (ring.surplus count) ring.toList)) :
    Falters (insertEntries yields index count entries) ⟨ring, ledger⟩
      (yields.trim (place + 1) ring.toList)
      (ledger.discarding ((yields.leaving (ring.surplus count) ring.toList).take (place + 1))) := by
  have some : count ≠ 0 := by
    intro nothing
    rw [nothing] at fails
    exact not_failsAfter_surplus_zero wellFormed fails
  rw [insertEntries, if_neg some]
  exact (makeRoom_falters wellFormed inside room fails).bind

theorem insert_falters (wellFormed : ring.WellFormed) (resolved : ring.resolve cursor = .ok index)
    (inside : index ≤ ring.len) (item : Item α)
    (fails : ledger.FailsAfter place
      (yields.leaving (ring.surplus (ring.admits yields index 1)) ring.toList)) :
    Falters (insert yields cursor item) ⟨ring, ledger⟩ (yields.trim (place + 1) ring.toList)
      (ledger.discarding ((yields.leaving (ring.surplus (ring.admits yields index 1))
        ring.toList).take (place + 1) ++ [item])) := by
  have asked : (RingDeque.holding item do (← Act.buffer).resolve cursor : Act (Ring α) α Nat)
      ⟨ring, ledger⟩ = .ok index ⟨ring, ledger⟩ := by
    apply eq_ok_of_ends
    simp only [RingDeque.holding, ends_tryCatch, ends_bind, Act.ends_buffer, resolved, liftM_answer,
      ends_pure, and_self]
  have admitted : ring.admits yields index 1 ≠ 0 := by
    intro none
    rw [none] at fails
    exact not_failsAfter_surplus_zero wellFormed fails
  have one : ring.admits yields index 1 = 1 := by
    simp only [admits, End.admitted] at admitted ⊢
    omega
  have some : 1 ≤ yields.roomAt ring.capacity ring.len index := by
    simp only [admits, End.admitted] at one
    omega
  rw [one] at fails ⊢
  have making := (makeRoom_falters wellFormed inside some fails).holding item
  rw [Ledger.discarding_discarding] at making
  rw [Falters, insert, ends_bind, ends_of_ok asked]
  simp only [ends_bind, Act.ends_buffer, wellFormed.room_eq inside, liftM_ok, ends_pure,
    if_neg (Nat.ne_of_gt some)]
  exact making.unreturned

theorem insertCopies_falters (wellFormed : ring.WellFormed)
    (resolved : ring.resolve cursor = .ok index) (inside : index ≤ ring.len) (n : Nat)
    (model : Item α)
    (fails : ledger.FailsAfter place
      (yields.leaving (ring.surplus (ring.admits yields index n)) ring.toList)) :
    Falters (insertCopies yields cursor n model) ⟨ring, ledger⟩
      (yields.trim (place + 1) ring.toList)
      (ledger.discarding ((yields.leaving (ring.surplus (ring.admits yields index n))
        ring.toList).take (place + 1) ++ [model])) := by
  rw [← Ledger.discarding_discarding]
  apply Falters.consuming
  rw [Falters]
  simp only [ends_bind, Act.ends_buffer, resolved, wellFormed.room_eq inside, liftM_ok,
    liftM_answer, ends_pure]
  exact insertEntries_falters wellFormed inside (Nat.min_le_left _ _) _ fails

theorem insertFeed_falters (wellFormed : ring.WellFormed)
    (resolved : ring.resolve cursor = .ok index) (inside : index ≤ ring.len) {feed : Feed α}
    {rest : List (Entry α)}
    (skipped : Entry.skip (skips yields feed.claimed (ring.admits yields index feed.claimed))
      feed.entries ledger = .ok rest record)
    (fails : record.FailsAfter place
      (yields.leaving (ring.surplus (ring.admits yields index feed.claimed)) ring.toList)) :
    Falters (insertFeed yields cursor feed) ⟨ring, ledger⟩ (yields.trim (place + 1) ring.toList)
      (record.discarding ((yields.leaving (ring.surplus (ring.admits yields index feed.claimed))
        ring.toList).take (place + 1))) := by
  have falters := insertEntries_falters wellFormed inside (Nat.min_le_left _ _) rest fails
  rw [Falters]
  simp only [insertFeed, ends_bind, Act.ends_buffer, resolved, wellFormed.room_eq inside, liftM_ok,
    liftM_answer, ends_pure]
  cases yields with
  | front =>
      simp only [ends_bind, Act.ends_ledger, Feed.skipSurplus_eq]
      exact (ends_of_ok skipped).mpr falters
  | back =>
      cases skipped
      exact falters

theorem resize_falters (wellFormed : ring.WellFormed) (shorter : n ≤ ring.len) (model : Item α)
    (fails : ledger.FailsAfter place (yields.leaving (ring.len - n) ring.toList)) :
    Falters (resize yields n model) ⟨ring, ledger⟩ (yields.trim (place + 1) ring.toList)
      (ledger.discarding ((yields.leaving (ring.len - n) ring.toList).take (place + 1) ++
        [model])) := by
  rw [← Ledger.discarding_discarding]
  apply Falters.consuming
  rw [Falters]
  simp only [ends_bind, Act.ends_buffer, if_neg (Nat.not_lt_of_le shorter)]
  exact evict_falters wellFormed fails

/-- A destruction fails that is not the only one of an operation. Of an erasure, those survive that
were to survive, and those that had not gone yet stay beside them, at the end to which they were
carried. An insertion and a shrinking ring keep all elements but those that went so far, and no new
one comes in. -/
theorem faltering_removal (wellFormed : ring.WellFormed) :
    (∀ toward first last source target, ring.resolve first = .ok source →
      ring.resolve last = .ok target → source ≤ target → target ≤ ring.len →
      ∃ order, order.Perm (ring.doomed source (target - source)) ∧
        ∀ ledger place, ledger.FailsAfter place order →
          ∃ left, left.Perm (order.drop (place + 1)) ∧
            Falters (eraseRange toward first last) ⟨ring, ledger⟩
              ((End.shorter source (ring.len - target) toward).flank left
                (ring.toList.take source ++ ring.toList.drop target))
              (ledger.discarding (order.take (place + 1)))) ∧
    (∀ toward cursor index item (ledger : Ledger α), ring.resolve cursor = .ok index →
      ring.toList[index]? = some item → ledger.FailsOn item →
      Falters (erase toward cursor) ⟨ring, ledger⟩
        (ring.toList.take index ++ ring.toList.drop (index + 1)) (ledger.discarding [item])) ∧
    (∀ yields cursor index, ring.resolve cursor = .ok index → index ≤ ring.len →
      (∀ (item : Item α) ledger place,
        let giving := yields.leaving (ring.surplus (ring.admits yields index 1)) ring.toList
        ledger.FailsAfter place giving →
        Falters (insert yields cursor item) ⟨ring, ledger⟩ (yields.trim (place + 1) ring.toList)
          (ledger.discarding (giving.take (place + 1) ++ [item]))) ∧
      (∀ n (model : Item α) ledger place,
        let giving := yields.leaving (ring.surplus (ring.admits yields index n)) ring.toList
        ledger.FailsAfter place giving →
        Falters (insertCopies yields cursor n model) ⟨ring, ledger⟩
          (yields.trim (place + 1) ring.toList)
          (ledger.discarding (giving.take (place + 1) ++ [model]))) ∧
      ∀ (feed : Feed α) ledger rest record place,
        let count := ring.admits yields index feed.claimed
        let giving := yields.leaving (ring.surplus count) ring.toList
        Entry.skip (skips yields feed.claimed count) feed.entries ledger = .ok rest record →
        record.FailsAfter place giving →
        Falters (insertFeed yields cursor feed) ⟨ring, ledger⟩
          (yields.trim (place + 1) ring.toList)
          (record.discarding (giving.take (place + 1)))) ∧
    ∀ yields n (model : Item α) ledger place, n ≤ ring.len →
      let giving := yields.leaving (ring.len - n) ring.toList
      ledger.FailsAfter place giving →
      Falters (resize yields n model) ⟨ring, ledger⟩ (yields.trim (place + 1) ring.toList)
        (ledger.discarding (giving.take (place + 1) ++ [model])) := by
  constructor
  · intro toward first last source target firstAt lastAt ordered inside
    have falters := eraseRange_falters wellFormed firstAt lastAt ordered inside toward
    rw [without, Nat.add_sub_cancel' ordered] at falters
    exact falters
  constructor
  · intro toward cursor index item ledger resolved here fails
    have inside : index < ring.len := by
      rw [← wellFormed.length_toList]
      exact (List.getElem?_eq_some_iff.mp here).1
    exact erase_falters wellFormed resolved inside toward here fails
  constructor
  · intro yields cursor index resolved inside
    constructor
    · intro item ledger place giving fails
      exact insert_falters wellFormed resolved inside item fails
    constructor
    · intro n model ledger place giving fails
      exact insertCopies_falters wellFormed resolved inside n model fails
    · intro feed ledger rest record place count giving skipped fails
      exact insertFeed_falters wellFormed resolved inside skipped fails
  · intro yields n model ledger place shorter giving fails
    exact resize_falters wellFormed shorter model fails

/-- The first of two elements in the middle fails, and the other one stays in front of the rest; the
first element of a full ring fails where a new one was to come in behind the last; and of three
elements that are to go from the back, the second one fails. -/
theorem faltering_removal_turned :
    let blank : Ledger Nat := { Ledger.blank (.below 16) with created := 4 }
    let fragile : Ledger Nat := { blank with brittle := some fun _ => true }
    let first : Ledger Nat := { blank with brittle := some fun item => item.id == 0 }
    let third : Ledger Nat := { blank with brittle := some fun item => item.id == 2 }
    (∃ after left, eraseRange .front ⟨0, some 3, 0, 0⟩ ⟨0, some 1, 0, 0⟩ ⟨turned, fragile⟩ =
        .error (.interrupted .destructionFailed) after ∧
      left ∈ [⟨1, 20⟩, ⟨2, 30⟩] ∧ after.buffer.toList = [left, ⟨0, 10⟩, ⟨3, 40⟩]) ∧
    (∃ after, erase .back ⟨0, some 0, 0, 0⟩ ⟨turned, third⟩ =
        .error (.interrupted .destructionFailed) after ∧
      after.buffer.toList = [⟨0, 10⟩, ⟨1, 20⟩, ⟨3, 40⟩]) ∧
    (∃ after, insert .front ⟨0, none, 0, 0⟩ ⟨9, 50⟩ ⟨turned, first⟩ =
        .error (.interrupted .destructionFailed) after ∧
      after.buffer.toList = [⟨1, 20⟩, ⟨2, 30⟩, ⟨3, 40⟩] ∧
      after.ledger.destroyed = [⟨9, 50⟩, ⟨0, 10⟩]) ∧
    ∃ after, resize .back 1 ⟨9, 70⟩ ⟨turned, third⟩ =
        .error (.interrupted .destructionFailed) after ∧
      after.buffer.toList = [⟨0, 10⟩, ⟨1, 20⟩] ∧
      after.ledger.destroyed = [⟨9, 70⟩, ⟨2, 30⟩, ⟨3, 40⟩] := by
  intro blank fragile first third
  -- As long as the ring is a variable, no step of the proof runs the operations on it.
  obtain ⟨ring, same⟩ : ∃ ring, ring = turned := ⟨_, rfl⟩
  have wellFormed : ring.WellFormed := same ▸ turned_wellFormed
  have listed : ring.toList = [⟨0, 10⟩, ⟨1, 20⟩, ⟨2, 30⟩, ⟨3, 40⟩] := same ▸ turned_toList
  have length : ring.len = 4 := by rw [same]; rfl
  have size : ring.capacity = 4 := by rw [same]; rfl
  obtain ⟨ranges, elements, insertions, shrinks⟩ := faltering_removal wellFormed
  rw [← same]
  refine ⟨?_, ?_, ?_, ?_⟩
  · obtain ⟨order, doomed, falters⟩ := ranges .front ⟨0, some 3, 0, 0⟩ ⟨0, some 1, 0, 0⟩ 1 3
      (by rw [same]; rfl) (by rw [same]; rfl) (by decide) (by rw [length]; decide)
    rw [Ring.doomed, listed] at doomed
    have counted : order.length = 2 := doomed.length_eq
    obtain ⟨going, staying, rfl⟩ : ∃ going staying, order = [going, staying] :=
      List.length_eq_two.mp counted
    obtain ⟨left, rest, falters⟩ := falters fragile 0 (Ledger.failsAfter_zero.mpr ⟨_, rfl, rfl⟩)
    have alone : left = [staying] := List.perm_singleton.mp rest
    obtain ⟨after, ran, becomes⟩ := falters.interrupted
    refine ⟨_, staying, ran, doomed.mem_iff.mp (by simp), ?_⟩
    rw [becomes.toList, alone, listed, length]
    rfl
  · obtain ⟨after, ran, becomes⟩ := (elements .back ⟨0, some 0, 0, 0⟩ 2 ⟨2, 30⟩ third
      (by rw [same]; rfl) (by rw [listed]; rfl) ⟨_, rfl, rfl⟩).interrupted
    exact ⟨_, ran, by rw [becomes.toList, listed]; rfl⟩
  · obtain ⟨single, -⟩ := insertions .front ⟨0, none, 0, 0⟩ 4 (by rw [same]; rfl)
      (by rw [length])
    have one : ring.surplus (ring.admits .front 4 1) = 1 := by
      rw [surplus, admits, length, size]
      rfl
    have falters := single ⟨9, 50⟩ first 0
    rw [one, listed] at falters
    obtain ⟨after, ran, becomes⟩ :=
      (falters (Ledger.failsAfter_zero.mpr ⟨_, rfl, rfl⟩)).interrupted
    exact ⟨_, ran, becomes.toList, rfl⟩
  · have falters := shrinks .back 1 ⟨9, 70⟩ third 1 (by rw [length]; decide)
    rw [length, listed] at falters
    have lasting : ¬ third.FailsOn ⟨3, 40⟩ := by
      simp [third, Ledger.FailsOn]
    obtain ⟨after, ran, becomes⟩ := (falters (Ledger.failsAfter_succ.mpr
      ⟨lasting, Ledger.failsAfter_zero.mpr ⟨_, rfl, rfl⟩⟩)).interrupted
    exact ⟨_, ran, becomes.toList, rfl⟩

end Ring

end RingDeque
