import RingDeque.Proofs.Ring.Soundness

/-!
Evicting elements, and filling a ring from a supply.

Both take the elements one by one, so each can be cut short with the work half done.
-/

namespace RingDeque

namespace End

variable {β : Type} {items rest : List β} {capacity : Nat}

/-- The last entries of a list, as many as fit. -/
def kept (capacity : Nat) (items : List β) : List β :=
  End.front.trim (items.length - capacity) items

theorem kept_of_le (fits : items.length ≤ capacity) : kept capacity items = items := by
  rw [kept, Nat.sub_eq_zero_of_le fits, trim_zero]

theorem kept_append : kept capacity (kept capacity items ++ rest) = kept capacity (items ++ rest) := by
  simp only [kept, trim, List.length_append, List.length_drop]
  by_cases long : capacity ≤ items.length
  · have first : items.length - (items.length - capacity) = capacity := by omega
    rw [← List.drop_append_of_le_length (by omega), List.drop_drop]
    congr 1
    omega
  · rw [Nat.sub_eq_zero_of_le (show items.length ≤ capacity by omega), List.drop_zero,
      Nat.sub_zero]

/-- Pushing at the back keeps the last entries that fit. -/
theorem pushed_back_eq {item : β} (fits : items.length ≤ capacity) :
    (End.back.pushed capacity items item).2 = kept capacity (items ++ [item]) := by
  simp only [pushed, kept, opposite, trim, attach, List.length_append, List.length_singleton]
  by_cases none : capacity = 0
  · have nothing : items = [] := List.eq_nil_of_length_eq_zero (by omega)
    rw [if_pos none, none, nothing]
    rfl
  rw [if_neg none]
  by_cases room : items.length < capacity
  · rw [if_pos room, Nat.sub_eq_zero_of_le (by omega), List.drop_zero]
  · have surplus : items.length + 1 - capacity = 1 := by omega
    rw [if_neg room, surplus, List.drop_append_of_le_length (by omega)]

end End

namespace Ring

open Effect

variable {α : Type} {written : Prop} {origin before : Tracked (Ring α) α}
  {owned further : Multiset Nat} {ring : Ring α} {ledger : Ledger α} {item : Item α}
  {items rest : List (Item α)} {refuses : Error → Prop} {capacity : Nat} {side : End}

/-- A ring and a ledger that agree, with the capacity and the contents of the ring. -/
structure Leaves (written : Prop) (origin : Tracked (Ring α) α) (owned : Multiset Nat)
    (capacity : Nat) (items : List (Item α)) (ring : Ring α) (ledger : Ledger α) : Prop where
  sound : Sound written origin owned ring ledger
  sized : ring.capacity = capacity
  toList : ring.toList = items

theorem Leaves.len (leaves : Leaves written origin owned capacity items ring ledger) :
    ring.len = items.length := by
  rw [← leaves.toList, leaves.sound.wellFormed.length_toList]

theorem Leaves.refl (sound : Sound written origin owned ring ledger) :
    Leaves written origin owned ring.capacity ring.toList ring ledger :=
  ⟨sound, rfl, rfl⟩

/-- Popping leaves the element to whoever runs the operation. -/
theorem pop_ends (sound : Sound written origin owned before.buffer before.ledger) (side : End)
    {halts : Halt → Tracked (Ring α) α → Prop} :
    Ends (Act.update (pop side)) before
      (fun popped after =>
        popped = side.last? before.buffer.toList ∧
        Leaves written origin (ids popped.toList + owned) before.buffer.capacity
          (side.trim 1 before.buffer.toList) after.buffer after.ledger) halts := by
  obtain ⟨after, stepped, becomes⟩ := pop_exists sound.wellFormed side
  rw [Act.ends_update stepped]
  refine ⟨rfl, sound.turn becomes.turnsInto ?_, becomes.capacity, becomes.toList⟩
  simp only [End.popped]
  cases last : side.last? before.buffer.toList with
  | none =>
      rw [(side.last?_eq_none_iff _).mp last, side.trim_nil]
      simp
  | some item =>
      rw [ids_perm (End.perm_of_last? last)]
      simp only [ids_cons, Option.toList_some, ids_nil]
      abel

/-- Pushing exchanges the element that comes in for the one that goes out. -/
theorem push_ends (sound : Sound written origin ({item.id} + owned) before.buffer before.ledger)
    (side : End) {halts : Halt → Tracked (Ring α) α → Prop} :
    Ends (Act.update (push side · item)) before
      (fun evicted after =>
        evicted = (side.pushed before.buffer.capacity before.buffer.toList item).1 ∧
        Leaves written origin (ids evicted.toList + owned) before.buffer.capacity
          (side.pushed before.buffer.capacity before.buffer.toList item).2
          after.buffer after.ledger) halts := by
  obtain ⟨after, stepped, becomes⟩ := push_exists sound.wellFormed side item
  rw [Act.ends_update stepped]
  refine ⟨rfl, sound.turn becomes.turnsInto ?_, becomes.capacity, becomes.toList⟩
  have fits := sound.wellFormed.fits
  have length := sound.wellFormed.length_toList
  simp only [End.pushed, length]
  split
  · simp only [Option.toList_some, ids_cons, ids_nil]
    abel
  · split
    · rw [ids_perm (side.perm_attach _ _)]
      simp only [Option.toList_none, ids_cons, ids_nil]
      abel
    · rw [ids_perm (side.perm_attach _ _)]
      cases last : side.opposite.last? before.buffer.toList with
      | none =>
          rw [(side.opposite.last?_eq_none_iff _).mp last, List.length_nil] at length
          omega
      | some old =>
          rw [ids_perm (End.perm_of_last? last)]
          simp only [Option.toList_some, ids_cons, ids_nil]
          abel

theorem evict_ends (sound : Sound written origin owned before.buffer before.ledger) (side : End)
    (count : Nat) {breaks : Prop} :
    Ends (evict side count) before
      (fun _ after => Leaves written origin owned before.buffer.capacity
        (side.trim count before.buffer.toList) after.buffer after.ledger)
      (fun halt after =>
        Stops written origin breaks refuses owned halt after.buffer after.ledger) := by
  induction count generalizing before with
  | zero =>
      simp only [evict, ends_pure, side.trim_zero]
      exact .refl sound
  | succ count ih =>
      simp only [evict, ends_bind]
      refine (pop_ends sound side).mono ?_ fun _ _ => id
      intro popped middle ended
      obtain ⟨rfl, leaves⟩ := ended
      cases last : side.last? before.buffer.toList with
      | none =>
          rw [last] at leaves
          simp only [ends_pure]
          have nothing := (side.last?_eq_none_iff _).mp last
          rw [nothing, side.trim_nil] at leaves ⊢
          exact ⟨leaves.sound.of_eq (by simp), leaves.sized, leaves.toList⟩
      | some item =>
          rw [last] at leaves
          simp only [ends_bind, Act.ends_ledger]
          have held : Sound written origin ({item.id} + owned) middle.buffer middle.ledger :=
            leaves.sound.of_eq (by simp)
          refine held.destroy_ends.mono ?_ fun _ _ => id
          intro _ ledger gone
          refine (ih gone).mono ?_ fun _ _ => id
          intro _ after final
          simp only [leaves.sized, leaves.toList, side.trim_trim] at final
          rw [Nat.add_comm count 1]
          exact final

/-- One turn of `extend`. -/
def takeIn (entry : Entry α) : Act (Ring α) α Unit := do
  let item ← entry.produce
  match ← Act.update (pushBack · item) with
  | none => return
  | some evicted => Ledger.destroy evicted

theorem extend_cons (entry : Entry α) (rest : List (Entry α)) :
    extend (entry :: rest) = takeIn entry >>= fun _ => extend rest := by
  simp only [extend, takeIn, bind_assoc]
  congr 1
  funext item
  congr 1
  funext pushed
  cases pushed <;> simp only [pure_bind]

/-- An entry that is taken in comes last, and the first element makes room for it in a full ring. -/
theorem takeIn_ends (refuses : Error → Prop)
    (sound : Sound written origin owned before.buffer before.ledger) (entry : Entry α) :
    Ends (takeIn entry) before
      (fun _ after => ∃ item : Item α, entry.value? = some item.value ∧
        Leaves written origin owned before.buffer.capacity
          (End.kept before.buffer.capacity (before.buffer.toList ++ [item]))
          after.buffer after.ledger)
      (fun halt after =>
        Stops written origin (entry = .breaks) refuses owned halt after.buffer after.ledger) := by
  have fits : before.buffer.toList.length ≤ before.buffer.capacity :=
    sound.wellFormed.length_toList ▸ sound.wellFormed.fits
  simp only [takeIn, ends_bind, Act.ends_ledger]
  refine (Entry.produce_ends refuses sound.keeps).mono ?_ ?_
  · intro item ledger ended
    obtain ⟨value, keeps⟩ := ended
    have held : Sound written origin ({item.id} + owned) before.buffer ledger :=
      sound.step (keeps.of_eq (by abel))
    refine (push_ends held .back).mono ?_ fun _ _ => id
    intro evicted middle ended
    obtain ⟨-, leaves⟩ := ended
    have listed := leaves.toList
    rw [End.pushed_back_eq fits] at listed
    cases evicted with
    | none => exact ⟨item, value, leaves.sound.of_eq (by simp), leaves.sized, listed⟩
    | some old =>
        have owns : Sound written origin ({old.id} + owned) middle.buffer middle.ledger :=
          leaves.sound.of_eq (by simp)
        simp only [Act.ends_ledger]
        refine owns.destroy_ends.mono ?_ fun _ _ => id
        intro _ ledger gone
        exact ⟨item, value, gone, leaves.sized, listed⟩
  · intro halt ledger stopped
    obtain ⟨due, keeps⟩ := stopped
    exact ⟨due, sound.step keeps⟩

theorem extend_ends (refuses : Error → Prop)
    (sound : Sound written origin owned before.buffer before.ledger) (entries : List (Entry α)) :
    Ends (extend entries) before
      (fun _ after => ∃ new, entries.map Entry.value? = new.map (some ·.value) ∧
        Leaves written origin owned before.buffer.capacity
          (End.kept before.buffer.capacity (before.buffer.toList ++ new)) after.buffer after.ledger)
      (fun halt after =>
        Stops written origin (.breaks ∈ entries) refuses owned halt after.buffer after.ledger) := by
  induction entries generalizing before with
  | nil =>
      have fits := sound.wellFormed.fits
      simp only [extend, ends_pure]
      refine ⟨[], rfl, ?_⟩
      rw [List.append_nil, End.kept_of_le (by rw [sound.wellFormed.length_toList]; exact fits)]
      exact .refl sound
  | cons entry rest ih =>
      rw [extend_cons, ends_bind]
      refine (takeIn_ends refuses sound entry).mono ?_ ?_
      · intro _ middle ended
        obtain ⟨item, value, leaves⟩ := ended
        refine (ih leaves.sound).mono ?_ ?_
        · intro _ after ended
          obtain ⟨new, values, final⟩ := ended
          refine ⟨item :: new, by simp [value, values], ?_⟩
          rw [leaves.sized, leaves.toList, End.kept_append, List.append_assoc,
            List.singleton_append] at final
          exact final
        · intro halt after stops
          exact stops.mono (List.mem_cons_of_mem _) fun _ => id
      · intro halt middle stops
        exact stops.mono (fun same => same ▸ List.mem_cons_self) fun _ => id

end Ring

end RingDeque
