import RingDeque.Proofs.Ring.Housing
import RingDeque.Proofs.Ring.Supplying
import RingDeque.Ring.Replacement

/-!
Making rings.

A new ring has an identity that no ring had before. If its elements cannot all be made, those that
were are discarded with it. Only a ring that is complete when the destruction of its prototype fails
is lost together with its elements.
-/

namespace RingDeque.Ring

open Effect

variable {α β γ : Type} {origin ledger next : Ledger α} {owned : Multiset Nat} {ring : Ring α}
  {model : Item α} {items : List (Item α)} {breaks : Prop} {refuses : Error → Prop}
  {capacity : Nat} {written : Prop}

/-- A new ring whose elements are afloat. -/
structure Made (origin : Ledger α) (owned : Multiset Nat) (ring : Ring α) (ledger : Ledger α) :
    Prop where
  wellFormed : ring.WellFormed
  fresh : origin.rings ≤ ring.registry.owner
  known : ring.registry.owner < ledger.rings
  keeps : origin.Keeps (ids ring.toList + owned) ledger

/-- An operation that halted for a reason and holds on to nothing. -/
structure Fails (origin : Ledger α) (breaks : Prop) (refuses : Error → Prop) (owned : Multiset Nat)
    (halt : Halt) (ledger : Ledger α) : Prop where
  due : origin.Due breaks refuses halt
  keeps : origin.Keeps owned ledger

theorem Fails.mono {moreBreaks : Prop} {halt : Halt} (fails : Fails origin breaks refuses owned halt ledger)
    (breaking : breaks → moreBreaks) : Fails origin moreBreaks refuses owned halt ledger :=
  ⟨fails.due.mono breaking fun _ => id, fails.keeps⟩

/-- A new ring as the origin of what is done with it next. -/
theorem Made.sound (made : Made origin owned ring ledger) :
    Sound written ⟨ring, ledger⟩ owned ring ledger :=
  ⟨made.wellFormed, .refl ring, .refl ledger, made.keeps.balanced⟩

/-- What was done with a new ring leaves a new ring. -/
theorem Made.of_sound {after : Ring α} (made : Made origin owned ring ledger)
    (sound : Sound written ⟨ring, ledger⟩ owned after next) : Made origin owned after next where
  wellFormed := sound.wellFormed
  fresh := by
    rw [sound.ages.owner]
    exact made.fresh
  known := by
    rw [sound.ages.owner]
    exact Nat.lt_of_lt_of_le made.known sound.follows.rings
  keeps := sound.keeps.since made.keeps.follows

theorem empty_ends (keeps : origin.Keeps owned ledger) {halts : Halt → Ledger α → Prop} :
    Ends Ring.empty ledger (fun ring after => Made origin owned ring after ∧ ring.toList = [])
      halts := by
  simp only [Ring.empty, Registry.issue, ends_bind, ends_pure]
  refine (Ledger.identify_ends keeps).mono ?_ fun _ _ => id
  intro owner after ended
  obtain ⟨fresh, known, kept⟩ := ended
  obtain ⟨valid, listed⟩ := wellFormed_of_vacant
    { block := .empty, start := 0, len := 0
      registry := ⟨owner, 0, 0, .empty⟩ }
    ⟨show 0 < max _ 1 by omega, rfl⟩ rfl
    fun slot => Block.get?_eq_none_of_le (Nat.zero_le _)
  exact ⟨⟨valid, fresh, known, by simpa [listed] using kept⟩, listed⟩

theorem new_ends (breaks : Prop) (refuses : Error → Prop) (keeps : origin.Keeps owned ledger)
    (capacity : Nat) (scarce : origin.Scarce capacity → refuses (.allocationFailed capacity)) :
    Ends (Ring.new capacity) ledger
      (fun ring after => Made origin owned ring after ∧ ring.capacity = capacity ∧
        ring.toList = [])
      (Fails origin breaks refuses owned) := by
  simp only [Ring.new, Registry.issue, ends_bind, ends_pure]
  apply Ledger.ends_allocating
  · intro _ block stamps sized vacant counted
    refine (Ledger.identify_ends keeps).mono ?_ fun _ _ => id
    intro owner after ended
    obtain ⟨fresh, known, kept⟩ := ended
    obtain ⟨valid, listed⟩ := wellFormed_of_vacant
      { block, start := 0, len := 0, registry := ⟨owner, 0, 0, stamps⟩ }
      ⟨show 0 < max _ 1 by omega, counted.trans sized.symm⟩ rfl vacant
    exact ⟨⟨valid, fresh, known, by simpa [listed] using kept⟩, sized, listed⟩
  · intro lacking
    rw [keeps.scarce] at lacking
    exact ⟨.refusal (scarce lacking), keeps⟩

/-- An operation that halted for a reason, or for want of an allocation that it took for granted. -/
structure Thwarts (origin : Ledger α) (purpose : Purpose) (capacity : Nat) (owned : Multiset Nat)
    (halt : Halt) (ledger : Ledger α) : Prop where
  due : origin.Due False (fun _ => False) halt ∨ origin.Unexpected purpose capacity halt
  keeps : origin.Keeps owned ledger

theorem Thwarts.orderly {purpose : Purpose} {halt : Halt}
    (thwarts : Thwarts origin purpose capacity owned halt ledger) : halt.Orderly := by
  rcases thwarts.due with due | ⟨rfl, -⟩
  · exact due.orderly
  · trivial

/-- A ring around existing elements. For want of counters the elements go. -/
theorem ofItems_ends (keeps : origin.Keeps (ids items + owned) ledger) :
    Ends (ofItems items) ledger
      (fun ring after => Made origin owned ring after ∧ ring.capacity = items.length ∧
        ring.toList = items)
      (Thwarts origin .stamps items.length owned) := by
  simp only [ofItems, Registry.issue, ends_bind, ends_tryCatch, ends_expecting, ends_pure]
  apply Ledger.ends_stamps
  · intro _ bounded stamps counted
    refine (Ledger.identify_ends keeps).mono ?_ fun _ _ => id
    intro owner after ended
    obtain ⟨fresh, known, kept⟩ := ended
    have inWords : items.length < Word.limit := Nat.lt_trans bounded (by decide)
    obtain ⟨block, held, sized, contents⟩ := Block.ofList_exists inWords
    simp only [held, liftM_ok, ends_pure]
    obtain ⟨valid, listed⟩ := wellFormed_of_slots
      { block, start := 0, len := items.length, registry := ⟨owner, 0, 0, stamps⟩ }
      items rfl rfl sized.symm.le (counted.trans sized.symm) fun slot _ => contents slot
    exact ⟨⟨valid, fresh, known, by simpa [listed] using kept⟩, sized, listed⟩
  · intro lacking
    rw [keeps.scarce] at lacking
    simp only [Ledger.discard, ends_modify, ends_throw]
    exact ⟨.inr ⟨rfl, lacking⟩, keeps.discarding⟩

/-- Building a buffer discards what it has taken in if it halts. -/
theorem building_ends (written : Prop) (inside : β → Ring α) (good : β → Prop) {initial : β} {act : Act β α Unit}
    (made : Made origin owned (inside initial) ledger)
    (ends : Ends act ⟨initial, ledger⟩
      (fun _ after => Sound written ⟨inside initial, ledger⟩ owned (inside after.buffer) after.ledger ∧
        good after.buffer)
      fun halt after => Stops written ⟨inside initial, ledger⟩ breaks refuses owned halt
        (inside after.buffer) after.ledger) :
    Ends (building initial (fun buffer => (inside buffer).contents) act) ledger
      (fun buffer after => Made origin owned (inside buffer) after ∧ good buffer)
      (Fails origin breaks refuses owned) := by
  unfold Ends at ends
  simp only [building, Ends]
  cases outcome : act ⟨initial, ledger⟩ with
  | ok _ after =>
      rw [outcome] at ends
      exact ⟨made.of_sound ends.1, ends.2⟩
  | error halt after =>
      rw [outcome] at ends
      simp only [ends.sound.wellFormed.contents_eq, liftM_ok]
      exact ⟨ends.due.since made.keeps.follows,
        (ends.sound.keeps.since made.keeps.follows).discarding⟩

/-- Filling a new ring keeps the last elements that fit. -/
theorem filling_ends (refuses : Error → Prop) (made : Made origin owned ring ledger)
    (listed : ring.toList = []) (entries : List (Entry α)) :
    Ends (building ring contents (extend entries)) ledger
      (fun filled after => Made origin owned filled after ∧ filled.capacity = ring.capacity ∧
        ∃ new, entries.map Entry.value? = new.map (some ·.value) ∧
          filled.toList = End.kept ring.capacity new)
      (Fails origin (.breaks ∈ entries) refuses owned) := by
  refine building_ends False (fun ring => ring) _ made ?_
  refine (extend_ends _ made.sound entries).mono ?_ fun _ _ => id
  intro _ after ended
  obtain ⟨new, values, leaves⟩ := ended
  simp only [listed, List.nil_append] at leaves
  exact ⟨leaves.sound, leaves.sized, new, values, leaves.toList⟩

/-- A ring of the last elements of a supply that fit. -/
theorem ofSupply_ends (refuses : Error → Prop) (keeps : origin.Keeps owned ledger)
    (capacity : Nat) (supply : Supply α)
    (scarce : origin.Scarce capacity → refuses (.allocationFailed capacity)) :
    Ends (ofSupply capacity supply) ledger
      (fun ring after => Made origin owned ring after ∧ ring.capacity = capacity ∧
        ∃ new, supply.entries.map Entry.value? = new.map (some ·.value) ∧
          ring.toList = End.kept capacity new)
      (Fails origin (.breaks ∈ supply.entries) refuses owned) := by
  simp only [ofSupply, ends_bind]
  refine (new_ends _ _ keeps capacity scarce).mono ?_ fun _ _ => id
  intro ring middle ended
  obtain ⟨made, rfl, listed⟩ := ended
  exact filling_ends refuses made listed supply.entries

/-- A ring of copies of the same elements, in a block of the same size. -/
theorem duplicate_ends (keeps : origin.Keeps owned ledger) (wellFormed : ring.WellFormed) :
    Ends ring.duplicate ledger
      (fun copy after => Made origin owned copy after ∧ copy.capacity = ring.capacity ∧
        copy.toList.map Item.value = ring.toList.map Item.value)
      (Thwarts origin .duplicate ring.capacity owned) := by
  have fits := wellFormed.fits
  have length := wellFormed.length_toList
  simp only [duplicate, wellFormed.contents_eq, liftM_ok, ends_bind, ends_pure, ends_expecting]
  refine (new_ends False (fun error => error = .allocationFailed ring.capacity ∧
    origin.Scarce ring.capacity) keeps ring.capacity fun lacking => ⟨rfl, lacking⟩).mono ?_ ?_
  · intro copy middle ended
    obtain ⟨made, sized, listed⟩ := ended
    refine (filling_ends (fun _ => False) made listed (ring.toList.map .copyOf)).mono ?_ ?_
    · intro filled after ended
      obtain ⟨finished, same, new, values, kept⟩ := ended
      have copied : new.map Item.value = ring.toList.map Item.value := by
        have mapped := congrArg (List.filterMap id) values
        simpa [Entry.value?, List.filterMap_map, Function.comp_def] using mapped.symm
      have newLength : new.length = ring.len := by
        rw [← length]
        simpa using congrArg List.length copied
      rw [kept, sized, End.kept_of_le (by omega)]
      exact ⟨finished, same.trans sized, copied⟩
    · intro halt after fails
      exact ⟨.inl (fails.due.mono (by simp) fun _ => id), fails.keeps⟩
  · intro halt after fails
    obtain ⟨due, kept⟩ := fails
    cases due with
    | copy armed => exact ⟨.inl (.copy armed), kept⟩
    | destruction armed => exact ⟨.inl (.destruction armed), kept⟩
    | source broken => exact broken.elim
    | refusal refused =>
        obtain ⟨rfl, lacking⟩ := refused
        exact ⟨.inr ⟨rfl, lacking⟩, kept⟩

/-- An operation that halted for a reason, possibly with a finished ring lost: then the destruction
of the prototype failed. -/
structure Loses (origin : Ledger α) (breaks : Prop) (refuses : Error → Prop) (model : Item α)
    (owned : Multiset Nat) (halt : Halt) (ledger : Ledger α) : Prop where
  due : origin.Due breaks refuses halt
  keeps : ∃ lost, origin.Keeps (lost + owned) ledger ∧
    (lost = 0 ∨ ∃ fails, origin.brittle = some fails ∧ fails model = true)

/-- Making a ring after a prototype, which is destroyed at last. -/
theorem consuming_made (inside : γ → Ring α) (good : γ → Prop) {act : Effect (Ledger α) γ}
    (ends : Ends act ledger
      (fun made after => Made origin ({model.id} + owned) (inside made) after ∧ good made)
      (Fails origin breaks refuses ({model.id} + owned))) :
    Ends (consuming model act) ledger
      (fun made after => Made origin owned (inside made) after ∧ good made)
      (Loses origin breaks refuses model owned) := by
  simp only [consuming, holding, ends_bind, ends_tryCatch, ends_pure]
  refine ends.mono ?_ ?_
  · intro value after ended
    obtain ⟨made, found⟩ := ended
    have held : after.Keeps ({model.id} + (ids (inside value).toList + owned)) after :=
      ⟨.refl after, by
        have balanced := made.keeps.balanced
        rwa [add_left_comm] at balanced⟩
    refine (Ledger.destroy_ends held).mono ?_ ?_
    · intro _ final kept
      exact ⟨⟨made.wellFormed, made.fresh, Nat.lt_of_lt_of_le made.known kept.follows.rings,
        kept.since made.keeps.follows⟩, found⟩
    · intro halt final stopped
      obtain ⟨rfl, ⟨fails, armed, failing⟩, kept⟩ := stopped
      have known := made.keeps.brittle_of_ne armed
      exact ⟨Ledger.due_of_brittle known, _, kept.since made.keeps.follows,
        .inr ⟨fails, known, failing⟩⟩
  · intro halt after stopped
    obtain ⟨due, kept⟩ := stopped
    cases halt with
    | refused error =>
        simp only [liftM_self, ends_bind, ends_refuse]
        refine (Ledger.destroy_ends kept).mono ?_ ?_
        · intro _ final finalKept
          exact ⟨due, 0, by simpa using finalKept, .inl rfl⟩
        · intro halt final stopped
          obtain ⟨rfl, ⟨fails, armed, -⟩, finalKept⟩ := stopped
          exact ⟨Ledger.due_of_brittle armed, 0, by simpa using finalKept, .inl rfl⟩
    | interrupted cause =>
        simp only [liftM_self, Ledger.discard, ends_bind, ends_modify, ends_throw]
        have gone : origin.Keeps owned (after.discarding [model]) :=
          Ledger.Keeps.discarding (by simpa using kept)
        exact ⟨due, 0, by simpa using gone, .inl rfl⟩
    | fault fault => exact due.orderly.elim

theorem filled_ends (keeps : origin.Keeps ({model.id} + owned) ledger) (capacity : Nat)
    (scarce : origin.Scarce capacity → refuses (.allocationFailed capacity)) :
    Ends (filled capacity model) ledger
      (fun ring after => Made origin owned ring after ∧ ring.capacity = capacity)
      (Loses origin False refuses model owned) := by
  refine consuming_made (fun ring => ring) _ ?_
  refine (ofSupply_ends refuses keeps capacity (.copies model capacity) scarce).mono ?_ ?_
  · intro ring after ended
    obtain ⟨made, sized, -⟩ := ended
    exact ⟨made, sized⟩
  · intro halt after fails
    exact fails.mono fun member => by cases List.eq_of_mem_replicate member

theorem WellFormed.destroy_eq (wellFormed : ring.WellFormed) :
    ring.destroy = Ledger.destroyRun ring.toList := by
  obtain ⟨front, back, read, parts⟩ := wellFormed.runs_exists
  simp only [destroy, read, liftM_ok, pure_bind, Ledger.destroyRuns_eq, parts]

theorem destroy_ends (keeps : origin.Keeps (ids ring.toList + owned) ledger)
    (wellFormed : ring.WellFormed) :
    Ends ring.destroy ledger (fun _ after => origin.Keeps owned after)
      (Fails origin breaks refuses owned) := by
  rw [wellFormed.destroy_eq]
  exact (Ledger.destroyRun_ends keeps).mono (fun _ _ => id)
    fun _ _ stopped => ⟨stopped.1, stopped.2⟩

/-- What an action leaves of a ring is destroyed as one run, or discarded if the action halts. -/
theorem ends_spending {act : Act (Ring α) α γ} {returns : γ → Ledger α → Prop}
    {halts : Halt → Ledger α → Prop}
    (ends : Ends act ⟨ring, ledger⟩
      (fun value after => after.buffer.WellFormed ∧
        Ends (Ledger.destroyRun after.buffer.toList) after.ledger (fun _ => returns value) halts)
      fun halt after => after.buffer.WellFormed ∧
        halts halt (after.ledger.discarding after.buffer.toList)) :
    Ends (spending ring runs act) ledger returns halts := by
  rw [Act.ends_spending]
  apply ends.mono
  · intro value after left
    obtain ⟨wellFormed, destroyed⟩ := left
    obtain ⟨front, back, read, parts⟩ := wellFormed.runs_exists
    rw [← parts] at destroyed
    simp only [read, liftM_ok, ends_bind, ends_pure]
    exact destroyed
  · intro halt after left
    obtain ⟨wellFormed, stopped⟩ := left
    obtain ⟨front, back, read, parts⟩ := wellFormed.runs_exists
    rw [← parts] at stopped
    simp only [read, liftM_ok, ends_bind, Ledger.discard, ends_modify, ends_throw]
    exact stopped

end RingDeque.Ring
