import RingDeque.Proofs.Session.Contents
import RingDeque.Proofs.Session.Running

/-!
Edits as operations on a session.

An edit of the buffer under a number gets the reply that its contents let expect, and leaves the
contents expected, unless something hinders it.
-/

namespace RingDeque.Session

open Effect
open RingDeque.Ring (Sound Stops)

variable {α γ : Type} {written : Prop} {origin : Tracked (Buffer α) α} {owned : Multiset Nat}
  {contents changed : Contents α} {session : Session α} {number index : Nat} {buffer : Buffer α}
  {expected : Reply α × Contents α} {broken scarce : Prop}

/-- The outcome of a command stands for an expected reply. -/
def Outcome.Means (expected : Reply α) (ring : Ring α) : Outcome α → Prop
  | .reply answer => expected = answer
  | .cursor issued => Buffer.Names expected issued ring

/-- The buffer under a number has come to given contents. -/
structure Reaches (origin : Tracked (Buffer α) α) (broken : Prop) (contents : Contents α)
    (number : Nat) (later : Buffer α) (after : Session α) : Prop where
  found : after.buffer? number = some later
  unbroken : ¬ broken
  arrives : Buffer.Arrives origin contents ⟨later, after.ledger⟩

/-- A stop that is the expected reply, or that comes from something which hinders the operation. -/
def Excused (origin : Tracked (Buffer α) α) (broken scarce : Prop)
    (expected : Reply α × Contents α) (number : Nat) (stop : Stop) (after : Session α) : Prop :=
  ∃ halt, stop = .halted halt ∧
    (expected.1 = .halted halt ∧
        (∃ later, Reaches origin broken expected.2 number later after) ∨
      origin.buffer.Hinders broken scarce origin.ledger halt)

/-- A command that comes to what is expected. -/
def Meets (origin : Tracked (Buffer α) α) (broken scarce : Prop)
    (expected : Reply α × Contents α) (number : Nat) (act : Move α (Outcome α))
    (session : Session α) : Prop :=
  Ends act session
    (fun outcome after => ∃ later, Reaches origin broken expected.2 number later after ∧
      outcome.Means expected.1 later.ring)
    (Excused origin broken scarce expected number)

theorem reaches_self (found : session.buffer? number = some buffer) (unbroken : ¬ broken)
    (shows : buffer.Shows contents) :
    Reaches ⟨buffer, session.ledger⟩ broken contents number buffer session :=
  ⟨found, unbroken, shows, rfl, .refl _⟩

theorem Reaches.since {later : Buffer α} {after : Session α} {earlier ledger : Ledger α}
    (reaches : Reaches ⟨buffer, ledger⟩ broken contents number later after)
    (follows : earlier.Follows ledger) :
    Reaches ⟨buffer, earlier⟩ broken contents number later after :=
  ⟨reaches.found, reaches.unbroken, reaches.arrives.shows, reaches.arrives.kind,
    follows.trans reaches.arrives.follows⟩

theorem making_delivers {act : Item α → Act (Buffer α) α γ} {good : γ → Ring α → Prop} {value : α}
    (sound : Sound written ⟨origin.buffer.ring, origin.ledger⟩ owned origin.buffer.ring
      origin.ledger)
    (next : ∀ item ledger, item.value = value →
      Sound written ⟨origin.buffer.ring, origin.ledger⟩ ({item.id} + owned) origin.buffer.ring
        ledger →
      Buffer.Delivers origin broken scarce contents good (act item) ⟨origin.buffer, ledger⟩) :
    Buffer.Delivers origin broken scarce contents good (do act (← Ledger.make value)) origin := by
  simp only [Buffer.Delivers, ends_bind, Act.ends_ledger]
  exact (sound.make_ends value).mono (fun item ledger made => next item ledger made.1 made.2)
    fun _ _ => id

theorem onBuffer_meets {act : Act (Buffer α) α γ} {good : γ → Ring α → Prop}
    {rest : γ → Move α (Outcome α)} (found : session.buffer? number = some buffer)
    (delivers : Buffer.Delivers ⟨buffer, session.ledger⟩ broken scarce changed good act
      ⟨buffer, session.ledger⟩)
    (next : ∀ value later after, good value later.ring →
      Reaches ⟨buffer, session.ledger⟩ broken changed number later after →
      Ends (rest value) after
        (fun outcome after => ∃ later,
          Reaches ⟨buffer, session.ledger⟩ broken expected.2 number later after ∧
            outcome.Means expected.1 later.ring)
        (Excused ⟨buffer, session.ledger⟩ broken scarce expected number)) :
    Meets ⟨buffer, session.ledger⟩ broken scarce expected number
      (do rest (← onBuffer number act)) session := by
  rw [Meets, ends_bind]
  refine (ends_onBuffer found).mpr (Ends.mono delivers ?_ ?_)
  · intro value after ended
    obtain ⟨obtained, unbroken, arrives⟩ := ended
    exact next value after.buffer _ obtained ⟨buffer?_withBuffer_self, unbroken, arrives⟩
  · intro halt after hinders
    exact ⟨halt, rfl, .inr hinders⟩

theorem doing_meets {act : Act (Buffer α) α Unit} {good : Unit → Ring α → Prop}
    (found : session.buffer? number = some buffer)
    (delivers : Buffer.Delivers ⟨buffer, session.ledger⟩ broken scarce changed good act
      ⟨buffer, session.ledger⟩) :
    Meets ⟨buffer, session.ledger⟩ broken scarce (.done, changed) number (doing number act)
      session :=
  onBuffer_meets found delivers fun _ later _ _ reaches => ends_pure.mpr ⟨later, reaches, rfl⟩

theorem pointing_meets {act : Act (Buffer α) α Cursor}
    (found : session.buffer? number = some buffer)
    (delivers : Buffer.Delivers ⟨buffer, session.ledger⟩ broken scarce expected.2
      (Buffer.Names expected.1) act ⟨buffer, session.ledger⟩) :
    Meets ⟨buffer, session.ledger⟩ broken scarce expected number (pointing number act) session :=
  onBuffer_meets found delivers fun _ later _ names reaches =>
    ends_pure.mpr ⟨later, reaches, names⟩

/-- An operation that is refused, as it is expected to be, changes nothing. -/
theorem refused_meets {act : Act (Buffer α) α γ} {rest : γ → Move α (Outcome α)} {error : Error}
    (found : session.buffer? number = some buffer) (shows : buffer.Shows contents)
    (unbroken : ¬ broken)
    (refused : Ends act ⟨buffer, session.ledger⟩ (fun _ _ => False)
      (fun halt after => halt = .refused error ∧ after = ⟨buffer, session.ledger⟩)) :
    Meets ⟨buffer, session.ledger⟩ broken scarce (.halted (.refused error), contents) number
      (do rest (← onBuffer number act)) session := by
  rw [Meets, ends_bind]
  refine (ends_onBuffer found).mpr (refused.mono (fun _ _ => False.elim) ?_)
  intro halt after stopped
  obtain ⟨rfl, rfl⟩ := stopped
  exact ⟨_, rfl, .inl ⟨rfl, buffer, buffer?_withBuffer_self, unbroken, shows, rfl, .refl _⟩⟩

/-- The cursor to an index, or the expected refusal of an index beyond the length. -/
theorem atIndex_meets {rest : Cursor → Move α (Outcome α)}
    (found : session.buffer? number = some buffer) (shows : buffer.Shows contents)
    (unbroken : contents.values.length < index → ¬ broken)
    (next : ∀ cursor, buffer.ring.Points cursor index →
      Meets ⟨buffer, session.ledger⟩ broken scarce expected number (rest cursor) session) :
    Meets ⟨buffer, session.ledger⟩ broken scarce (contents.atIndex index expected) number
      (do rest (← cursorOf number (.index index))) session := by
  have length : contents.values.length = buffer.ring.len := by
    rw [← shows.values, List.length_map, shows.wellFormed.length_toList]
  rw [Meets, ends_bind, cursorOf, ends_askRing found, Ring.cursorAt, Contents.atIndex, length]
  by_cases beyond : buffer.ring.len < index
  · rw [if_pos beyond, if_pos beyond]
    exact ⟨_, rfl, .inl ⟨rfl, buffer, reaches_self found (unbroken (by omega)) shows⟩⟩
  · obtain ⟨cursor, issued, points⟩ := shows.wellFormed.cursorFor_exists index
    rw [Nat.min_eq_left (Nat.le_of_not_lt beyond)] at points
    rw [if_neg beyond, if_neg beyond, issued]
    exact next cursor points

/-- Handing an element back leaves the buffers as they are. -/
theorem handBackOne_reaches {item : Option (Item α)} {later : Buffer α} {after : Session α}
    (reaches : Reaches origin broken contents number later after)
    {stops : Stop → Session α → Prop} :
    Ends (handBackOne item) after
      (fun reply final => reply = .element (item.map Item.value) ∧
        Reaches origin broken contents number later final) stops := by
  simp only [handBackOne, Ledger.handBack, ends_bind, ends_onLedger, ends_modify, ends_pure]
  obtain ⟨shows, kind, follows⟩ := reaches.arrives
  exact ⟨trivial, reaches.found, reaches.unbroken, shows, kind, follows.rings, follows.memory,
    follows.copiesLeft, follows.brittle⟩

theorem handingBack_meets {act : Act (Buffer α) α (Option (Item α))} {value : Option α}
    (found : session.buffer? number = some buffer)
    (delivers : Buffer.Delivers ⟨buffer, session.ledger⟩ broken scarce changed
      (fun item _ => item.map Item.value = value) act ⟨buffer, session.ledger⟩) :
    Meets ⟨buffer, session.ledger⟩ broken scarce (.element value, changed) number
      (do return .reply (← handBackOne (← onBuffer number act))) session := by
  refine onBuffer_meets found delivers ?_
  intro item later after same reaches
  subst same
  simp only [ends_bind, ends_pure]
  refine (handBackOne_reaches reaches).mono ?_ fun _ _ => id
  intro reply final ended
  obtain ⟨rfl, reaches⟩ := ended
  exact ⟨later, reaches, rfl⟩

theorem runCommand_meets [Value α] {writes : Nat → Prop}
    (agrees : Agrees writes session owned session)
    (found : session.buffer? number = some buffer) (shows : buffer.Shows contents)
    (edit : Edit α) (applies : buffer.isElastic = true ∨ ∀ floor, edit ≠ .setFloor floor) :
    Meets ⟨buffer, session.ledger⟩ (edit.Broken contents) (edit.Starved session.ledger)
      (edit.expected contents) number (runCommand number edit.command) session := by
  have sound := agrees.sound found
  have length : contents.values.length = buffer.ring.len := by
    rw [← shows.values, List.length_map, shows.wellFormed.length_toList]
  cases edit with
  | push side value =>
      refine handingBack_meets found (making_delivers sound ?_)
      intro item ledger same owns
      subst same
      exact Buffer.push_delivers owns shows
  | pop side => exact handingBack_meets found (Buffer.pop_delivers sound shows)
  | insert yields index value =>
      refine atIndex_meets found shows (fun _ => id) fun cursor points => ?_
      refine pointing_meets found (making_delivers sound ?_)
      intro item ledger same owns
      subst same
      exact Buffer.insert_delivers owns shows points
  | insertCopies yields index n value =>
      refine atIndex_meets found shows (fun _ => id) fun cursor points => ?_
      refine pointing_meets found (making_delivers sound ?_)
      intro model ledger same owns
      subst same
      exact Buffer.insertCopies_delivers owns shows points
  | insertFeed yields index feed =>
      refine atIndex_meets found shows ?_ fun cursor points => ?_
      · intro beyond broken
        exact Nat.not_le_of_lt beyond broken.1
      · exact pointing_meets found (Buffer.insertFeed_delivers sound shows points)
  | erase toward index =>
      refine atIndex_meets found shows (fun _ => id) fun cursor points => ?_
      by_cases final : index = contents.values.length
      · rw [if_pos final]
        rw [final, length] at points
        exact refused_meets found shows id (Buffer.erase_refused shows.wellFormed points)
      · rw [if_neg final]
        have inside : index ≤ buffer.ring.len := points.inside
        exact pointing_meets found (Buffer.erase_delivers sound shows points
          (show index < buffer.ring.len by omega))
  | eraseRange toward first last =>
      refine atIndex_meets found shows (fun _ => id) fun source firstPoints => ?_
      refine atIndex_meets found shows (fun _ => id) fun target lastPoints => ?_
      by_cases crossed : last < first
      · rw [if_pos crossed]
        exact refused_meets found shows id
          (Buffer.eraseRange_refused shows.wellFormed firstPoints lastPoints crossed)
      · rw [if_neg crossed]
        exact pointing_meets found (Buffer.eraseRange_delivers sound shows firstPoints lastPoints
          (Nat.le_of_not_lt crossed))
  | clear => exact doing_meets found (Buffer.clear_delivers sound shows)
  | linearize =>
      refine onBuffer_meets found (Buffer.linearize_delivers sound shows) ?_
      intro _ later after runs reaches
      simp only [Bool.false_eq_true, if_false]
      rw [ends_bind, ends_askRing reaches.found, runs]
      refine ⟨later, reaches, ?_⟩
      simp only [Outcome.Means, Edit.expected, reaches.arrives.shows.values]
  | setCapacity trim limits => exact doing_meets found (Buffer.setCapacity_delivers sound shows)
  | setFloor floor =>
      cases buffer with
      | fixed ring => exact (applies.resolve_left Bool.false_ne_true floor rfl).elim
      | elastic outer =>
          have bound : outer.capacity = contents.bound := shows.bound
          rw [Meets, Edit.command, runCommand, ends_bind, ends_demandBuffer found, Edit.expected]
          by_cases high : contents.bound < floor
          · rw [if_pos high, ← bound]
            exact refused_meets found shows id (Buffer.setFloor_refused (bound.trans_lt high))
          · rw [if_neg high]
            exact doing_meets found
              (Buffer.setFloor_delivers sound shows (Nat.le_of_not_lt high))

/-- A cursor that was issued for an index resolves to it, and is an end cursor at the length. -/
theorem isEnd_of_points {ring : Ring α} {cursor : Cursor} (wellFormed : ring.WellFormed)
    (points : ring.Points cursor index) : cursor.isEnd = (index == ring.len) := by
  rw [Cursor.isEnd, points.slot wellFormed]
  by_cases final : index = ring.len
  · simp [final]
  · simp [final]

theorem runOp_meets [Value α] {writes : Nat → Prop}
    (agrees : Agrees writes session owned session)
    (found : session.buffer? number = some buffer) (shows : buffer.Shows contents)
    (edit : Edit α) (applies : buffer.isElastic = true ∨ ∀ floor, edit ≠ .setFloor floor) :
    Ends (runOp (edit.op number)) session
      (fun reply after => reply = (edit.expected contents).1 ∧ ∃ later,
        Reaches ⟨buffer, session.ledger⟩ (edit.Broken contents) (edit.expected contents).2 number
          later after)
      (Excused ⟨buffer, session.ledger⟩ (edit.Broken contents) (edit.Starved session.ledger)
        (edit.expected contents) number) := by
  simp only [Edit.op, runOp]
  rw [ends_bind]
  refine Ends.mono (runCommand_meets agrees found shows edit applies) ?_ fun _ _ => id
  intro outcome after ended
  obtain ⟨later, reaches, means⟩ := ended
  cases outcome with
  | reply reply => exact ⟨means.symm, later, reaches⟩
  | cursor cursor =>
      obtain ⟨place, named, points⟩ := means
      have wellFormed := reaches.arrives.shows.wellFormed
      rw [ends_bind, ends_askRing reaches.found, points.resolve wellFormed]
      refine ⟨?_, later, reaches⟩
      rw [named, isEnd_of_points wellFormed points]

/-- One edit: the expected reply and the expected contents, unless something hinders it. -/
theorem step_meets [Value α] (valid : session.Valid)
    (balanced : session.ledger.Balanced (afloat session.buffers + owned))
    (found : session.buffer? number = some buffer) (shows : buffer.Shows contents)
    (edit : Edit α) (applies : buffer.isElastic = true ∨ ∀ floor, edit ≠ .setFloor floor) :
    ((session.step (edit.op number)).1 = (edit.expected contents).1 ∧ ∃ later,
      Reaches ⟨buffer, session.ledger⟩ (edit.Broken contents) (edit.expected contents).2 number
        later (session.step (edit.op number)).2) ∨
    ∃ halt, (session.step (edit.op number)).1 = .halted halt ∧
      buffer.Hinders (edit.Broken contents) (edit.Starved session.ledger) session.ledger halt := by
  have agrees : Agrees (fun _ => False) session owned session := ⟨valid, .refl _, balanced⟩
  have silent := agrees.silenced
  have follows : session.ledger.Follows { session.ledger with events := [] } :=
    ⟨Nat.le_refl _, rfl, id, .inl rfl⟩
  have self : Agrees (fun _ => False) { session with ledger := { session.ledger with events := [] } }
      owned _ := ⟨silent.valid, .refl _, silent.balanced⟩
  rcases step_ends (runOp_meets self found shows edit applies) with
    ⟨replied, later, reaches⟩ | ⟨halt, halted, _, same, excused⟩ | ⟨-, _, impossible, -⟩
  · exact .inl ⟨replied, later, reaches.since follows⟩
  · obtain rfl := Stop.halted.inj same
    rcases excused with ⟨replied, later, reaches⟩ | hinders
    · exact .inl ⟨halted.trans replied.symm, later, reaches.since follows⟩
    · exact .inr ⟨halt, halted, Ledger.Due.since hinders follows⟩
  · cases impossible

end RingDeque.Session
