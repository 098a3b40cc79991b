import RingDeque.Datum
import RingDeque.Proofs.Session.Expecting
import RingDeque.Proofs.Session.Integrity

/-!
Elastic rings against fixed ones.

Main statement: `elastic_mirrors_fixed`. An elastic ring and a fixed ring of the same capacity that
go through the same edits cannot be told apart by their contents or by their replies.
-/

namespace RingDeque

open Effect

/-- A ledger under which nothing fails, and whatever is not beyond the limit can be allocated. -/
structure Ledger.Calm {α : Type} (ledger : Ledger α) : Prop where
  copies : ledger.copiesLeft = none
  destructions : ledger.brittle = none
  roomy : ∀ capacity < Stamps.limit,
    ledger.memory.block capacity = true ∧ ledger.memory.stamps capacity = true

namespace Ledger

variable {α : Type} {earlier later : Ledger α} {capacity : Nat}

theorem Calm.of_follows (calm : earlier.Calm) (follows : earlier.Follows later) : later.Calm where
  copies := follows.copiesLeft calm.copies
  destructions := by
    rcases follows.brittle with same | lifted
    · rw [same, calm.destructions]
    · exact lifted
  roomy := by
    rw [follows.memory]
    exact calm.roomy

theorem Calm.not_scarce (calm : earlier.Calm) (bounded : capacity < Stamps.limit) :
    ¬ earlier.Scarce capacity := by
  obtain ⟨block, stamps⟩ := calm.roomy capacity bounded
  simpa only [Scarce, block, stamps, Bool.true_eq_false, false_or, Nat.not_le] using bounded

theorem calm_blank : (blank (.below Stamps.limit) : Ledger α).Calm :=
  ⟨rfl, rfl, fun _ bounded => ⟨decide_eq_true bounded, decide_eq_true bounded⟩⟩

/-- Under a calm ledger a halt is the fault of a source, or a refusal. -/
theorem Calm.blameless {breaks : Prop} {refuses : Error → Prop} {halt : Halt} (calm : earlier.Calm)
    (unbroken : ¬ breaks) (never : ∀ error, ¬ refuses error) :
    ¬ earlier.Due breaks refuses halt := by
  intro due
  cases due with
  | copy armed => exact armed calm.copies
  | destruction armed => exact armed calm.destructions
  | source broken => exact unbroken broken
  | refusal refused => exact never _ refused

end Ledger

namespace Session

variable {α : Type} {session elastic fixed : Session α} {owned fixedOwned : Multiset Nat}
  {number : Nat} {buffer : Buffer α} {outer : ElasticRing α} {ring : Ring α}
  {contents : Contents α} {edit : Edit α} {edits : List (Edit α)} {limits : Limits}

/-- An elastic ring that cannot be told from a fixed one, and has its block within its limits. -/
structure Mirrors (outer : ElasticRing α) (ring : Ring α) : Prop where
  values : outer.ring.toList.map Item.value = ring.toList.map Item.value
  capacity : outer.capacity = ring.capacity
  isFull : outer.isFull = ring.isFull
  remaining : ring.remaining = .ok outer.remaining
  within : outer.WithinLimits

/-- The elastic ring under a number in one session mirrors the fixed ring in another one. -/
def Alike (number : Nat) (elastic fixed : Session α) : Prop :=
  ∃ outer ring, elastic.buffer? number = some (.elastic outer) ∧
    fixed.buffer? number = some (.fixed ring) ∧ Mirrors outer ring

/-- The replies of an elastic ring and a fixed one to the same edit. A fixed ring has no floor, and
no cursor is void. -/
def Edit.Agrees : Edit α → Reply α → Reply α → Prop
  | .setFloor _, _, fixed => fixed = .inapplicable
  | _, elastic, fixed => elastic = fixed ∧ elastic ≠ .halted (.refused .invalidCursor)

/-- Both sessions go through the same edits, and are alike after each of them. -/
def Lockstep [Value α] (number : Nat) : List (Edit α) → Session α → Session α → Prop
  | [], elastic, fixed => Alike number elastic fixed
  | edit :: rest, elastic, fixed =>
      Alike number elastic fixed ∧
      edit.Agrees (elastic.step (edit.op number)).1 (fixed.step (edit.op number)).1 ∧
      Lockstep number rest (elastic.step (edit.op number)).2 (fixed.step (edit.op number)).2

/-- Whether a reply tells of an interruption, or of a block that was refused. -/
def Reply.isMishap : Reply α → Bool
  | .halted (.interrupted _) => true
  | .halted (.refused (.allocationFailed _)) => true
  | _ => false

/-- No edit is interrupted, or refused for lack of memory. -/
def Uneventful [Value α] (number : Nat) : List (Edit α) → Session α → Prop
  | [], _ => True
  | edit :: rest, session =>
      (session.step (edit.op number)).1.isMishap = false ∧
      Uneventful number rest (session.step (edit.op number)).2

instance decidableUneventful [Value α] (number : Nat) : (edits : List (Edit α)) →
    (session : Session α) → Decidable (Uneventful number edits session)
  | [], _ => isTrue trivial
  | edit :: rest, session =>
      have := decidableUneventful number rest (session.step (edit.op number)).2
      inferInstanceAs (Decidable (_ ∧ _))

/-- Whether an edit demands no more slots than a block can have. -/
def Edit.Bounded : Edit α → Prop
  | .setCapacity _ limits => limits.ceiling < Stamps.limit
  | _ => True

theorem mirrors_of_shows (shows : (Buffer.elastic outer).Shows contents)
    (fixedShows : (Buffer.fixed ring).Shows contents) : Mirrors outer ring := by
  have within := shows.within outer rfl
  have fits := within.len_le_capacity
  have capacity : outer.capacity = ring.capacity := shows.bound.trans fixedShows.bound.symm
  have wellFormed : ring.WellFormed := fixedShows.wellFormed
  have values : outer.ring.toList.map Item.value = ring.toList.map Item.value :=
    shows.values.trans fixedShows.values.symm
  have len : outer.len = ring.len := by
    have length := congrArg List.length values
    have outerLength : outer.ring.toList.length = outer.ring.len := shows.wellFormed.length_toList
    rwa [List.length_map, List.length_map, wellFormed.length_toList, outerLength] at length
  refine ⟨values, capacity, ?_, ?_, within⟩
  · rw [Bool.eq_iff_iff]
    simp only [ElasticRing.isFull, Ring.isFull, decide_eq_true_eq, beq_iff_eq]
    omega
  · rw [wellFormed.remaining_eq, ElasticRing.remaining, capacity, len]

/-- What hinders an edit of an elastic ring is an interruption, or a block that cannot be had. -/
theorem isMishap_of_hinders {broken scarce : Prop} {halt : Halt}
    (hinders : buffer.Hinders broken scarce session.ledger halt) :
    (Reply.halted halt : Reply α).isMishap = true := by
  cases hinders with
  | copy | destruction | source => rfl
  | refusal refused =>
      obtain ⟨⟨size, rfl⟩, -⟩ := refused
      rfl

theorem elastic_step [Value α] (valid : elastic.Valid)
    (balanced : elastic.ledger.Balanced (afloat elastic.buffers + owned))
    (found : elastic.buffer? number = some (.elastic outer))
    (shows : (Buffer.elastic outer).Shows contents)
    (unharmed : (elastic.step (edit.op number)).1.isMishap = false) :
    (elastic.step (edit.op number)).1 = (edit.expected contents).1 ∧ ¬ edit.Broken contents ∧
      ∃ later, (elastic.step (edit.op number)).2.buffer? number = some (.elastic later) ∧
        (Buffer.elastic later).Shows (edit.expected contents).2 := by
  rcases step_meets valid balanced found shows edit (.inl rfl) with
    ⟨replied, later, reaches⟩ | ⟨halt, halted, hinders⟩
  · obtain ⟨outer, rfl⟩ := Buffer.exists_elastic reaches.arrives.kind
    exact ⟨replied, reaches.unbroken, outer, reaches.found, reaches.arrives.shows⟩
  · rw [halted, isMishap_of_hinders hinders] at unharmed
    cases unharmed

theorem Edit.agrees_expected {reply : Reply α} (others : ∀ floor, edit ≠ .setFloor floor)
    (replied : reply = (edit.expected contents).1) :
    edit.Agrees (edit.expected contents).1 reply := by
  have valid := edit.expected_valid contents
  cases edit with
  | setFloor floor => exact absurd rfl (others floor)
  | _ => exact ⟨replied.symm, valid⟩

/-- A fixed ring has no floor to change. -/
theorem fixed_setFloor [Value α] (floor : Nat)
    (found : fixed.buffer? number = some (.fixed ring)) :
    fixed.step ((Edit.setFloor floor).op number) =
      (.inapplicable, { fixed with ledger := { fixed.ledger with events := [] } }) := by
  have foundSilent : ({ fixed with ledger := { fixed.ledger with events := [] } } :
    Session α).buffer? number = some (.fixed ring) := found
  have stops : Ends (runOp ((Edit.setFloor floor).op number))
      { fixed with ledger := { fixed.ledger with events := [] } } (fun _ _ => False)
      (fun stop after => stop = .inapplicable ∧
        after = { fixed with ledger := { fixed.ledger with events := [] } }) := by
    simp only [Edit.op, Edit.command, runOp, runCommand]
    rw [ends_bind, ends_bind, ends_demandBuffer foundSilent]
    exact ⟨rfl, rfl⟩
  rcases step_ends stops with impossible | ⟨halt, -, impossible, -⟩ | ⟨idle, -, unchanged⟩
  · exact impossible.elim
  · cases impossible
  · exact Prod.ext idle unchanged

theorem fixed_step [Value α] (valid : fixed.Valid)
    (balanced : fixed.ledger.Balanced (afloat fixed.buffers + owned))
    (found : fixed.buffer? number = some (.fixed ring))
    (shows : (Buffer.fixed ring).Shows contents) (calm : fixed.ledger.Calm)
    (bounded : edit.Bounded) (unbroken : ¬ edit.Broken contents) :
    edit.Agrees (edit.expected contents).1 (fixed.step (edit.op number)).1 ∧
      (fixed.step (edit.op number)).2.ledger.Calm ∧
      ∃ later, (fixed.step (edit.op number)).2.buffer? number = some (.fixed later) ∧
        (Buffer.fixed later).Shows (edit.expected contents).2 := by
  by_cases floored : ∃ floor, edit = .setFloor floor
  · obtain ⟨floor, rfl⟩ := floored
    have unchanged : ((Edit.setFloor floor).expected contents).2 = contents := by
      simp only [Edit.expected]
      split <;> rfl
    rw [fixed_setFloor floor found, unchanged]
    exact ⟨rfl, ⟨calm.copies, calm.destructions, calm.roomy⟩, ring, found, shows⟩
  · have others : ∀ floor, edit ≠ .setFloor floor := fun floor same => floored ⟨floor, same⟩
    have fed : ¬ edit.Starved fixed.ledger := by
      cases edit with
      | setCapacity trim limits => exact calm.not_scarce bounded
      | _ => exact id
    rcases step_meets valid balanced found shows edit (.inr others) with
      ⟨replied, later, reaches⟩ | ⟨halt, halted, hinders⟩
    · obtain ⟨ring, rfl⟩ := Buffer.exists_fixed reaches.arrives.kind
      exact ⟨Edit.agrees_expected others replied, calm.of_follows reaches.arrives.follows, ring,
        reaches.found, reaches.arrives.shows⟩
    · refine absurd hinders (calm.blameless ?_ fun error refused => ?_)
      · exact fun broken => unbroken (broken.resolve_left Bool.false_ne_true)
      · exact fed (refused.2.resolve_left Bool.false_ne_true)

/-- Two sessions that show the same contents stay in lockstep. -/
theorem lockstep_of_shows [Value α] (valid : elastic.Valid)
    (balanced : elastic.ledger.Balanced (afloat elastic.buffers + owned)) (fixedValid : fixed.Valid)
    (fixedBalanced : fixed.ledger.Balanced (afloat fixed.buffers + fixedOwned))
    (found : elastic.buffer? number = some (.elastic outer))
    (fixedFound : fixed.buffer? number = some (.fixed ring))
    (shows : (Buffer.elastic outer).Shows contents)
    (fixedShows : (Buffer.fixed ring).Shows contents) (calm : fixed.ledger.Calm)
    (bounded : ∀ edit ∈ edits, edit.Bounded) (uneventful : Uneventful number edits elastic) :
    Lockstep number edits elastic fixed := by
  have alike : Alike number elastic fixed :=
    ⟨outer, ring, found, fixedFound, mirrors_of_shows shows fixedShows⟩
  -- Only the elastic session is supposed to be uneventful: a calm ledger stays calm by itself.
  induction edits generalizing elastic fixed outer ring contents owned fixedOwned with
  | nil => exact alike
  | cons edit rest ih =>
      obtain ⟨unharmed, onward⟩ := uneventful
      obtain ⟨replied, unbroken, outer, found, shows⟩ :=
        elastic_step valid balanced found shows unharmed
      obtain ⟨agrees, calm, ring, fixedFound, fixedShows⟩ := fixed_step fixedValid fixedBalanced
        fixedFound fixedShows calm (bounded edit List.mem_cons_self) unbroken
      obtain ⟨-, lost, sound, -⟩ := step_sound valid balanced (edit.op number)
      obtain ⟨-, fixedLost, fixedSound, -⟩ :=
        step_sound fixedValid fixedBalanced (edit.op number)
      refine ⟨alike, by rwa [replied], ih sound.valid sound.balanced fixedSound.valid
        fixedSound.balanced found fixedFound shows fixedShows calm ?_ onward ?_⟩
      · exact fun other member => bounded other (List.mem_cons_of_mem _ member)
      · exact ⟨outer, ring, found, fixedFound, mirrors_of_shows shows fixedShows⟩

/-- A new elastic ring is empty, under its ceiling. -/
theorem build_elastic_ends [Value α] (balanced : session.ledger.Balanced owned) :
    Ends (runOp (.build number (.elastic ⟨limits.ceiling, some limits.floor⟩))) session
      (fun _ after => ∃ outer, after.buffer? number = some (.elastic outer) ∧
        (Buffer.elastic outer).Shows ⟨limits.ceiling, []⟩)
      (fun _ _ => True) := by
  have demanded : (⟨limits.ceiling, some limits.floor⟩ : Bounds).limits = .ok limits :=
    dif_pos limits.floor_le_ceiling
  simp only [runOp, ends_bind, ends_onLedger, Buffer.build, Bounds.demand, demanded, ends_pure,
    ends_modify]
  refine demandVacant_ends (fun _ => ?_) trivial
  refine (ElasticRing.new_ends False ⟨.refl _, balanced⟩).mono ?_ fun _ _ _ => trivial
  intro outer ledger ended
  obtain ⟨made, limited, within, listed⟩ := ended
  exact ⟨outer, buffer?_withBuffer_self,
    Buffer.shows_elastic made.wellFormed ⟨limited, within, listed⟩ rfl rfl⟩

/-- Under a calm ledger a fixed ring can be had, and is empty. -/
theorem build_fixed_ends [Value α] {capacity : Nat} (balanced : session.ledger.Balanced owned)
    (vacant : session.buffer? number = none) (calm : session.ledger.Calm)
    (bounded : capacity < Stamps.limit) :
    Ends (runOp (.build number (.ring capacity))) session
      (fun reply after => reply = .done ∧ after.ledger.Calm ∧
        ∃ ring, after.buffer? number = some (.fixed ring) ∧
          (Buffer.fixed ring).Shows ⟨capacity, []⟩)
      (fun _ _ => False) := by
  simp only [runOp, demandVacant, vacant, Option.isSome_none, Bool.false_eq_true, if_false,
    ends_bind, ends_get, ends_onLedger, Buffer.build, ends_pure, ends_modify]
  refine (Ring.new_ends False (fun _ => False) ⟨.refl _, balanced⟩ capacity
    (calm.not_scarce bounded)).mono ?_ ?_
  · intro ring ledger ended
    obtain ⟨made, sized, listed⟩ := ended
    exact ⟨trivial, calm.of_follows made.keeps.follows, ring, buffer?_withBuffer_self,
      Buffer.shows_fixed made.wellFormed sized (congrArg _ listed)⟩
  · intro halt ledger fails
    exact calm.blameless id (fun _ => id) fails.due

theorem elastic_built [Value α]
    (balanced : session.ledger.Balanced owned)
    (built : (session.step
      (.build number (.elastic ⟨limits.ceiling, some limits.floor⟩))).1 = .done) :
    ∃ outer, (session.step (.build number
        (.elastic ⟨limits.ceiling, some limits.floor⟩))).2.buffer? number = some (.elastic outer) ∧
      (Buffer.elastic outer).Shows ⟨limits.ceiling, []⟩ := by
  rcases step_ends (build_elastic_ends balanced) with found | ⟨halt, halted, -⟩ | ⟨idle, -⟩
  · exact found
  · rw [built] at halted
    cases halted
  · rw [built] at idle
    cases idle

theorem fixed_built [Value α] {capacity : Nat} (balanced : session.ledger.Balanced owned)
    (vacant : session.buffer? number = none) (calm : session.ledger.Calm)
    (bounded : capacity < Stamps.limit) :
    (session.step (.build number (.ring capacity))).1 = .done ∧
      (session.step (.build number (.ring capacity))).2.ledger.Calm ∧
      ∃ ring, (session.step (.build number (.ring capacity))).2.buffer? number =
          some (.fixed ring) ∧ (Buffer.fixed ring).Shows ⟨capacity, []⟩ := by
  rcases step_ends (build_fixed_ends balanced vacant
    ⟨calm.copies, calm.destructions, calm.roomy⟩ bounded) with
    found | ⟨halt, -, impossible⟩ | ⟨-, impossible⟩
  · exact found
  · exact impossible.elim
  · exact impossible.elim

/-- The block behind an elastic ring is never seen in its contents: as long as nothing fails, it
goes through a run of edits like a fixed ring with its ceiling for a capacity. -/
theorem elastic_mirrors_fixed [Value α] (limits : Limits) (edits : List (Edit α))
    (reachable : elastic.Reachable)
    (built : (elastic.step
      (.build number (.elastic ⟨limits.ceiling, some limits.floor⟩))).1 = .done)
    (uneventful : Uneventful number edits (elastic.step
      (.build number (.elastic ⟨limits.ceiling, some limits.floor⟩))).2)
    (fixedReachable : fixed.Reachable) (vacant : fixed.buffer? number = none)
    (calm : fixed.ledger.Calm) (bounded : limits.ceiling < Stamps.limit)
    (editsBounded : ∀ edit ∈ edits, edit.Bounded) :
    (fixed.step (.build number (.ring limits.ceiling))).1 = .done ∧
    Lockstep number edits
      (elastic.step (.build number (.elastic ⟨limits.ceiling, some limits.floor⟩))).2
      (fixed.step (.build number (.ring limits.ceiling))).2 := by
  obtain ⟨memory, past, rfl⟩ := reachable
  obtain ⟨fixedMemory, fixedPast, rfl⟩ := fixedReachable
  obtain ⟨valid, lost, balanced⟩ := run_sound (blank_valid memory) (blank_balanced memory) past
  obtain ⟨fixedValid, fixedLost, fixedBalanced⟩ :=
    run_sound (blank_valid fixedMemory) (blank_balanced fixedMemory) fixedPast
  obtain ⟨outer, found, shows⟩ := elastic_built balanced built
  obtain ⟨fixedDone, fixedCalm, ring, fixedFound, fixedShows⟩ :=
    fixed_built fixedBalanced vacant calm bounded
  obtain ⟨-, newLost, sound, -⟩ := step_sound valid balanced
    (.build number (.elastic ⟨limits.ceiling, some limits.floor⟩))
  obtain ⟨-, fixedNewLost, fixedSound, -⟩ := step_sound fixedValid fixedBalanced
    (.build number (.ring limits.ceiling))
  exact ⟨fixedDone, lockstep_of_shows sound.valid sound.balanced fixedSound.valid
    fixedSound.balanced found fixedFound shows fixedShows fixedCalm editsBounded uneventful⟩

/-- A run in which the block grows twice, before a lower ceiling reduces it. -/
theorem elastic_mirrors_fixed_resized :
    let edits : List (Edit Datum) := [.push .back (.int 1), .push .front (.int 2),
      .insert .front 1 (.int 3), .insertCopies .back 0 2 (.int 4), .eraseRange .front 1 3,
      .erase .back 9, .setCapacity .front ⟨2, 0, Nat.zero_le 2⟩, .setFloor 1, .linearize]
    let elastic := (blank (.below 64) : Session Datum).step (.build 0 (.elastic ⟨8, some 1⟩))
    let fixed := (blank (.below Stamps.limit) : Session Datum).step (.build 0 (.ring 8))
    Uneventful 0 edits elastic.2 ∧ Lockstep 0 edits elastic.2 fixed.2 := by
  intro edits elastic fixed
  have uneventful : Uneventful 0 edits elastic.2 := by
    simp only [edits, elastic]
    decide +kernel
  have bounded : ∀ edit ∈ edits, edit.Bounded := by
    simp [edits, Edit.Bounded, Stamps.limit]
  exact ⟨uneventful, (elastic_mirrors_fixed ⟨8, 1, by decide⟩ edits ⟨.below 64, [], rfl⟩ rfl
    uneventful ⟨.below Stamps.limit, [], rfl⟩ rfl Ledger.calm_blank (by decide) bounded).2⟩

end Session

end RingDeque
