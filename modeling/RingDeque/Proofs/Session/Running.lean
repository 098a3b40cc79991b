import RingDeque.Proofs.Session.Building
import RingDeque.Proofs.Session.Commanding

/-!
Running operations on a session.

One operation keeps the session valid, its ledger balanced and every cursor vouched for, and so does
a run of operations of any length. No operation breaks its own bookkeeping.
-/

namespace RingDeque.Session

open Effect

variable {α : Type} {writes : Nat → Prop} {origin session : Session α} {owned : Multiset Nat}
  {number : Nat}

/-- Whether an operation may put other elements in the place of those in the buffer under a
number. -/
def Op.inPlace (op : Op α) (number : Nat) : Bool :=
  match op with
  | .on target command _ => target == number && command.inPlace
  | _ => false

/-- Whether an operation makes a buffer after a prototype whose destruction would fail. -/
def Op.Fragile (op : Op α) (ledger : Ledger α) : Prop :=
  match op with
  | .build _ plan => plan.Fragile ledger
  | _ => False

variable {buffer : Buffer α} {ledger : Ledger α} {further : Multiset Nat}

theorem Agrees.keeps (agrees : Agrees writes origin owned session) :
    session.ledger.Keeps (afloat session.buffers + owned) session.ledger :=
  ⟨.refl _, agrees.balanced⟩

/-- A new buffer comes under a number that is vacant. -/
theorem Agrees.welcoming (agrees : Agrees writes origin owned session)
    (vacant : session.buffer? number = none)
    (made : Ring.Made session.ledger (afloat session.buffers + owned) buffer.ring ledger) :
    Agrees writes origin owned ({ session with ledger }.withBuffer number buffer) := by
  obtain ⟨valid, descends⟩ := agrees.valid.housing
    made.keeps.follows.rings made.wellFormed (.inr ⟨made.fresh, made.known⟩)
  refine ⟨valid, agrees.descends.trans descends, ?_⟩
  have balanced := made.keeps.balanced
  rw [afloat_withBuffer]
  have same : ({ session with ledger }.others number) = session.buffers :=
    others_of_vacant vacant
  rwa [same, add_assoc]

/-- A buffer goes, and its elements are owned by the operation. -/
theorem Agrees.parting (agrees : Agrees writes origin owned session)
    (found : session.buffer? number = some buffer) :
    Agrees writes origin (ids buffer.ring.toList + owned) (session.withoutBuffer number) := by
  have kept : (session.withoutBuffer number).buffers.Sublist session.buffers :=
    List.filter_sublist
  have descends : Descends writes session (session.withoutBuffer number) :=
    ⟨Nat.le_refl _, fun entry member => .inr ⟨entry.2, kept.subset member, .refl _⟩⟩
  refine ⟨⟨agrees.valid.numbered.sublist (kept.map _), agrees.valid.owners.sublist (kept.map _),
    fun entry member => agrees.valid.wellFormed _ (kept.subset member),
    fun entry member => agrees.valid.known _ (kept.subset member),
    fun entry member => (agrees.valid.vouched _ member).of_descends descends⟩,
    agrees.descends.trans descends, ?_⟩
  have balanced := agrees.balanced
  rw [afloat_of_found agrees.valid.numbered found] at balanced
  rwa [← add_assoc, add_comm (afloat _)]

/-- Failures are set or lifted, and memory comes and goes. -/
theorem Agrees.arming (agrees : Agrees writes origin owned session) (copies : Option Nat)
    (fails : Option (Item α → Bool)) (memory : Memory) (events : List Event) :
    Agrees writes origin owned { session with ledger := { session.ledger with
      copiesLeft := copies, brittle := fails, memory, events } } :=
  ⟨⟨agrees.valid.numbered, agrees.valid.owners, agrees.valid.wellFormed, agrees.valid.known,
    fun entry member => ⟨(agrees.valid.vouched entry member).known,
      (agrees.valid.vouched entry member).regular,
      (agrees.valid.vouched entry member).vouched⟩⟩,
    ⟨agrees.descends.rings, agrees.descends.buffers⟩, agrees.balanced⟩

/-- Before an operation the reports of earlier ones are put aside. -/
theorem Agrees.silenced (agrees : Agrees writes origin owned session) :
    Agrees writes origin owned { session with ledger := { session.ledger with events := [] } } :=
  agrees.arming session.ledger.copiesLeft session.ledger.brittle session.ledger.memory []

theorem Agrees.bookmarking (agrees : Agrees writes origin owned session) {cursor : Cursor}
    (vouches : session.Vouches cursor) (name : String) :
    Agrees writes origin owned (session.withBookmark name ⟨number, cursor⟩) := by
  refine ⟨⟨agrees.valid.numbered, agrees.valid.owners, agrees.valid.wellFormed, agrees.valid.known,
    ?_⟩, ⟨agrees.descends.rings, agrees.descends.buffers⟩, agrees.balanced⟩
  intro entry member
  rcases List.mem_append.mp member with old | new
  · have vouched := agrees.valid.vouched entry (List.mem_filter.mp old).1
    exact ⟨vouched.known, vouched.regular, vouched.vouched⟩
  · rw [List.mem_singleton.mp new]
    exact ⟨vouches.known, vouches.regular, vouches.vouched⟩

/-- Draining a ring hands out what was asked for and destroys the rest. -/
theorem spending_ends {ring : Ring α} {script : List Traversal.Step}
    (keeps : ledger.Keeps (ids ring.toList + further) ledger) (wellFormed : ring.WellFormed) :
    Ends (spending ring Ring.runs (drainScript script)) ledger
      (fun _ after => ledger.Keeps further after)
      (fun halt after => ledger.Keeps further after ∧ halt.Orderly) := by
  have start : Ring.Sound False ⟨ring, ledger⟩ further ring ledger := ⟨wellFormed, .refl ring, keeps⟩
  apply Ring.ends_spending
  apply (drainScript_ends start).mono
  · intro answers after ended
    have destroyed : Ends (Ledger.destroyRun after.buffer.toList) after.ledger _
        fun halt final => ledger.Due False (fun _ => False) halt ∧ _ :=
      Ledger.destroyRun_ends ended.keeps
    exact ⟨ended.wellFormed, destroyed.mono (fun _ _ => id) fun _ _ stopped =>
      ⟨stopped.2, stopped.1.orderly⟩⟩
  · intro halt after ended
    exact ⟨ended.sound.wellFormed, ended.sound.keeps.discarding, ended.due.orderly⟩

/-- Exchanging two buffers leaves each number its identity and hands over the elements. -/
theorem Agrees.exchanging {first second : Nat} {source target changed replaced : Buffer α}
    (agrees : Agrees writes origin owned session) (distinct : first ≠ second)
    (firstFound : session.buffer? first = some source)
    (secondFound : session.buffer? second = some target)
    (swapped : source.swap? target = some (changed, replaced)) :
    Agrees writes origin owned ((session.withBuffer first changed).withBuffer second replaced) := by
  have sourceWellFormed := agrees.wellFormed firstFound
  have targetWellFormed := agrees.wellFormed secondFound
  -- Either kind of buffer takes over the ring of the other one.
  have rings : changed.ring = (source.ring.adopt target.ring).voided ∧
      replaced.ring = (target.ring.adopt source.ring).voided := by
    cases source with
    | fixed ring =>
        cases target with
        | fixed other =>
            simp only [Buffer.swap?, Option.some.injEq] at swapped
            cases swapped
            exact ⟨rfl, rfl⟩
        | elastic other => simp [Buffer.swap?] at swapped
    | elastic outer =>
        cases target with
        | fixed other => simp [Buffer.swap?] at swapped
        | elastic other =>
            simp only [Buffer.swap?, Option.some.injEq] at swapped
            cases swapped
            exact ⟨rfl, rfl⟩
  have changes := Ring.adopt_turnsInto source.ring (writes first)
    targetWellFormed
  have replaces := Ring.adopt_turnsInto target.ring (writes second)
    sourceWellFormed
  rw [← rings.1] at changes
  rw [← rings.2] at replaces
  obtain ⟨middleValid, middleDescends⟩ := agrees.valid.housing
    (Nat.le_refl _) changes.wellFormed (.inl ⟨source, firstFound, changes.ages⟩)
  have stillThere : (session.withBuffer first changed).buffer? second = some target := by
    rw [buffer?_withBuffer_of_ne (Ne.symm distinct), secondFound]
  obtain ⟨valid, descends⟩ := middleValid.housing
    (Nat.le_refl _) replaces.wellFormed (.inl ⟨target, stillThere, replaces.ages⟩)
  refine ⟨valid, (agrees.descends.trans middleDescends).trans descends, ?_⟩
  have once := afloat_of_found agrees.valid.numbered firstFound
  have between : ids target.ring.toList + afloat ((session.withBuffer first changed).others second) =
      ids target.ring.toList + afloat (session.others first) :=
    (afloat_of_found middleValid.numbered stillThere).symm.trans
      (afloat_withBuffer.trans (by rw [changes.toList]))
  have balanced := agrees.balanced
  rw [afloat_withBuffer, replaces.toList, add_left_cancel between, ← once]
  exact balanced

/-- What follows a command: a cursor that it returned is kept and told. -/
def replying (number : Nat) (save : Option String) : Outcome α → Move α (Reply α)
  | .reply reply => return reply
  | .cursor cursor => do
      if let some name := save then
        modify (·.withBookmark name ⟨number, cursor⟩)
      return .cursor (← askRing number (·.resolve cursor)) cursor.isEnd

theorem runOp_on [Value α] (command : Command α) (save : Option String) :
    runOp (.on number command save) = runCommand number command >>= replying number save :=
  rfl

section

variable (agrees : Agrees writes origin owned session)
include agrees

theorem replying_concludes (save : Option String) {outcome : Outcome α}
    (fair : outcome.Fair session) :
    Concludes writes origin owned (fun _ reply => reply.Regular) (replying number save outcome)
      session := by
  have resolving : ∀ {cursor : Cursor} {session : Session α},
      Agrees writes origin owned session → session.Vouches cursor →
      Concludes writes origin owned (fun _ reply => reply.Regular)
        (do return .cursor (← askRing number (·.resolve cursor)) cursor.isEnd : Move α (Reply α))
        session := by
    intro cursor session agrees vouches
    apply concludes_asking agrees (askRing_ends (fun ring index => index ≤ ring.len)
      fun buffer found => (agrees.wellFormed found).resolve_yields (vouches.of_found found))
    exact fun index _ => ⟨agrees, Reply.regular_cursor index cursor.isEnd⟩
  cases outcome with
  | reply reply => exact ⟨agrees, Reply.Plain.regular fair⟩
  | cursor cursor =>
      cases save with
      | none => exact resolving agrees fair
      | some name =>
          rw [replying, Concludes, ends_bind]
          exact resolving (agrees.bookmarking fair name) ⟨fair.known, fair.regular, fair.vouched⟩

variable [Value α]

theorem runOp_on_concludes {command : Command α} (save : Option String)
    (allowed : command.inPlace = true → writes number) :
    Concludes writes origin owned (fun _ reply => reply.Regular)
      (runOp (.on number command save)) session := by
  rw [runOp_on]
  exact (runCommand_concludes agrees command allowed).bind fun outcome _ held fair =>
    replying_concludes held save fair

theorem runOp_duplicate_concludes (source target : Nat) :
    Concludes writes origin owned (fun _ reply => reply.Regular)
      (runOp (.duplicate source target)) session := by
  simp only [Concludes, runOp, ends_bind, ends_onLedger, ends_pure, ends_modify]
  refine demandVacant_ends (fun vacant => ?_) ⟨agrees, trivial⟩
  refine demandBuffer_ends (fun buffer found => ?_) ⟨agrees, trivial⟩
  apply (duplicate_ends agrees.keeps (agrees.wellFormed found)).mono
  · intro copy ledger made
    exact ⟨agrees.welcoming vacant made, Reply.Plain.regular trivial⟩
  · intro halt ledger fails
    exact ⟨agrees.advance fails.2, fails.1⟩

theorem runOp_destroy_concludes (number : Nat) :
    Concludes writes origin owned (fun _ reply => reply.Regular) (runOp (.destroy number))
      session := by
  simp only [Concludes, runOp, ends_bind, ends_onLedger, ends_pure, ends_modify]
  refine demandBuffer_ends (fun buffer found => ?_) ⟨agrees, trivial⟩
  have parted := agrees.parting found
  have destroyed : Ends buffer.ring.destroy session.ledger _
      (Ring.Fails session.ledger False (fun _ => False) _) :=
    Ring.destroy_ends (parted.keeps.of_eq (add_left_comm _ _ _)) (agrees.wellFormed found)
  apply destroyed.mono
  · intro _ ledger keeps
    exact ⟨parted.advance keeps, Reply.Plain.regular trivial⟩
  · intro halt ledger fails
    exact ⟨parted.advance fails.keeps, fails.due.orderly⟩

theorem runOp_drain_concludes (number : Nat) (script : List Traversal.Step) :
    Concludes writes origin owned (fun _ reply => reply.Regular) (runOp (.drain number script))
      session := by
  refine concludes_demanding agrees fun buffer found => ?_
  cases buffer with
  | elastic outer => exact concludes_inapplicable agrees
  | fixed ring =>
      simp only [Concludes, ends_bind, ends_onLedger, ends_pure, ends_modify]
      have parted := agrees.parting found
      apply (spending_ends (parted.keeps.of_eq (add_left_comm _ _ _))
        (agrees.wellFormed found)).mono
      · intro answers ledger keeps
        exact ⟨parted.advance keeps, Reply.Plain.regular trivial⟩
      · intro halt ledger stopped
        exact ⟨parted.advance stopped.1, stopped.2⟩

theorem runOp_exchange_concludes (first second : Nat) :
    Concludes writes origin owned (fun _ reply => reply.Regular) (runOp (.exchange first second))
      session := by
  simp only [runOp]
  by_cases distinct : first = second
  · rw [if_pos distinct]
    exact concludes_inapplicable agrees
  rw [if_neg distinct]
  refine concludes_demanding agrees fun source firstFound => ?_
  refine concludes_demanding agrees fun target secondFound => ?_
  cases swapped : source.swap? target with
  | none => exact concludes_inapplicable agrees
  | some pair =>
      exact ⟨agrees.exchanging distinct firstFound secondFound swapped,
        Reply.Plain.regular trivial⟩

theorem runOp_equals_concludes (first second : Nat) :
    Concludes writes origin owned (fun _ reply => reply.Regular) (runOp (.equals first second))
      session := by
  refine concludes_demanding agrees fun source firstFound => ?_
  refine concludes_demanding agrees fun target secondFound => ?_
  obtain ⟨same, told⟩ :=
    (agrees.wellFormed firstFound).equals_exists (agrees.wellFormed secondFound)
  simp only [told]
  exact ⟨agrees, Reply.Plain.regular trivial⟩

theorem runOp_order_concludes (first second : Nat) :
    Concludes writes origin owned (fun _ reply => reply.Regular) (runOp (.order first second))
      session := by
  refine concludes_demanding agrees fun source firstFound => ?_
  refine concludes_demanding agrees fun target secondFound => ?_
  have told := (agrees.wellFormed firstFound).order?_eq (agrees.wellFormed secondFound)
  obtain ⟨totalOrder, toldTotal⟩ :=
    (agrees.wellFormed firstFound).totalOrder?_exists (agrees.wellFormed secondFound)
  simp only [told, toldTotal]
  exact ⟨agrees, Reply.Plain.regular trivial⟩

end

theorem runOp_ends [Value α] (agrees : Agrees writes origin owned session) (op : Op α)
    (allowed : ∀ number, op.inPlace number = true → writes number) :
    Ends (runOp op) session
      (fun reply after => Agrees writes origin owned after ∧ reply.Regular)
      (fun stop after => (∃ lost, Agrees writes origin (lost + owned) after ∧
        (lost = 0 ∨ op.Fragile session.ledger)) ∧ stop.Orderly) := by
  have nothing : ∀ {after : Session α}, Agrees writes origin owned after →
      ∃ lost, Agrees writes origin (lost + owned) after ∧ (lost = 0 ∨ op.Fragile session.ledger) :=
    fun agrees => ⟨0, agrees.of_eq (zero_add _).symm, .inl rfl⟩
  -- Only an operation that makes a buffer after a prototype may lose elements.
  have lossless : Concludes writes origin owned (fun _ reply => reply.Regular) (runOp op) session →
      Ends (runOp op) session (fun reply after => Agrees writes origin owned after ∧ reply.Regular)
        (fun stop after => (∃ lost, Agrees writes origin (lost + owned) after ∧
          (lost = 0 ∨ op.Fragile session.ledger)) ∧ stop.Orderly) := by
    intro concludes
    apply Ends.mono concludes
    · exact fun _ _ => id
    · exact fun stop after stopped => ⟨nothing stopped.1, stopped.2⟩
  cases op with
  | build number plan =>
      simp only [runOp, ends_bind, ends_onLedger, ends_pure, ends_modify]
      refine demandVacant_ends (fun vacant => ?_) ⟨nothing agrees, trivial⟩
      apply (build_ends agrees.keeps).mono
      · intro buffer ledger made
        exact ⟨agrees.welcoming vacant made, Reply.Plain.regular trivial⟩
      · intro halt ledger stopped
        obtain ⟨orderly, lost, keeps, blame⟩ := stopped
        exact ⟨⟨lost, agrees.advance (keeps.of_eq (add_left_comm _ _ _)), blame⟩, orderly⟩
  | duplicate source target => exact lossless (runOp_duplicate_concludes agrees source target)
  | destroy number => exact lossless (runOp_destroy_concludes agrees number)
  | drain number script => exact lossless (runOp_drain_concludes agrees number script)
  | exchange first second => exact lossless (runOp_exchange_concludes agrees first second)
  | equals first second => exact lossless (runOp_equals_concludes agrees first second)
  | order first second => exact lossless (runOp_order_concludes agrees first second)
  | armCopy copies =>
      apply lossless
      exact ⟨agrees.arming copies session.ledger.brittle session.ledger.memory
        session.ledger.events, Reply.Plain.regular trivial⟩
  | armDestruction value =>
      apply lossless
      exact ⟨agrees.arming session.ledger.copiesLeft _ session.ledger.memory
        session.ledger.events, Reply.Plain.regular trivial⟩
  | provide memory =>
      apply lossless
      exact ⟨agrees.arming session.ledger.copiesLeft session.ledger.brittle memory
        session.ledger.events, Reply.Plain.regular trivial⟩
  | on number command save =>
      apply lossless
      apply runOp_on_concludes agrees save
      intro inPlace
      exact allowed number (by simp [Op.inPlace, inPlace])

/-- One operation ends as its run does when the reports of earlier ones were put aside. -/
theorem step_ends [Value α] {op : Op α} {returns : Reply α → Session α → Prop}
    {stops : Stop → Session α → Prop}
    (ends : Ends (runOp op) { session with ledger := { session.ledger with events := [] } } returns
      stops) :
    returns (session.step op).1 (session.step op).2 ∨
      (∃ halt, (session.step op).1 = .halted halt ∧ stops (.halted halt) (session.step op).2) ∨
      (session.step op).1 = .inapplicable ∧ stops .inapplicable (session.step op).2 := by
  unfold Ends at ends
  simp only [step]
  cases outcome : runOp op
      { session with ledger := { session.ledger with events := [] } } with
  | ok reply after =>
      simp only [outcome] at ends ⊢
      exact .inl ends
  | error stop after =>
      simp only [outcome] at ends ⊢
      cases stop with
      | halted halt => exact .inr (.inl ⟨halt, rfl, ends⟩)
      | inapplicable => exact .inr (.inr ⟨rfl, ends⟩)

/-- One operation: it breaks nothing, and loses elements only with a buffer whose prototype cannot
be destroyed. -/
theorem step_sound [Value α] (valid : session.Valid)
    (balanced : session.ledger.Balanced (afloat session.buffers + owned)) (op : Op α) :
    (∀ fault, (session.step op).1 ≠ .halted (.fault fault)) ∧
      ∃ lost, Agrees (op.inPlace · = true) session (lost + owned) (session.step op).2 ∧
        (lost = 0 ∨ op.Fragile session.ledger) := by
  have agrees : Agrees (op.inPlace · = true) session owned session := ⟨valid, .refl _, balanced⟩
  rcases step_ends (runOp_ends agrees.silenced op fun _ => id) with
    ⟨final, regular⟩ | ⟨halt, halted, ⟨lost, final, blame⟩, orderly⟩ |
      ⟨idle, ⟨lost, final, blame⟩, -⟩
  · exact ⟨fun fault => regular _, 0, final.of_eq (zero_add _).symm, .inl rfl⟩
  · refine ⟨fun fault same => ?_, lost, final, blame⟩
    rw [halted] at same
    cases same
    exact orderly
  · refine ⟨fun fault same => ?_, lost, final, blame⟩
    rw [idle] at same
    cases same

theorem blank_valid (memory : Memory) : (blank memory : Session α).Valid :=
  ⟨List.nodup_nil, List.nodup_nil, nofun, nofun, nofun⟩

theorem blank_balanced (memory : Memory) :
    (blank memory : Session α).ledger.Balanced (afloat (blank memory : Session α).buffers + 0) := by
  simp [blank, Ledger.blank, Ledger.Balanced, Ledger.settled]

end RingDeque.Session
