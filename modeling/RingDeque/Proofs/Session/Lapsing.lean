import RingDeque.Proofs.Session.Halting
import RingDeque.Proofs.Session.Framing
import RingDeque.Proofs.Session.Integrity

/-!
Commands that halt.

A command asks first, then runs one action on its buffer, and replies. It halts while asking, which
changes nothing, or because the action did; the reply is given without fail.
-/

namespace RingDeque.Session

open Effect Act

variable {α γ δ : Type} {session : Session α} {number : Nat} {buffer : Buffer α}
  {command : Command α}

/-- A stop that is no halt, or one that only a fault can bring about. -/
def Stop.Silent (stop : Stop) : Prop :=
  ∀ halt, stop = .halted halt → ¬ halt.Orderly

/-- A move that ends with a reply, and that only a fault can end early. -/
def Replies (move : Move α (Outcome α)) : Prop :=
  ∀ session, Ends move session (fun outcome _ => ∃ reply, outcome = .reply reply)
    fun stop _ => stop.Silent

theorem replies_reply (reply : Reply α) : Replies (pure (.reply reply)) :=
  fun _ => ⟨reply, rfl⟩

theorem replies_bind {move : Move α γ} {next : γ → Move α (Outcome α)}
    (first : HaltsOnly Stop.Silent move) (rest : ∀ value, Replies (next value)) :
    Replies (move >>= next) := by
  intro session
  rw [ends_bind]
  exact (first session).mono (fun value after _ => rest value after) fun _ _ => id

theorem silent_inapplicable : Stop.Silent .inapplicable := by
  intro halt same
  cases same

theorem silent_askRing (number : Nat) (step : Ring α → Checked γ) :
    HaltsOnly Stop.Silent (askRing number fun ring => liftM (step ring) : Move α γ) := by
  intro session
  simp only [askRing, ends_bind]
  refine demandBuffer_ends (fun found _ => ?_) silent_inapplicable
  cases step found.ring with
  | ok value => trivial
  | error fault =>
      rintro halt ⟨rfl⟩
      exact id

theorem silent_onBuffer {act : Act (Buffer α) α γ} (number : Nat) (smooth : Smooth act) :
    HaltsOnly Stop.Silent (onBuffer number act) := by
  intro session
  cases found : session.buffer? number with
  | none =>
      rw [onBuffer]
      refine ends_bind.mpr (demandBuffer_ends (fun buffer present => ?_) silent_inapplicable)
      rw [found] at present
      contradiction
  | some buffer =>
      apply (ends_onBuffer found).mpr
      apply (smooth _).mono (fun _ _ => id)
      rintro halt after disorderly _ ⟨rfl⟩
      exact disorderly

theorem silent_handBackOne (item : Option (Item α)) : HaltsOnly Stop.Silent (handBackOne item) := by
  intro session
  simp only [handBackOne, ends_bind, ends_onLedger, Ledger.handBack, ends_modify, ends_pure]

theorem replies_readingRun (number : Nat) :
    Replies (do
      let (front, _) ← askRing number (liftM ·.runs)
      return .reply (.elements (front.map Item.value)) : Move α (Outcome α)) :=
  replies_bind (silent_askRing number _) fun _ => replies_reply _

theorem smooth_onRing {act : Act (Ring α) α γ} (smooth : Smooth act) :
    Smooth (Buffer.onRing act) := by
  rintro ⟨buffer, ledger⟩
  cases buffer with
  | fixed ring => exact Buffer.ends_fixed.mpr (smooth _)
  | elastic outer => exact Buffer.ends_elastic.mpr (ElasticRing.haltsOnly_onRing smooth _)

theorem smooth_overwrite (index : Nat) (value : α) :
    Smooth (do
      let item ← Ledger.make value
      Buffer.onRing (Act.update (·.overwrite index item)) : Act (Buffer α) α (Item α)) :=
  (haltsOnly_ledger (Ledger.haltsOnly_make value)).bind fun _ => smooth_onRing (smooth_update _)

theorem smooth_linearize : Smooth (Ring.linearize : Act (Ring α) α (List (Item α))) := by
  refine haltsOnly_buffer fun ring => (smooth_checked _).bind fun linear => ?_
  have reading : Smooth (do return (← (← Act.buffer).runs).1 : Act (Ring α) α (List (Item α))) :=
    haltsOnly_buffer fun _ => (smooth_checked _).bind fun _ => haltsOnly_pure _
  cases linear with
  | true => exact reading
  | false =>
      refine (smooth_checked _).bind fun rotated => ?_
      refine (haltsOnly_ledger (haltsOnly_modify _)).bind fun _ => ?_
      exact (haltsOnly_modify _).bind fun _ => reading

theorem smooth_overwriteScript [Value α] (script : List (Overwrite α))
    (walk : Traversal (Placed α)) : Smooth (overwriteScript script walk) := by
  apply overwriteScript_of_parts haltsOnly_pure HaltsOnly.bind
  · exact fun step => smooth_checked step
  · exact fun value => haltsOnly_ledger (Ledger.haltsOnly_make value)
  · exact fun _ _ => smooth_update _
  · exact fun _ => haltsOnly_ledger (haltsOnly_modify _)

/-- How a command ends: a cursor that it returns comes from the buffer as it was, or is accepted by
the buffer as it became; if it halts it leaves what a halted command may leave. -/
def Answers (number : Nat) (buffer : Buffer α) (command : Command α) (move : Move α (Outcome α))
    (session : Session α) : Prop :=
  Ends move session
    (fun outcome after => ∀ cursor, outcome = .cursor cursor →
      ∃ later, after.buffer? number = some later ∧
        (later = buffer ∨ ∃ index, later.ring.resolve cursor = .ok index))
    fun stop after => ∀ halt, stop = .halted halt → halt.Orderly →
      ∃ later, after.buffer? number = some later ∧ buffer.Lapses command halt later

section

variable (found : session.buffer? number = some buffer)
include found

theorem answers_of_inert {move : Move α (Outcome α)} (inert : Preserves id move) :
    Answers number buffer command move session := by
  apply (inert session).mono
  · rintro outcome after rfl cursor -
    exact ⟨buffer, found, .inl rfl⟩
  · rintro stop after rfl halt - -
    exact ⟨buffer, found, .refl buffer⟩

theorem answers_asking {ask : Move α γ} {rest : γ → Move α (Outcome α)} {good : γ → Prop}
    {stops : Stop → Prop}
    (asks : Ends ask session (fun value after => after = session ∧ good value)
      fun stop after => after = session ∧ stops stop)
    (next : ∀ value, good value → Answers number buffer command (rest value) session) :
    Answers number buffer command (ask >>= rest) session :=
  ends_asking asks next fun _ _ _ _ _ => ⟨buffer, found, .refl buffer⟩

theorem answers_inertly {ask : Move α γ} {rest : γ → Move α (Outcome α)} (inert : Preserves id ask)
    (next : ∀ value, Answers number buffer command (rest value) session) :
    Answers number buffer command (ask >>= rest) session :=
  answers_asking found inert.asks fun value _ => next value

theorem answers_demanding {rest : Buffer α → Move α (Outcome α)}
    (next : Answers number buffer command (rest buffer) session) :
    Answers number buffer command (demandBuffer number >>= rest) session := by
  rw [Answers, ends_bind, ends_demandBuffer found]
  exact next

theorem answers_onBuffer {act : Act (Buffer α) α γ} {rest : γ → Move α (Outcome α)}
    (lapsing : Lapsing command act ⟨buffer, session.ledger⟩)
    (replies : ∀ value, Replies (rest value)) :
    Answers number buffer command (onBuffer number act >>= rest) session := by
  rw [Answers, ends_bind, ends_onBuffer found]
  apply lapsing.mono
  · intro value after _
    apply (replies value _).mono
    · rintro outcome last ⟨reply, rfl⟩ cursor same
      cases same
    · intro stop last silent halt same orderly
      exact absurd orderly (silent halt same)
  · rintro halt after lapses _ ⟨rfl⟩ orderly
    exact ⟨after.buffer, buffer?_withBuffer_self, lapses orderly⟩

theorem answers_doing {act : Act (Buffer α) α Unit}
    (lapsing : Lapsing command act ⟨buffer, session.ledger⟩) :
    Answers number buffer command (doing number act) session :=
  answers_onBuffer found lapsing fun _ => replies_reply .done

theorem answers_handing {act : Act (Buffer α) α (Option (Item α))}
    (lapsing : Lapsing command act ⟨buffer, session.ledger⟩) :
    Answers number buffer command (do
      let item ← onBuffer number act
      return .reply (← handBackOne item)) session :=
  answers_onBuffer found lapsing fun item =>
    replies_bind (silent_handBackOne item) fun reply => replies_reply reply

theorem answers_pointing {act : Act (Buffer α) α Cursor}
    (lapsing : Lapsing command act ⟨buffer, session.ledger⟩)
    {written : Prop} {origin : Tracked (Ring α) α} {owned : Multiset Nat}
    (careful : Careful written origin owned Buffer.ring (fun _ => 0)
      (fun issued ring => ring.Issues issued) act ⟨buffer, session.ledger⟩) :
    Answers number buffer command (pointing number act) session := by
  simp only [Answers, pointing, ends_bind, ends_pure]
  rw [ends_onBuffer found]
  apply (Ends.and lapsing careful).mono
  · rintro issued after ⟨-, sound, index, points⟩ _ ⟨rfl⟩
    exact ⟨after.buffer, buffer?_withBuffer_self, .inr ⟨index, points.resolve sound.wellFormed⟩⟩
  · rintro halt after ⟨lapses, -⟩ _ ⟨rfl⟩ orderly
    exact ⟨after.buffer, buffer?_withBuffer_self, lapses orderly⟩

theorem answers_overwriting (index : Nat) (value : α) :
    Answers number buffer command (do
      let old ← onBuffer number do
        let item ← Ledger.make value
        Buffer.onRing (Act.update (·.overwrite index item))
      return .reply (← handBackOne (some old))) session :=
  answers_onBuffer found (lapsing_of_smooth (smooth_overwrite index value)) fun old =>
    replies_bind (silent_handBackOne (some old)) fun reply => replies_reply reply

end

/-- What a command leaves and returns, however it ends. -/
theorem runCommand_answers [Value α] {writes : Nat → Prop} {origin : Session α}
    {owned : Multiset Nat} (agrees : Agrees writes origin owned session)
    (found : session.buffer? number = some buffer) :
    Answers number buffer command (runCommand number command) session := by
  have valid := agrees.valid
  have sound := agrees.sound found
  cases command with
  | info | read | mark | next | previous | offset | distance | compare | same | inspect | look
  | equalsList | hash | listing => exact answers_of_inert found (runCommand_asks rfl)
  | write reach value =>
      refine answers_inertly found (preserves_askRing number _) fun reached => ?_
      cases reached with
      | none => exact answers_of_inert found (preserves_pure _)
      | some place => exact answers_overwriting found place.1 value
  | reverseRuns =>
      refine answers_onBuffer found (lapsing_of_smooth (smooth_onRing (smooth_alter _))) fun _ => ?_
      exact replies_bind (silent_askRing number _) fun _ => replies_reply _
  | linearize reverse =>
      refine answers_onBuffer found (lapsing_of_smooth (smooth_onRing smooth_linearize)) fun _ => ?_
      cases reverse with
      | false => exact replies_readingRun number
      | true =>
          exact replies_bind (silent_onBuffer number (smooth_onRing (smooth_alter _))) fun _ =>
            replies_readingRun number
  | writeUnder site value =>
      refine answers_inertly found (preserves_cursorOf number site) fun cursor => ?_
      refine answers_inertly found (preserves_askRing number _) fun place => ?_
      exact answers_overwriting found place.1 value
  | push side value =>
      exact answers_handing found (lapsing_making sound fun _ _ owns => Buffer.push_lapsing owns)
  | pop side => exact answers_handing found (Buffer.pop_lapsing sound)
  | extend feed =>
      refine answers_demanding found ?_
      cases buffer with
      | fixed ring => exact answers_doing found (Buffer.extend_lapsing feed.entries)
      | elastic outer => exact answers_of_inert found preserves_inapplicable
  | insert yields site value =>
      refine answers_asking found (cursorOf_ends valid) fun cursor vouches => ?_
      have vouched := vouches.of_found found
      exact answers_pointing found
        (lapsing_making sound fun _ _ owns => Buffer.insert_lapsing owns vouched)
        (careful_making sound fun _ _ owns => Buffer.insert_careful owns vouched)
  | insertCopies yields site n value =>
      refine answers_asking found (cursorOf_ends valid) fun cursor vouches => ?_
      have vouched := vouches.of_found found
      exact answers_pointing found
        (lapsing_making sound fun _ _ owns => Buffer.insertCopies_lapsing owns vouched)
        (careful_making sound fun _ _ owns => Buffer.insertCopies_careful owns vouched)
  | insertFeed yields site feed =>
      refine answers_asking found (cursorOf_ends valid) fun cursor vouches => ?_
      have vouched := vouches.of_found found
      exact answers_pointing found (Buffer.insertFeed_lapsing sound vouched)
        (Buffer.insertFeed_careful sound vouched)
  | erase toward site =>
      refine answers_asking found (cursorOf_ends valid) fun cursor vouches => ?_
      have vouched := vouches.of_found found
      exact answers_pointing found (Buffer.erase_lapsing sound vouched)
        (Buffer.erase_careful sound vouched)
  | eraseRange toward first last =>
      refine answers_asking found (cursorOf_ends valid) fun first firstVouches => ?_
      refine answers_asking found (cursorOf_ends valid) fun last lastVouches => ?_
      have firstVouched := firstVouches.of_found found
      have lastVouched := lastVouches.of_found found
      exact answers_pointing found (Buffer.eraseRange_lapsing sound firstVouched lastVouched)
        (Buffer.eraseRange_careful sound firstVouched lastVouched)
  | clear => exact answers_doing found (Buffer.clear_lapsing sound)
  | setCapacity trim bounds => exact answers_doing found (Buffer.setCapacity_lapsing sound)
  | setFloor floor =>
      refine answers_demanding found ?_
      cases buffer with
      | fixed ring => exact answers_of_inert found preserves_inapplicable
      | elastic outer => exact answers_doing found (Buffer.setFloor_lapsing sound floor)
  | resize side n value =>
      exact answers_doing found (lapsing_making sound fun _ _ owns => Buffer.resize_lapsing owns)
  | assign n value =>
      exact answers_doing found (lapsing_making sound fun _ _ _ => Buffer.assign_lapsing)
  | assignWithin bounds n value => exact answers_doing found Buffer.assignWithin_lapsing
  | assignFeed feed => exact answers_doing found Buffer.assignFeed_lapsing
  | assignFeedWithin bounds feed =>
      exact answers_doing found (Buffer.assignFeedWithin_lapsing sound)
  | overwrite script =>
      refine answers_inertly found (preserves_askRing number _) fun walk => ?_
      exact answers_onBuffer found
        (lapsing_of_smooth (smooth_onRing (smooth_overwriteScript script walk)))
        fun _ => replies_reply _

/-- A cursor that the buffer accepts is told without fail. -/
theorem replying_returns {later : Buffer α} {cursor : Cursor} {index : Nat}
    (present : session.buffer? number = some later)
    (resolved : later.ring.resolve cursor = .ok index) (save : Option String) :
    Ends (replying number save (.cursor cursor)) session (fun _ _ => True) fun _ _ => False := by
  have resolving : ∀ {last : Session α}, last.buffer? number = some later →
      Ends (do return .cursor (← askRing number (·.resolve cursor)) cursor.isEnd :
        Move α (Reply α)) last (fun _ _ => True) fun _ _ => False := by
    intro last there
    rw [ends_bind, ends_askRing there, resolved]
    trivial
  cases save with
  | none => exact resolving present
  | some name =>
      simp only [replying]
      rw [ends_bind]
      exact resolving present

/-- What a command with its cursor, if it returns one, leaves when it halts. -/
theorem runOp_lapses [Value α] {writes : Nat → Prop} {origin : Session α} {owned : Multiset Nat}
    (agrees : Agrees writes origin owned session) (found : session.buffer? number = some buffer)
    (command : Command α) (save : Option String) :
    Ends (runOp (.on number command save)) session (fun _ _ => True)
      fun stop after => ∀ halt, stop = .halted halt → halt.Orderly →
        ∃ later, after.buffer? number = some later ∧ buffer.Lapses command halt later := by
  rw [runOp_on, ends_bind]
  apply (runCommand_answers agrees found).mono
  · intro outcome after answered
    cases outcome with
    | reply reply => trivial
    | cursor cursor =>
        -- A cursor from before the buffer changed may be refused; one from after it is not.
        obtain ⟨later, present, rfl | ⟨index, resolved⟩⟩ := answered cursor rfl
        · apply (preserves_replying number save (.cursor cursor) after).mono (fun _ _ _ => trivial)
          intro stop last same halt _ _
          exact ⟨later, same.trans present, .refl later⟩
        · exact (replying_returns present resolved save).mono (fun _ _ => id) fun _ _ => False.elim
  · exact fun _ _ => id

/-- What comes about by operations is valid, and its ledger is balanced. -/
theorem Reachable.agrees [Value α] (reachable : session.Reachable) (writes : Nat → Prop) :
    ∃ owned, Agrees writes session owned session := by
  obtain ⟨memory, ops, rfl⟩ := reachable
  obtain ⟨valid, owned, balanced⟩ := run_sound (blank_valid memory) (blank_balanced memory) ops
  exact ⟨owned, valid, .refl _, balanced⟩

theorem run_append [Value α] {ops more : List (Op α)} :
    run (ops ++ more) session = run more (run ops session) :=
  List.foldl_append

theorem Reachable.run [Value α] (reachable : session.Reachable) (ops : List (Op α)) :
    (run ops session).Reachable := by
  obtain ⟨memory, past, rfl⟩ := reachable
  exact ⟨memory, past ++ ops, run_append⟩

/-- Putting the reports of earlier operations aside changes nothing that matters. -/
theorem Reachable.silenced [Value α] (reachable : session.Reachable) :
    ∃ owned, Agrees (fun _ => True) session owned
      { session with ledger := { session.ledger with events := [] } } := by
  obtain ⟨owned, agrees⟩ := reachable.agrees fun _ => True
  exact ⟨owned, agrees.silenced⟩

/-- An operation that reports a halt was ended by it. -/
theorem step_halted [Value α] {writes : Nat → Prop} {origin : Session α} {owned : Multiset Nat}
    {op : Op α} {halt : Halt} {stops : Stop → Session α → Prop}
    (agrees : Agrees writes origin owned session)
    (allowed : ∀ number, op.inPlace number = true → writes number)
    (ends : Ends (runOp op) { session with ledger := { session.ledger with events := [] } }
      (fun _ _ => True) stops)
    (halted : (session.step op).1 = .halted halt) :
    halt.Orderly ∧ stops (.halted halt) (session.step op).2 := by
  have regular := runOp_ends agrees.silenced op allowed
  rcases step_ends (ends.and regular) with ⟨-, -, other⟩ | ⟨cause, reported, stopped⟩ | ⟨idle, -⟩
  · exact absurd halted (other halt)
  · rw [halted] at reported
    cases reported
    exact ⟨stopped.2.2, stopped.1⟩
  · rw [halted] at idle
    cases idle

end RingDeque.Session
