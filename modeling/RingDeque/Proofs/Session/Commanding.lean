import RingDeque.Proofs.Ring.Answering
import RingDeque.Proofs.Session.Moving
import RingDeque.Session.Run

/-!
Commands to one buffer.

Whatever a command is told to do, and however it ends, the session stays in agreement with its
ledger. The commands that write elements in place are the ones after which the element under a
cursor may be another one.
-/

namespace RingDeque.Session

open Effect

/-- Whether a command may put other elements in the place of those a buffer holds. -/
def Command.inPlace {α : Type} : Command α → Bool
  | .write .. | .writeUnder .. | .reverseRuns | .linearize true | .overwrite _ => true
  | _ => false

/-- A reply that is no failure. -/
def Reply.Regular {α : Type} (reply : Reply α) : Prop :=
  ∀ halt, reply ≠ .halted halt

/-- A reply that is no failure, and no cursor either. -/
def Reply.Plain {α : Type} : Reply α → Prop
  | .halted _ => False
  | .cursor _ _ => False
  | _ => True

theorem Reply.Plain.regular {α : Type} {reply : Reply α} (plain : reply.Plain) : reply.Regular := by
  intro halt same
  subst same
  exact plain

theorem Reply.regular_cursor {α : Type} (index : Nat) (isEnd : Bool) :
    (Reply.cursor index isEnd : Reply α).Regular := by
  intro halt impossible
  cases impossible

/-- An outcome that is no failure. A cursor in it is vouched for. -/
def Outcome.Fair {α : Type} (session : Session α) : Outcome α → Prop
  | .reply answer => answer.Plain
  | .cursor issued => session.Vouches issued

variable {α γ δ : Type} {writes : Nat → Prop} {origin session : Session α} {owned : Multiset Nat}
  {number : Nat} {buffer : Buffer α}

/-- What a session says about a buffer that it found. -/
theorem Agrees.wellFormed (agrees : Agrees writes origin owned session)
    (found : session.buffer? number = some buffer) : buffer.ring.WellFormed :=
  agrees.valid.wellFormed _ (mem_of_buffer? found)

theorem Vouches.of_found {cursor : Cursor} (vouches : session.Vouches cursor)
    (found : session.buffer? number = some buffer) : buffer.ring.Vouches cursor :=
  vouches.vouched _ (mem_of_buffer? found)

/-- The ledger of a session moves on while the buffers stay. -/
theorem Agrees.advance {further : Multiset Nat} {ledger : Ledger α}
    (agrees : Agrees writes origin owned session)
    (keeps : session.ledger.Keeps (afloat session.buffers + further) ledger) :
    Agrees writes origin further { session with ledger } := by
  have descends : Descends writes session { session with ledger } :=
    ⟨keeps.follows.rings, fun entry member => .inr ⟨entry.2, member, .refl _⟩⟩
  exact ⟨⟨agrees.valid.numbered, agrees.valid.owners, agrees.valid.wellFormed,
    fun entry member => Nat.lt_of_lt_of_le (agrees.valid.known entry member) keeps.follows.rings,
    fun entry member => (agrees.valid.vouched entry member).of_descends descends⟩,
    agrees.descends.trans descends, keeps.balanced⟩

/-- However a move ends, the session agrees with its ledger: the move returns something good, or
stops for a reason that a caller can give. -/
def Concludes (writes : Nat → Prop) (origin : Session α) (owned : Multiset Nat)
    (good : Session α → γ → Prop) (move : Move α γ) (session : Session α) : Prop :=
  Ends move session (fun value after => Agrees writes origin owned after ∧ good after value)
    fun stop after => Agrees writes origin owned after ∧ stop.Orderly

theorem Concludes.bind {move : Move α γ} {next : γ → Move α δ} {good : Session α → γ → Prop}
    {last : Session α → δ → Prop} (first : Concludes writes origin owned good move session)
    (rest : ∀ value after, Agrees writes origin owned after → good after value →
      Concludes writes origin owned last (next value) after) :
    Concludes writes origin owned last (move >>= next) session := by
  rw [Concludes, ends_bind]
  apply Ends.mono first
  · intro value after ended
    exact rest value after ended.1 ended.2
  · exact fun _ _ => id

section

variable {good : Session α → δ → Prop} (agrees : Agrees writes origin owned session)
include agrees

theorem concludes_inapplicable : Concludes writes origin owned good inapplicable session :=
  ⟨agrees, trivial⟩

/-- A step that only asks is followed by others in the same session. -/
theorem concludes_asking {ask : Move α γ} {rest : γ → Move α δ} {told : γ → Prop}
    (asks : Ends ask session (fun value after => after = session ∧ told value)
      (fun stop after => after = session ∧ stop.Orderly))
    (next : ∀ value, told value → Concludes writes origin owned good (rest value) session) :
    Concludes writes origin owned good (ask >>= rest) session :=
  ends_asking asks next fun _ orderly => ⟨agrees, orderly⟩

theorem concludes_at {rest : Cursor → Move α δ} (site : Site)
    (next : ∀ cursor, session.Vouches cursor →
      Concludes writes origin owned good (rest cursor) session) :
    Concludes writes origin owned good (cursorOf number site >>= rest) session :=
  concludes_asking agrees (cursorOf_ends agrees.valid) next

theorem concludes_demanding {rest : Buffer α → Move α δ}
    (next : ∀ buffer, session.buffer? number = some buffer →
      Concludes writes origin owned good (rest buffer) session) :
    Concludes writes origin owned good (demandBuffer number >>= rest) session :=
  ends_bind.mpr (demandBuffer_ends next ⟨agrees, trivial⟩)

/-- A step that runs an action on a buffer, and hands out what the action gives. -/
theorem concludes_onBuffer {given : γ → Multiset Nat} {held : γ → Ring α → Prop}
    {act : Act (Buffer α) α γ} {rest : γ → Move α δ}
    (careful : CarefulOn number writes session given held act)
    (next : ∀ value after, Agrees writes origin (given value + owned) after →
      (∃ changed, (number, changed) ∈ after.buffers ∧ held value changed.ring) →
      Concludes writes origin owned good (rest value) after) :
    Concludes writes origin owned good (onBuffer number act >>= rest) session := by
  rw [Concludes, ends_bind]
  apply (onBuffer_ends agrees careful).mono
  · intro value after ended
    exact next value after ended.1 ended.2
  · exact fun _ _ => id

/-- A step that runs an action on a buffer, and leaves all elements in it. -/
theorem concludes_acting (held : γ → Ring α → Prop) {act : Act (Buffer α) α γ}
    {rest : γ → Move α δ} (careful : CarefulOn number writes session (fun _ => 0) held act)
    (next : ∀ value after, Agrees writes origin owned after →
      (∃ changed, (number, changed) ∈ after.buffers ∧ held value changed.ring) →
      Concludes writes origin owned good (rest value) after) :
    Concludes writes origin owned good (onBuffer number act >>= rest) session :=
  concludes_onBuffer agrees careful fun value after final =>
    next value after (final.of_eq (zero_add _))

/-- Reversing the two runs in place, which only a command that may write does. -/
theorem concludes_reversing {rest : Unit → Move α δ} (allowed : writes number)
    (next : ∀ after, Agrees writes origin owned after →
      Concludes writes origin owned good (rest ()) after) :
    Concludes writes origin owned good
      (onBuffer number (Buffer.onRing (Act.alter Ring.reverseRuns)) >>= rest) session := by
  have certain : writes number = True := eq_true allowed
  apply concludes_acting agrees fun _ _ => True
  · intro buffer further found sound
    rw [certain] at sound ⊢
    exact Buffer.reverseRuns_careful sound
  · exact fun _ after final _ => next after final

theorem doing_concludes {act : Act (Buffer α) α Unit} {held : Unit → Ring α → Prop}
    (careful : CarefulOn number writes session (fun _ => 0) held act) :
    Concludes writes origin owned Outcome.Fair (doing number act) session :=
  concludes_acting agrees held careful fun _ _ final _ => ⟨final, trivial⟩

theorem pointing_concludes {act : Act (Buffer α) α Cursor}
    (careful : CarefulOn number writes session (fun _ => 0) (fun issued ring => ring.Issues issued)
      act) :
    Concludes writes origin owned Outcome.Fair (pointing number act) session := by
  apply concludes_acting agrees _ careful
  rintro issued after final ⟨changed, member, issues⟩
  exact ⟨final, final.valid.vouches_of_issues member issues⟩

/-- Asking the ring of a buffer, and replying with what it answers. -/
theorem telling_concludes {query : Ring α → Query γ} {answer : γ → Reply α}
    (yields : ∀ buffer, session.buffer? number = some buffer →
      (query buffer.ring).Yields fun _ => True)
    (plain : ∀ value, (answer value).Plain) :
    Concludes writes origin owned Outcome.Fair
      (do return .reply (answer (← askRing number query))) session :=
  concludes_asking agrees (askRing_ends (fun _ _ => True) yields) fun value _ =>
    ⟨agrees, plain value⟩

/-- Asking the ring of a buffer for a cursor. -/
theorem seeking_concludes {query : Ring α → Query Cursor}
    (yields : ∀ buffer, session.buffer? number = some buffer →
      (query buffer.ring).Yields buffer.ring.Issues) :
    Concludes writes origin owned Outcome.Fair (do return .cursor (← askRing number query))
      session := by
  apply concludes_asking agrees (askRing_ends _ yields)
  rintro cursor ⟨buffer, found, issues⟩
  exact ⟨agrees, agrees.valid.vouches_of_issues (mem_of_buffer? found) issues⟩

/-- Reading the first of the two runs. -/
theorem readingRun_concludes :
    Concludes writes origin owned Outcome.Fair (do
        let (front, _) ← askRing number (liftM ·.runs)
        return .reply (.elements (front.map Item.value))) session :=
  concludes_asking agrees (askRing_ends (fun _ _ => True) fun _ found =>
    (agrees.wellFormed found).runs_yields) fun _ _ => ⟨agrees, trivial⟩

end

theorem handBackOne_ends {item : Option (Item α)} {stops : Stop → Session α → Prop}
    (agrees : Agrees writes origin (ids item.toList + owned) session) :
    Ends (handBackOne item) session
      (fun reply after => Agrees writes origin owned after ∧ reply.Plain) stops := by
  have keeps : session.ledger.Keeps (ids item.toList + (afloat session.buffers + owned))
      session.ledger := ⟨.refl _, by
    have balanced := agrees.balanced
    rwa [add_left_comm] at balanced⟩
  simp only [handBackOne, ends_bind, ends_onLedger, ends_pure]
  exact (Ledger.handBack_ends keeps).mono
    (fun _ _ kept => ⟨agrees.advance kept, trivial⟩) fun _ _ => id

/-- An action that gives up an element, if any, which is handed back. -/
theorem handingBack_concludes {act : Act (Buffer α) α γ} (item : γ → Option (Item α))
    (agrees : Agrees writes origin owned session)
    (careful : CarefulOn number writes session (fun value => ids (item value).toList)
      (fun _ _ => True) act) :
    Concludes writes origin owned Outcome.Fair (do
        let value ← onBuffer number act
        return .reply (← handBackOne (item value))) session := by
  apply concludes_onBuffer agrees careful
  intro value after final _
  simp only [Concludes, ends_bind, ends_pure]
  exact handBackOne_ends final

/-- Overwriting an element that was found in the buffer, and handing the old one back. -/
theorem overwriting_concludes {index : Nat} {item : Item α} {value : α}
    (agrees : Agrees writes origin owned session) (allowed : writes number)
    (found : session.buffer? number = some buffer)
    (present : buffer.ring.toList[index]? = some item) :
    Concludes writes origin owned Outcome.Fair (do
        let old ← onBuffer number do
          let item ← Ledger.make value
          Buffer.onRing (Act.update (·.overwrite index item))
        return .reply (← handBackOne (some old))) session := by
  have certain : writes number = True := eq_true allowed
  apply handingBack_concludes some agrees
  intro same further again sound
  rw [found, Option.some_inj] at again
  subst again
  rw [certain] at sound ⊢
  exact Buffer.overwrite_careful sound present

/-- Walking over the elements of a buffer. -/
theorem lookingScript_concludes [Value α] {script : List Look}
    (agrees : Agrees writes origin owned session) :
    Concludes writes origin owned Outcome.Fair (do
        let walk ← askRing number (liftM ·.iterate)
        return .reply (.walk (← ask (lookScript script walk)))) session := by
  apply concludes_asking agrees (askRing_ends
    (fun _ walk => (Traversal.toList walk).length < Word.limit) _)
  · rintro walk ⟨buffer, found, bounded⟩
    obtain ⟨answers, looked, -⟩ := lookScript_answers script bounded
    rw [looked]
    exact ⟨agrees, trivial⟩
  · intro buffer found
    have wellFormed := agrees.wellFormed found
    obtain ⟨walk, walked, listed⟩ := wellFormed.iterate_exists
    exact Query.yields_of_exists ⟨walk, walked, listed ▸ wellFormed.length_lt_word⟩

/-- Walking over the places of a buffer, and writing in some of them. -/
theorem overwritingScript_concludes [Value α] {script : List (Overwrite α)}
    (agrees : Agrees writes origin owned session) (allowed : writes number) :
    Concludes writes origin owned Outcome.Fair (do
        let walk ← askRing number (liftM ·.places)
        return .reply (.walk (← onBuffer number (Buffer.onRing (overwriteScript script walk)))))
      session := by
  have certain : writes number = True := eq_true allowed
  apply concludes_asking agrees
    (askRing_ends (fun ring walk => Filled ring (Traversal.toList walk) ∧
      (Traversal.toList walk).length < Word.limit) _)
  · rintro walk ⟨buffer, found, filled, bounded⟩
    apply concludes_acting agrees fun _ _ => True
    · intro same further again sound
      rw [found, Option.some_inj] at again
      subst again
      rw [certain] at sound ⊢
      exact Buffer.overwriteScript_careful sound filled bounded
    · exact fun _ _ final _ => ⟨final, trivial⟩
  · intro buffer found
    have wellFormed := agrees.wellFormed found
    obtain ⟨walk, walked, placed⟩ := wellFormed.places_exists
    refine Query.yields_of_exists ⟨walk, walked, ?_, ?_⟩
    · intro place member
      rw [Ring.held_of_placed wellFormed (placed ▸ member)]
      rfl
    · rw [placed, List.length_map, List.length_zipIdx]
      exact wellFormed.length_lt_word

/-- A command to one buffer, whatever it is told to do and however it ends. -/
theorem runCommand_concludes [Value α] (agrees : Agrees writes origin owned session)
    (command : Command α) (allowed : command.inPlace = true → writes number) :
    Concludes writes origin owned Outcome.Fair (runCommand number command) session := by
  cases command with
  | info =>
      refine concludes_demanding agrees fun buffer found => ?_
      obtain ⟨info, told⟩ := Buffer.info_exists (agrees.wellFormed found)
      rw [told]
      exact ⟨agrees, trivial⟩
  | read reach =>
      exact telling_concludes agrees (fun buffer found =>
        ((agrees.wellFormed found).reach_yields reach).mono fun _ _ => trivial) fun _ => trivial
  | write reach value =>
      apply concludes_asking agrees (askRing_ends (fun ring (found : Option (Nat × Item α)) =>
          ∀ index item, found = some (index, item) → ring.toList[index]? = some item)
        fun buffer found => (agrees.wellFormed found).reach_yields reach)
      rintro reached ⟨buffer, found, located⟩
      cases reached with
      | none => exact ⟨agrees, trivial⟩
      | some place =>
          exact overwriting_concludes agrees (allowed rfl) found (located place.1 place.2 rfl)
  | reverseRuns =>
      refine concludes_reversing agrees (allowed rfl) fun after agrees => ?_
      exact concludes_asking agrees (askRing_ends (fun _ _ => True) fun buffer found =>
        (agrees.wellFormed found).runs_yields) fun _ _ => ⟨agrees, trivial⟩
  | linearize reverse =>
      apply concludes_acting agrees _ fun _ _ _ sound => Buffer.linearize_careful sound
      intro _ after agrees _
      cases reverse with
      | false => exact readingRun_concludes agrees
      | true => exact concludes_reversing agrees (allowed rfl) fun _ => readingRun_concludes
  | mark site => exact concludes_at agrees site fun cursor vouches => ⟨agrees, vouches⟩
  | next site =>
      refine concludes_at agrees site fun cursor vouches => ?_
      exact seeking_concludes agrees fun buffer found =>
        (agrees.wellFormed found).offset_yields (vouches.of_found found) 1
  | previous site =>
      refine concludes_at agrees site fun cursor vouches => ?_
      exact seeking_concludes agrees fun buffer found =>
        (agrees.wellFormed found).offset_yields (vouches.of_found found) (-1)
  | offset site n =>
      refine concludes_at agrees site fun cursor vouches => ?_
      exact seeking_concludes agrees fun buffer found =>
        (agrees.wellFormed found).offset_yields (vouches.of_found found) n
  | distance source target =>
      refine concludes_at agrees source fun first firstVouches => ?_
      refine concludes_at agrees target fun second secondVouches => ?_
      exact telling_concludes agrees (fun buffer found => (agrees.wellFormed found).distance_yields
        (firstVouches.of_found found) (secondVouches.of_found found)) fun _ => trivial
  | compare first second =>
      refine concludes_at agrees first fun first firstVouches => ?_
      refine concludes_at agrees second fun second secondVouches => ?_
      exact telling_concludes agrees (fun buffer found =>
        (agrees.wellFormed found).compareCursors_yields (firstVouches.of_found found)
          (secondVouches.of_found found)) fun _ => trivial
  | same first second =>
      refine concludes_at agrees first fun _ _ => ?_
      exact concludes_at agrees second fun _ _ => ⟨agrees, trivial⟩
  | inspect site =>
      refine concludes_at agrees site fun cursor vouches => ?_
      refine concludes_demanding agrees fun buffer found => ?_
      have wellFormed := agrees.wellFormed found
      have vouched := vouches.of_found found
      refine concludes_asking agrees (askEither_ends (wellFormed.elementUnder_yields vouched)) ?_
      intro _ _
      exact concludes_asking agrees (askEither_ends (wellFormed.resolve_yields vouched)) fun _ _ =>
        ⟨agrees, trivial⟩
  | writeUnder site value =>
      refine concludes_at agrees site fun cursor vouches => ?_
      apply concludes_asking agrees (askRing_ends (fun ring (found : Nat × Item α) =>
          ring.toList[found.1]? = some found.2)
        fun buffer found => (agrees.wellFormed found).locate_yields (vouches.of_found found))
      rintro ⟨index, item⟩ ⟨buffer, found, located⟩
      exact overwriting_concludes agrees (allowed rfl) found located
  | push side value =>
      exact handingBack_concludes id agrees fun buffer further found sound =>
        careful_making sound fun item ledger owns => Buffer.push_careful owns
  | pop side => exact handingBack_concludes id agrees fun _ _ _ sound => Buffer.pop_careful sound
  | extend feed =>
      refine concludes_demanding agrees fun buffer found => ?_
      cases buffer with
      | fixed ring =>
          exact doing_concludes agrees fun _ _ _ sound => Buffer.extend_careful sound feed.entries
      | elastic outer => exact concludes_inapplicable agrees
  | insert yields site value =>
      refine concludes_at agrees site fun cursor vouches => ?_
      exact pointing_concludes agrees fun buffer further found sound =>
        careful_making sound fun item ledger owns =>
          Buffer.insert_careful owns (vouches.of_found found)
  | insertCopies yields site n value =>
      refine concludes_at agrees site fun cursor vouches => ?_
      exact pointing_concludes agrees fun buffer further found sound =>
        careful_making sound fun item ledger owns =>
          Buffer.insertCopies_careful owns (vouches.of_found found)
  | insertFeed yields site feed =>
      refine concludes_at agrees site fun cursor vouches => ?_
      exact pointing_concludes agrees fun buffer further found sound =>
        Buffer.insertFeed_careful sound (vouches.of_found found)
  | erase toward site =>
      refine concludes_at agrees site fun cursor vouches => ?_
      exact pointing_concludes agrees fun buffer further found sound =>
        Buffer.erase_careful sound (vouches.of_found found)
  | eraseRange toward first last =>
      refine concludes_at agrees first fun first firstVouches => ?_
      refine concludes_at agrees last fun last lastVouches => ?_
      exact pointing_concludes agrees fun buffer further found sound =>
        Buffer.eraseRange_careful sound (firstVouches.of_found found) (lastVouches.of_found found)
  | clear => exact doing_concludes agrees fun _ _ _ sound => Buffer.clear_careful sound
  | setCapacity trim bounds =>
      exact doing_concludes agrees fun _ _ _ sound => Buffer.setCapacity_careful sound
  | setFloor floor =>
      refine concludes_demanding agrees fun buffer found => ?_
      cases buffer with
      | fixed ring => exact concludes_inapplicable agrees
      | elastic outer =>
          exact doing_concludes agrees fun _ _ _ sound => Buffer.setFloor_careful sound floor
  | resize side n value =>
      exact doing_concludes agrees fun _ _ _ sound =>
        careful_making sound fun model ledger owns => Buffer.resize_careful owns
  | assign n value =>
      exact doing_concludes agrees fun _ _ _ sound =>
        careful_making sound fun model ledger owns => Buffer.assign_careful owns
  | assignWithin bounds n value =>
      exact doing_concludes agrees fun _ _ _ sound => Buffer.assignWithin_careful sound
  | assignFeed feed =>
      exact doing_concludes agrees fun _ _ _ sound => Buffer.assignFeed_careful sound
  | assignFeedWithin bounds feed =>
      exact doing_concludes agrees fun _ _ _ sound => Buffer.assignFeedWithin_careful sound
  | look script => exact lookingScript_concludes agrees
  | overwrite script => exact overwritingScript_concludes agrees (allowed rfl)
  | equalsList values =>
      refine telling_concludes agrees (fun buffer found => ?_) fun _ => trivial
      obtain ⟨front, back, -, compared⟩ := (agrees.wellFormed found).equalsList_exists values
      exact Query.yields_of_answered ⟨_, compared⟩
  | hash =>
      refine concludes_demanding agrees fun buffer found => ?_
      cases buffer with
      | fixed ring =>
          have wellFormed : ring.WellFormed := agrees.wellFormed found
          exact concludes_asking agrees
            (ask_ends (Query.yields_of_answered ⟨_, wellFormed.hashed_eq⟩))
            fun _ _ => ⟨agrees, trivial⟩
      | elastic outer => exact concludes_inapplicable agrees
  | listing =>
      refine concludes_demanding agrees fun buffer found => ?_
      exact concludes_asking agrees (ask_ends (Query.yields_of_answered
        (Buffer.listing_exists (agrees.wellFormed found)))) fun _ _ => ⟨agrees, trivial⟩

end RingDeque.Session
