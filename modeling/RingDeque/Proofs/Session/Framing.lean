import RingDeque.Proofs.Session.Running

/-!
What a step leaves alone.

Asking changes nothing, and a command to one buffer changes no other one.
-/

namespace RingDeque.Session

open Effect

variable {α γ δ ω : Type} {view : Session α → ω} {session : Session α} {number other : Nat}

theorem preserves_inapplicable : Preserves view (inapplicable : Move α γ) :=
  fun _ => rfl

theorem preserves_demandBuffer (number : Nat) : Preserves view (demandBuffer (α := α) number) :=
  fun _ => demandBuffer_ends (fun _ _ => rfl) rfl

theorem preserves_ask (query : Query γ) : Preserves view (ask query : Move α γ) := by
  intro session
  cases query with
  | ok value => rfl
  | error halt => rfl

theorem preserves_askEither (query : Query γ) :
    Preserves view (askEither query : Move α (Except Error γ)) := by
  intro session
  cases query with
  | ok value => rfl
  | error halt => cases halt <;> rfl

theorem preserves_askRing (number : Nat) (query : Ring α → Query γ) :
    Preserves view (askRing number query) :=
  (preserves_demandBuffer number).bind fun _ => preserves_ask _

theorem preserves_cursorOf (number : Nat) (site : Site) :
    Preserves view (cursorOf (α := α) number site) := by
  unfold cursorOf
  cases site with
  | begin => exact preserves_askRing number _
  | finish => exact preserves_askRing number _
  | index index => exact preserves_askRing number _
  | bookmark name =>
      intro session
      simp only [ends_bind, ends_get]
      cases session.bookmarks.lookup name with
      | none => rfl
      | some bookmark => rfl

/-- Whether a command only asks its buffer. -/
def Command.asks : Command α → Bool
  | .info | .read _ | .mark _ | .next _ | .previous _ | .offset .. | .distance .. | .compare .. | .same ..
  | .inspect _ | .look _ | .equalsList _ | .hash | .listing => true
  | _ => false

theorem runCommand_asks [Value α] {command : Command α} (asks : command.asks = true) :
    Preserves view (runCommand number command) := by
  cases command with
  | info =>
      exact (preserves_demandBuffer number).bind fun _ =>
        (preserves_ask _).bind fun _ => preserves_pure _
  | read | equalsList =>
      exact (preserves_askRing number _).bind fun _ => preserves_pure _
  | look script =>
      exact (preserves_askRing number _).bind fun _ =>
        (preserves_ask _).bind fun _ => preserves_pure _
  | mark site => exact (preserves_cursorOf number site).bind fun _ => preserves_pure _
  | next site | previous site | offset site =>
      exact (preserves_cursorOf number site).bind fun _ =>
        (preserves_askRing number _).bind fun _ => preserves_pure _
  | distance first second | compare first second =>
      exact (preserves_cursorOf number first).bind fun _ =>
        (preserves_cursorOf number second).bind fun _ =>
          (preserves_askRing number _).bind fun _ => preserves_pure _
  | same first second =>
      exact (preserves_cursorOf number first).bind fun _ =>
        (preserves_cursorOf number second).bind fun _ => preserves_pure _
  | inspect site =>
      exact (preserves_cursorOf number site).bind fun _ =>
        (preserves_demandBuffer number).bind fun _ => (preserves_askEither _).bind fun _ =>
          (preserves_askEither _).bind fun _ => preserves_pure _
  | hash =>
      refine (preserves_demandBuffer number).bind fun buffer => ?_
      cases buffer with
      | fixed ring => exact (preserves_ask _).bind fun _ => preserves_pure _
      | elastic outer => exact preserves_inapplicable
  | listing =>
      exact (preserves_demandBuffer number).bind fun _ =>
        (preserves_ask _).bind fun _ => preserves_pure _
  | _ => cases asks

theorem runOp_equals_preserves [Value α] (first second : Nat) :
    Preserves view (runOp (.equals first second : Op α)) :=
  (preserves_demandBuffer first).bind fun _ => (preserves_demandBuffer second).bind fun _ =>
    (preserves_ask _).bind fun _ => preserves_pure _

theorem runOp_order_preserves [Value α] (first second : Nat) :
    Preserves view (runOp (.order first second : Op α)) :=
  (preserves_demandBuffer first).bind fun _ => (preserves_demandBuffer second).bind fun _ =>
    (preserves_ask _).bind fun _ => (preserves_ask _).bind fun _ => preserves_pure _

theorem preserves_buffer? {move : Move α γ} (preserves : Preserves Session.buffers move) :
    Preserves (buffer? · other) move :=
  preserves.map (List.lookup other)

/-- What a session holds in buffers, and what it has reported. -/
def outward (session : Session α) : List (Nat × Buffer α) × List Event :=
  (session.buffers, session.ledger.events)

theorem replying_preserves (number : Nat) (save : Option String) (outcome : Outcome α) :
    Preserves outward (replying number save outcome) := by
  cases outcome with
  | reply reply => exact preserves_pure _
  | cursor cursor =>
      have resolving : Preserves outward (do
          return .cursor (← askRing number (·.resolve cursor)) cursor.isEnd : Move α (Reply α)) :=
        (preserves_askRing number _).bind fun _ => preserves_pure _
      cases save with
      | none => exact resolving
      | some name => exact Preserves.bind (fun _ => rfl) fun _ => resolving

theorem replying_preserves_buffers (number : Nat) (save : Option String) (outcome : Outcome α) :
    Preserves Session.buffers (replying number save outcome) :=
  (replying_preserves number save outcome).map Prod.fst

theorem preserves_replying (number : Nat) (save : Option String) (outcome : Outcome α) :
    Preserves (buffer? · other) (replying number save outcome) :=
  preserves_buffer? (replying_preserves_buffers number save outcome)

theorem handBackOne_preserves (item : Option (Item α)) :
    Preserves outward (handBackOne item) := by
  intro session
  simp only [handBackOne, Ledger.handBack, ends_bind, ends_onLedger, ends_modify, ends_pure]
  rfl

theorem handBackOne_preserves_buffers (item : Option (Item α)) :
    Preserves Session.buffers (handBackOne item) :=
  (handBackOne_preserves item).map Prod.fst

theorem preserves_handBackOne (item : Option (Item α)) :
    Preserves (buffer? · other) (handBackOne item) :=
  preserves_buffer? (handBackOne_preserves_buffers item)

section

variable (distinct : other ≠ number)
include distinct

theorem preserves_onBuffer (act : Act (Buffer α) α γ) :
    Preserves (buffer? · other) (onBuffer number act) := by
  intro session
  cases found : session.buffer? number with
  | none =>
      rw [onBuffer]
      refine ends_bind.mpr (demandBuffer_ends (fun buffer present => ?_) rfl)
      rw [found] at present
      contradiction
  | some buffer =>
      apply (ends_onBuffer found).mpr
      exact Ends.anyhow (fun _ _ => buffer?_withBuffer_of_ne distinct)
        fun _ _ => buffer?_withBuffer_of_ne distinct

theorem preserves_doing (act : Act (Buffer α) α Unit) :
    Preserves (buffer? · other) (doing number act) :=
  (preserves_onBuffer distinct act).bind fun _ => preserves_pure _

theorem preserves_pointing (act : Act (Buffer α) α Cursor) :
    Preserves (buffer? · other) (pointing number act) :=
  (preserves_onBuffer distinct act).bind fun _ => preserves_pure _

theorem preserves_handing (act : Act (Buffer α) α γ) (item : γ → Option (Item α)) :
    Preserves (buffer? · other) (do
      let value ← onBuffer number act
      return .reply (← handBackOne (item value)) : Move α (Outcome α)) :=
  (preserves_onBuffer distinct act).bind fun _ =>
    (preserves_handBackOne _).bind fun _ => preserves_pure _

/-- A command to one buffer changes no other one. -/
theorem runCommand_preserves [Value α] (command : Command α) :
    Preserves (buffer? · other) (runCommand number command) := by
  cases command with
  | info | read | mark | next | previous | offset | distance | compare | same | inspect | look
  | equalsList | hash | listing => exact runCommand_asks rfl
  | write reach value =>
      refine (preserves_askRing number _).bind fun reached => ?_
      cases reached with
      | none => exact preserves_pure _
      | some place => exact preserves_handing distinct _ some
  | reverseRuns =>
      exact (preserves_onBuffer distinct _).bind fun _ =>
        (preserves_askRing number _).bind fun _ => preserves_pure _
  | linearize reverse =>
      refine (preserves_onBuffer distinct _).bind fun _ => ?_
      cases reverse with
      | false => exact (preserves_askRing number _).bind fun _ => preserves_pure _
      | true =>
          exact (preserves_onBuffer distinct _).bind fun _ =>
            (preserves_askRing number _).bind fun _ => preserves_pure _
  | writeUnder site value =>
      exact (preserves_cursorOf number site).bind fun _ =>
        (preserves_askRing number _).bind fun _ => preserves_handing distinct _ some
  | push | pop => exact preserves_handing distinct _ id
  | extend feed =>
      refine (preserves_demandBuffer number).bind fun buffer => ?_
      cases buffer with
      | fixed ring => exact preserves_doing distinct _
      | elastic outer => exact preserves_inapplicable
  | setFloor floor =>
      refine (preserves_demandBuffer number).bind fun buffer => ?_
      cases buffer with
      | fixed ring => exact preserves_inapplicable
      | elastic outer => exact preserves_doing distinct _
  | insert yields site | insertCopies yields site | insertFeed yields site | erase toward site =>
      exact (preserves_cursorOf number site).bind fun _ => preserves_pointing distinct _
  | eraseRange toward first last =>
      exact (preserves_cursorOf number first).bind fun _ =>
        (preserves_cursorOf number last).bind fun _ => preserves_pointing distinct _
  | clear | setCapacity | resize | assign | assignWithin | assignFeed | assignFeedWithin =>
      exact preserves_doing distinct _
  | overwrite script =>
      exact (preserves_askRing number _).bind fun _ =>
        (preserves_onBuffer distinct _).bind fun _ => preserves_pure _

theorem runOp_preserves [Value α] (command : Command α) (save : Option String) :
    Preserves (buffer? · other) (runOp (.on number command save)) := by
  rw [runOp_on]
  exact (runCommand_preserves distinct command).bind fun outcome => preserves_replying number save outcome

end

end RingDeque.Session
