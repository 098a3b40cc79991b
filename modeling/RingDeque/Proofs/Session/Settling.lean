import RingDeque.Proofs.Ring.Voiding
import RingDeque.Proofs.Session.Buffers
import RingDeque.Proofs.Session.Framing

/-!
What a command does to the cursors of a fixed ring.

`Command.Keeps` says which elements keep their cursors when the command returns. A command asks
first, which touches no counter, then runs one action on its buffer, whose effect on the counters is
known, and the rest of it touches none.
-/

namespace RingDeque.Session

open Effect Act

variable {α γ δ : Type} {session : Session α} {number : Nat} {ring : Ring α} {ledger : Ledger α}
  {spared : Nat → Prop} {good : Ring α → Prop}

/-- The logical index of a place that a command names, as seen from a ring. -/
def Site.index? (session : Session α) (ring : Ring α) : Site → Option Nat
  | .begin => some 0
  | .finish => some ring.len
  | .index place => some place
  | .bookmark name => do (ring.resolve (← session.bookmarks.lookup name).cursor).toOption

/-- Whether the element at a logical index of a ring keeps its cursors when a command returns. -/
def Command.Keeps (session : Session α) (ring : Ring α) (command : Command α) (index : Nat) : Prop :=
  match command with
  | .linearize _ => ring.start + ring.len ≤ ring.capacity
  | .push side _ => ring.len < ring.capacity ∨ side.opposite.Leaves ring.len 1 index
  | .pop side => side.Leaves ring.len 1 index
  | .extend feed => ring.len + feed.entries.length - ring.capacity ≤ index
  | .insert yields site _ => ∃ target, site.index? session ring = some target ∧
      ring.KeptByInsertion yields target (ring.admits yields target 1) index
  | .insertCopies yields site n _ => ∃ target, site.index? session ring = some target ∧
      ring.KeptByInsertion yields target (ring.admits yields target n) index
  | .insertFeed yields site feed => ∃ target, site.index? session ring = some target ∧
      ring.KeptByInsertion yields target (ring.admits yields target feed.claimed) index
  | .erase toward site => ∃ target, site.index? session ring = some target ∧
      ring.KeptByRemoval toward target 1 index
  | .eraseRange toward first last => ∃ source, first.index? session ring = some source ∧
      ∃ target, last.index? session ring = some target ∧
        ring.KeptByRemoval toward source (target - source) index
  | .setCapacity _ bounds => bounds.ceiling = ring.capacity
  | .resize side n _ =>
      if ring.len < n then n ≤ ring.capacity else side.opposite.Leaves ring.len (ring.len - n) index
  | .clear | .assign .. | .assignWithin .. | .assignFeed _ | .assignFeedWithin .. => False
  | _ => True

/-- Whether a feed that a command inserts holds as many elements as it claims. -/
def Command.Truthful : Command α → Prop
  | .insertFeed _ _ feed => feed.claimed = feed.entries.length
  | _ => True

/-- The ring spares the cursors to the elements at some logical indices of an earlier one. -/
def Spared (earlier : Ring α) (spared : Nat → Prop) (later : Ring α) : Prop :=
  ∀ place < earlier.len, (earlier.Retains later (earlier.place place) ↔ spared place)

/-- A move that leaves a good fixed ring under a number when it returns. -/
def Settles (number : Nat) (good : Ring α → Prop) (move : Move α γ) (session : Session α) : Prop :=
  Ends move session
    (fun _ after => ∃ later, after.buffer? number = some (.fixed later) ∧ good later) fun _ _ => True

/-- A move that touches no counter of a fixed ring under a number. -/
def Keeping (number : Nat) (move : Move α γ) : Prop :=
  ∀ session ring, session.buffer? number = some (.fixed ring) →
    Settles number (fun later => later.registry = ring.registry) move session

theorem keeping_of_preserves {move : Move α γ} (preserves : Preserves (buffer? · number) move) :
    Keeping number move := by
  intro session ring found
  apply (preserves session).mono
  · intro value after same
    exact ⟨ring, same.trans found, rfl⟩
  · exact fun _ _ _ => trivial

theorem keeping_pure (value : γ) : Keeping number (pure value : Move α γ) :=
  keeping_of_preserves (preserves_pure value)

theorem Keeping.bind {move : Move α γ} {next : γ → Move α δ} (first : Keeping number move)
    (rest : ∀ value, Keeping number (next value)) : Keeping number (move >>= next) := by
  intro session ring found
  rw [Settles, ends_bind]
  apply (first session ring found).mono
  · rintro value middle ⟨between, foundBetween, same⟩
    rw [← same]
    exact rest value middle between foundBetween
  · exact fun _ _ => id

/-- An action that leaves a good ring when it runs on a fixed one and returns. -/
def Buffer.Leaves (act : Act (Buffer α) α γ) (ring : Ring α) (ledger : Ledger α)
    (good : Ring α → Prop) : Prop :=
  Ends act ⟨.fixed ring, ledger⟩ (fun _ after => ∃ later, after.buffer = .fixed later ∧ good later)
    fun _ _ => True

theorem Buffer.leaves_fixed {onFixed : Act (Ring α) α γ} {onElastic : Act (ElasticRing α) α γ}
    (ends : Ends onFixed ⟨ring, ledger⟩ (fun _ after => good after.buffer) fun _ _ => True) :
    Buffer.Leaves (Buffer.either onFixed onElastic) ring ledger good := by
  rw [Buffer.Leaves, Buffer.ends_fixed]
  exact ends.mono (fun _ after holds => ⟨after.buffer, rfl, holds⟩) fun _ _ => id

theorem Buffer.leaves_making {act : Item α → Act (Buffer α) α γ} {value : α}
    (next : ∀ item ledger, Buffer.Leaves (act item) ring ledger good) :
    Buffer.Leaves (do act (← Ledger.make value) : Act (Buffer α) α γ) ring ledger good := by
  simp only [Buffer.Leaves, ends_bind, ends_ledger]
  exact Ends.anyhow (fun item ledger => next item ledger) fun _ _ => trivial

theorem keeping_onBuffer {act : Act (Buffer α) α γ}
    (same : ∀ ring ledger,
      Buffer.Leaves act ring ledger fun later => later.registry = ring.registry) :
    Keeping number (onBuffer number act) := by
  intro session ring found
  rw [Settles, ends_onBuffer found]
  apply (same ring session.ledger).mono
  · rintro value after ⟨later, changed, holds⟩
    exact ⟨later, buffer?_withBuffer_self.trans (congrArg some changed), holds⟩
  · exact fun _ _ => id

theorem keeping_overwriting (index : Nat) (value : α) :
    Keeping number (do
      let old ← onBuffer number do
        let item ← Ledger.make value
        Buffer.onRing (Act.update (·.overwrite index item))
      return .reply (← handBackOne (some old)) : Move α (Outcome α)) := by
  apply Keeping.bind
  · apply keeping_onBuffer
    intro ring ledger
    refine Buffer.leaves_making fun item ledger => Buffer.leaves_fixed ?_
    exact Act.returns_update (Ring.overwrite_registry index item)
  · exact fun old => (keeping_of_preserves (preserves_handBackOne _)).bind fun _ => keeping_pure _

theorem keeping_reverseRuns :
    Keeping number (onBuffer number (Buffer.onRing (Act.alter Ring.reverseRuns)) : Move α Unit) :=
  keeping_onBuffer fun _ _ => Buffer.leaves_fixed (Act.returns_alter Ring.reverseRuns_registry)

theorem keeping_readingRun :
    Keeping number (do
      let (front, _) ← askRing number (liftM ·.runs)
      return .reply (.elements (front.map Item.value)) : Move α (Outcome α)) :=
  (keeping_of_preserves (preserves_askRing number _)).bind fun _ => keeping_pure _

/-- Writing in place touches no counter. -/
theorem overwriteScript_registry [Value α] (script : List (Overwrite α))
    (walk : Traversal (Placed α)) :
    Preserves (·.buffer.registry) (overwriteScript script walk) := by
  have ledger : ∀ {γ : Type} (act : Effect (Ledger α) γ),
      Preserves (·.buffer.registry) (liftM act : Act (Ring α) α γ) := by
    intro γ act before
    rw [Act.ends_ledger]
    exact Ends.anyhow (fun _ _ => rfl) fun _ _ => rfl
  apply overwriteScript_of_parts preserves_pure Preserves.bind
  · intro γ step before
    cases step <;> rfl
  · exact fun value => ledger (Ledger.make value)
  · intro slot item before
    simp only [Act.update, ends_bind, Act.ends_buffer]
    cases written : before.buffer.overwriteSlot slot item with
    | ok reached => exact Ring.overwriteSlot_registry slot item reached written
    | error fault => rfl
  · exact fun items => ledger (Ledger.handBack items)

theorem settles_inertly {ask : Move α γ} {rest : γ → Move α δ} (inert : Preserves id ask)
    (next : ∀ value, Settles number good (rest value) session) :
    Settles number good (ask >>= rest) session := by
  rw [Settles, ends_bind]
  apply (inert session).mono
  · rintro value after ⟨rfl⟩
    exact next value
  · exact fun _ _ _ => trivial

section

variable (found : session.buffer? number = some (.fixed ring))
include found

theorem settles_of_keeping {move : Move α γ} (keeping : Keeping number move)
    (all : ∀ place, spared place) : Settles number (Spared ring spared) move session := by
  apply (keeping session ring found).mono
  · rintro value after ⟨later, present, same⟩
    exact ⟨later, present, fun place _ => ⟨fun _ => all place, fun _ => .of_registry same⟩⟩
  · exact fun _ _ => id

theorem settles_onBuffer {act : Act (Buffer α) α γ} {rest : γ → Move α δ}
    (leaves : Buffer.Leaves act ring session.ledger (Spared ring spared))
    (keeping : ∀ value, Keeping number (rest value)) :
    Settles number (Spared ring spared) (onBuffer number act >>= rest) session := by
  rw [Settles, ends_bind, ends_onBuffer found]
  apply leaves.mono
  · rintro value after ⟨middle, changed, kept⟩
    apply (keeping value _ middle (buffer?_withBuffer_self.trans (congrArg some changed))).mono
    · rintro _ last ⟨later, present, same⟩
      exact ⟨later, present, fun place held => (Ring.retains_congr same).trans (kept place held)⟩
    · exact fun _ _ => id
  · exact fun _ _ => id

theorem settles_never {act : Act (Buffer α) α γ} {rest : γ → Move α δ}
    (never : Buffer.Leaves act ring session.ledger fun _ => False) :
    Settles number good (onBuffer number act >>= rest) session := by
  rw [Settles, ends_bind, ends_onBuffer found]
  apply never.mono
  · rintro value after ⟨later, -, impossible⟩
    exact impossible.elim
  · exact fun _ _ => id

theorem settles_doing {act : Act (Buffer α) α Unit}
    (leaves : Buffer.Leaves act ring session.ledger (Spared ring spared)) :
    Settles number (Spared ring spared) (doing number act) session :=
  settles_onBuffer found leaves fun _ => keeping_pure _

theorem settles_pointing {act : Act (Buffer α) α Cursor}
    (leaves : Buffer.Leaves act ring session.ledger (Spared ring spared)) :
    Settles number (Spared ring spared) (pointing number act) session :=
  settles_onBuffer found leaves fun _ => keeping_pure _

theorem settles_handing {act : Act (Buffer α) α (Option (Item α))}
    (leaves : Buffer.Leaves act ring session.ledger (Spared ring spared)) :
    Settles number (Spared ring spared) (do
      let item ← onBuffer number act
      return .reply (← handBackOne item) : Move α (Outcome α)) session :=
  settles_onBuffer found leaves fun _ =>
    (keeping_of_preserves (preserves_handBackOne _)).bind fun _ => keeping_pure _

theorem settles_demanding {rest : Buffer α → Move α γ}
    (next : Settles number good (rest (.fixed ring)) session) :
    Settles number good (demandBuffer number >>= rest) session := by
  rw [Settles, ends_bind, ends_demandBuffer found]
  exact next

/-- The cursor at a place that was named stands at the logical index of that place. -/
theorem cursorOf_index? (valid : session.Valid) (site : Site) :
    Ends (cursorOf number site) session
      (fun cursor _ => site.index? session ring = (ring.resolve cursor).toOption)
      fun _ _ => True := by
  have wellFormed : ring.WellFormed := valid.wellFormed _ (mem_of_buffer? found)
  have answers : ∀ {query : Query Cursor} {cursor : Cursor} {index : Nat}, query = .ok cursor →
      ring.Points cursor index →
      Ends (ask query : Move α Cursor) session
        (fun cursor _ => some index = (ring.resolve cursor).toOption) fun _ _ => True := by
    rintro _ cursor index rfl points
    exact congrArg Except.toOption (points.resolve wellFormed).symm
  cases site with
  | begin =>
      obtain ⟨cursor, given, points⟩ := wellFormed.cursorFor_exists 0
      rw [cursorOf, ends_askRing found]
      apply answers _ points
      rw [Buffer.ring, Ring.begin, given]
      rfl
  | finish =>
      rw [cursorOf, ends_askRing found]
      exact answers rfl wellFormed.points_finish
  | index place =>
      rw [cursorOf, ends_askRing found, Buffer.ring, Ring.cursorAt]
      by_cases beyond : ring.len < place
      · rw [if_pos beyond]
        trivial
      · obtain ⟨cursor, given, points⟩ := wellFormed.cursorFor_exists place
        rw [Nat.min_eq_left (by omega)] at points
        rw [if_neg beyond, given]
        exact answers rfl points
  | bookmark name =>
      simp only [cursorOf, ends_bind, ends_get, Site.index?]
      cases session.bookmarks.lookup name with
      | none => trivial
      | some bookmark => rfl

/-- A command at a place that was named, once its cursor stands at a logical index. -/
theorem settles_at {rest : Cursor → Move α γ} {kept : Nat → Nat → Prop} (valid : session.Valid)
    (site : Site)
    (standing : ∀ cursor target, ring.resolve cursor = .ok target → target ≤ ring.len →
      Settles number (Spared ring (kept target)) (rest cursor) session)
    (rejected : ∀ cursor halt, ring.resolve cursor = .error halt →
      Settles number (fun _ => False) (rest cursor) session) :
    Settles number
      (Spared ring fun place => ∃ target, site.index? session ring = some target ∧ kept target place)
      (cursorOf number site >>= rest) session := by
  have wellFormed : ring.WellFormed := valid.wellFormed _ (mem_of_buffer? found)
  rw [Settles, ends_bind]
  apply ((cursorOf_index? found valid site).and (cursorOf_ends valid)).mono
  · rintro cursor after ⟨named, rfl, vouches⟩
    cases resolved : ring.resolve cursor with
    | error halt =>
        apply (rejected cursor halt resolved).mono
        · rintro value last ⟨later, -, impossible⟩
          exact impossible.elim
        · exact fun _ _ => id
    | ok target =>
        rw [resolved] at named
        have inside : target ≤ ring.len := by
          rcases wellFormed.resolve_cases (vouches.of_found found) with ⟨index, bound, same⟩ | refused
          · rw [resolved] at same
            cases same
            exact bound
          · rw [resolved] at refused
            cases refused
        apply (standing cursor target resolved inside).mono
        · rintro value last ⟨later, present, spared⟩
          refine ⟨later, present, fun place held => (spared place held).trans ?_⟩
          rw [named]
          constructor
          · intro kept
            exact ⟨target, rfl, kept⟩
          · rintro ⟨other, ⟨rfl⟩, kept⟩
            exact kept
        · exact fun _ _ => id
  · exact fun _ _ _ => trivial

end

/-- What a command that returns leaves of the cursors to the elements of a fixed ring. -/
theorem runCommand_settles [Value α] {writes : Nat → Prop} {origin : Session α}
    {owned : Multiset Nat} (agrees : Agrees writes origin owned session)
    (found : session.buffer? number = some (.fixed ring)) {command : Command α}
    (truthful : command.Truthful) :
    Settles number (Spared ring (command.Keeps session ring)) (runCommand number command)
      session := by
  have valid := agrees.valid
  have wellFormed : ring.WellFormed := valid.wellFormed _ (mem_of_buffer? found)
  -- A command that only looks, or writes in place.
  have keeps : ∀ {move : Move α (Outcome α)}, Keeping number move →
      Settles number (Spared ring fun _ => True) move session :=
    fun keeping => settles_of_keeping found keeping fun _ => trivial
  cases command with
  | info | read | mark | next | previous | offset | distance | compare | same | inspect | look
  | equalsList | hash | listing => exact keeps (keeping_of_preserves (runCommand_asks rfl))
  | write reach value =>
      apply keeps
      refine (keeping_of_preserves (preserves_askRing number _)).bind fun reached => ?_
      cases reached with
      | none => exact keeping_pure _
      | some place => exact keeping_overwriting place.1 value
  | reverseRuns =>
      apply keeps
      exact keeping_reverseRuns.bind fun _ =>
        (keeping_of_preserves (preserves_askRing number _)).bind fun _ => keeping_pure _
  | linearize reverse =>
      refine settles_onBuffer found (Buffer.leaves_fixed (Ring.linearize_sparing wellFormed)) fun _ => ?_
      cases reverse with
      | false => exact keeping_readingRun
      | true => exact keeping_reverseRuns.bind fun _ => keeping_readingRun
  | writeUnder site value =>
      apply keeps
      exact (keeping_of_preserves (preserves_cursorOf number site)).bind fun cursor =>
        (keeping_of_preserves (preserves_askRing number _)).bind fun place =>
          keeping_overwriting place.1 value
  | push side value =>
      exact settles_handing found (Buffer.leaves_making fun item ledger =>
        Buffer.leaves_fixed (Ring.push_sparing wellFormed side item))
  | pop side =>
      exact settles_handing found (Buffer.leaves_fixed (Ring.pop_sparing wellFormed side))
  | extend feed =>
      apply settles_demanding found
      exact settles_doing found (Buffer.leaves_fixed (Ring.extend_sparing wellFormed feed.entries))
  | insert yields site value =>
      apply settles_at found valid site
      · intro cursor target resolved inside
        exact settles_pointing found (Buffer.leaves_making fun item ledger =>
          Buffer.leaves_fixed (Ring.insert_sparing wellFormed resolved inside))
      · intro cursor halt rejected
        exact settles_never found (Buffer.leaves_making fun item ledger =>
          Buffer.leaves_fixed (Ring.insert_rejected rejected))
  | insertCopies yields site n value =>
      apply settles_at found valid site
      · intro cursor target resolved inside
        exact settles_pointing found (Buffer.leaves_making fun item ledger =>
          Buffer.leaves_fixed (Ring.insertCopies_sparing wellFormed resolved inside))
      · intro cursor halt rejected
        exact settles_never found (Buffer.leaves_making fun item ledger =>
          Buffer.leaves_fixed (Ring.insertCopies_rejected rejected))
  | insertFeed yields site feed =>
      apply settles_at found valid site
      · intro cursor target resolved inside
        exact settles_pointing found
          (Buffer.leaves_fixed (Ring.insertFeed_sparing wellFormed truthful resolved inside))
      · intro cursor halt rejected
        exact settles_never found (Buffer.leaves_fixed (Ring.insertFeed_rejected rejected))
  | erase toward site =>
      apply settles_at found valid site
      · intro cursor target resolved inside
        exact settles_pointing found
          (Buffer.leaves_fixed (Ring.erase_sparing wellFormed resolved inside))
      · intro cursor halt rejected
        exact settles_never found (Buffer.leaves_fixed (Ring.erase_rejected rejected))
  | eraseRange toward first last =>
      apply settles_at found valid first
      · intro source start resolved _
        apply settles_at found valid last
        · intro target finish alsoResolved inside
          exact settles_pointing found
            (Buffer.leaves_fixed (Ring.eraseRange_sparing wellFormed resolved alsoResolved inside))
        · intro target halt rejected
          have refused : ring.resolveRange source target = .error halt := by
            rw [Ring.resolveRange, resolved, rejected]
            rfl
          exact settles_never found (Buffer.leaves_fixed (Ring.eraseRange_rejected refused))
      · intro source halt rejected
        refine settles_inertly (preserves_cursorOf number last) fun target => ?_
        have refused : ring.resolveRange source target = .error halt := by
          rw [Ring.resolveRange, rejected]
          rfl
        exact settles_never found (Buffer.leaves_fixed (Ring.eraseRange_rejected refused))
  | clear => exact settles_doing found (Buffer.leaves_fixed Ring.clear_sparing)
  | setCapacity trim bounds =>
      exact settles_doing found (Buffer.leaves_fixed (Ring.setCapacity_sparing trim bounds.ceiling))
  | setFloor floor =>
      apply settles_demanding found
      trivial
  | resize side n value =>
      apply settles_doing found
      simp only [Buffer.Leaves, ends_bind, ends_ledger]
      refine ((agrees.sound found).make_ends value).mono ?_ fun _ _ => id
      rintro item ledger ⟨-, sound⟩
      exact Buffer.leaves_fixed (Ring.resize_sparing sound)
  | assign n value =>
      exact settles_doing found (Buffer.leaves_making fun item ledger =>
        Buffer.leaves_fixed Ring.assign_sparing)
  | assignWithin bounds n value =>
      apply settles_doing found
      apply Buffer.leaves_fixed
      simp only [ends_bind, ends_ledger]
      exact Ends.anyhow (fun item ledger => Ring.assignWithin_sparing) fun _ _ => trivial
  | assignFeed feed =>
      exact settles_doing found (Buffer.leaves_fixed Ring.assignFeed_sparing)
  | assignFeedWithin bounds feed =>
      exact settles_doing found (Buffer.leaves_fixed (Ring.replaceContents_sparing _ _))
  | overwrite script =>
      apply keeps
      refine (keeping_of_preserves (preserves_askRing number _)).bind fun walk => ?_
      refine (keeping_onBuffer fun ring ledger => ?_).bind fun _ => keeping_pure _
      exact Buffer.leaves_fixed ((overwriteScript_registry script walk _).mono (fun _ _ => id)
        fun _ _ _ => trivial)

end RingDeque.Session
