import RingDeque.Proofs.Elastic.Confining
import RingDeque.Proofs.Session.Lapsing

/-!
The blocks of all elastic buffers while nothing goes amiss.

A session in which every elastic buffer has its block between floor and ceiling stays one, as long as
no operation is interrupted or is refused a block.
-/

namespace RingDeque

open Effect Act

namespace Ring

variable {α : Type}

theorem overwrite_steady (index : Nat) (item : Item α) : Steady (overwrite · index item) := by
  intro ring
  simp only [overwrite]
  refine .past fun slot => (ring.block.replace_size slot item).bind fun replaced same => ?_
  exact .of_ok same

theorem overwriteSlot_steady (slot : Nat) (item : Item α) : Steady (overwriteSlot · slot item) := by
  intro ring
  simp only [overwriteSlot]
  exact (ring.block.replace_size slot item).bind fun replaced same => .of_ok same

theorem overwriteFrom_capacity (ring : Ring α) (index : Nat) (items : List (Item α)) :
    (ring.overwriteFrom index items).Gives fun after => after.capacity = ring.capacity := by
  induction items generalizing ring index with
  | nil => exact .of_ok rfl
  | cons item rest ih =>
      refine (overwrite_steady index item ring).bind fun written same => .past fun next => ?_
      rw [← same]
      exact ih written.2 next

theorem reverseRuns_keepsSize : KeepsSize (Act.alter (reverseRuns (α := α))) := by
  apply resizes_alter
  intro ring
  exact .past fun runs => ring.overwriteFrom_capacity 0 _

end Ring

namespace Session

open RingDeque.Ring (Sound KeepsSize)

variable {α β γ δ : Type} {written : Prop} {origin : Tracked (Ring α) α} {owned : Multiset Nat}

theorem overwriteScript_keepsSize [Value α] (script : List (Overwrite α))
    (walk : Traversal (Placed α)) : KeepsSize (overwriteScript script walk) := by
  apply overwriteScript_of_parts Ring.resizes_pure Ring.Resizes.bind
  · exact fun step => Ring.resizes_checked step
  · exact fun value => Ring.resizes_ledger (Ledger.make value)
  · exact fun slot item => Ring.resizes_update (Ring.overwriteSlot_steady slot item)
  · exact fun items => Ring.resizes_ledger (Ledger.handBack items)

/-- An elastic buffer has its block between the floor and the ceiling. -/
def Buffer.Bounded : Buffer α → Prop
  | .fixed _ => True
  | .elastic outer => outer.Bounded

section

variable {before : Tracked (Buffer α) α} {ledger : Ledger α} {buffer : Buffer α}
  {onFixed : Act (Ring α) α γ} {onElastic : Act (ElasticRing α) α γ}

theorem confines_either (bounded : buffer.Bounded) (wellFormed : buffer.ring.WellFormed)
    (next : ∀ outer, buffer = .elastic outer → outer.WithinLimits →
      Confines ElasticRing.Bounded onElastic ⟨outer, ledger⟩) :
    Confines Buffer.Bounded (Buffer.either onFixed onElastic) ⟨buffer, ledger⟩ := by
  cases buffer with
  | fixed ring =>
      rw [Confines, Buffer.ends_fixed]
      exact Ends.anyhow (fun _ _ => trivial) fun _ _ _ => trivial
  | elastic outer =>
      rw [Confines, Buffer.ends_elastic]
      exact next outer rfl (bounded.within wellFormed)

theorem confines_onRing {act : Act (Ring α) α γ} (bounded : buffer.Bounded)
    (ends : Ends act ⟨buffer.ring, ledger⟩
      (fun _ after => after.buffer.capacity = buffer.ring.capacity)
      fun _ after => after.buffer.capacity = buffer.ring.capacity) :
    Confines Buffer.Bounded (Buffer.onRing act) ⟨buffer, ledger⟩ := by
  cases buffer with
  | fixed ring =>
      rw [Confines, Buffer.onRing, Buffer.ends_fixed]
      exact Ends.anyhow (fun _ _ => trivial) fun _ _ _ => trivial
  | elastic outer =>
      rw [Confines, Buffer.onRing, Buffer.ends_elastic, ElasticRing.ends_onRing]
      exact ends.mono (fun _ _ sized => ElasticRing.Bounded.refilled bounded sized)
        fun _ _ sized _ => ElasticRing.Bounded.refilled bounded sized

theorem confines_keeping {act : Act (Ring α) α γ} (bounded : buffer.Bounded)
    (keeps : KeepsSize act) : Confines Buffer.Bounded (Buffer.onRing act) ⟨buffer, ledger⟩ :=
  confines_onRing bounded ((keeps _).mono (fun _ _ sized => sized.resolve_right id)
    fun _ _ sized => sized.resolve_right id)

theorem confines_making {wanted : β → Prop} (inside : β → Ring α) {act : Item α → Act β α γ}
    {before : Tracked β α} {value : α}
    (sound : Sound written origin owned (inside before.buffer) before.ledger)
    (next : ∀ item later, Sound written origin ({item.id} + owned) (inside before.buffer) later →
      Confines wanted (act item) ⟨before.buffer, later⟩) :
    Confines wanted (do act (← Ledger.make value) : Act β α γ) before := by
  simp only [Confines, ends_bind, ends_ledger]
  exact (sound.make_ends value).mono (fun item later made => next item later made.2) fun _ _ => id

/-- Bounds that make no sense are refused at once. -/
theorem confines_demand {bounds : Bounds} {act : Limits → Act (ElasticRing α) α γ}
    {outer : ElasticRing α} (within : outer.WithinLimits)
    (next : ∀ limits, Confines ElasticRing.Bounded (act limits) ⟨outer, ledger⟩) :
    Confines ElasticRing.Bounded (do act (← bounds.demand)) ⟨outer, ledger⟩ := by
  simp only [Confines, Bounds.demand, ends_bind]
  cases bounds.limits with
  | ok limits => exact next limits
  | error error => exact fun _ => within.bounded

end

/-- Every elastic buffer has its block between the floor and the ceiling. -/
def Confined (session : Session α) : Prop :=
  ∀ entry ∈ session.buffers, entry.2.Bounded

variable {session : Session α} {number : Nat} {buffer : Buffer α} {ledger : Ledger α}

theorem Confined.of_found (confined : session.Confined)
    (found : session.buffer? number = some buffer) : buffer.Bounded :=
  confined _ (mem_of_buffer? found)

theorem Confined.withBuffer (confined : session.Confined) (bounded : buffer.Bounded) :
    ({ session with ledger }.withBuffer number buffer).Confined := by
  intro entry member
  rcases mem_withBuffer member with rfl | ⟨old, -⟩
  · exact bounded
  · exact confined entry old

theorem Confined.withoutBuffer (confined : session.Confined) :
    ({ session.withoutBuffer number with ledger } : Session α).Confined :=
  fun entry member => confined entry (List.mem_filter.mp member).1

/-- Whether a stop is an interruption, or the refusal of a block. -/
def Stop.isMishap : Stop → Bool
  | .halted halt => halt.isMishap
  | .inapplicable => false

/-- Unless a mishap ends it, the move leaves all blocks within their bounds. -/
def Confining (move : Move α γ) (session : Session α) : Prop :=
  Ends move session (fun _ after => after.Confined)
    fun stop after => stop.isMishap = false → after.Confined

theorem confining_of_preserves {move : Move α γ} (confined : session.Confined)
    (preserves : Preserves Session.buffers move) : Confining move session := by
  have kept : ∀ {after : Session α}, after.buffers = session.buffers → after.Confined := by
    intro after same entry member
    rw [same] at member
    exact confined entry member
  exact (preserves session).mono (fun _ _ => kept) fun _ _ same _ => kept same

theorem Confining.bind {move : Move α γ} {next : γ → Move α δ} (first : Confining move session)
    (rest : ∀ value after, after.Confined → Confining (next value) after) :
    Confining (move >>= next) session := by
  rw [Confining, ends_bind]
  exact first.mono (fun value after confined => rest value after confined) fun _ _ => id

theorem confining_asking {ask : Move α γ} {rest : γ → Move α δ} {good : γ → Prop}
    {stops : Stop → Prop} (confined : session.Confined)
    (asks : Ends ask session (fun value after => after = session ∧ good value)
      fun stop after => after = session ∧ stops stop)
    (next : ∀ value, good value → Confining (rest value) session) :
    Confining (ask >>= rest) session :=
  ends_asking asks next fun _ _ _ => confined

theorem confining_onBuffer {act : Act (Buffer α) α γ} (confined : session.Confined)
    (confines : ∀ buffer, session.buffer? number = some buffer →
      Confines Buffer.Bounded act ⟨buffer, session.ledger⟩) :
    Confining (onBuffer number act) session := by
  cases found : session.buffer? number with
  | none =>
      rw [onBuffer]
      refine ends_bind.mpr (demandBuffer_ends (fun buffer present => ?_) fun _ => confined)
      rw [found] at present
      cases present
  | some buffer =>
      rw [Confining, ends_onBuffer found]
      exact Ends.mono (confines buffer found) (fun _ _ bounded => confined.withBuffer bounded)
        fun _ _ spares spared => confined.withBuffer (spares spared)

theorem confining_onRing {act : Act (Ring α) α γ} (confined : session.Confined)
    (keeps : KeepsSize act) : Confining (onBuffer number (Buffer.onRing act)) session :=
  confining_onBuffer confined fun _ found => confines_keeping (confined.of_found found) keeps

theorem confining_doing {act : Act (Buffer α) α Unit} (confined : session.Confined)
    (confines : ∀ buffer, session.buffer? number = some buffer →
      Confines Buffer.Bounded act ⟨buffer, session.ledger⟩) :
    Confining (doing number act) session :=
  (confining_onBuffer confined confines).bind fun _ _ held =>
    confining_of_preserves held (preserves_pure _)

theorem confining_pointing {act : Act (Buffer α) α Cursor} (confined : session.Confined)
    (confines : ∀ buffer, session.buffer? number = some buffer →
      Confines Buffer.Bounded act ⟨buffer, session.ledger⟩) :
    Confining (pointing number act) session :=
  (confining_onBuffer confined confines).bind fun _ _ held =>
    confining_of_preserves held (preserves_pure _)

theorem confining_handing {act : Act (Buffer α) α γ} (item : γ → Option (Item α))
    (confined : session.Confined)
    (confines : ∀ buffer, session.buffer? number = some buffer →
      Confines Buffer.Bounded act ⟨buffer, session.ledger⟩) :
    Confining (do
      let value ← onBuffer number act
      return .reply (← handBackOne (item value)) : Move α (Outcome α)) session :=
  (confining_onBuffer confined confines).bind fun value _ held =>
    confining_of_preserves held
      ((handBackOne_preserves_buffers (item value)).bind fun _ => preserves_pure _)

theorem confining_readingRun (confined : session.Confined) :
    Confining (do
      let (front, _) ← askRing number (liftM ·.runs)
      return .reply (.elements (front.map Item.value)) : Move α (Outcome α)) session :=
  confining_of_preserves confined ((preserves_askRing number _).bind fun _ => preserves_pure _)

theorem confining_inertly {ask : Move α γ} {rest : γ → Move α δ}
    (confined : session.Confined) (inert : Preserves id ask)
    (next : ∀ value, Confining (rest value) session) : Confining (ask >>= rest) session :=
  confining_asking confined inert.asks fun value _ => next value

section

variable {writes : Nat → Prop} {earlier : Session α} (agrees : Agrees writes earlier owned session)
  (confined : session.Confined)
include agrees confined

theorem confines_found {onFixed : Act (Ring α) α γ} {onElastic : Act (ElasticRing α) α γ}
    (next : ∀ outer further, session.buffer? number = some (.elastic outer) → outer.WithinLimits →
      Sound (writes number) ⟨outer.ring, session.ledger⟩ further outer.ring session.ledger →
      Confines ElasticRing.Bounded onElastic ⟨outer, session.ledger⟩)
    (buffer : Buffer α) (found : session.buffer? number = some buffer) :
    Confines Buffer.Bounded (Buffer.either onFixed onElastic) ⟨buffer, session.ledger⟩ := by
  apply confines_either (confined.of_found found) (agrees.wellFormed found)
  intro outer same within
  subst same
  exact next outer _ found within (agrees.sound found)

theorem confines_found_making {onFixed : Item α → Act (Ring α) α γ}
    {onElastic : Item α → Act (ElasticRing α) α γ} {value : α}
    (next : ∀ outer item ledger further, session.buffer? number = some (.elastic outer) →
      outer.WithinLimits → Sound (writes number) ⟨outer.ring, session.ledger⟩
        ({item.id} + further) outer.ring ledger →
      Confines ElasticRing.Bounded (onElastic item) ⟨outer, ledger⟩)
    (buffer : Buffer α) (found : session.buffer? number = some buffer) :
    Confines Buffer.Bounded (do
      let item ← Ledger.make value
      Buffer.either (onFixed item) (onElastic item) : Act (Buffer α) α γ)
      ⟨buffer, session.ledger⟩ := by
  apply confines_making Buffer.ring (agrees.sound found)
  intro item ledger owns
  apply confines_either (confined.of_found found) owns.wellFormed
  intro outer same within
  subst same
  exact next outer item ledger _ found within owns

theorem confining_overwriting (index : Nat) (value : α) :
    Confining (do
      let old ← onBuffer number do
        let item ← Ledger.make value
        Buffer.onRing (Act.update (·.overwrite index item))
      return .reply (← handBackOne (some old)) : Move α (Outcome α)) session := by
  apply confining_handing some confined
  intro buffer found
  apply confines_making Buffer.ring (agrees.sound found)
  intro item later owns
  exact confines_keeping (confined.of_found found)
    (Ring.resizes_update (Ring.overwrite_steady index item))

theorem runCommand_confining [Value α] (command : Command α) :
    Confining (runCommand number command) session := by
  have valid := agrees.valid
  cases command with
  | info | read | mark | next | previous | offset | distance | compare | same | inspect | look
  | equalsList | hash | listing => exact confining_of_preserves confined (runCommand_asks rfl)
  | write reach value =>
      refine confining_inertly confined (preserves_askRing number _) fun reached => ?_
      cases reached with
      | none => exact confining_of_preserves confined (preserves_pure _)
      | some place => exact confining_overwriting agrees confined place.1 value
  | reverseRuns =>
      refine (confining_onRing confined Ring.reverseRuns_keepsSize).bind fun _ after held => ?_
      exact confining_of_preserves held ((preserves_askRing number _).bind fun _ => preserves_pure _)
  | linearize reverse =>
      have linearized : Confining (onBuffer number (Buffer.onRing Ring.linearize)) session := by
        apply confining_onBuffer confined
        intro buffer found
        apply confines_onRing (confined.of_found found)
        exact (Ring.linearize_ends (agrees.sound found)).mono (fun _ _ ended => ended.2.2.sized)
          fun _ _ => id
      refine linearized.bind fun _ after held => ?_
      cases reverse with
      | false => exact confining_readingRun held
      | true =>
          exact (confining_onRing held Ring.reverseRuns_keepsSize).bind fun _ last kept =>
            confining_readingRun kept
  | writeUnder site value =>
      refine confining_inertly confined (preserves_cursorOf number site) fun cursor => ?_
      refine confining_inertly confined (preserves_askRing number _) fun place => ?_
      exact confining_overwriting agrees confined place.1 value
  | push side value =>
      exact confining_handing id confined (confines_found_making agrees confined
        fun _ _ _ _ _ within owns => (ElasticRing.push_keepsBounds within owns).confines)
  | pop side =>
      exact confining_handing id confined (confines_found agrees confined
        fun _ _ _ within sound => (ElasticRing.pop_keepsBounds within sound).confines)
  | extend feed =>
      refine confining_inertly confined (preserves_demandBuffer number) fun buffer => ?_
      cases buffer with
      | fixed ring => exact confining_doing confined fun _ found =>
          confines_keeping (confined.of_found found) (Ring.extend_keepsSize feed.entries)
      | elastic outer => exact confining_of_preserves confined preserves_inapplicable
  | insert yields site value =>
      refine confining_asking confined (cursorOf_ends valid) fun cursor vouches => ?_
      exact confining_pointing confined (confines_found_making agrees confined
        fun _ _ _ _ found within owns =>
          (ElasticRing.insert_keepsBounds within owns (vouches.of_found found)).confines)
  | insertCopies yields site n value =>
      refine confining_asking confined (cursorOf_ends valid) fun cursor vouches => ?_
      exact confining_pointing confined (confines_found_making agrees confined
        fun _ _ _ _ found within owns =>
          (ElasticRing.insertCopies_keepsBounds within owns (vouches.of_found found)).confines)
  | insertFeed yields site feed =>
      refine confining_asking confined (cursorOf_ends valid) fun cursor vouches => ?_
      exact confining_pointing confined (confines_found agrees confined
        fun _ _ found within sound =>
          (ElasticRing.insertFeed_keepsBounds within sound (vouches.of_found found)).confines)
  | erase toward site =>
      refine confining_asking confined (cursorOf_ends valid) fun cursor vouches => ?_
      exact confining_pointing confined (confines_found agrees confined
        fun _ _ found within sound =>
          (ElasticRing.erase_keepsBounds within sound (vouches.of_found found)).confines)
  | eraseRange toward first last =>
      refine confining_asking confined (cursorOf_ends valid) fun source firstVouches => ?_
      refine confining_asking confined (cursorOf_ends valid) fun target lastVouches => ?_
      exact confining_pointing confined (confines_found agrees confined
        fun _ _ found within sound => (ElasticRing.eraseRange_keepsBounds within sound
          (firstVouches.of_found found) (lastVouches.of_found found)).confines)
  | clear =>
      exact confining_doing confined (confines_found agrees confined
        fun _ _ _ within sound => (ElasticRing.clear_keepsBounds within sound).confines)
  | setCapacity trim bounds =>
      exact confining_doing confined (confines_found agrees confined
        fun _ _ _ within sound => confines_demand within fun limits =>
          ElasticRing.setLimits_confines within sound trim limits)
  | setFloor floor =>
      refine confining_inertly confined (preserves_demandBuffer number) fun buffer => ?_
      cases buffer with
      | fixed ring => exact confining_of_preserves confined preserves_inapplicable
      | elastic outer =>
          exact confining_doing confined (confines_found agrees confined
            fun _ _ _ within sound => ElasticRing.setFloor_confines within sound floor)
  | resize side n value =>
      exact confining_doing confined (confines_found_making agrees confined
        fun _ _ _ _ _ within owns => (ElasticRing.resize_keepsBounds within owns).confines)
  | assign n value =>
      exact confining_doing confined (confines_found_making agrees confined
        fun _ _ _ _ _ within owns => ElasticRing.assign_confines within owns)
  | assignWithin bounds n value =>
      exact confining_doing confined (confines_found agrees confined
        fun _ _ _ within sound => confines_demand within fun limits =>
          confines_making ElasticRing.ring sound fun model _ owns =>
            ElasticRing.assignUnder_confines within owns)
  | assignFeed feed =>
      exact confining_doing confined (confines_found agrees confined
        fun _ _ _ within sound => ElasticRing.assignFeed_confines within sound)
  | assignFeedWithin bounds feed =>
      exact confining_doing confined (confines_found agrees confined
        fun _ _ _ within sound => confines_demand within fun limits =>
          ElasticRing.assignFeedUnder_confines within sound)
  | overwrite script =>
      refine confining_inertly confined (preserves_askRing number _) fun walk => ?_
      refine (confining_onRing confined (overwriteScript_keepsSize script walk)).bind ?_
      exact fun _ _ held => confining_of_preserves held (preserves_pure _)

end

theorem build_bounded {earlier : Ledger α} {plan : Plan α} (keeps : earlier.Keeps owned ledger) :
    Ends (Buffer.build plan) ledger (fun buffer _ => buffer.Bounded) fun _ _ => True := by
  have demanded : ∀ {bounds : Bounds} {act : Limits → Effect (Ledger α) (Buffer α)},
      (∀ limits, Ends (act limits) ledger (fun buffer _ => buffer.Bounded) fun _ _ => True) →
      Ends (do act (← bounds.demand)) ledger (fun buffer _ => buffer.Bounded) fun _ _ => True := by
    intro bounds act next
    simp only [ends_bind, Bounds.demand]
    cases bounds.limits with
    | ok limits => exact next limits
    | error error => trivial
  have copied : ∀ limits n value, Ends (do
      return .elastic (← ElasticRing.ofCopies limits n (← Ledger.make value)) :
        Effect (Ledger α) (Buffer α)) ledger (fun buffer _ => buffer.Bounded) fun _ _ => True := by
    intro limits n value
    simp only [ends_bind, ends_pure]
    apply (Ledger.make_ends keeps value).mono
    · intro model middle made
      have copies : Ends (ElasticRing.ofCopies limits n model) middle _
          (Ring.Loses earlier False (fun _ => True) model owned) := ElasticRing.ofCopies_ends made.2
      exact copies.mono (fun _ _ ended => ended.2.2.bounded) fun _ _ _ => trivial
    · exact fun _ _ => id
  cases plan with
  | emptyRing | ring | filledRing | ringFrom | ringOf =>
      simp only [Buffer.build, ends_bind, ends_pure]
      first
        | exact Ends.anyhow (fun _ _ => trivial) fun _ _ => trivial
        | exact Ends.anyhow (fun _ _ => Ends.anyhow (fun _ _ => trivial) fun _ _ => trivial)
            fun _ _ => trivial
  | emptyElastic =>
      simp only [Buffer.build, ElasticRing.empty, Ring.empty, ends_bind, ends_pure]
      exact Ends.anyhow (fun _ _ => ⟨Nat.le_refl 0, Nat.le_refl 0⟩) fun _ _ => trivial
  | elastic bounds =>
      apply demanded
      intro limits
      simp only [ends_bind, ends_pure]
      exact (ElasticRing.new_ends False keeps).mono (fun _ _ ended => ended.2.2.1.bounded)
        fun _ _ _ => trivial
  | elasticCopies bounds n value => exact demanded fun limits => copied limits n value
  | filledElastic bounds value => exact demanded fun limits => copied limits limits.ceiling value
  | elasticFrom bounds feed =>
      apply demanded
      intro limits
      simp only [ends_bind, ends_pure]
      exact (ElasticRing.ofFeed_ends keeps).mono (fun _ _ ended => ended.2.2.bounded)
        fun _ _ _ => trivial

theorem duplicate_bounded {earlier : Ledger α} (keeps : earlier.Keeps owned ledger)
    (wellFormed : buffer.ring.WellFormed) (bounded : buffer.Bounded) :
    Ends buffer.duplicate ledger (fun copy _ => copy.Bounded) fun _ _ => True := by
  cases buffer with
  | fixed ring =>
      simp only [Buffer.duplicate, ends_bind, ends_pure]
      exact Ends.anyhow (fun _ _ => trivial) fun _ _ => trivial
  | elastic outer =>
      simp only [Buffer.duplicate, ElasticRing.duplicate, ends_bind, ends_pure]
      apply (Ring.duplicate_ends keeps wellFormed).mono
      · exact fun _ _ made => ElasticRing.Bounded.refilled bounded made.2.1
      · exact fun _ _ _ => trivial

theorem swap?_bounded {first second changed replaced : Buffer α} (firstBounded : first.Bounded)
    (secondBounded : second.Bounded) (swapped : first.swap? second = some (changed, replaced)) :
    changed.Bounded ∧ replaced.Bounded := by
  cases first with
  | fixed ring =>
      cases second with
      | fixed other =>
          cases swapped
          exact ⟨trivial, trivial⟩
      | elastic other => cases swapped
  | elastic outer =>
      cases second with
      | fixed other => cases swapped
      | elastic other =>
          cases swapped
          exact ⟨⟨secondBounded.above_floor, secondBounded.below_ceiling⟩,
            firstBounded.above_floor, firstBounded.below_ceiling⟩

/-- Unless a mishap ends it, an operation leaves all blocks within their bounds. -/
theorem runOp_confining [Value α] {writes : Nat → Prop} {earlier : Session α}
    (agrees : Agrees writes earlier owned session) (confined : session.Confined) (op : Op α) :
    Confining (runOp op) session := by
  have unchanged : ∀ {ledger : Ledger α}, ({ session with ledger } : Session α).Confined :=
    fun entry member => confined entry member
  cases op with
  | build number plan =>
      simp only [Confining, runOp, ends_bind, ends_onLedger, ends_pure, ends_modify]
      refine demandVacant_ends (fun vacant => ?_) fun _ => confined
      exact (build_bounded agrees.keeps).mono (fun _ _ bounded => confined.withBuffer bounded)
        fun _ _ _ _ => unchanged
  | duplicate source target =>
      simp only [Confining, runOp, ends_bind, ends_onLedger, ends_pure, ends_modify]
      refine demandVacant_ends (fun vacant => ?_) fun _ => confined
      refine demandBuffer_ends (fun buffer found => ?_) fun _ => confined
      exact (duplicate_bounded agrees.keeps (agrees.wellFormed found) (confined.of_found found)).mono
        (fun _ _ bounded => confined.withBuffer bounded) fun _ _ _ _ => unchanged
  | destroy number =>
      simp only [Confining, runOp, ends_bind, ends_onLedger, ends_pure, ends_modify]
      refine demandBuffer_ends (fun buffer found => ?_) fun _ => confined
      exact Ends.anyhow (fun _ _ => confined.withoutBuffer) fun _ _ _ => confined.withoutBuffer
  | drain number script =>
      simp only [Confining, runOp]
      rw [ends_bind]
      refine demandBuffer_ends (fun buffer found => ?_) fun _ => confined
      cases buffer with
      | elastic outer => exact fun _ => confined
      | fixed ring =>
          simp only [ends_bind, ends_onLedger, ends_pure, ends_modify]
          exact Ends.anyhow (fun _ _ => confined.withoutBuffer) fun _ _ _ => confined.withoutBuffer
  | exchange first second =>
      simp only [runOp]
      by_cases distinct : first = second
      · rw [if_pos distinct]
        exact fun _ => confined
      rw [if_neg distinct, Confining, ends_bind]
      refine demandBuffer_ends (fun source firstFound => ?_) fun _ => confined
      rw [ends_bind]
      refine demandBuffer_ends (fun target secondFound => ?_) fun _ => confined
      cases swapped : source.swap? target with
      | none => exact fun _ => confined
      | some pair =>
          obtain ⟨changed, replaced⟩ := pair
          obtain ⟨firstBounded, secondBounded⟩ := swap?_bounded (confined.of_found firstFound)
            (confined.of_found secondFound) swapped
          simp only [ends_bind, ends_modify, ends_pure]
          exact (confined.withBuffer firstBounded).withBuffer secondBounded
  | equals first second =>
      exact confining_of_preserves confined (runOp_equals_preserves first second)
  | order first second =>
      exact confining_of_preserves confined (runOp_order_preserves first second)
  | armCopy copies => exact unchanged
  | armDestruction value => exact unchanged
  | provide memory => exact unchanged
  | on number command save =>
      rw [runOp_on]
      exact (runCommand_confining agrees confined command).bind fun outcome _ held =>
        confining_of_preserves held (replying_preserves_buffers number save outcome)

end Session

end RingDeque
