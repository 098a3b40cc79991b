import RingDeque.Datum
import RingDeque.Proofs.Elastic.Easing
import RingDeque.Proofs.Session.Contents
import RingDeque.Proofs.Session.Lapsing

/-!
Storage when elements are removed.

A command that only removes elements leaves an elastic buffer with a block that is no larger than
before, unless that block is still nearly full, or is one below the floor that an interruption left
behind. This holds however the command ends. Main statement: `removal_eases_block`.
-/

namespace RingDeque

open Effect

namespace Session

variable {α : Type} {session after : Session α} {number : Nat} {outer : ElasticRing α}

/-- Whether a command takes elements out of a buffer of `len` elements, and puts none in. -/
def Command.removes (len : Nat) : Command α → Bool
  | .pop _ | .erase .. | .eraseRange .. | .clear => true
  | .resize _ n _ => n ≤ len
  | _ => false

/-- The elastic ring under a number was eased. -/
def Eased (number : Nat) (outer : ElasticRing α) (session after : Session α) : Prop :=
  ∃ later, after.buffer? number = some (.elastic later) ∧
    ElasticRing.Eased ⟨outer, session.ledger⟩ ⟨later, after.ledger⟩

def Easing (number : Nat) (outer : ElasticRing α) (move : Move α γ) (session : Session α) : Prop :=
  Ends move session (fun _ after => Eased number outer session after)
    fun _ after => Eased number outer session after

theorem Eased.refl (found : session.buffer? number = some (.elastic outer)) :
    Eased number outer session session :=
  ⟨outer, found, .refl _⟩

theorem Eased.outward {final : Session α} (eased : Eased number outer session after)
    (same : final.outward = after.outward) : Eased number outer session final := by
  obtain ⟨later, found, eased⟩ := eased
  obtain ⟨buffers, events⟩ := Prod.mk.inj same
  exact ⟨later, (congrArg (List.lookup number) buffers).trans found, eased.quietly events⟩

theorem Easing.then {move : Move α γ} {next : γ → Move α δ}
    (easing : Easing number outer move session)
    (rest : ∀ value, Preserves outward (next value)) :
    Easing number outer (move >>= next) session := by
  rw [Easing, ends_bind]
  apply easing.mono
  · intro value middle eased
    exact (rest value middle).mono (fun _ _ => eased.outward) fun _ _ => eased.outward
  · exact fun _ _ => id

theorem easing_asking {ask : Move α γ} {rest : γ → Move α δ} {good : γ → Prop}
    {stops : Stop → Prop} (found : session.buffer? number = some (.elastic outer))
    (asks : Ends ask session (fun value after => after = session ∧ good value)
      fun stop after => after = session ∧ stops stop)
    (next : ∀ value, good value → Easing number outer (rest value) session) :
    Easing number outer (ask >>= rest) session :=
  ends_asking asks next fun _ _ => .refl found

theorem easing_onBuffer {onFixed : Act (Ring α) α γ} {onElastic : Act (ElasticRing α) α γ}
    (found : session.buffer? number = some (.elastic outer))
    (easing : ElasticRing.Easing onElastic ⟨outer, session.ledger⟩) :
    Easing number outer (onBuffer number (Buffer.either onFixed onElastic)) session := by
  rw [Easing, ends_onBuffer found, Buffer.ends_elastic]
  apply Ends.mono easing
  · exact fun _ after eased => ⟨after.buffer, buffer?_withBuffer_self, eased⟩
  · exact fun _ after eased => ⟨after.buffer, buffer?_withBuffer_self, eased⟩

section

variable {writes : Nat → Prop} {earlier : Session α} {owned : Multiset Nat}

theorem easing_making {onFixed : Item α → Act (Ring α) α γ}
    {onElastic : Item α → Act (ElasticRing α) α γ} {value : α}
    (agrees : Agrees writes earlier owned session)
    (found : session.buffer? number = some (.elastic outer))
    (next : ∀ item ledger further, Ring.Sound (writes number) ⟨outer.ring, session.ledger⟩
        ({item.id} + further) outer.ring ledger →
      ElasticRing.Easing (onElastic item) ⟨outer, ledger⟩) :
    Easing number outer (onBuffer number do
      let item ← Ledger.make value
      Buffer.either (onFixed item) (onElastic item)) session := by
  have quiet : Ends (Ledger.make value) session.ledger
      (fun _ after => after.events = session.ledger.events) fun _ _ => False := rfl
  have made : Ends (Ledger.make value) session.ledger _ fun _ _ => False :=
    (agrees.sound found).make_ends value
  rw [Easing, ends_onBuffer found, ends_bind, Act.ends_ledger]
  apply (made.and quiet).mono
  · intro item ledger made
    obtain ⟨⟨-, owns⟩, silent⟩ := made
    rw [Buffer.ends_elastic]
    apply Ends.mono (next item ledger _ owns)
    · exact fun _ after eased => ⟨after.buffer, buffer?_withBuffer_self, eased.since rfl silent⟩
    · exact fun _ after eased => ⟨after.buffer, buffer?_withBuffer_self, eased.since rfl silent⟩
  · exact fun _ _ impossible => impossible.2.elim

theorem runCommand_easing [Value α] (agrees : Agrees writes earlier owned session)
    (found : session.buffer? number = some (.elastic outer)) {command : Command α}
    (removes : command.removes outer.len = true) :
    Easing number outer (runCommand number command) session := by
  have valid := agrees.valid
  have sound := agrees.sound found
  cases command with
  | pop side =>
      apply (easing_onBuffer found (ElasticRing.pop_easing sound)).then
      exact fun item => (handBackOne_preserves item).bind fun _ => preserves_pure _
  | erase toward site =>
      apply easing_asking found (cursorOf_ends valid)
      intro cursor vouches
      have vouched := vouches.of_found found
      exact (easing_onBuffer found (ElasticRing.erase_easing sound vouched)).then
        fun _ => preserves_pure _
  | eraseRange toward first last =>
      apply easing_asking found (cursorOf_ends valid)
      intro source firstVouches
      apply easing_asking found (cursorOf_ends valid)
      intro target lastVouches
      exact (easing_onBuffer found (ElasticRing.eraseRange_easing sound
        (firstVouches.of_found found) (lastVouches.of_found found))).then fun _ => preserves_pure _
  | clear =>
      exact (easing_onBuffer found (ElasticRing.clear_easing sound)).then fun _ => preserves_pure _
  | resize side n value =>
      have fewer : n ≤ outer.len := of_decide_eq_true removes
      exact (easing_making agrees found fun item ledger _ owns =>
        ElasticRing.resize_easing owns fewer).then fun _ => preserves_pure _
  | _ => cases removes

end

/-- However a removal ends, the block is no larger than before, or it lay below the floor, or it
still lacks a reserve and was doubled up to the ceiling. A report that the block shrank gives its
size before and after, which then differ. -/
theorem removal_eases_block [Value α] (reachable : session.Reachable)
    (found : session.buffer? number = some (.elastic outer)) {command : Command α}
    (removes : command.removes outer.len = true) (save : Option String) :
    let after := (session.step (.on number command save)).2
    ∃ later, after.buffer? number = some (.elastic later) ∧
      (later.physical ≤ outer.physical ∨ outer.physical < outer.limits.floor ∨
        outer.physical ≤ later.len + outer.physical / 5 ∧
          later.physical = min (2 * outer.physical) outer.capacity) ∧
      ∀ previous capacity len, .shrank previous capacity len ∈ after.ledger.events →
        previous = outer.physical ∧ capacity = later.physical ∧ capacity ≠ previous := by
  intro after
  obtain ⟨owned, agrees⟩ := reachable.silenced
  have easing : Ends (runOp (.on number command save)) _ _ _ :=
    (runCommand_easing agrees found removes).then (replying_preserves number save)
  have eased : Eased number outer { session with ledger := { session.ledger with events := [] } }
      after := by
    rcases step_ends easing with returned | ⟨halt, -, halted⟩ | ⟨-, stopped⟩
    · exact returned
    · exact halted
    · exact stopped
  obtain ⟨later, present, -, larger, reports, events, recounts⟩ := eased
  refine ⟨later, present, ?_, fun previous capacity len member => ?_⟩
  · rcases Nat.lt_or_ge outer.physical later.physical with wider | smaller
    · exact .inr (larger wider)
    · exact .inl smaller
  · rw [events] at member
    exact recounts _ member previous capacity len rfl

theorem removal_eases_block_drained :
    let push (value : Int) : Op Datum := .on 0 (.push .back (.int value)) none
    let pop : Op Datum := .on 0 (.pop .back) none
    let session := run [.build 0 (.elastic ⟨20, some 0⟩), push 1, push 2, push 3, push 4, push 5,
      pop, pop] (blank (.below 64) : Session Datum)
    let after := (session.step pop).2
    ∃ outer later, session.buffer? 0 = some (.elastic outer) ∧
      after.buffer? 0 = some (.elastic later) ∧ outer.physical = 8 ∧ later.physical = 4 := by
  intro push pop session after
  have elastic : (session.buffer? 0).any Buffer.isElastic = true := by decide +kernel
  obtain ⟨buffer, found, kind⟩ := (Option.any_eq_true _ _).mp elastic
  obtain ⟨outer, rfl⟩ := Buffer.exists_elastic kind
  have removes : (.pop .back : Command Datum).removes outer.len = true := rfl
  have reported : .shrank 8 4 2 ∈ after.ledger.events := by decide +kernel
  have reachable : session.Reachable := ⟨.below 64, _, rfl⟩
  -- As long as the session is a variable, no step of the proof runs it.
  clear_value session
  obtain ⟨later, present, -, reports⟩ := removal_eases_block reachable found removes none
  obtain ⟨previous, capacity, -⟩ := reports 8 4 2 reported
  exact ⟨outer, later, found, present, previous.symm, capacity.symm⟩

/-- No block is to be given up when one of five elements goes, but the remaining four leave too
little of it free. It is doubled, and the report says that it shrank. -/
theorem removal_doubles_nearly_full :
    let push (value : Int) : Op Datum := .on 0 (.push .back (.int value)) none
    let session := run [.build 0 (.elastic ⟨10, some 5⟩), push 1, push 2, push 3, push 4, push 5]
      (blank (.below 64) : Session Datum)
    let after := (session.step (.on 0 (.pop .back) none)).2
    (session.buffer? 0).map (·.ring.capacity) = some 5 ∧
      (after.buffer? 0).map (·.ring.capacity) = some 10 ∧
      .shrank 5 10 4 ∈ after.ledger.events := by
  decide +kernel

end Session

end RingDeque
