import RingDeque.Proofs.Elastic.Hysteresis
import RingDeque.Proofs.Session.Confining
import RingDeque.Proofs.Session.Mirroring

/-!
Elements that come and go in an elastic ring.

From the second visit on, neither a push nor the pop after it changes the block, unless an empty ring
without a floor is visited: it gives its block up each time. Main statement:
`later_visits_keep_block`.
-/

namespace RingDeque

open Effect

namespace Session

variable {α : Type} {session : Session α} {number : Nat} {outer : ElasticRing α}
  {buffer : Buffer α} {limits : Limits} {n size : Nat} {side : End} {value : α} {op : Op α}
  {ops more : List (Op α)}

/-- The operation is not interrupted, and every block that it asks for is granted. -/
def Smooth [Value α] (op : Op α) (session : Session α) : Prop :=
  (session.step op).1.isMishap = false ∧
    ∀ event ∈ (session.step op).2.ledger.events, event.error? = none

def Untroubled [Value α] : List (Op α) → Session α → Prop
  | [], _ => True
  | op :: rest, session => Smooth op session ∧ Untroubled rest (session.step op).2

instance decidableSmooth [Value α] (op : Op α) (session : Session α) :
    Decidable (Smooth op session) :=
  inferInstanceAs (Decidable (_ ∧ _))

instance decidableUntroubled [Value α] : (ops : List (Op α)) → (session : Session α) →
    Decidable (Untroubled ops session)
  | [], _ => isTrue trivial
  | op :: rest, session =>
      have := decidableUntroubled rest (session.step op).2
      inferInstanceAs (Decidable (_ ∧ _))

theorem untroubled_append [Value α] :
    Untroubled (ops ++ more) session ↔ Untroubled ops session ∧ Untroubled more (run ops session) := by
  induction ops generalizing session with
  | nil => exact (true_and _).symm ▸ Iff.rfl
  | cons op rest ih => exact (and_congr_right fun _ => ih).trans and_assoc.symm

theorem isMishap_halted (halt : Halt) : (Reply.halted halt : Reply α).isMishap = halt.isMishap := by
  cases halt with
  | refused error => cases error <;> rfl
  | interrupted cause => rfl
  | fault fault => rfl

theorem Confined.step [Value α] (confined : session.Confined) (reachable : session.Reachable)
    (smooth : Smooth op session) : (session.step op).2.Confined := by
  obtain ⟨owned, agrees⟩ := reachable.silenced
  have unharmed := smooth.1
  rcases step_ends (runOp_confining agrees confined op) with
    kept | ⟨halt, halted, kept⟩ | ⟨-, kept⟩
  · exact kept
  · rw [halted, isMishap_halted] at unharmed
    exact kept unharmed
  · exact kept rfl

theorem Confined.run [Value α] (confined : session.Confined) (reachable : session.Reachable)
    (untroubled : Untroubled ops session) : (run ops session).Confined := by
  induction ops generalizing session with
  | nil => exact confined
  | cons op rest ih =>
      exact ih (confined.step reachable untroubled.1) (reachable.run [op]) untroubled.2

/-- An operation that hands an element back, and that only a block that `moves` can hinder. -/
theorem handing_ends [Value α] {command : Command α} {act : Act (Buffer α) α (Option (Item α))}
    {moves : Prop} (good : ElasticRing α → List Event → Prop)
    (handing : runCommand number command = do
      let item ← onBuffer number act
      return .reply (← handBackOne item))
    (found : session.buffer? number = some buffer)
    (ends : Ends act ⟨buffer, session.ledger⟩
      (fun _ after => ∃ outer, after.buffer = .elastic outer ∧ good outer after.ledger.events)
      fun halt _ => halt.isMishap = true ∧ moves) :
    Ends (runOp (.on number command none)) session
      (fun _ after => ∃ outer, after.buffer? number = some (.elastic outer) ∧
        good outer after.ledger.events)
      fun stop _ => stop.isMishap = true ∧ moves := by
  rw [runOp_on, handing, ends_bind, ends_bind, ends_onBuffer found]
  apply ends.mono
  · intro item after ended
    obtain ⟨outer, same, holds⟩ := ended
    simp only [handBackOne, ends_bind, ends_onLedger, Ledger.handBack, ends_modify, ends_pure,
      replying, same]
    exact ⟨outer, buffer?_withBuffer_self, holds⟩
  · exact fun halt _ => id

/-- If only a block that `moves` can hinder an operation, then it has to be smooth only for that. -/
theorem step_unhindered [Value α] {moves : Prop} {good : Session α → Prop}
    (ends : Ends (runOp op) { session with ledger := { session.ledger with events := [] } }
      (fun _ after => (moves → ∀ event ∈ after.ledger.events, event.error? = none) → good after)
      fun stop _ => stop.isMishap = true ∧ moves)
    (smooth : moves → Smooth op session) : good (session.step op).2 := by
  rcases step_ends ends with ended | ⟨halt, halted, mishap, moved⟩ | ⟨-, mishap, -⟩
  · exact ended fun moved => (smooth moved).2
  · have unharmed := (smooth moved).1
    rw [halted, isMishap_halted] at unharmed
    rw [Stop.isMishap, unharmed] at mishap
    cases mishap
  · cases mishap

/-- The elastic ring under a number has `n` elements in a block of `size` slots. -/
def Hosts (number : Nat) (limits : Limits) (n size : Nat) (session : Session α) : Prop :=
  ∃ outer, session.buffer? number = some (.elastic outer) ∧ outer.Stands limits n size

theorem Reachable.hosts [Value α] (reachable : session.Reachable) (confined : session.Confined)
    (found : session.buffer? number = some (.elastic outer)) :
    Hosts number outer.limits outer.len outer.physical session := by
  obtain ⟨owned, agrees⟩ := reachable.agrees fun _ => True
  have bounded : outer.Bounded := confined.of_found found
  exact ⟨outer, found, bounded.within (agrees.wellFormed found), rfl, rfl, rfl,
    agrees.wellFormed found⟩

theorem Hosts.houses (hosts : Hosts number limits n size session) : limits.Houses n size := by
  obtain ⟨outer, -, stands⟩ := hosts
  exact stands.houses

section

variable {writes : Nat → Prop} {earlier : Session α} {owned : Multiset Nat}

theorem runOp_push_hosts [Value α] (agrees : Agrees writes earlier owned session)
    (hosts : Hosts number limits n size session) (free : n < limits.ceiling) :
    Ends (runOp (.on number (.push side value) none)) session
      (fun _ after => Hosts number limits (n + 1) (limits.pushedSize n size) after)
      fun stop _ => stop.isMishap = true ∧ limits.pushedSize n size ≠ size := by
  obtain ⟨outer, found, stands⟩ := hosts
  apply handing_ends (fun outer _ => outer.Stands limits (n + 1) (limits.pushedSize n size)) rfl found
  simp only [ends_bind, Act.ends_ledger]
  apply ((agrees.sound found).make_ends value).mono
  · intro item later made
    rw [Buffer.push, Buffer.ends_elastic]
    have ends : Ends (ElasticRing.push side item) ⟨outer, later⟩ _ _ :=
      ElasticRing.push_stands stands made.2 free
    exact ends.mono (fun _ after stood => ⟨after.buffer, rfl, stood⟩) fun _ _ => id
  · exact fun _ _ => id

theorem runOp_pop_hosts [Value α] (side : End) (agrees : Agrees writes earlier owned session)
    (hosts : Hosts number limits (n + 1) size session) :
    Ends (runOp (.on number (.pop side) none)) session
      (fun _ after => (limits.poppedSize n size ≠ size →
          ∀ event ∈ after.ledger.events, event.error? = none) →
        Hosts number limits n (limits.poppedSize n size) after)
      fun stop _ => stop.isMishap = true ∧ limits.poppedSize n size ≠ size := by
  obtain ⟨outer, found, stands⟩ := hosts
  have popped : Ends (ElasticRing.pop side) ⟨outer, session.ledger⟩ _ _ :=
    ElasticRing.pop_stands stands (agrees.sound found)
  apply (handing_ends (fun outer events => outer.Stands limits n (limits.poppedSize n size) ∨
    limits.poppedSize n size ≠ size ∧ ∃ event ∈ events, event.error?.isSome = true) rfl found _).mono
  · intro _ after ended granted
    obtain ⟨changed, present, stood | ⟨moved, event, member, refused⟩⟩ := ended
    · exact ⟨changed, present, stood⟩
    · rw [granted moved event member] at refused
      cases refused
  · exact fun _ _ => id
  · rw [Buffer.pop, Buffer.ends_elastic]
    exact popped.mono (fun _ after stood => ⟨after.buffer, rfl, stood⟩) fun _ _ => id

end

/-- An element is pushed, and then one is popped. -/
structure Visit (α : Type) where
  entry : End
  value : α
  exit : End

namespace Visit

def arrival (number : Nat) (visit : Visit α) : Op α :=
  .on number (.push visit.entry visit.value) none

def departure (number : Nat) (visit : Visit α) : Op α :=
  .on number (.pop visit.exit) none

/-- The operations of visits one after the other. -/
def all (number : Nat) (visits : List (Visit α)) : List (Op α) :=
  visits.flatMap fun visit => [visit.arrival number, visit.departure number]

end Visit

variable {visit : Visit α} {visits : List (Visit α)}

theorem arrival_hosts [Value α] (reachable : session.Reachable)
    (hosts : Hosts number limits n size session) (free : n < limits.ceiling)
    (smooth : limits.pushedSize n size ≠ size → Smooth (visit.arrival number) session) :
    Hosts number limits (n + 1) (limits.pushedSize n size)
      (session.step (visit.arrival number)).2 := by
  obtain ⟨owned, agrees⟩ := reachable.silenced
  apply step_unhindered _ smooth
  exact (runOp_push_hosts agrees hosts free).mono (fun _ _ hosts _ => hosts) fun _ _ => id

theorem departure_hosts [Value α] (reachable : session.Reachable)
    (hosts : Hosts number limits (n + 1) size session)
    (smooth : limits.poppedSize n size ≠ size → Smooth (visit.departure number) session) :
    Hosts number limits n (limits.poppedSize n size)
      (session.step (visit.departure number)).2 := by
  obtain ⟨owned, agrees⟩ := reachable.silenced
  exact step_unhindered (runOp_pop_hosts visit.exit agrees hosts) smooth

section

variable (settled : limits.Settled n size) (free : n < limits.ceiling)
include settled free

/-- A visit to a block that has settled has to be smooth only if there is nothing to keep. -/
theorem settled_arrival [Value α] (reachable : session.Reachable)
    (hosts : Hosts number limits n size session)
    (arriving : limits.Bare n → Smooth (visit.arrival number) session) :
    Hosts number limits (n + 1) (limits.pushedSize n size)
      (session.step (visit.arrival number)).2 :=
  arrival_hosts reachable hosts free fun moved =>
    arriving ((settled.pushedSize_ne_iff hosts.houses free).mp moved)

theorem settled_departure [Value α] (reachable : session.Reachable)
    (houses : limits.Houses n size)
    (hosts : Hosts number limits (n + 1) (limits.pushedSize n size) session)
    (leaving : limits.Bare n → Smooth (visit.departure number) session) :
    Hosts number limits n size (session.step (visit.departure number)).2 := by
  have departed : Hosts number limits n (limits.poppedSize n (limits.pushedSize n size))
      (session.step (visit.departure number)).2 := by
    apply departure_hosts reachable hosts
    intro moved
    rw [settled.poppedSize_pushedSize] at moved
    exact leaving ((settled.pushedSize_ne_iff houses free).mp moved.symm)
  rwa [settled.poppedSize_pushedSize] at departed

/-- Visits leave a block that has settled as it was. -/
theorem visits_settled [Value α] (reachable : session.Reachable)
    (hosts : Hosts number limits n size session)
    (untroubled : limits.Bare n → Untroubled (Visit.all number visits) session) :
    Hosts number limits n size (run (Visit.all number visits) session) := by
  induction visits generalizing session with
  | nil => exact hosts
  | cons visit rest ih =>
      have entered : (session.step (visit.arrival number)).2.Reachable :=
        reachable.run [visit.arrival number]
      have arrived := settled_arrival settled free reachable hosts fun bare => (untroubled bare).1
      have departed := settled_departure settled free entered hosts.houses arrived
        fun bare => (untroubled bare).2.1
      exact ih (entered.run [visit.departure number]) departed fun bare => (untroubled bare).2.2

theorem settled_visit [Value α] (reachable : session.Reachable)
    (hosts : Hosts number limits n size session)
    (arriving : limits.Bare n → Smooth (visit.arrival number) session) :
    let visited := (session.step (visit.arrival number)).2
    ∃ before during,
      session.buffer? number = some (.elastic before) ∧
      visited.buffer? number = some (.elastic during) ∧
      (during.physical ≠ before.physical ↔ limits.Bare n) ∧
      ((limits.Bare n → Smooth (visit.departure number) visited) →
        ∃ after, (visited.step (visit.departure number)).2.buffer? number = some (.elastic after) ∧
          (after.physical ≠ during.physical ↔ limits.Bare n)) := by
  intro visited
  have changes := settled.pushedSize_ne_iff hosts.houses free
  have arrived : Hosts number _ _ _ visited := settled_arrival settled free reachable hosts arriving
  have departed : (limits.Bare n → Smooth (visit.departure number) visited) →
      Hosts number limits n size (visited.step (visit.departure number)).2 :=
    settled_departure settled free (reachable.run [_]) hosts.houses arrived
  obtain ⟨before, present, stoodBefore⟩ := hosts
  obtain ⟨during, entered, stoodDuring⟩ := arrived
  refine ⟨before, during, present, entered, ?_, fun smooth => ?_⟩
  · rw [stoodBefore.sized, stoodDuring.sized]
    exact changes
  · obtain ⟨after, left, stoodAfter⟩ := departed smooth
    refine ⟨after, left, ?_⟩
    rw [stoodDuring.sized, stoodAfter.sized, ne_comm]
    exact changes

end

theorem blank_confined (memory : Memory) : (blank memory : Session α).Confined :=
  fun _ member => absurd member List.not_mem_nil

/-- However often elements come and go in an elastic ring that is not full, only the first visit can
change its block; but an empty ring without a floor takes a block at each push and gives it up at each
pop, as long as every block is granted. -/
theorem later_visits_keep_block [Value α] (memory : Memory)
    (found : (run ops (blank memory)).buffer? number = some (.elastic outer))
    (free : outer.len < outer.capacity) (first : Visit α) (earlier : List (Visit α))
    (later : Visit α)
    (untroubled : Untroubled (ops ++ Visit.all number [first]) (blank memory))
    (further : outer.limits.Bare outer.len →
      Untroubled (Visit.all number earlier ++ [later.arrival number])
        (run (ops ++ Visit.all number [first]) (blank memory))) :
    let session := run (ops ++ Visit.all number (first :: earlier)) (blank memory)
    let visited := (session.step (later.arrival number)).2
    ∃ before during,
      session.buffer? number = some (.elastic before) ∧
      visited.buffer? number = some (.elastic during) ∧
      (during.physical ≠ before.physical ↔ outer.limits.Bare outer.len) ∧
      ((outer.limits.Bare outer.len → Smooth (later.departure number) visited) →
        ∃ after, (visited.step (later.departure number)).2.buffer? number = some (.elastic after) ∧
          (after.physical ≠ during.physical ↔ outer.limits.Bare outer.len)) := by
  intro session visited
  have reached : session = run (Visit.all number earlier)
      (run (Visit.all number [first]) (run ops (blank memory))) := run_append
  simp only [run_append, untroubled_append, ← reached] at further
  obtain ⟨calm, arriving, departing, -⟩ := untroubled_append.mp untroubled
  have reachable : (run ops (blank memory : Session α)).Reachable := ⟨memory, ops, rfl⟩
  have hosts := reachable.hosts ((blank_confined memory).run ⟨memory, [], rfl⟩ calm) found
  -- The first visit leaves a size that has settled, and the visits after it keep that size.
  have arrived := arrival_hosts reachable hosts free fun _ => arriving
  have settled := arrived.houses.fewer.settled_poppedSize free
  have departed := departure_hosts (reachable.run [first.arrival number]) arrived fun _ => departing
  have kept := visits_settled settled free (reachable.run (Visit.all number [first])) departed
    fun bare => (further bare).1
  exact settled_visit settled free ⟨memory, _, rfl⟩ (reached ▸ kept) fun bare => (further bare).2.1

/-- A push to two elements in two slots doubles the block, which stays from then on; the block of an
empty ring comes and goes. -/
theorem later_visits_keep_block_full :
    let push (value : Int) : Op Datum := .on 0 (.push .back (.int value)) none
    let empty : List (Op Datum) := [.build 0 (.elastic ⟨12, some 0⟩)]
    let full := [.build 0 (.elastic ⟨12, some 2⟩), push 1, push 2]
    let visit : Visit Datum := ⟨.front, .int 5, .back⟩
    let passes (ops : List (Op Datum)) (before during after : ElasticRing Datum) : Prop :=
      let session := run (ops ++ Visit.all 0 [visit, visit]) (blank (.below 64))
      let visited := (session.step (visit.arrival 0)).2
      session.buffer? 0 = some (.elastic before) ∧ visited.buffer? 0 = some (.elastic during) ∧
        (visited.step (visit.departure 0)).2.buffer? 0 = some (.elastic after)
    (∃ before during after, passes full before during after ∧
      during.physical = before.physical ∧ after.physical = during.physical) ∧
    ∃ before during after, passes empty before during after ∧
      during.physical ≠ before.physical ∧ after.physical ≠ during.physical := by
  intro push empty full visit passes
  constructor
  · obtain ⟨outer, found, free, filled⟩ : ∃ outer,
        (run full (blank (.below 64))).buffer? 0 = some (.elastic outer) ∧ outer.len < outer.capacity ∧
          ¬ outer.limits.Bare outer.len := ⟨_, rfl, by decide, fun bare => absurd bare.1 (by decide)⟩
    obtain ⟨before, during, present, entered, kept, leaving⟩ :=
      later_visits_keep_block (.below 64) found free visit [visit] visit (by decide +kernel)
        fun bare => absurd bare filled
    obtain ⟨after, left, released⟩ := leaving fun bare => absurd bare filled
    exact ⟨before, during, after, ⟨present, entered, left⟩, not_not.mp (mt kept.mp filled),
      not_not.mp (mt released.mp filled)⟩
  · obtain ⟨outer, found, free, bare⟩ : ∃ outer,
        (run empty (blank (.below 64))).buffer? 0 = some (.elastic outer) ∧ outer.len < outer.capacity ∧
          outer.limits.Bare outer.len := ⟨_, rfl, by decide, rfl, rfl⟩
    obtain ⟨before, during, present, entered, kept, leaving⟩ :=
      later_visits_keep_block (.below 64) found free visit [visit] visit (by decide +kernel)
        fun _ => by decide +kernel
    obtain ⟨after, left, released⟩ := leaving fun _ => by decide +kernel
    exact ⟨before, during, after, ⟨present, entered, left⟩, kept.mpr bare, released.mpr bare⟩

end Session

end RingDeque
