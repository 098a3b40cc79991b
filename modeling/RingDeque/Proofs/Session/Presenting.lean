import RingDeque.Datum
import RingDeque.Proofs.Ring.Presenting
import RingDeque.Proofs.Session.Buffers
import RingDeque.Proofs.Session.Integrity

/-!
One list behind all readings of a buffer.

Whatever was done in a session, each of its buffers reads as one list, and an operation that
overwrites an element exchanges one entry of that list. Main statement: `readings_agree`.
-/

namespace RingDeque.Session

open Effect

variable {α : Type} {session : Session α} {number index : Nat} {buffer : Buffer α} {value : α}
  {old : Item α} {after : Ring α} {items : List (Item α)} {command : Command α}

/-- The buffer with its elements in another ring. -/
def Buffer.withRing : Buffer α → Ring α → Buffer α
  | .fixed _, ring => .fixed ring
  | .elastic outer, ring => .elastic { outer with ring }

/-- A command that overwrites the element at a logical index of a buffer. -/
inductive Aims (session : Session α) (number : Nat) (buffer : Buffer α) (index : Nat) (value : α) :
    Command α → Prop where
  | write {reach : Reach} (named : reach.index buffer.ring.len = index) :
      Aims session number buffer index value (.write reach value)
  | writeUnder {site : Site} {cursor : Cursor}
      (found : cursorOf number site session = .ok cursor session)
      (resolved : buffer.ring.resolve cursor = .ok index) :
      Aims session number buffer index value (.writeUnder site value)

theorem ends_ask {query : Query γ} {returns : γ → Session α → Prop}
    {stops : Stop → Session α → Prop} {found : γ} (answered : query = .ok found) :
    Ends (ask query) session returns stops ↔ returns found session := by
  subst answered
  exact ends_pure

theorem askRing_ledger {query : Ring α → Query γ} {answer : γ} (ledger : Ledger α)
    (asked : askRing number query session = .ok answer session) :
    askRing number query { session with ledger } = .ok answer { session with ledger } := by
  have ends : Ends (askRing number query) session
      (fun value last => value = answer ∧ last = session) fun _ _ => False :=
    (ends_of_ok asked).mpr ⟨rfl, rfl⟩
  cases held : session.buffer? number with
  | none =>
      simp only [askRing, demandBuffer, ends_bind, ends_get, held] at ends
      exact ends.elim
  | some buffer =>
      have kept : Session.buffer? { session with ledger } number = some buffer := held
      rw [ends_askRing held] at ends
      apply eq_ok_of_ends
      rw [ends_askRing kept]
      cases answered : query buffer.ring with
      | ok value =>
          rw [ends_ask answered] at ends
          exact ⟨ends.1, rfl⟩
      | error halt =>
          rw [answered] at ends
          exact ends.elim

/-- Where a place is does not depend on the ledger. -/
theorem cursorOf_ledger {site : Site} {cursor : Cursor} (ledger : Ledger α)
    (found : cursorOf number site session = .ok cursor session) :
    cursorOf number site { session with ledger } = .ok cursor { session with ledger } := by
  cases site with
  | bookmark name =>
      have ends : Ends (cursorOf number (.bookmark name)) session
          (fun value last => value = cursor ∧ last = session) fun _ _ => False :=
        (ends_of_ok found).mpr ⟨rfl, rfl⟩
      apply eq_ok_of_ends
      simp only [cursorOf, ends_bind, ends_get] at ends ⊢
      cases kept : session.bookmarks.lookup name with
      | none =>
          rw [kept] at ends
          exact ends.elim
      | some bookmark =>
          rw [kept] at ends
          exact ⟨ends.1, rfl⟩
  | _ =>
      simp only [cursorOf] at found ⊢
      exact askRing_ledger ledger found

theorem ends_onRing {act : Act (Ring α) α γ} {ledger : Ledger α}
    {returns : γ → Tracked (Buffer α) α → Prop} {halts : Halt → Tracked (Buffer α) α → Prop} :
    Ends (Buffer.onRing act) ⟨buffer, ledger⟩ returns halts ↔
      Ends act ⟨buffer.ring, ledger⟩
        (fun value after => returns value ⟨buffer.withRing after.buffer, after.ledger⟩)
        (fun halt after => halts halt ⟨buffer.withRing after.buffer, after.ledger⟩) := by
  cases buffer with
  | fixed ring => exact Buffer.ends_fixed
  | elastic outer => exact Buffer.ends_elastic.trans ElasticRing.ends_onRing

/-- Another buffer under a number, and every other buffer as it was. -/
structure Exchanged (before : Session α) (number : Nat) (changed : Buffer α) (after : Session α) :
    Prop where
  here : after.buffer? number = some changed
  elsewhere : ∀ other, other ≠ number → after.buffer? other = before.buffer? other

theorem overwriting_exchanges (found : session.buffer? number = some buffer)
    (overwritten : buffer.ring.overwrite index ⟨session.ledger.created, value⟩ = .ok (old, after)) :
    Ends (do
        let old ← onBuffer number do
          let item ← Ledger.make value
          Buffer.onRing (Act.update (·.overwrite index item))
        return .reply (← handBackOne (some old)) : Move α (Outcome α)) session
      (fun outcome later => outcome = .reply (.element (some old.value)) ∧
        Exchanged session number (buffer.withRing after) later)
      (fun _ _ => False) := by
  rw [ends_bind, ends_onBuffer found]
  simp only [ends_bind, Act.ends_ledger, Ledger.make, ends_get, ends_set, ends_pure, ends_onRing]
  rw [Act.ends_update_mk overwritten]
  simp only [handBackOne, ends_bind, ends_onLedger, Ledger.handBack, ends_modify, ends_pure]
  exact ⟨rfl, buffer?_withBuffer_self, fun other distinct => buffer?_withBuffer_of_ne distinct⟩

/-- Whichever command overwrites the element, it hands out the old one and no other buffer changes. -/
theorem Aims.exchanges [Value α] (aims : session.Aims number buffer index value command)
    (found : session.buffer? number = some buffer)
    (writes : buffer.ring.Writes items index old ⟨session.ledger.created, value⟩ after)
    (save : Option String) :
    (session.step (.on number command save)).1 = .element (some old.value) ∧
      Exchanged session number (buffer.withRing after) (session.step (.on number command save)).2 := by
  -- The reports of earlier operations are put aside first, which no place and no buffer depends on.
  let quiet := { session with ledger := { session.ledger with events := [] } }
  have quietFound : quiet.buffer? number = some buffer := found
  have last := overwriting_exchanges quietFound writes.overwrite
  have commanded : Ends (runCommand number command) quiet
      (fun outcome later => outcome = .reply (.element (some old.value)) ∧
        Exchanged quiet number (buffer.withRing after) later)
      (fun _ _ => False) := by
    cases aims with
    | @write reach named =>
        simp only [runCommand]
        rw [ends_bind, ends_askRing quietFound, ends_ask (writes.reach reach named)]
        exact last
    | @writeUnder site cursor given resolved =>
        simp only [runCommand]
        rw [ends_bind, ends_of_ok (cursorOf_ledger _ given), ends_bind, ends_askRing quietFound,
          ends_ask (writes.locate cursor resolved)]
        exact last
  have ends : Ends (runOp (.on number command save)) quiet
      (fun reply later => reply = .element (some old.value) ∧
        Exchanged session number (buffer.withRing after) later)
      (fun _ _ => False) := by
    simp only [runOp]
    rw [ends_bind]
    apply commanded.mono
    · rintro outcome later ⟨rfl, exchanged⟩
      exact ⟨rfl, exchanged.here, exchanged.elsewhere⟩
    · exact fun _ _ => id
  obtain answered | ⟨halt, -, impossible⟩ | ⟨-, impossible⟩ := step_ends ends
  · exact answered
  · exact impossible.elim
  · exact impossible.elim

/-- Every buffer reads as one list, whichever way it is read: by index, through a cursor, at its
ends, in two runs, or on a walk. Every way of overwriting an element exchanges one entry of the list,
hands out the element that was there, and leaves the other buffers as they are. -/
theorem readings_agree [Value α] (reachable : session.Reachable)
    (found : session.buffer? number = some buffer) :
    ∃ items, buffer.ring.Reads items ∧ ∀ index old, items[index]? = some old →
      (∀ item, ∃ after, buffer.ring.Writes items index old item after) ∧
      ∀ value command, session.Aims number buffer index value command → ∀ save,
        ∃ after, buffer.ring.Writes items index old ⟨session.ledger.created, value⟩ after ∧
          (session.step (.on number command save)).1 = .element (some old.value) ∧
          Exchanged session number (buffer.withRing after)
            (session.step (.on number command save)).2 := by
  obtain ⟨memory, past, rfl⟩ := reachable
  obtain ⟨valid, -⟩ := run_sound (blank_valid memory) (blank_balanced memory) past
  have wellFormed : buffer.ring.WellFormed := valid.wellFormed _ (mem_of_buffer? found)
  refine ⟨buffer.ring.toList, wellFormed.reads, ?_⟩
  intro index old listed
  constructor
  · exact wellFormed.writes_exists listed
  · intro value command aims save
    obtain ⟨after, writes⟩ := wellFormed.writes_exists listed ⟨_, value⟩
    exact ⟨after, writes, aims.exchanges found writes save⟩

/-- A full ring whose second element is in its first slot, and a command that overwrites that
element. -/
theorem readings_agree_full :
    let session := run [.build 0 (.ring 2), .on 0 (.push .back (.int 7)) none,
      .on 0 (.push .back (.int 8)) none, .on 0 (.pop .front) none,
      .on 0 (.push .back (.int 9)) none] (blank (.below 8) : Session Datum)
    let op : Op Datum := .on 0 (.write (.peek .back) (.int 5)) none
    ∃ buffer after, session.buffer? 0 = some buffer ∧
      buffer.ring.Reads [⟨1, .int 8⟩, ⟨2, .int 9⟩] ∧ after.Reads [⟨1, .int 8⟩, ⟨3, .int 5⟩] ∧
      (session.step op).1 = .element (some (.int 9)) ∧
      (session.step op).2.buffer? 0 = some (.fixed after) := by
  intro session op
  have reachable : session.Reachable := ⟨.below 8, _, rfl⟩
  have found : session.buffer? 0 = some _ := rfl
  obtain ⟨items, reads, written⟩ := readings_agree reachable found
  obtain ⟨front, back, -, read, rfl, -⟩ := reads.runs
  cases read
  obtain ⟨-, stepped⟩ := written 1 ⟨2, .int 9⟩ rfl
  obtain ⟨after, writes, answer, exchanged⟩ :=
    stepped (.int 5) (.write (.peek .back) (.int 5)) (.write rfl) none
  exact ⟨_, after, found, reads, writes.reads, answer, exchanged.here⟩

end RingDeque.Session
