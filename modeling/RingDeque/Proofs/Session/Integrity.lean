import RingDeque.Proofs.Session.Running
import RingDeque.Session.Picture

/-!
The bookkeeping of every buffer over whole runs.

Main statement: `run_breaks_nothing`. After any run of operations, each ring is well formed, and no
operation that comes next reads a slot that is empty, fills one that is taken, leaves the block or
the machine words.
-/

namespace RingDeque

theorem Checked.mapM_bind_eq {entries : List β} {answer : β → Checked γ} (value : β → γ)
    {next : List γ → Checked δ} (each : ∀ entry ∈ entries, answer entry = .ok (value entry)) :
    entries.mapM answer >>= next = next (entries.map value) := by
  have mapped : entries.mapM answer = .ok (entries.map value) := by
    induction entries with
    | nil => rfl
    | cons entry rest ih =>
        have mapped := ih fun other member => each other (List.mem_cons_of_mem _ member)
        simp only [List.mapM_cons, each entry List.mem_cons_self, mapped, Checked.ok_bind,
          Checked.pure_eq_ok, List.map_cons]
  rw [mapped, Checked.ok_bind]

/-- A query of every entry in turn, when each of them has an answer. -/
theorem Checked.mapM_bind_exists {entries : List β} {answer : β → Checked γ}
    {next : List γ → Checked δ} (each : ∀ entry ∈ entries, ∃ value, answer entry = .ok value)
    (further : ∀ values, ∃ value, next values = .ok value) :
    ∃ value, entries.mapM answer >>= next = .ok value := by
  have mapped : ∃ values, entries.mapM answer = .ok values := by
    induction entries with
    | nil => exact ⟨[], rfl⟩
    | cons entry rest ih =>
        obtain ⟨value, found⟩ := each entry List.mem_cons_self
        obtain ⟨values, mapped⟩ := ih fun other member => each other (List.mem_cons_of_mem _ member)
        refine ⟨value :: values, ?_⟩
        simp only [List.mapM_cons, found, mapped, Checked.ok_bind, Checked.pure_eq_ok]
  obtain ⟨values, mapped⟩ := mapped
  rw [mapped, Checked.ok_bind]
  exact further values

namespace Session

variable {α : Type} {session : Session α} {owned : Multiset Nat}

/-- A run keeps the session valid, and accounts for all elements but those lost with a buffer. -/
theorem run_sound [Value α] (valid : session.Valid)
    (balanced : session.ledger.Balanced (afloat session.buffers + owned)) (ops : List (Op α)) :
    (run ops session).Valid ∧
      ∃ lost, (run ops session).ledger.Balanced (afloat (run ops session).buffers + lost) := by
  induction ops generalizing session owned with
  | nil => exact ⟨valid, owned, balanced⟩
  | cons op rest ih =>
      obtain ⟨-, lost, agrees, -⟩ := step_sound valid balanced op
      exact ih agrees.valid agrees.balanced

theorem Valid.pictureOf_exists (valid : session.Valid) {name : String} {bookmark : Bookmark}
    (member : (name, bookmark) ∈ session.bookmarks) :
    ∃ picture, session.pictureOf bookmark = .ok picture := by
  simp only [pictureOf]
  cases found : session.buffer? bookmark.number with
  | none => exact ⟨_, rfl⟩
  | some buffer =>
      have inside := mem_of_buffer? found
      rcases (valid.wellFormed _ inside).resolve_cases
        ((valid.vouched _ member).vouched _ inside) with ⟨index, -, resolved⟩ | refused
      · simp only [resolved]
        exact ⟨_, rfl⟩
      · simp only [refused]
        exact ⟨_, rfl⟩

theorem Valid.picture_exists (valid : session.Valid) :
    ∃ picture, session.picture = .ok picture := by
  simp only [picture]
  refine Checked.mapM_bind_exists (fun entry member => ?_) fun buffers => ?_
  · obtain ⟨picture, told⟩ := Buffer.picture_exists (valid.wellFormed entry member)
    simp only [told, Checked.ok_bind]
    exact ⟨_, rfl⟩
  refine Checked.mapM_bind_exists (fun entry member => ?_) fun bookmarks => ⟨_, rfl⟩
  obtain ⟨picture, told⟩ := valid.pictureOf_exists member
  simp only [told, Checked.ok_bind]
  exact ⟨_, rfl⟩

/-- Giving up all buffers discards what they hold. -/
theorem Valid.finish_eq (valid : session.Valid) :
    session.finish = .ok { session with
      buffers := []
      ledger := session.ledger.discarding
        (session.buffers.flatMap fun entry => entry.2.ring.toList) } :=
  (Checked.mapM_bind_eq (fun entry => entry.2.ring.toList) fun entry member =>
    (valid.wellFormed entry member).contents_eq).trans rfl

theorem run_breaks_nothing [Value α] (memory : Memory) (ops : List (Op α)) :
    (∀ number buffer, (run ops (blank memory)).buffer? number = some buffer →
      buffer.ring.WellFormed) ∧
    (∀ op fault, ((run ops (blank memory)).step op).1 ≠ .halted (.fault fault)) ∧
    (∃ picture, (run ops (blank memory)).picture = .ok picture) ∧
    ∃ after, (run ops (blank memory)).finish = .ok after := by
  obtain ⟨valid, lost, balanced⟩ := run_sound (blank_valid memory) (blank_balanced memory) ops
  refine ⟨fun number buffer found => valid.wellFormed _ (mem_of_buffer? found), fun op => ?_,
    valid.picture_exists, _, valid.finish_eq⟩
  exact (step_sound valid balanced op).1

end Session

end RingDeque
