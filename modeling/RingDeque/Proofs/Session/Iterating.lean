import RingDeque.Datum
import RingDeque.Proofs.Ring.Iterating
import RingDeque.Proofs.Session.Walks

/-!
Scripts of steps against lists.

Whatever a walk is for, it answers a script as a cursor over the list of the elements does, so all
that the layout of a ring decides is in which slots a walk finds them. Main statement:
`scripts_are_double_ended`.
-/

namespace RingDeque.Session

open Effect
open RingDeque.Ring (Congruent Parted Severed)

variable {α : Type} {ring : Ring α} {before middle after : Tracked (Ring α) α}
  {entries : List (Item α × Nat)} {walk : Traversal (Placed α)} {place : Option (Placed α)}
  {value : α}

/-- What is asked in the course of a script that overwrites. -/
def Overwrite.step? : Overwrite α → Option Traversal.Step
  | .step asked => some asked
  | .setNext _ => some .next
  | .setNextBack _ => some .nextBack
  | .listing => none

/-- An element that gives way to a new one. -/
structure Write (α : Type) where
  old : Item α
  position : Nat
  value : α

def Write.over (value : α) (entry : Item α × Nat) : Write α :=
  ⟨entry.1, entry.2, value⟩

/-- What a script writes over while a cursor closes in on these elements and their positions. -/
def writes : List (Overwrite α) → List (Item α × Nat) → List (Write α)
  | [], _ => []
  | .step step :: rest, entries => writes rest (step.remaining entries)
  | .setNext value :: rest, entries =>
      entries.head?.toList.map (Write.over value) ++ writes rest (entries.drop 1)
  | .setNextBack value :: rest, entries =>
      entries.getLast?.toList.map (Write.over value) ++
        writes rest (entries.take (entries.length - 1))
  | .listing :: rest, entries => writes rest entries

/-- A list after elements gave way to new ones, the first of which has this identity. -/
def rewritten : Nat → List (Write α) → List (Item α) → List (Item α)
  | _, [], items => items
  | fresh, write :: rest, items =>
      rewritten (fresh + 1) rest (items.set write.position ⟨fresh, write.value⟩)

theorem rewritten_append (fresh : Nat) (first second : List (Write α)) (items : List (Item α)) :
    rewritten fresh (first ++ second) items =
      rewritten (fresh + first.length) second (rewritten fresh first items) := by
  induction first generalizing fresh items with
  | nil => rfl
  | cons write rest ih =>
      rw [List.cons_append, rewritten, rewritten, ih, List.length_cons, Nat.add_right_comm,
        Nat.add_assoc]

/-- What is written at other positions is not seen at this one. -/
theorem getElem?_rewritten {position : Nat} {written : List (Write α)}
    (apart : ∀ write ∈ written, write.position ≠ position) (fresh : Nat) (items : List (Item α)) :
    (rewritten fresh written items)[position]? = items[position]? := by
  induction written generalizing fresh items with
  | nil => rfl
  | cons write rest ih =>
      obtain ⟨here, further⟩ := List.forall_mem_cons.mp apart
      rw [rewritten, ih further, List.getElem?_set_ne here]

/-- Elements gave way to new ones, which were made in this order, and were handed back. The elements
are in the slots they were in. -/
structure Overwrites (written : List (Write α)) (before after : Tracked (Ring α) α) : Prop where
  toList : after.buffer.toList = rewritten before.ledger.created written before.buffer.toList
  congruent : before.buffer.Congruent after.buffer
  recorded : after.ledger = { before.ledger with
    created := before.ledger.created + written.length
    returned := (written.map Write.old).reverse ++ before.ledger.returned }

namespace Overwrites

theorem refl (wellFormed : before.buffer.WellFormed) : Overwrites [] before before :=
  ⟨rfl, .refl wellFormed, rfl⟩

theorem trans {first second : List (Write α)} (one : Overwrites first before middle)
    (other : Overwrites second middle after) : Overwrites (first ++ second) before after where
  toList := by rw [other.toList, one.toList, rewritten_append, one.recorded]
  congruent := one.congruent.trans other.congruent
  recorded := by
    rw [other.recorded, one.recorded]
    simp only [List.length_append, List.map_append, List.reverse_append, List.append_assoc,
      Nat.add_assoc]

end Overwrites

/-- The positions that a step yields are not among those that it leaves. -/
theorem apart_of_answered (distinct : (entries.map Prod.snd).Nodup) (step : Traversal.Step) :
    ∀ taken ∈ (step.answered entries).taken, ∀ entry ∈ step.remaining entries,
      taken.2 ≠ entry.2 := by
  have split := ((step.answered_perm entries).map Prod.snd).nodup_iff.mpr distinct
  rw [List.map_append, List.map_append] at split
  have apart := List.disjoint_iff_ne.mp (List.disjoint_of_nodup_append split)
  intro taken yielded entry left
  exact apart _ (List.mem_append_left _ (List.mem_map_of_mem yielded)) _ (List.mem_map_of_mem left)

theorem mem_of_writes {script : List (Overwrite α)} {write : Write α}
    (member : write ∈ writes script entries) : (write.old, write.position) ∈ entries := by
  induction script generalizing entries with
  | nil => cases member
  | cons first rest ih =>
      cases first with
      | step step => exact (step.remaining_sublist entries).subset (ih member)
      | setNext value =>
          rcases List.mem_append.mp member with now | later
          · obtain ⟨entry, found, rfl⟩ := List.mem_map.mp now
            exact List.mem_of_mem_head? (Option.mem_toList.mp found)
          · exact List.mem_of_mem_drop (ih later)
      | setNextBack value =>
          rcases List.mem_append.mp member with now | later
          · obtain ⟨entry, found, rfl⟩ := List.mem_map.mp now
            exact List.mem_of_mem_getLast? (Option.mem_toList.mp found)
          · exact List.mem_of_mem_take (ih later)
      | listing => exact ih member

/-- No position is written twice. -/
theorem writes_nodup (script : List (Overwrite α)) (distinct : (entries.map Prod.snd).Nodup) :
    ((writes script entries).map Write.position).Nodup := by
  induction script generalizing entries with
  | nil => exact List.nodup_nil
  | cons first rest ih =>
      have further : ∀ step : Traversal.Step,
          ((writes rest (step.remaining entries)).map Write.position).Nodup :=
        fun step => ih (distinct.sublist ((step.remaining_sublist entries).map Prod.snd))
      have once : ∀ (step : Traversal.Step) (yielded? : Option (Item α × Nat)) (value : α),
          step.answered entries = .one yielded? →
          ((yielded?.toList.map (Write.over value) ++ writes rest (step.remaining entries)).map
            Write.position).Nodup := by
        intro step yielded? value yields
        have apart := apart_of_answered distinct step
        rw [yields] at apart
        cases yielded? with
        | none => exact further step
        | some entry =>
            rw [Option.toList_some, List.map_singleton, List.singleton_append, List.map_cons,
              List.nodup_cons]
            constructor
            · intro member
              obtain ⟨write, among, same⟩ := List.mem_map.mp member
              exact apart entry List.mem_cons_self _ (mem_of_writes among) same.symm
            · exact further step
      cases first with
      | step step => exact further step
      | setNext value => exact once .next _ value rfl
      | setNextBack value => exact once .nextBack _ value rfl
      | listing => exact ih distinct

/-- A walk over places has these elements of a ring before it, each at a position of its own. -/
structure Covers (ring : Ring α) (entries : List (Item α × Nat)) (walk : Traversal (Placed α)) :
    Prop where
  wellFormed : ring.WellFormed
  places : walk.toList = entries.map ring.placed
  held : ∀ entry ∈ entries, ring.toList[entry.2]? = some entry.1
  distinct : (entries.map Prod.snd).Nodup
  bounded : entries.length < Word.limit

namespace Covers

theorem advanced {others : Traversal (Placed α)} (covers : Covers ring entries walk)
    (step : Traversal.Step) (left : others.toList = step.remaining walk.toList) :
    Covers ring (step.remaining entries) others where
  wellFormed := covers.wellFormed
  places := by rw [left, covers.places, Traversal.Step.remaining_map]
  held := fun entry member => covers.held entry ((step.remaining_sublist entries).subset member)
  distinct := covers.distinct.sublist ((step.remaining_sublist entries).map Prod.snd)
  bounded := step.remaining_lt covers.bounded

/-- What is written over elsewhere leaves the elements before the walk as they are. -/
theorem overwritten {written : List (Write α)} (covers : Covers before.buffer entries walk)
    (overwrites : Overwrites written before after)
    (apart : ∀ write ∈ written, ∀ entry ∈ entries, write.position ≠ entry.2) :
    Covers after.buffer entries walk where
  wellFormed := overwrites.congruent.wellFormed
  places := by rw [covers.places, overwrites.congruent.placed]
  held := by
    intro entry member
    rw [overwrites.toList, getElem?_rewritten fun write written => apart write written entry member]
    exact covers.held entry member
  distinct := covers.distinct
  bounded := covers.bounded

end Covers

/-- The element at a place that was taken, if one was, gives way to a new one. -/
theorem replacing_overwrites (yielded? : Option (Item α × Nat)) (value : α)
    (wellFormed : before.buffer.WellFormed)
    (held : ∀ entry ∈ yielded?.toList, before.buffer.toList[entry.2]? = some entry.1) :
    Ends (overwriteScript.replacing (yielded?.map before.buffer.placed) value) before
      (fun answer after => answer = .ofItems (.one (yielded?.map Prod.fst)) ∧
        Overwrites (yielded?.toList.map (Write.over value)) before after)
      fun _ _ => False := by
  cases yielded? with
  | none => exact ⟨rfl, .refl wellFormed⟩
  | some entry =>
      have found := held entry (by simp)
      obtain ⟨after, replaced, congruent, listed⟩ :=
        Ring.overwriteSlot_place wellFormed found ⟨before.ledger.created, value⟩
      simp only [Option.map_some, Ring.placed, overwriteScript.replacing, ends_bind,
        Act.ends_ledger, Ledger.make, ends_get, ends_set, ends_pure]
      rw [Act.ends_update replaced]
      exact ⟨rfl, listed, congruent, rfl⟩

/-- One step that overwrites what it yields. What the walk has before it then is as it was. -/
theorem replacing_decided {yielded? : Option (Item α × Nat)} {others : Traversal (Placed α)}
    (step : Traversal.Step) (value : α) (covers : Covers before.buffer entries walk)
    (yields : step.answered entries = .one yielded?)
    (taken : step.answered walk.toList = .one place)
    (left : others.toList = step.remaining walk.toList) :
    Ends (overwriteScript.replacing place value) before
      (fun answer after => answer = .ofItems (step.answered (entries.map Prod.fst)) ∧
        Overwrites (yielded?.toList.map (Write.over value)) before after ∧
        Covers after.buffer (step.remaining entries) others)
      fun _ _ => False := by
  have among := (step.answered_perm entries).subset
  have apart := apart_of_answered covers.distinct step
  rw [covers.places, Traversal.Step.answered_map, yields] at taken
  rw [yields] at among apart
  cases taken
  apply (replacing_overwrites yielded? value covers.wellFormed fun entry member => covers.held entry
    (among (List.mem_append_left _ (List.mem_append_left _ member)))).mono _ fun _ _ => id
  intro answer after ended
  obtain ⟨rfl, overwrites⟩ := ended
  constructor
  · rw [Traversal.Step.answered_map, yields]
    rfl
  · have elsewhere : ∀ write ∈ yielded?.toList.map (Write.over value),
        ∀ entry ∈ step.remaining entries, write.position ≠ entry.2 := by
      intro write written
      obtain ⟨entry, yielded, rfl⟩ := List.mem_map.mp written
      exact apart entry yielded
    exact ⟨overwrites, (covers.advanced step left).overwritten overwrites elsewhere⟩

/-- Steps over these elements were answered, and elements were written over on the way. -/
def Serves (steps : List Traversal.Step) (written : List (Write α)) (entries : List (Item α × Nat))
    (before : Tracked (Ring α) α) (answers : List (WalkAnswer α)) (after : Tracked (Ring α) α) :
    Prop :=
  answers.filterMap WalkAnswer.walked? =
      (Traversal.answers steps (entries.map Prod.fst)).map (Traversal.Answer.map Item.value) ∧
    Overwrites written before after

theorem Serves.cons {answers : List (WalkAnswer α)} {steps : List Traversal.Step}
    {now later : List (Write α)} {step : Traversal.Step}
    (serves : Serves steps later (step.remaining entries) middle answers after)
    (overwrites : Overwrites now before middle) :
    Serves (step :: steps) (now ++ later) entries before
      (.ofItems (step.answered (entries.map Prod.fst)) :: answers) after := by
  obtain ⟨answered, further⟩ := serves
  constructor
  · rw [Traversal.answers, List.map_cons, Traversal.Step.remaining_map, ← answered]
    rfl
  · exact overwrites.trans further

/-- A turn of a script that overwrites what a step yields, followed by the rest of the script. -/
theorem replacing_turn [Value α] {yielded? : Option (Item α × Nat)} {others : Traversal (Placed α)}
    {rest : List (Overwrite α)} (step : Traversal.Step) (value : α)
    (covers : Covers before.buffer entries walk) (yields : step.answered entries = .one yielded?)
    (taken : step.answered walk.toList = .one place)
    (left : others.toList = step.remaining walk.toList)
    (further : ∀ middle : Tracked (Ring α) α,
      Covers middle.buffer (step.remaining entries) others → Ends (overwriteScript rest others) middle
        (Serves (rest.filterMap Overwrite.step?) (writes rest (step.remaining entries))
          (step.remaining entries) middle)
        fun _ _ => False) :
    Ends (overwriteScript.replacing place value) before
      (fun answer middle => Ends (overwriteScript rest others) middle
        (fun answers after => Serves (step :: rest.filterMap Overwrite.step?)
          (yielded?.toList.map (Write.over value) ++ writes rest (step.remaining entries))
          entries before (answer :: answers) after)
        fun _ _ => False)
      fun _ _ => False := by
  apply (replacing_decided step value covers yields taken left).mono _ fun _ _ => id
  intro answer middle ended
  obtain ⟨rfl, overwrites, kept⟩ := ended
  apply (further middle kept).mono _ fun _ _ => id
  intro answers after serves
  exact serves.cons overwrites

/-- A script that overwrites is answered as one that only looks, and changes what it writes over. -/
theorem overwriteScript_decided [Value α] (script : List (Overwrite α))
    (covers : Covers before.buffer entries walk) :
    Ends (overwriteScript script walk) before
      (Serves (script.filterMap Overwrite.step?) (writes script entries) entries before)
      fun _ _ => False := by
  -- The walk has the places of the ring at its start, and overwriting on the way changes none.
  induction script generalizing before walk entries with
  | nil => exact ⟨rfl, .refl covers.wellFormed⟩
  | cons first rest ih =>
      cases first with
      | step step =>
          have bounded : walk.toList.length < Word.limit := by
            rw [covers.places, List.length_map]
            exact covers.bounded
          obtain ⟨others, asked, left⟩ := Traversal.answer_exists step bounded
          have items : (step.answered walk.toList).map Placed.item =
              step.answered (entries.map Prod.fst) := by
            rw [covers.places, ← Traversal.Step.answered_map, List.map_map]
            rfl
          simp only [overwriteScript, asked, liftM_ok, ends_bind, ends_pure, items]
          apply (ih (covers.advanced step left)).mono _ fun _ _ => id
          intro answers after serves
          exact serves.cons (.refl covers.wellFormed)
      | setNext value =>
          obtain ⟨taken, left⟩ := walk.next_eq
          simp only [overwriteScript, ends_bind, ends_pure]
          exact replacing_turn .next value covers rfl (congrArg _ taken.symm) left fun _ => ih
      | setNextBack value =>
          obtain ⟨taken, left⟩ := walk.nextBack_eq
          simp only [overwriteScript, ends_bind, ends_pure]
          exact replacing_turn .nextBack value covers rfl (congrArg _ taken.symm) left fun _ => ih
      | listing =>
          simp only [overwriteScript, ends_bind, ends_pure]
          exact ih covers

/-- A script that takes elements out is answered as one that only looks. What it yields is handed
back, and what it passes over is destroyed. -/
theorem drainScript_decided (script : List Traversal.Step) (wellFormed : before.buffer.WellFormed) :
    Ends (drainScript script) before
      (fun answers after =>
        answers = (Traversal.answers script before.buffer.toList).map WalkAnswer.ofItems ∧
        Parted before (Traversal.yielded script before.buffer.toList)
          (Traversal.skipped script before.buffer.toList)
          (Traversal.left script before.buffer.toList) after)
      (Interrupted fun cause after => ∃ done gone, done <+: script ∧
        Severed before (Traversal.yielded done before.buffer.toList) gone cause after) := by
  -- What one step takes out and passes over has left the ring before the next step asks it.
  induction script generalizing before with
  | nil => exact ⟨rfl, wellFormed, rfl, by simp [Traversal.skipped], rfl⟩
  | cons step rest ih =>
      simp only [drainScript, ends_bind, ends_pure, Act.ends_ledger, Ledger.handBack, ends_modify]
      apply (Ring.drain_decided step wellFormed).mono
      · intro answer middle ended
        obtain ⟨rfl, parted⟩ := ended
        have first := parted.handedBack (step.answered before.buffer.toList).taken
        have parts := step.answered_perm before.buffer.toList
        apply (ih first.wellFormed).mono
        · intro answers after ended
          obtain ⟨rfl, further⟩ := ended
          rw [first.toList] at further ⊢
          rw [Traversal.yielded_cons]
          exact ⟨rfl, first.trans further⟩
        · intro halt after stopped
          apply stopped.mono
          intro cause cut
          obtain ⟨done, gone, early, severed⟩ := cut
          rw [first.toList] at severed
          have whole := first.severed parts severed
          rw [← Traversal.yielded_cons] at whole
          exact ⟨step :: done, _, List.cons_prefix_cons.mpr ⟨rfl, early⟩, whole⟩
      · intro halt after stopped
        apply stopped.mono
        intro cause cut
        obtain ⟨gone, severed⟩ := cut
        exact ⟨[], gone, List.nil_prefix, severed⟩

/-- What a walk that takes elements out has not yielded is destroyed in the end. -/
theorem spending_decided (script : List Traversal.Step) (wellFormed : ring.WellFormed)
    (ledger : Ledger α) :
    Ends (spending ring Ring.runs (drainScript script)) ledger
      (fun answers after =>
        let gone := Traversal.skipped script ring.toList ++ Traversal.left script ring.toList
        answers = (Traversal.answers script ring.toList).map WalkAnswer.ofItems ∧
          (∀ item ∈ gone, ¬ ledger.FailsOn item) ∧
          after = ledger.parting (Traversal.yielded script ring.toList) gone)
      (Interrupted fun cause after => ∃ done gone, done <+: script ∧
        (Traversal.yielded done ring.toList ++ gone).Perm ring.toList ∧
        ledger.FailsAmong (· ∈ gone) cause ∧
        after = (ledger.parting (Traversal.yielded done ring.toList) gone).disarmed) := by
  apply Ring.ends_spending
  apply (drainScript_decided script wellFormed).mono
  · intro answers middle ended
    obtain ⟨rfl, parted⟩ := ended
    rw [parted.toList, parted.recorded]
    refine ⟨parted.wellFormed, ?_⟩
    apply (Ledger.destroyRun_decided _ _).mono
    · intro _ after destroyed
      obtain ⟨lasted, rfl⟩ := destroyed
      exact ⟨rfl, List.forall_mem_append.mpr ⟨parted.lasted, lasted⟩, Ledger.discarding_parting⟩
    · intro halt after stopped
      apply stopped.mono
      intro cause failed
      obtain ⟨among, rfl⟩ := failed
      have parts := Traversal.yielded_perm script ring.toList
      rw [List.append_assoc] at parts
      exact ⟨script, _, List.prefix_refl script, parts,
        Ledger.FailsAmong.mono among fun item => List.mem_append_right _,
        congrArg Ledger.disarmed Ledger.discarding_parting⟩
  · intro halt middle stopped
    obtain ⟨cause, rfl, done, gone, early, severed⟩ := stopped
    have parts := severed.parts
    rw [List.append_assoc] at parts
    rw [severed.recorded]
    exact ⟨severed.wellFormed, cause, rfl, done, gone ++ middle.buffer.toList, early, parts,
      severed.failed.mono fun item => List.mem_append_left _,
      congrArg Ledger.disarmed Ledger.discarding_parting⟩

theorem covers_of_places (wellFormed : ring.WellFormed)
    (places : walk.toList = ring.toList.zipIdx.map ring.placed) :
    Covers ring ring.toList.zipIdx walk where
  wellFormed := wellFormed
  places := places
  held := fun _ => List.mem_zipIdx_iff_getElem?.mp
  distinct := by
    rw [List.zipIdx_map_snd]
    exact List.nodup_range'
  bounded := by
    rw [List.length_zipIdx]
    exact wellFormed.length_lt_word

/-- In whatever slots a ring has its elements, three kinds of walk answer as a cursor over their list.

One only looks; a copy of it, made after any steps, answers for itself. One yields places: whenever
the element at the place of a position is overwritten, that position changes and nothing else, and a
script that overwrites on the way never writes over a position twice. One takes the elements out:
those that it has not yielded are destroyed when it is given up, or when the destruction of one of
them fails. Such a cursor yields each element at most once, and nothing after the last one. -/
theorem scripts_are_double_ended [Value α] (wellFormed : ring.WellFormed) :
    (∃ walk, ring.iterate = .ok walk ∧ ∀ steps script,
      ∃ walked answers, walk.after steps = .ok walked ∧ lookScript script walked = .ok answers ∧
        answers.filterMap WalkAnswer.walked? =
          (looked script (Traversal.left steps ring.toList)).map
            (Traversal.Answer.map Item.value)) ∧
    (∃ walk, ring.places = .ok walk ∧
      (∀ (now : Ring α) (position : Nat) (place : Placed α) (item : Item α), ring.Congruent now →
        walk.toList[position]? = some place →
        ∃ old after, now.toList[position]? = some old ∧
          now.overwriteSlot place.slot item = .ok (old, after) ∧
          now.Congruent after ∧ after.toList = now.toList.set position item) ∧
      ∀ (script : List (Overwrite α)) (ledger : Ledger α),
        let written := writes script ring.toList.zipIdx
        (∃ answers after, overwriteScript script walk ⟨ring, ledger⟩ = .ok answers after ∧
          answers.filterMap WalkAnswer.walked? =
            (Traversal.answers (script.filterMap Overwrite.step?) ring.toList).map
              (Traversal.Answer.map Item.value) ∧
          Overwrites written ⟨ring, ledger⟩ after) ∧
        (∀ write ∈ written, ring.toList[write.position]? = some write.old) ∧
        (written.map Write.position).Nodup) ∧
    (∀ (script : List Traversal.Step) (ledger : Ledger α),
      Ends (spending ring Ring.runs (drainScript script)) ledger
        (fun answers after =>
          let gone := Traversal.skipped script ring.toList ++ Traversal.left script ring.toList
          answers = (Traversal.answers script ring.toList).map WalkAnswer.ofItems ∧
            (∀ item ∈ gone, ¬ ledger.FailsOn item) ∧
            after = ledger.parting (Traversal.yielded script ring.toList) gone)
        (Interrupted fun cause after => ∃ done gone, done <+: script ∧
          (Traversal.yielded done ring.toList ++ gone).Perm ring.toList ∧
          ledger.FailsAmong (· ∈ gone) cause ∧
          after = (ledger.parting (Traversal.yielded done ring.toList) gone).disarmed)) ∧
    ∀ steps : List Traversal.Step,
      (Traversal.yielded steps ring.toList ++ Traversal.skipped steps ring.toList ++
        Traversal.left steps ring.toList).Perm ring.toList ∧
      (Traversal.left steps ring.toList = [] → ∀ more : List Traversal.Step,
        Traversal.yielded (steps ++ more) ring.toList = Traversal.yielded steps ring.toList) := by
  refine ⟨?_, ?_, fun script => spending_decided script wellFormed, ?_⟩
  · obtain ⟨walk, walked, listed⟩ := wellFormed.iterate_exists
    refine ⟨walk, walked, ?_⟩
    intro steps script
    have bounded : walk.toList.length < Word.limit := listed ▸ wellFormed.length_lt_word
    obtain ⟨walked, ran, left⟩ := Traversal.after_exists steps bounded
    have remaining : walked.toList.length < Word.limit := by
      rw [left]
      exact Nat.lt_of_le_of_lt (Traversal.left_sublist steps walk.toList).length_le bounded
    obtain ⟨answers, looks, told⟩ := lookScript_answers script remaining
    rw [left, listed] at told
    exact ⟨walked, answers, ran, looks, told⟩
  · obtain ⟨walk, walked, places⟩ := wellFormed.places_exists
    have covers := covers_of_places wellFormed places
    refine ⟨walk, walked, ?_, ?_⟩
    · intro now position place item congruent found
      rw [places] at found
      exact congruent.overwriteSlot found wellFormed item
    · intro script ledger written
      refine ⟨?_, fun write member => covers.held _ (mem_of_writes member),
        writes_nodup script covers.distinct⟩
      have start : Covers (Tracked.mk ring ledger).buffer ring.toList.zipIdx walk := covers
      obtain ⟨answers, after, ran, answered, overwrites⟩ :=
        (overwriteScript_decided script start).returned fun _ _ => id
      rw [List.zipIdx_map_fst] at answered
      exact ⟨answers, after, ran, answered, overwrites⟩
  · intro steps
    constructor
    · exact Traversal.yielded_perm steps ring.toList
    · intro nothing more
      rw [Traversal.yielded_append, nothing, Traversal.yielded_nil, List.append_nil]

/-- A full ring of three whose last element is in its first slot. -/
def rounded : Ring Datum where
  block := ⟨#[some ⟨2, .int 30⟩, some ⟨0, .int 10⟩, some ⟨1, .int 20⟩], by decide⟩
  start := 1
  len := 3
  registry := ⟨0, 0, 0, ⟨#[1, 0, 0], by decide⟩⟩

theorem rounded_wellFormed : rounded.WellFormed :=
  ⟨by decide, by decide, rfl, by simp only [Ring.Holds]; decide⟩

/-- Steps from both ends of a ring that goes round, for each kind of walk. -/
theorem scripts_are_double_ended_rounded :
    let ledger : Ledger Datum := { Ledger.blank (.below 8) with created := 3 }
    (∃ walk answers, rounded.iterate = .ok walk ∧
      lookScript [.step (.nth 1), .rest, .listing, .step .nextBack, .step .length, .step .next]
          walk = .ok answers ∧
      answers.filterMap WalkAnswer.walked? =
        [.one (some (.int 20)), .many [.int 30], .one (some (.int 30)), .count 0, .one none]) ∧
    (∃ walk answers after, rounded.places = .ok walk ∧
      overwriteScript [.setNextBack (.int 5), .step .next, .setNext (.int 6)] walk
          ⟨rounded, ledger⟩ = .ok answers after ∧
      answers.filterMap WalkAnswer.walked? =
        [.one (some (.int 30)), .one (some (.int 10)), .one (some (.int 20))] ∧
      after.buffer.toList = [⟨0, .int 10⟩, ⟨4, .int 6⟩, ⟨3, .int 5⟩]) ∧
    ∃ answers after, spending rounded Ring.runs (drainScript [.nextBack, .nth 1]) ledger =
        .ok answers after ∧
      after.returned = [⟨1, .int 20⟩, ⟨2, .int 30⟩] ∧ after.destroyed = [⟨0, .int 10⟩] := by
  intro ledger
  obtain ⟨⟨looking, walked, looks⟩, ⟨writing, placed, -, scripts⟩, drains, -⟩ :=
    scripts_are_double_ended rounded_wellFormed
  refine ⟨?_, ?_, ?_⟩
  · obtain ⟨looked, answers, reached, ran, answered⟩ := looks []
      [.step (.nth 1), .rest, .listing, .step .nextBack, .step .length, .step .next]
    cases reached
    exact ⟨looking, answers, walked, ran, answered⟩
  · obtain ⟨⟨answers, after, ran, answered, overwrites⟩, -⟩ :=
      scripts [.setNextBack (.int 5), .step .next, .setNext (.int 6)]
        { Ledger.blank (.below 8) with created := 3 }
    exact ⟨writing, answers, after, placed, ran, answered, overwrites.toList⟩
  · obtain ⟨answers, after, ran, -, -, rfl⟩ := (drains [.nextBack, .nth 1] ledger).returned (by
      intro halt after stopped
      obtain ⟨cause, -, done, gone, -, -, ⟨-, item, -, fails⟩, -⟩ := stopped
      exact Ledger.not_failsOn rfl fails)
    exact ⟨answers, _, ran, rfl, rfl⟩

end RingDeque.Session
