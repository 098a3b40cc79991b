import Mathlib.Algebra.Order.Group.Multiset
import Mathlib.Data.Multiset.Range
import Mathlib.Tactic.Abel
import RingDeque.Block.Allocation
import RingDeque.Cursor
import RingDeque.Proofs.Block
import RingDeque.Proofs.Outcome
import RingDeque.Supply

/-!
Conservation of elements.

A ledger is balanced if the elements made so far are those destroyed, those handed back, and those
afloat, each exactly once. Every operation of the ledger keeps this balance, whether it returns or
halts, and it halts only for a reason that the ledger or the source of elements gives.
-/

namespace RingDeque

open Effect

variable {α : Type} {item model : Item α} {items rest : List (Item α)} {owned further : Multiset Nat}

@[simp] theorem Stamps.size_blank {capacity : Nat} (bounded : capacity < Stamps.limit) :
    (Stamps.blank capacity bounded).size = capacity :=
  Array.size_replicate

/-- The identities of elements. -/
def ids (items : List (Item α)) : Multiset Nat :=
  (items.map Item.id : List Nat)

@[simp] theorem ids_nil : ids ([] : List (Item α)) = 0 := rfl

@[simp] theorem ids_cons : ids (item :: items) = {item.id} + ids items := rfl

@[simp] theorem ids_append : ids (items ++ rest) = ids items + ids rest := by
  simp [ids]

theorem ids_perm (perm : items.Perm rest) : ids items = ids rest :=
  Multiset.coe_eq_coe.mpr (perm.map Item.id)

@[simp] theorem ids_reverse : ids items.reverse = ids items :=
  ids_perm items.reverse_perm

/-- One element comes in for another one. -/
theorem ids_exchange {old : Item α} (same : (item :: items).Perm (old :: rest)) :
    ids items + ({item.id} + owned) = ids rest + ({old.id} + owned) := by
  have counted := ids_perm same
  rw [ids_cons, ids_cons] at counted
  calc ids items + ({item.id} + owned)
      _ = ({item.id} + ids items) + owned := by abel
      _ = ({old.id} + ids rest) + owned := by rw [counted]
      _ = ids rest + ({old.id} + owned) := by abel

namespace Ledger

variable {origin earlier middle later ledger : Ledger α} {breaks : Prop} {refuses : Error → Prop}

/-- The identities of the elements that are destroyed or handed back. -/
def settled (ledger : Ledger α) : Multiset Nat :=
  ids ledger.destroyed + ids ledger.returned

/-- Every element made so far is destroyed, handed back or afloat, and only once one of these. -/
def Balanced (ledger : Ledger α) (afloat : Multiset Nat) : Prop :=
  ledger.settled + afloat = Multiset.range ledger.created

/-- What operations leave of the circumstances: identities are not given twice, and failures are
lifted but not set. -/
structure Follows (earlier later : Ledger α) : Prop where
  rings : earlier.rings ≤ later.rings
  memory : later.memory = earlier.memory
  copiesLeft : earlier.copiesLeft = none → later.copiesLeft = none
  brittle : later.brittle = earlier.brittle ∨ later.brittle = none

theorem Follows.refl (ledger : Ledger α) : ledger.Follows ledger :=
  ⟨Nat.le_refl _, rfl, id, .inl rfl⟩

theorem Follows.trans (first : earlier.Follows middle) (second : middle.Follows later) :
    earlier.Follows later where
  rings := Nat.le_trans first.rings second.rings
  memory := second.memory.trans first.memory
  copiesLeft := second.copiesLeft ∘ first.copiesLeft
  brittle := by
    rcases second.brittle with same | lifted
    · rw [same]
      exact first.brittle
    · exact .inr lifted

/-- A later ledger that is balanced. -/
structure Keeps (origin : Ledger α) (owned : Multiset Nat) (ledger : Ledger α) : Prop where
  follows : origin.Follows ledger
  balanced : ledger.Balanced owned

theorem Keeps.of_eq (keeps : origin.Keeps owned ledger) (same : owned = further) :
    origin.Keeps further ledger :=
  same ▸ keeps

theorem Keeps.since (keeps : middle.Keeps owned ledger) (follows : origin.Follows middle) :
    origin.Keeps owned ledger :=
  ⟨follows.trans keeps.follows, keeps.balanced⟩

theorem Keeps.brittle_of_ne (keeps : origin.Keeps owned ledger) {fails : Item α → Bool}
    (armed : ledger.brittle = some fails) : origin.brittle = some fails := by
  rcases keeps.follows.brittle with same | lifted
  · rw [← same, armed]
  · rw [lifted] at armed
    contradiction

/-- The halts for which there is a reason: a failure that was set, a source that breaks, or a
refusal of a given kind. -/
inductive Due (origin : Ledger α) (breaks : Prop) (refuses : Error → Prop) : Halt → Prop where
  | copy (armed : origin.copiesLeft ≠ none) : Due origin breaks refuses (.interrupted .copyFailed)
  | destruction (armed : origin.brittle ≠ none) :
      Due origin breaks refuses (.interrupted .destructionFailed)
  | source (broken : breaks) : Due origin breaks refuses (.interrupted .sourceFailed)
  | refusal {error : Error} (refused : refuses error) : Due origin breaks refuses (.refused error)

/-- Whether a block of a given size cannot be had together with its counters. -/
def Scarce (origin : Ledger α) (capacity : Nat) : Prop :=
  origin.memory.block capacity = false ∨ origin.memory.stamps capacity = false ∨
    Stamps.limit ≤ capacity

instance (origin : Ledger α) (capacity : Nat) : Decidable (origin.Scarce capacity) :=
  inferInstanceAs (Decidable (_ ∨ _))

theorem Due.orderly {halt : Halt} (due : origin.Due breaks refuses halt) : halt.Orderly := by
  cases due <;> trivial

theorem Due.mono {halt : Halt} {moreBreaks : Prop} {more : Error → Prop}
    (due : origin.Due breaks refuses halt) (breaking : breaks → moreBreaks)
    (refusing : ∀ error, refuses error → more error) : origin.Due moreBreaks more halt := by
  cases due with
  | copy armed => exact .copy armed
  | destruction armed => exact .destruction armed
  | source broken => exact .source (breaking broken)
  | refusal refused => exact .refusal (refusing _ refused)

/-- An interruption is no refusal. -/
theorem Due.interrupted {cause : Interruption} {more : Error → Prop}
    (due : origin.Due breaks refuses (.interrupted cause)) :
    origin.Due breaks more (.interrupted cause) := by
  cases due with
  | copy armed => exact .copy armed
  | destruction armed => exact .destruction armed
  | source broken => exact .source broken

theorem Due.since {halt : Halt} (due : middle.Due breaks refuses halt)
    (follows : origin.Follows middle) : origin.Due breaks refuses halt := by
  cases due with
  | copy armed => exact .copy fun calm => armed (follows.copiesLeft calm)
  | destruction armed =>
      refine .destruction fun calm => armed ?_
      rcases follows.brittle with same | lifted
      · rw [same, calm]
      · exact lifted
  | source broken => exact .source broken
  | refusal refused => exact .refusal refused

theorem make_ends (keeps : origin.Keeps owned ledger) (value : α) {halts : Halt → Ledger α → Prop} :
    Ends (make value) ledger
      (fun item after => item.value = value ∧ origin.Keeps ({item.id} + owned) after) halts := by
  simp only [make, ends_bind, ends_get, ends_set, ends_pure]
  refine ⟨trivial, ⟨keeps.follows.rings, keeps.follows.memory, keeps.follows.copiesLeft,
    keeps.follows.brittle⟩, ?_⟩
  have balanced := keeps.balanced
  simp only [Balanced] at *
  rw [Multiset.range_succ, ← balanced, ← Multiset.singleton_add]
  simp only [settled]
  abel

theorem copy_ends (keeps : origin.Keeps owned ledger) :
    Ends (copy model) ledger
      (fun item after => item.value = model.value ∧ origin.Keeps ({item.id} + owned) after)
      (fun halt after => origin.Due breaks refuses halt ∧ origin.Keeps owned after) := by
  simp only [copy, ends_bind, ends_get]
  cases left : ledger.copiesLeft with
  | none => exact make_ends keeps model.value
  | some count =>
      have armed : origin.copiesLeft ≠ none := by
        intro calm
        rw [keeps.follows.copiesLeft calm] at left
        contradiction
      have disarmed : ∀ copies, origin.Keeps owned { ledger with copiesLeft := copies } :=
        fun copies => ⟨⟨keeps.follows.rings, keeps.follows.memory, fun calm => (armed calm).elim,
          keeps.follows.brittle⟩, keeps.balanced⟩
      cases count with
      | zero =>
          simp only [ends_bind, ends_set, ends_throw]
          exact ⟨.copy armed, disarmed none⟩
      | succ count =>
          simp only [ends_bind, ends_set]
          exact make_ends (disarmed (some count)) model.value

theorem Keeps.discarding (keeps : origin.Keeps (ids items + owned) ledger) :
    origin.Keeps owned (ledger.discarding items) := by
  refine ⟨⟨keeps.follows.rings, keeps.follows.memory, keeps.follows.copiesLeft,
    keeps.follows.brittle⟩, ?_⟩
  have balanced := keeps.balanced
  simp only [Balanced, settled, Ledger.discarding, ids_append, ids_reverse] at *
  rw [← balanced]
  abel

theorem destroy_ends (keeps : origin.Keeps ({item.id} + owned) ledger) :
    Ends (destroy item) ledger (fun _ after => origin.Keeps owned after)
      (fun halt after => halt = .interrupted .destructionFailed ∧
        (∃ fails, origin.brittle = some fails ∧ fails item = true) ∧ origin.Keeps owned after) := by
  have gone : origin.Keeps owned (ledger.discarding [item]) := by
    apply Keeps.discarding
    simpa using keeps
  simp only [destroy, discard, ends_bind, ends_modify, ends_get]
  cases brittle : (ledger.discarding [item]).brittle with
  | none => exact gone
  | some fails =>
      by_cases failing : fails item = true
      · simp only [if_pos failing, ends_bind, ends_set, ends_throw]
        exact ⟨trivial, ⟨fails, gone.brittle_of_ne brittle, failing⟩,
          ⟨gone.follows.rings, gone.follows.memory, gone.follows.copiesLeft, .inr rfl⟩,
          gone.balanced⟩
      · simp only [if_neg failing, ends_pure]
        exact gone

theorem due_of_brittle {fails : Item α → Bool} (armed : origin.brittle = some fails) :
    origin.Due breaks refuses (.interrupted .destructionFailed) :=
  .destruction (by rw [armed]; exact Option.some_ne_none _)

theorem destroyRun_ends (keeps : origin.Keeps (ids items + owned) ledger) :
    Ends (destroyRun items) ledger (fun _ after => origin.Keeps owned after)
      (fun halt after => origin.Due breaks refuses halt ∧ origin.Keeps owned after) := by
  induction items generalizing ledger with
  | nil => simpa [destroyRun] using keeps
  | cons item rest ih =>
      simp only [destroyRun, ends_bind, ends_tryCatch]
      have first : origin.Keeps ({item.id} + (ids rest + owned)) ledger :=
        keeps.of_eq (by rw [ids_cons, add_assoc])
      refine (destroy_ends first).mono (fun _ after kept => ih kept) ?_
      intro halt after stopped
      obtain ⟨rfl, ⟨fails, armed, -⟩, kept⟩ := stopped
      simp only [discard, ends_modify, ends_throw]
      exact ⟨due_of_brittle armed, kept.discarding⟩

theorem handBack_ends (keeps : origin.Keeps (ids items + owned) ledger)
    {halts : Halt → Ledger α → Prop} :
    Ends (handBack items) ledger (fun _ after => origin.Keeps owned after) halts := by
  simp only [handBack, ends_modify]
  refine ⟨⟨keeps.follows.rings, keeps.follows.memory, keeps.follows.copiesLeft,
    keeps.follows.brittle⟩, ?_⟩
  have balanced := keeps.balanced
  simp only [Balanced, settled, ids_append, ids_reverse] at *
  rw [← balanced]
  abel

theorem Keeps.reporting (keeps : origin.Keeps owned ledger) (events : List Event) :
    origin.Keeps owned { ledger with events } :=
  ⟨⟨keeps.follows.rings, keeps.follows.memory, keeps.follows.copiesLeft, keeps.follows.brittle⟩,
    keeps.balanced⟩

theorem identify_ends (keeps : origin.Keeps owned ledger) {halts : Halt → Ledger α → Prop} :
    Ends identify ledger
      (fun owner after => origin.rings ≤ owner ∧ owner < after.rings ∧ origin.Keeps owned after)
      halts := by
  simp only [identify, ends_bind, ends_get, ends_set, ends_pure]
  exact ⟨keeps.follows.rings, Nat.lt_succ_self _,
    ⟨Nat.le_succ_of_le keeps.follows.rings, keeps.follows.memory, keeps.follows.copiesLeft,
      keeps.follows.brittle⟩, keeps.balanced⟩

theorem scarce_below {bound : Nat} (memory : ledger.memory = .below bound) {capacity : Nat} :
    ledger.Scarce capacity ↔ bound ≤ capacity ∨ Stamps.limit ≤ capacity := by
  simp only [Scarce, memory, Memory.below, decide_eq_false_iff_not, Nat.not_lt]
  omega

/-- What is scarce does not change in the course of an operation. -/
theorem Keeps.scarce (keeps : origin.Keeps owned ledger) {capacity : Nat} :
    ledger.Scarce capacity = origin.Scarce capacity := by
  rw [Scarce, Scarce, keeps.follows.memory]

theorem granted_of_not_scarce {capacity : Nat} (plenty : ¬ ledger.Scarce capacity) :
    ledger.memory.block capacity = true ∧ ledger.memory.stamps capacity = true ∧
      capacity < Stamps.limit := by
  simpa only [Scarce, not_or, Bool.not_eq_false, Nat.not_le] using plenty

/-- A block of empty slots is had, and nothing else changes. -/
theorem allocate_granted {β : Type} {capacity : Nat} (bounded : capacity < Word.limit)
    (granted : ledger.memory.block capacity = true) :
    Block.allocate capacity ledger = .ok (Block.blank capacity bounded : Block β) ledger := by
  apply eq_ok_of_ends
  simp only [Block.allocate, Block.reserve, ends_bind, ends_get, granted, if_true,
    ends_pure, dif_pos bounded, and_self]

theorem allocate_refused {β : Type} {capacity : Nat}
    (refused : ledger.memory.block capacity = false ∨ Word.limit ≤ capacity) :
    Block.allocate (β := β) capacity ledger = .error (.refused (.allocationFailed capacity)) ledger := by
  apply eq_error_of_ends
  simp only [Block.allocate, Block.reserve, ends_bind, ends_get]
  cases granted : ledger.memory.block capacity with
  | false => simp only [Bool.false_eq_true, if_false, ends_refuse, and_self]
  | true =>
      have large : ¬ capacity < Word.limit := by
        rw [granted] at refused
        simpa using refused
      simp only [if_true, ends_pure, dif_neg large, ends_refuse, and_self]

/-- Counters are had, and nothing else changes. -/
theorem stamps_granted {capacity : Nat} (bounded : capacity < Stamps.limit)
    (granted : ledger.memory.stamps capacity = true) :
    Stamps.allocate capacity ledger = .ok (Stamps.blank capacity bounded) ledger := by
  apply eq_ok_of_ends
  simp only [Stamps.allocate, ends_bind, ends_get, granted, if_true,
    ends_pure, dif_pos bounded, and_self]

theorem stamps_refused {capacity : Nat}
    (refused : ledger.memory.stamps capacity = false ∨ Stamps.limit ≤ capacity) :
    Stamps.allocate capacity ledger = .error (.refused (.allocationFailed capacity)) ledger := by
  apply eq_error_of_ends
  simp only [Stamps.allocate, ends_bind, ends_get]
  cases granted : ledger.memory.stamps capacity with
  | false => simp only [Bool.false_eq_true, if_false, ends_bind, ends_refuse, and_self]
  | true =>
      have large : ¬ capacity < Stamps.limit := by
        rw [granted] at refused
        simpa using refused
      simp only [if_true, dif_neg large, ends_refuse, and_self]

/-- Counters are had, or refused, with the ledger as it was. -/
theorem ends_stamps {capacity : Nat} {returns : Stamps → Ledger α → Prop}
    {halts : Halt → Ledger α → Prop}
    (granted : ledger.memory.stamps capacity = true → capacity < Stamps.limit →
      ∀ stamps, stamps.size = capacity → returns stamps ledger)
    (refused : ledger.Scarce capacity → halts (.refused (.allocationFailed capacity)) ledger) :
    Ends (Stamps.allocate capacity) ledger returns halts := by
  by_cases scarce : ledger.memory.stamps capacity = false ∨ Stamps.limit ≤ capacity
  · rw [ends_of_error (stamps_refused scarce)]
    exact refused (.inr scarce)
  · obtain ⟨held, bounded⟩ := not_or.mp scarce
    rw [Bool.not_eq_false] at held
    rw [Nat.not_le] at bounded
    rw [ends_of_ok (stamps_granted bounded held)]
    exact granted held bounded _ (Stamps.size_blank bounded)

/-- A block and its counters are allocated one after the other. If either is refused, the ledger is
as it was. -/
theorem ends_allocating {capacity : Nat} {returns : Block (Item α) → Stamps → Ledger α → Prop}
    {halts : Halt → Ledger α → Prop}
    (granted : ¬ ledger.Scarce capacity → ∀ block stamps, block.size = capacity →
      (∀ slot, block.get? slot = none) → stamps.size = capacity → returns block stamps ledger)
    (refused : ledger.Scarce capacity → halts (.refused (.allocationFailed capacity)) ledger) :
    Ends (Block.allocate capacity) ledger
      (fun block middle => Ends (Stamps.allocate capacity) middle (returns block) halts) halts := by
  by_cases lacking : ledger.memory.block capacity = false ∨ Word.limit ≤ capacity
  · have scarce : ledger.Scarce capacity :=
      lacking.imp_right fun large => .inr (Nat.le_trans (by decide) large)
    rw [ends_of_error (allocate_refused lacking)]
    exact refused scarce
  · obtain ⟨held, inWords⟩ := not_or.mp lacking
    rw [Bool.not_eq_false] at held
    rw [Nat.not_le] at inWords
    rw [ends_of_ok (allocate_granted inWords held)]
    apply ends_stamps _ refused
    intro counted bounded stamps sized
    have plenty : ¬ ledger.Scarce capacity := by
      simp only [Scarce, held, counted, Bool.true_eq_false, false_or, Nat.not_le]
      exact bounded
    exact granted plenty _ stamps (Block.size_blank inWords) (fun slot => Block.get?_blank inWords)
      sized

/-- How an operation ends for which the allocation of a given size was taken for granted. -/
def Unexpected (origin : Ledger α) (purpose : Purpose) (capacity : Nat) (halt : Halt) : Prop :=
  halt = .interrupted (.unexpected purpose (.allocationFailed capacity)) ∧ origin.Scarce capacity

end Ledger

namespace Entry

variable {origin ledger : Ledger α} {refuses : Error → Prop} {entry : Entry α}
  {entries : List (Entry α)} {count : Nat}

/-- The value of the element that an entry yields, unless the source breaks there. -/
def value? : Entry α → Option α
  | .fresh value => some value
  | .copyOf model => some model.value
  | .breaks => none

theorem produce_ends (refuses : Error → Prop) (keeps : origin.Keeps owned ledger) :
    Ends entry.produce ledger
      (fun item after =>
        entry.value? = some item.value ∧ origin.Keeps ({item.id} + owned) after)
      (fun halt after => origin.Due (entry = .breaks) refuses halt ∧ origin.Keeps owned after) := by
  cases entry with
  | fresh value =>
      exact (Ledger.make_ends keeps value).mono
        (fun item after made => ⟨congrArg some made.1.symm, made.2⟩) fun _ _ => id
  | copyOf model =>
      exact (Ledger.copy_ends keeps).mono
        (fun item after made => ⟨congrArg some made.1.symm, made.2⟩) fun _ _ => id
  | breaks => exact ⟨.source rfl, keeps⟩

@[simp] theorem ends_observing {act : Effect (Ledger α) (Item α)}
    {returns : Except Halt (Item α) → Ledger α → Prop} {halts : Halt → Ledger α → Prop} :
    Ends (produceAll.observing act) ledger returns halts ↔
      Ends act ledger (fun item => returns (.ok item)) (fun halt => returns (.error halt)) := by
  simp only [Ends, produceAll.observing, tryCatch, tryCatchThe, MonadExceptOf.tryCatch, bind,
    EStateM.bind, EStateM.tryCatch]
  cases act ledger <;> rfl

theorem produceAll_ends (refuses : Error → Prop) (keeps : origin.Keeps owned ledger) {halts : Halt → Ledger α → Prop} :
    Ends (produceAll entries) ledger
      (fun produced after => origin.Keeps (ids produced.1 + owned) after ∧
        produced.1.length ≤ entries.length ∧
        match produced.2 with
        | none => entries.map value? = produced.1.map (some ·.value)
        | some halt => origin.Due (.breaks ∈ entries) refuses halt) halts := by
  induction entries generalizing ledger owned with
  | nil =>
      simp only [produceAll, ends_pure]
      exact ⟨by simpa using keeps, Nat.le_refl _, rfl⟩
  | cons entry rest ih =>
      simp only [produceAll, ends_bind, ends_observing, ends_pure]
      refine (produce_ends refuses keeps).mono ?_ ?_
      · intro item after ended
        obtain ⟨value, kept⟩ := ended
        refine (ih kept).mono ?_ fun _ _ => id
        intro reached final ended
        obtain ⟨items, halt⟩ := reached
        obtain ⟨finalKept, length, outcome⟩ := ended
        refine ⟨finalKept.of_eq (by rw [ids_cons]; abel), Nat.succ_le_succ length, ?_⟩
        cases halt with
        | none => simpa [value] using outcome
        | some halt => exact Ledger.Due.mono outcome (List.mem_cons_of_mem _) fun _ => id
      · intro halt after stopped
        obtain ⟨due, kept⟩ := stopped
        refine ⟨by simpa using kept, Nat.zero_le _, due.mono ?_ fun _ => id⟩
        intro same
        subst same
        exact List.mem_cons_self

theorem skip_ends (refuses : Error → Prop) (keeps : origin.Keeps owned ledger) :
    Ends (skip count entries) ledger
      (fun left after => left = entries.drop count ∧ .breaks ∉ entries.take count ∧
        origin.Keeps owned after)
      (fun halt after => origin.Due (.breaks ∈ entries.take count) refuses halt ∧
        origin.Keeps owned after) := by
  -- The induction is on the entries and not on `count`, as skipping stops where the entries do.
  induction entries generalizing ledger count with
  | nil =>
      cases count with
      | zero => exact ⟨rfl, by simp, keeps⟩
      | succ count => exact ⟨rfl, by simp, keeps⟩
  | cons entry rest ih =>
      cases count with
      | zero => exact ⟨rfl, by simp, keeps⟩
      | succ count =>
          simp only [skip, ends_bind]
          refine (produce_ends refuses keeps).mono ?_ ?_
          · intro item after ended
            obtain ⟨value, kept⟩ := ended
            refine (Ledger.destroy_ends kept).mono ?_ ?_
            · intro _ gone goneKept
              refine (ih goneKept).mono ?_ ?_
              · intro left final ended
                obtain ⟨rfl, unbroken, finalKept⟩ := ended
                refine ⟨rfl, ?_, finalKept⟩
                rw [List.take_succ_cons, List.mem_cons, not_or]
                refine ⟨?_, unbroken⟩
                intro same
                subst same
                contradiction
              · intro halt final stopped
                obtain ⟨due, finalKept⟩ := stopped
                exact ⟨due.mono (List.mem_cons_of_mem _) fun _ => id, finalKept⟩
            · intro halt final stopped
              obtain ⟨rfl, ⟨fails, armed, -⟩, finalKept⟩ := stopped
              exact ⟨Ledger.due_of_brittle armed, finalKept⟩
          · intro halt after stopped
            obtain ⟨due, kept⟩ := stopped
            refine ⟨due.mono ?_ fun _ => id, kept⟩
            intro same
            subst same
            exact List.mem_cons_self

end Entry

/-- No more is skipped than the feed claims in excess. -/
theorem Feed.skipSurplus_eq (feed : Feed α) (count : Nat) :
    feed.skipSurplus count = Entry.skip (feed.claimed - count) feed.entries := by
  by_cases scant : count < feed.claimed
  · have index : feed.claimed - count - 1 + 1 = feed.claimed - count := by omega
    simp only [skipSurplus, if_pos scant, Word.sub_eq (Nat.le_of_lt scant),
      Word.sub_eq (show 1 ≤ feed.claimed - count by omega), liftM_ok, pure_bind,
      Entry.skipThrough, index]
  · have nothing : feed.claimed - count = 0 := by omega
    rw [skipSurplus, if_neg scant, nothing, Entry.skip]

end RingDeque
