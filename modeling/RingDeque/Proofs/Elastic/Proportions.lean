import RingDeque.Proofs.Elastic.Hysteresis
import RingDeque.Proofs.Ring.Receiving

/-!
How much of its block an elastic ring leaves free.

A block is given up to the extent that at most two thirds of what stays are idle, and enlarged to
less than four times what is to be held. Both leave a fifth free, unless the ceiling forbids it. The
loops that find these sizes take at most one round more than a word has bits.
-/

namespace RingDeque

open Effect

/-- A loop that goes on from size to size until it has a result, for so many rounds at most. -/
def looped (turn : Nat → Nat ⊕ Nat) : Nat → Nat → Option Nat
  | 0, _ => none
  | rounds + 1, size =>
      match turn size with
      | .inl next => looped turn rounds next
      | .inr result => some result

def halvingTurn (len floor size : Nat) : Nat ⊕ Nat :=
  if len ≤ size / 3 then
    if size / 2 ≤ floor then .inr floor else .inl (size / 2)
  else
    .inr size

def doublingTurn (wanted size : Nat) : Nat ⊕ Nat :=
  if size < wanted then .inl (Word.saturatingDouble size) else .inr size

theorem looped_halvingTurn {len floor size : Nat} (rounds : Nat) (small : size < 2 ^ rounds) :
    looped (halvingTurn len floor) (rounds + 1) size = some (halvedTo len floor size) := by
  fun_induction halvedTo len floor size generalizing rounds with
  | case1 size loose lowest => rw [looped, halvingTurn, if_pos loose, if_pos lowest]
  | case2 size loose higher ih =>
      rw [looped, halvingTurn, if_pos loose, if_neg higher]
      cases rounds with
      | zero => omega
      | succ rounds =>
          rw [Nat.pow_succ] at small
          exact ih rounds (by omega)
  | case3 size snug => rw [looped, halvingTurn, if_neg snug]

theorem looped_doublingTurn {wanted size : Nat} (rounds : Nat) (positive : 0 < size)
    (word : wanted ≤ Word.greatest) (enough : wanted ≤ 2 ^ rounds * size) :
    looped (doublingTurn wanted) (rounds + 1) size = some (doubledTo wanted size) := by
  fun_induction doubledTo wanted size generalizing rounds with
  | case1 size growing ih =>
      obtain ⟨-, short, -⟩ := growing
      rw [looped, doublingTurn, if_pos short]
      cases rounds with
      | zero => omega
      | succ rounds =>
          simp only [Word.saturatingDouble] at ih ⊢
          apply ih rounds (by omega)
          rcases Nat.le_total (2 * size) Word.greatest with exact | saturated
          · rwa [Nat.min_eq_left exact, ← Nat.mul_assoc, ← Nat.pow_succ]
          · rw [Nat.min_eq_right saturated]
            exact Nat.le_trans word (Nat.le_mul_of_pos_left _ (Nat.two_pow_pos rounds))
  | case2 size done =>
      rw [looped, doublingTurn, if_neg fun short => done ⟨positive, short, word⟩]

theorem doubledTo_lt {wanted size : Nat} (small : size < 2 * wanted) :
    doubledTo wanted size < 2 * wanted := by
  fun_induction doubledTo wanted size with
  | case1 size growing ih =>
      apply ih
      simp only [Word.saturatingDouble]
      omega
  | case2 => exact small

theorem double_le_doubledTo {wanted size : Nat} (positive : 0 < size) (short : size < wanted)
    (word : wanted ≤ Word.greatest) : Word.saturatingDouble size ≤ doubledTo wanted size := by
  rw [doubledTo, if_pos ⟨positive, short, word⟩]
  exact le_doubledTo _ _

namespace Limits

variable {limits : Limits} {len size wanted : Nat}

/-- A size for `len` elements at which no more than two thirds of the slots are idle above the
floor, and a fifth is free below the ceiling. -/
structure Proportioned (limits : Limits) (len size : Nat) : Prop where
  kept : max len limits.floor ≤ size
  below_ceiling : size ≤ limits.ceiling
  used : size = limits.floor ∨ size / 3 < len
  free : size = 0 ∨ size = limits.ceiling ∨ len + size / 5 < size

theorem Houses.proportioned_poppedSize (houses : limits.Houses len size) :
    limits.Proportioned len (limits.poppedSize len size) := by
  have below := houses.below_ceiling
  have ordered := limits.floor_le_ceiling
  obtain ⟨halved, stopped, kept, above, smaller, ⟨spare, reached⟩ | ⟨scant, reached⟩⟩ :=
    houses.poppedSize_cases
  · rw [reached]
    apply Proportioned.mk <;> omega
  · -- What lacked a reserve was nearly full, so it is more than a third full when doubled.
    rw [reached]
    apply Proportioned.mk <;> omega

/-- A block that is settled once has settled for good. -/
theorem Houses.poppedSize_poppedSize (houses : limits.Houses len size) :
    limits.poppedSize len (limits.poppedSize len size) = limits.poppedSize len size := by
  have fits := houses.fits
  have below := houses.below_ceiling
  by_cases free : len < limits.ceiling
  · by_cases bare : limits.Bare len
    · rw [bare.1, poppedSize_nothing bare.2, poppedSize_nothing bare.2]
    · exact ((houses.settled_poppedSize free).rests bare).settled
  · have ceiling := houses.proportioned_poppedSize
    obtain rfl : size = limits.ceiling := by omega
    have same : limits.poppedSize len limits.ceiling = limits.ceiling := by
      have kept := ceiling.kept
      have most := ceiling.below_ceiling
      omega
    rw [same, same]

/-- A size for `wanted` elements that is larger than the present one, and less than four times what
they need, with a fifth free below the ceiling. -/
structure Extends (limits : Limits) (wanted size extended : Nat) : Prop where
  larger : size < extended
  below_ceiling : extended ≤ limits.ceiling
  room : min wanted limits.ceiling ≤ extended
  doubled : min (2 * size) limits.ceiling ≤ extended
  free : extended = limits.ceiling ∨ wanted + extended / 5 < extended
  bounded : extended < 4 * wanted

end Limits

namespace ElasticRing

variable {α : Type} {elastic : ElasticRing α} {ledger : Ledger α} {wanted n : Nat}

/-- Where doubling or adding stopped at the largest word, there is no such block, or the ceiling
cuts the size. -/
theorem grownSize_extends (wellFormed : elastic.ring.WellFormed) (short : elastic.physical < wanted)
    (below : elastic.physical < elastic.capacity)
    (available : elastic.grownSize (min wanted Word.greatest) < Word.greatest) :
    elastic.limits.Extends wanted elastic.physical
      (elastic.grownSize (min wanted Word.greatest)) := by
  have small := physical_lt_greatest wellFormed
  have word := wellFormed.capacity_double_lt_word
  simp only [grownSize, capacity, physical] at *
  generalize counted : min wanted Word.greatest = target at *
  have reached := wanted_le_doubledTo target (max elastic.ring.capacity 1) (by omega) (by omega)
  have most := doubledTo_lt (show max elastic.ring.capacity 1 < 2 * target by omega)
  have largest := doubledTo_le_greatest target (max elastic.ring.capacity 1) (by omega)
  have least : 2 * elastic.ring.capacity ≤ doubledTo target (max elastic.ring.capacity 1) := by
    by_cases growing : max elastic.ring.capacity 1 < target
    · have doubled := double_le_doubledTo (by omega) growing (by omega)
      simp only [Word.saturatingDouble, Word.greatest] at *
      omega
    · omega
  generalize doubledTo target (max elastic.ring.capacity 1) = doubled at *
  rcases elastic.limits.withReserve_cases target largest with ⟨spare, same⟩ | ⟨scant, same⟩
  · rw [same] at available ⊢
    apply Limits.Extends.mk <;> omega
  · rw [same] at available ⊢
    simp only [Word.saturatingDouble] at *
    apply Limits.Extends.mk <;> omega

theorem settle_at_rest (settled : elastic.settledSize = elastic.physical) (ledger : Ledger α) :
    settle ⟨elastic, ledger⟩ = .ok () ⟨elastic, ledger⟩ := by
  have ends : Ends settle ⟨elastic, ledger⟩ (fun _ after => after = ⟨elastic, ledger⟩)
      fun _ _ => False := by
    simp only [settle, ends_bind, Act.ends_buffer, if_pos settled, ends_pure]
  obtain ⟨_, after, ran, rfl⟩ := ends.returned fun _ _ => id
  exact ran

/-- Giving up storage costs no element that finds room in the block that suits the ring. The
present block stays only if that one cannot be had. -/
theorem settle_keeps (wellFormed : elastic.ring.WellFormed)
    (fits : elastic.len ≤ elastic.settledSize) (ledger : Ledger α) :
    ∃ size after, settle ⟨elastic, ledger⟩ = .ok () after ∧
      elastic.ring.TurnsInto False after.buffer.ring size elastic.ring.toList ∧
      after.buffer.limits = elastic.limits ∧ ledger.Draws 0 0 after.ledger ∧
      (size = elastic.settledSize ∨
        size = elastic.physical ∧ ledger.Scarce elastic.settledSize) := by
  by_cases same : elastic.settledSize = elastic.physical
  · exact ⟨_, _, settle_at_rest same ledger, .refl False wellFormed, rfl, .refl ledger,
      .inl same.symm⟩
  have ends : Ends settle ⟨elastic, ledger⟩
      (fun _ after => ∃ size,
        elastic.ring.TurnsInto False after.buffer.ring size elastic.ring.toList ∧
        after.buffer.limits = elastic.limits ∧ ledger.Draws 0 0 after.ledger ∧
        (size = elastic.settledSize ∨
          size = elastic.physical ∧ ledger.Scarce elastic.settledSize))
      fun _ _ => False := by
    simp only [settle, ends_bind, Act.ends_buffer, if_neg same, ends_tryCatch, ends_onRing,
      Act.ends_report]
    apply (Ring.setCapacity_exactly wellFormed .front same fits ledger).mono
    · intro _ after moved
      rw [moved.2]
      exact ⟨_, moved.1, trivial, .telling _, .inl rfl⟩
    · intro halt after stopped
      obtain ⟨rfl, scarce, rfl⟩ := stopped
      simp only [Act.ends_report]
      exact ⟨_, .refl False wellFormed, trivial, .telling _, .inr ⟨rfl, scarce⟩⟩
  obtain ⟨_, after, ran, size, kept⟩ := ends.returned fun _ _ => id
  exact ⟨size, after, ran, kept⟩

/-- An elastic ring that can have the block that suits it has it afterwards, with the same
elements. -/
theorem settle_reaches (wellFormed : elastic.ring.WellFormed)
    (fits : elastic.len ≤ elastic.settledSize)
    (granted : elastic.settledSize ≠ elastic.physical → ¬ ledger.Scarce elastic.settledSize) :
    ∃ after, settle ⟨elastic, ledger⟩ = .ok () after ∧
      elastic.ring.TurnsInto False after.buffer.ring elastic.settledSize elastic.ring.toList ∧
      after.buffer.limits = elastic.limits := by
  obtain ⟨size, after, ran, turns, limited, -, rfl | ⟨stays, scarce⟩⟩ :=
    settle_keeps wellFormed fits ledger
  · exact ⟨after, ran, turns, limited⟩
  · by_cases same : elastic.settledSize = elastic.physical
    · rw [same, ← stays]
      exact ⟨after, ran, turns, limited⟩
    · exact absurd scarce (granted same)

/-- Whatever the sizes, halving ends within 65 rounds. Within its limits an elastic ring that can
have another block settles on a proportioned one with the same elements, and stays with it. -/
theorem settle_proportions (wellFormed : elastic.ring.WellFormed) (within : elastic.WithinLimits)
    (ledger : Ledger α)
    (granted : elastic.settledSize ≠ elastic.physical → ¬ ledger.Scarce elastic.settledSize) :
    (∀ len floor size, size < Word.limit →
      looped (halvingTurn len floor) 65 size = some (halvedTo len floor size)) ∧
    ∃ after, settle ⟨elastic, ledger⟩ = .ok () after ∧ after.buffer.ring.WellFormed ∧
      after.buffer.ring.toList = elastic.ring.toList ∧ after.buffer.limits = elastic.limits ∧
      elastic.limits.Proportioned elastic.len after.buffer.physical ∧
      settle after = .ok () after := by
  constructor
  · exact fun len floor size small => looped_halvingTurn 64 small
  obtain ⟨after, ran, turns, limited⟩ :=
    settle_reaches wellFormed within.settledSize_bounds.1 granted
  have counted : after.buffer.len = elastic.len := by
    rw [len, ← turns.wellFormed.length_toList, turns.toList, wellFormed.length_toList, len]
  have sized : after.buffer.physical = elastic.settledSize := turns.sized
  have settled : after.buffer.settledSize = after.buffer.physical := by
    rw [settledSize, limited, counted, sized]
    exact (within.houses wellFormed).poppedSize_poppedSize
  have proportioned : elastic.limits.Proportioned elastic.len after.buffer.physical := by
    rw [sized]
    exact (within.houses wellFormed).proportioned_poppedSize
  exact ⟨after, ran, turns.wellFormed, turns.toList, limited, proportioned,
    settle_at_rest settled after.ledger⟩

/-- The last element of nine slots, with a floor of one slot. -/
def sparse : ElasticRing Nat where
  ring :=
    { block := ⟨#[none, none, none, none, none, none, none, none, some ⟨0, 10⟩], by decide⟩
      start := 8
      len := 1
      registry := ⟨0, 0, 0, ⟨#[0, 0, 0, 0, 0, 0, 0, 0, 0], by decide⟩⟩ }
  limits := ⟨20, 1, by decide⟩

theorem settle_proportions_sparse :
    sparse.physical = 9 ∧ ∃ after, settle ⟨sparse, .blank (.below 16)⟩ = .ok () after ∧
      after.buffer.physical = 2 ∧ after.buffer.ring.toList = [⟨0, 10⟩] ∧
      settle after = .ok () after := by
  have wellFormed : sparse.ring.WellFormed :=
    ⟨by decide, by decide, rfl, by simp only [Ring.Holds]; decide⟩
  obtain ⟨-, after, ran, -, listed, -, proportioned, again⟩ :=
    settle_proportions wellFormed ⟨by decide, by decide, by decide⟩ (.blank (.below 16))
      fun _ => by decide +kernel
  obtain ⟨kept, -, used, free⟩ := proportioned
  simp only [sparse, len] at kept used free
  exact ⟨rfl, after, ran, by omega, listed, again⟩

theorem secure_still (below : elastic.physical ≤ elastic.capacity)
    (still : elastic.len + n ≤ elastic.physical ∨ elastic.physical = elastic.capacity)
    (ledger : Ledger α) : secure n ⟨elastic, ledger⟩ = .ok () ⟨elastic, ledger⟩ := by
  have sum : Word.saturatingAdd elastic.len n = min (elastic.len + n) Word.greatest := rfl
  have ends : Ends (secure n) ⟨elastic, ledger⟩ (fun _ after => after = ⟨elastic, ledger⟩)
      fun _ _ => False := by
    simp only [secure, ends_bind, Act.ends_buffer, sum]
    by_cases room : min (elastic.len + n) Word.greatest ≤ elastic.physical
    · simp only [if_pos room, ends_pure]
    · obtain ⟨larger, -, most⟩ :=
        grownSize_bounds below (Nat.min_le_right (elastic.len + n) Word.greatest)
      have same : elastic.grownSize (min (elastic.len + n) Word.greatest) = elastic.physical := by
        omega
      simp only [if_neg room, same, ne_eq, not_true, if_false, ends_pure]
  obtain ⟨_, after, ran, rfl⟩ := ends.returned fun _ _ => id
  exact ran

theorem secure_moves (wellFormed : elastic.ring.WellFormed)
    (below : elastic.physical < elastic.capacity) (short : elastic.physical < elastic.len + n)
    (ledger : Ledger α) :
    Ends (secure n) ⟨elastic, ledger⟩
      (fun _ after => ledger.Draws 0 0 after.ledger ∧ after.buffer.ring.WellFormed ∧
        after.buffer.ring.toList = elastic.ring.toList ∧ after.buffer.limits = elastic.limits ∧
        elastic.limits.Extends (elastic.len + n) elastic.physical after.buffer.physical)
      (fun halt after => after = ⟨elastic, ledger⟩ ∧
        let size := elastic.grownSize (Word.saturatingAdd elastic.len n)
        halt = .refused (.allocationFailed size) ∧ ledger.Scarce size) := by
  have small := physical_lt_greatest wellFormed
  have fits : elastic.len ≤ elastic.physical := wellFormed.fits
  have sum : Word.saturatingAdd elastic.len n = min (elastic.len + n) Word.greatest := rfl
  have crowded : ¬ min (elastic.len + n) Word.greatest ≤ elastic.physical := by omega
  obtain ⟨larger, reached, -⟩ :=
    grownSize_bounds (Nat.le_of_lt below) (Nat.min_le_right (elastic.len + n) Word.greatest)
  have other : elastic.grownSize (min (elastic.len + n) Word.greatest) ≠ elastic.physical := by
    omega
  simp only [secure, ends_bind, Act.ends_buffer, sum, if_neg crowded, ne_eq, other, not_false_iff,
    if_true, ends_onRing, Act.ends_report]
  apply (Ring.setCapacity_exactly wellFormed .front other (Nat.le_trans fits larger) ledger).mono
  · intro _ after moved
    have available := moved.1.wellFormed.capacity_double_lt_word
    rw [moved.1.sized] at available
    have extended := grownSize_extends wellFormed short below (by
      simp only [Word.greatest] at *
      omega)
    rw [← moved.1.sized] at extended
    rw [moved.2]
    exact ⟨.telling _, moved.1.wellFormed, moved.1.toList, trivial, extended⟩
  · intro halt after stopped
    obtain ⟨refused, scarce, rfl⟩ := stopped
    exact ⟨rfl, refused, scarce⟩

theorem secure_extends (wellFormed : elastic.ring.WellFormed)
    (below : elastic.physical < elastic.capacity) (short : elastic.physical < elastic.len + n)
    (ledger : Ledger α) :
    Ends (secure n) ⟨elastic, ledger⟩
      (fun _ after => after.buffer.ring.WellFormed ∧
        after.buffer.ring.toList = elastic.ring.toList ∧ after.buffer.limits = elastic.limits ∧
        elastic.limits.Extends (elastic.len + n) elastic.physical after.buffer.physical)
      (fun halt after => after = ⟨elastic, ledger⟩ ∧
        let size := elastic.grownSize (Word.saturatingAdd elastic.len n)
        halt = .refused (.allocationFailed size) ∧ ledger.Scarce size) :=
  (secure_moves wellFormed below short ledger).mono (fun _ _ => And.right) fun _ _ => id

/-- Whatever the sizes, doubling ends within 65 rounds. A block that has room, or that has reached
the ceiling, stays as it is. Any other is extended with the same elements in it, or that is refused
and nothing has changed. -/
theorem secure_proportions (wellFormed : elastic.ring.WellFormed)
    (below : elastic.physical ≤ elastic.capacity) (n : Nat) (ledger : Ledger α) :
    (∀ wanted size, 0 < size → wanted ≤ Word.greatest →
      looped (doublingTurn wanted) 65 size = some (doubledTo wanted size)) ∧
    (elastic.len + n ≤ elastic.physical ∨ elastic.physical = elastic.capacity →
      secure n ⟨elastic, ledger⟩ = .ok () ⟨elastic, ledger⟩) ∧
    (¬ (elastic.len + n ≤ elastic.physical ∨ elastic.physical = elastic.capacity) →
      Ends (secure n) ⟨elastic, ledger⟩
        (fun _ after => after.buffer.ring.WellFormed ∧
          after.buffer.ring.toList = elastic.ring.toList ∧
          after.buffer.limits = elastic.limits ∧
          elastic.limits.Extends (elastic.len + n) elastic.physical after.buffer.physical)
        (fun halt after => after = ⟨elastic, ledger⟩ ∧
          let size := elastic.grownSize (Word.saturatingAdd elastic.len n)
          halt = .refused (.allocationFailed size) ∧ ledger.Scarce size)) := by
  constructor
  · intro wanted size positive word
    apply looped_doublingTurn 64 positive word
    have scaled : 2 ^ 64 ≤ 2 ^ 64 * size := Nat.le_mul_of_pos_right _ positive
    simp only [Word.greatest, Word.limit] at word
    omega
  constructor
  · exact fun still => secure_still below still ledger
  · intro moves
    exact secure_extends wellFormed (by omega) (by omega) ledger

theorem secure_proportions_turned :
    let elastic : ElasticRing Nat := ⟨Ring.turned, ⟨10, 0, by decide⟩⟩
    elastic.physical = 4 ∧ ∃ after, secure 6 ⟨elastic, .blank (.below 16)⟩ = .ok () after ∧
      after.buffer.physical = 10 ∧
      after.buffer.ring.toList = [⟨0, 10⟩, ⟨1, 20⟩, ⟨2, 30⟩, ⟨3, 40⟩] := by
  intro elastic
  have wellFormed : elastic.ring.WellFormed := Ring.turned_wellFormed
  obtain ⟨-, -, moves⟩ := secure_proportions wellFormed (by decide) 6 (.blank (.below 16))
  have bounds := grownSize_bounds (show elastic.physical ≤ elastic.capacity by decide)
    (Nat.min_le_right (elastic.len + 6) Word.greatest)
  obtain ⟨_, after, ran, -, listed, -, extended⟩ := (moves (by decide)).returned <| by
    intro halt after stopped
    obtain ⟨-, -, scarce⟩ := stopped
    rcases (Ledger.scarce_below rfl).mp scarce with tight | beyond
    · exact absurd (Nat.le_trans tight bounds.2.2) (by decide)
    · exact absurd (Nat.le_trans beyond bounds.2.2) (by decide)
  have room := extended.room
  have most := extended.below_ceiling
  simp only [elastic, len, Ring.turned] at room most
  exact ⟨rfl, after, ran, by omega, listed.trans Ring.turned_toList⟩

end ElasticRing

end RingDeque
