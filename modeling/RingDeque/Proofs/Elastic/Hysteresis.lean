import RingDeque.Proofs.Elastic.Confining

/-!
How the block of an elastic ring answers to elements that come and go.

`Limits.pushedSize` and `Limits.poppedSize` tell the size of the block after a push and after a pop
from its size before. A size that a pop has settled on has room for one more element and is settled
on again, unless nothing is left in a block without a floor: such a block is given up altogether.
-/

namespace RingDeque

theorem halvedTo_stops (len floor capacity : Nat) :
    halvedTo len floor capacity = floor ∨ halvedTo len floor capacity / 3 < len := by
  fun_induction halvedTo len floor capacity with
  | case1 capacity loose lowest => exact .inl rfl
  | case2 capacity loose higher ih => exact ih
  | case3 capacity snug => exact .inr (Nat.lt_of_not_le snug)

theorem halvedTo_eq_self {len floor capacity : Nat}
    (stopped : capacity = floor ∨ capacity / 3 < len) : halvedTo len floor capacity = capacity := by
  rw [halvedTo]
  by_cases loose : len ≤ capacity / 3
  · obtain rfl := stopped.resolve_right (Nat.not_lt_of_le loose)
    rw [if_pos loose, if_pos (Nat.div_le_self capacity 2)]
  · rw [if_neg loose]

theorem halvedTo_nothing (capacity : Nat) : halvedTo 0 0 capacity = 0 := by
  rcases halvedTo_stops 0 0 capacity with bare | impossible
  · exact bare
  · exact absurd impossible (Nat.not_lt_zero _)

namespace Limits

variable {limits : Limits} {len size : Nat}

/-- The size of the block after a push that finds `len` elements in `size` slots. -/
def pushedSize (limits : Limits) (len size : Nat) : Nat :=
  if len < size then size else limits.withReserve (doubledTo (len + 1) (max size 1)) (len + 1)

/-- The size of the block after a pop that leaves `len` elements in `size` slots. -/
def poppedSize (limits : Limits) (len size : Nat) : Nat :=
  limits.withReserve (halvedTo len limits.floor size) len

/-- A size for `len` elements that the limits admit, and that can be doubled. -/
structure Houses (limits : Limits) (len size : Nat) : Prop where
  fits : len ≤ size
  above_floor : limits.floor ≤ size
  below_ceiling : size ≤ limits.ceiling
  word : 2 * size ≤ Word.greatest

/-- A size at which the block has room for one more element, and on which it settles. -/
structure Rests (limits : Limits) (len size : Nat) : Prop where
  room : len < size
  settled : limits.poppedSize len size = size

theorem Houses.fewer (houses : limits.Houses (len + 1) size) : limits.Houses len size :=
  ⟨Nat.le_of_succ_le houses.fits, houses.above_floor, houses.below_ceiling, houses.word⟩

theorem Houses.lt_pushedSize (houses : limits.Houses len size) (free : len < limits.ceiling) :
    len < limits.pushedSize len size := by
  have fits := houses.fits
  have word := houses.word
  rw [pushedSize]
  by_cases room : len < size
  · rwa [if_pos room]
  · have positive : 1 < Word.greatest := by decide
    have reached := wanted_le_doubledTo (len + 1) (max size 1) (by omega) (by omega)
    have bounded := doubledTo_le_greatest (len + 1) (max size 1) (by omega)
    have reserved := (limits.withReserve_bounds (len + 1) bounded).1
    rw [if_neg room]
    omega

theorem withReserve_spare (spare : len + size / 5 < size) :
    limits.withReserve size len = min size limits.ceiling := by
  have enough : ¬ size ≤ Word.saturatingAdd len (size / 5) := by
    simp only [Word.saturatingAdd]
    omega
  rw [withReserve, if_neg enough]

theorem withReserve_scant (scant : size ≤ len + size / 5) (word : size ≤ Word.greatest) :
    limits.withReserve size len = min (Word.saturatingDouble size) limits.ceiling := by
  have short : size ≤ Word.saturatingAdd len (size / 5) := by
    simp only [Word.saturatingAdd]
    omega
  rw [withReserve, if_pos short]

/-- A reserve is there already, or it is made by doubling. -/
theorem withReserve_cases (limits : Limits) (len : Nat) (word : size ≤ Word.greatest) :
    len + size / 5 < size ∧ limits.withReserve size len = min size limits.ceiling ∨
      size ≤ len + size / 5 ∧
        limits.withReserve size len = min (Word.saturatingDouble size) limits.ceiling := by
  rcases Nat.lt_or_ge (len + size / 5) size with spare | scant
  · exact .inl ⟨spare, withReserve_spare spare⟩
  · exact .inr ⟨scant, withReserve_scant scant word⟩

/-- The size that is settled on is a halved one, or twice that if it lacks a reserve. -/
theorem Houses.poppedSize_cases (houses : limits.Houses len size) :
    ∃ halved, (halved = limits.floor ∨ halved / 3 < len) ∧ len ≤ halved ∧ limits.floor ≤ halved ∧
      halved ≤ size ∧
      (len + halved / 5 < halved ∧ limits.poppedSize len size = halved ∨
        halved ≤ len + halved / 5 ∧ limits.poppedSize len size = min (2 * halved) limits.ceiling) := by
  obtain ⟨kept, above, smaller⟩ := halvedTo_bounds houses.fits houses.above_floor
  have below := houses.below_ceiling
  have word := houses.word
  refine ⟨halvedTo len limits.floor size, halvedTo_stops len limits.floor size, kept, above, smaller, ?_⟩
  rcases limits.withReserve_cases len (show halvedTo len limits.floor size ≤ Word.greatest by omega)
    with ⟨spare, reached⟩ | ⟨scant, reached⟩
  · exact .inl ⟨spare, reached.trans (Nat.min_eq_left (by omega))⟩
  · have doubled : Word.saturatingDouble (halvedTo len limits.floor size) =
        2 * halvedTo len limits.floor size := Nat.min_eq_left (by omega)
    rw [doubled] at reached
    exact .inr ⟨scant, reached⟩

/-- A reserve of a fifth and a threshold of a third leave a gap: the size that a pop settles on is
one on which the block settles again. -/
theorem Houses.rests_poppedSize (houses : limits.Houses len size) (free : len < limits.ceiling)
    (lasting : len ≠ 0 ∨ limits.floor ≠ 0) : limits.Rests len (limits.poppedSize len size) := by
  have below := houses.below_ceiling
  have word := houses.word
  obtain ⟨halved, stopped, kept, above, smaller, ⟨spare, reached⟩ | ⟨scant, reached⟩⟩ :=
    houses.poppedSize_cases
  · rw [reached]
    refine ⟨by omega, ?_⟩
    rw [poppedSize, halvedTo_eq_self stopped, withReserve_spare spare]
    omega
  · have snug : min (2 * halved) limits.ceiling / 3 < len := by omega
    rw [reached]
    refine ⟨by omega, ?_⟩
    rw [poppedSize, halvedTo_eq_self (.inr snug)]
    -- Doubled, the block has a reserve, unless the ceiling cuts it short, and then it does so again.
    by_cases cut : limits.ceiling ≤ 2 * halved
    · have word : limits.ceiling ≤ Word.greatest := by omega
      have bounds := limits.withReserve_bounds len word
      rw [Nat.min_eq_right cut]
      omega
    · rw [Nat.min_eq_left (by omega), withReserve_spare (by omega)]
      omega

theorem Rests.pushedSize_eq (rests : limits.Rests len size) : limits.pushedSize len size = size :=
  if_pos rests.room

theorem poppedSize_nothing (unfloored : limits.floor = 0) (size : Nat) :
    limits.poppedSize 0 size = 0 := by
  rw [poppedSize, unfloored, halvedTo_nothing]
  exact Nat.zero_min _

/-- There is nothing to keep a block for: no element, and no floor. -/
def Bare (limits : Limits) (len : Nat) : Prop :=
  len = 0 ∧ limits.floor = 0

/-- A size that is left again by no push and no pop; or none at all if there is nothing to keep. -/
structure Settled (limits : Limits) (len size : Nat) : Prop where
  rests : ¬ limits.Bare len → limits.Rests len size
  nothing : limits.Bare len → size = 0

theorem Houses.settled_poppedSize (houses : limits.Houses len size) (free : len < limits.ceiling) :
    limits.Settled len (limits.poppedSize len size) := by
  constructor
  · intro filled
    apply houses.rests_poppedSize free
    simp only [Bare] at filled
    omega
  · intro bare
    rw [bare.1]
    exact poppedSize_nothing bare.2 size

theorem Settled.pushedSize_ne_iff (settled : limits.Settled len size)
    (houses : limits.Houses len size) (free : len < limits.ceiling) :
    limits.pushedSize len size ≠ size ↔ limits.Bare len := by
  constructor
  · intro changes
    by_contra filled
    exact changes (settled.rests filled).pushedSize_eq
  · intro bare
    have larger := houses.lt_pushedSize free
    rw [settled.nothing bare] at larger ⊢
    exact Nat.ne_of_gt (Nat.zero_lt_of_lt larger)

theorem Settled.poppedSize_pushedSize (settled : limits.Settled len size) :
    limits.poppedSize len (limits.pushedSize len size) = size := by
  by_cases bare : limits.Bare len
  · rw [settled.nothing bare, bare.1]
    exact poppedSize_nothing bare.2 _
  · rw [(settled.rests bare).pushedSize_eq]
    exact (settled.rests bare).settled

end Limits

namespace ElasticRing

open Effect
open RingDeque.Ring (Sound)

variable {α : Type} {written : Prop} {origin : Tracked (Ring α) α}
  {before : Tracked (ElasticRing α) α} {elastic : ElasticRing α} {owned : Multiset Nat}
  {item : Item α} {side : End} {limits : Limits} {n size : Nat}

theorem WithinLimits.houses (within : elastic.WithinLimits)
    (wellFormed : elastic.ring.WellFormed) :
    elastic.limits.Houses elastic.len elastic.physical := by
  have word : 2 * elastic.physical < Word.limit := wellFormed.capacity_double_lt_word
  exact ⟨within.fits, within.above_floor, within.below_ceiling, Nat.le_sub_one_of_lt word⟩

theorem push_sized (within : before.buffer.WithinLimits)
    (sound : Sound written origin ({item.id} + owned) before.buffer.ring before.ledger)
    (free : before.buffer.len < before.buffer.capacity) :
    Ends (push side item) before
      (fun _ after => after.buffer.physical =
        before.buffer.limits.pushedSize before.buffer.len before.buffer.physical)
      fun _ _ => before.buffer.limits.pushedSize before.buffer.len before.buffer.physical ≠
        before.buffer.physical := by
  have fits := within.fits
  have small := physical_lt_greatest sound.wellFormed
  have sum : Word.saturatingAdd before.buffer.len 1 = before.buffer.len + 1 :=
    Nat.min_eq_left (by omega)
  have secured : Ends (do
        unless (← Act.buffer).isFull do
          secure 1 : Act (ElasticRing α) α Unit) before
      (fun _ after => Sound written origin ({item.id} + owned) after.buffer.ring after.ledger ∧
        after.buffer.physical =
          before.buffer.limits.pushedSize before.buffer.len before.buffer.physical)
      fun _ _ => before.buffer.limits.pushedSize before.buffer.len before.buffer.physical ≠
        before.buffer.physical := by
    simp only [ends_bind, Act.ends_buffer, isFull, decide_eq_true_eq, if_neg (Nat.not_le_of_lt free),
      secure, sum, Limits.pushedSize]
    by_cases room : before.buffer.len < before.buffer.physical
    · simp only [if_pos (Nat.succ_le_of_lt room), if_pos room, ends_pure]
      exact ⟨sound, trivial⟩
    simp only [if_neg (show ¬ before.buffer.len + 1 ≤ before.buffer.physical from room), if_neg room]
    by_cases same : before.buffer.grownSize (before.buffer.len + 1) = before.buffer.physical
    · simp only [ne_eq, same, not_true, if_false, ends_pure]
      exact ⟨sound, same.symm⟩
    · simp only [ne_eq, same, not_false_iff, if_true, ends_bind, ends_onRing, Act.ends_report]
      apply (Ring.setCapacity_ends False (fun _ => True) sound .front _ fun _ => trivial).mono
      · exact fun _ _ leaves => ⟨leaves.sound.reporting _, leaves.sized⟩
      · exact fun _ _ _ => same
  simp only [push, ends_bind, ends_onRing]
  apply (Act.ends_holding (fun _ => _) secured).mono
  · intro _ middle ended
    obtain ⟨held, sized⟩ := ended
    exact (Ring.push_ends held side).mono (fun _ _ pushed => pushed.2.sized.trans sized) fun _ _ => id
  · exact fun _ _ => id

/-- Giving up storage leads to the size that is settled on. If that is another size and cannot be
had, there is a report of it. -/
theorem settle_sized (elastic : ElasticRing α) {ledger : Ledger α}
    (sound : Sound written origin owned elastic.ring ledger) :
    let size := elastic.limits.poppedSize elastic.len elastic.physical
    Ends settle ⟨elastic, ledger⟩
      (fun _ after => after.buffer.physical = size ∨ size ≠ elastic.physical ∧
        ∃ event ∈ after.ledger.events, event.error?.isSome = true)
      fun _ _ => size ≠ elastic.physical := by
  intro size
  simp only [settle, ends_bind, Act.ends_buffer]
  by_cases same : elastic.settledSize = elastic.physical
  · simp only [if_pos same, ends_pure]
    exact .inl same.symm
  simp only [if_neg same, ends_tryCatch, ends_bind, ends_onRing, Act.ends_report]
  apply (Ring.setCapacity_ends False (fun _ => True) sound .front _ fun _ => trivial).mono
  · exact fun _ _ leaves => .inl leaves.sized
  · intro halt middle _
    cases halt with
    | refused error =>
        simp only [Act.ends_report]
        exact .inr ⟨same, _, List.mem_append_right _ (List.mem_singleton_self _), rfl⟩
    | interrupted cause => exact same
    | fault fault => exact same

theorem pop_sized (side : End)
    (sound : Sound written origin owned before.buffer.ring before.ledger) (filled : before.buffer.len ≠ 0) :
    let size := before.buffer.limits.poppedSize (before.buffer.len - 1) before.buffer.physical
    Ends (pop side) before
      (fun _ after => after.buffer.physical = size ∨ size ≠ before.buffer.physical ∧
        ∃ event ∈ after.ledger.events, event.error?.isSome = true)
      fun _ _ => size ≠ before.buffer.physical := by
  intro size
  have length := sound.wellFormed.length_toList
  simp only [pop, ends_bind, ends_onRing]
  apply (Ring.pop_ends sound side).mono
  · intro popped after ended
    obtain ⟨taken, leaves⟩ := ended
    cases popped with
    | none =>
        rw [(side.last?_eq_none_iff _).mp taken.symm, List.length_nil] at length
        exact absurd length.symm filled
    | some item =>
        simp only [ends_bind, ends_pure]
        have reduced : after.buffer.len = before.buffer.len - 1 := by
          rw [leaves.len, End.length_trim, length, len]
        have settled := settle_sized { before.buffer with ring := after.buffer } leaves.sound
        simp only [len, physical, reduced, leaves.sized] at settled
        exact Act.ends_holding (fun _ => _) settled
  · exact fun _ _ => id

/-- An elastic ring within given limits, with `n` elements in a block of `size` slots. -/
structure Stands (limits : Limits) (n size : Nat) (elastic : ElasticRing α) : Prop where
  within : elastic.WithinLimits
  limited : elastic.limits = limits
  counted : elastic.len = n
  sized : elastic.physical = size
  wellFormed : elastic.ring.WellFormed

theorem Stands.houses (stands : elastic.Stands limits n size) : limits.Houses n size := by
  obtain ⟨within, rfl, rfl, rfl, wellFormed⟩ := stands
  exact within.houses wellFormed

/-- Only where the block has to change can a push halt. -/
theorem push_stands (stands : before.buffer.Stands limits n size)
    (sound : Sound written origin ({item.id} + owned) before.buffer.ring before.ledger)
    (free : n < limits.ceiling) :
    Ends (push side item) before
      (fun _ after => after.buffer.Stands limits (n + 1) (limits.pushedSize n size))
      fun halt _ => halt.isMishap = true ∧ limits.pushedSize n size ≠ size := by
  obtain ⟨within, rfl, rfl, rfl, -⟩ := stands
  have length := sound.wellFormed.length_toList
  have room : before.buffer.ring.toList.length < before.buffer.capacity := length ▸ free
  have ends : Ends (push side item) before _ _ :=
    push_ends False (fun error => ∃ size, error = .allocationFailed size) sound fun size => ⟨size, rfl⟩
  apply (ends.and (push_sized within sound free)).mono
  · intro _ after ended
    obtain ⟨⟨owns, pushed⟩, sized⟩ := ended
    obtain ⟨-, holds⟩ := pushed within
    refine ⟨holds.within, holds.limited, ?_, sized, owns.wellFormed⟩
    rw [len, ← owns.wellFormed.length_toList, holds.toList, End.pushed,
      if_neg (Nat.ne_of_gt (Nat.zero_lt_of_lt room)), if_pos room]
    exact (side.perm_attach item _).length_eq.trans (congrArg (· + 1) length)
  · exact fun _ _ stopped => ⟨stopped.1.due.isMishap, stopped.2⟩

/-- Only where the block has to change can a pop halt, or leave the block that it found. -/
theorem pop_stands (stands : before.buffer.Stands limits (n + 1) size)
    (sound : Sound written origin owned before.buffer.ring before.ledger) :
    Ends (pop side) before
      (fun _ after => after.buffer.Stands limits n (limits.poppedSize n size) ∨
        limits.poppedSize n size ≠ size ∧
          ∃ event ∈ after.ledger.events, event.error?.isSome = true)
      fun halt _ => halt.isMishap = true ∧ limits.poppedSize n size ≠ size := by
  obtain ⟨within, rfl, counted, rfl, -⟩ := stands
  have length := sound.wellFormed.length_toList
  have filled : before.buffer.len ≠ 0 := counted ▸ Nat.succ_ne_zero n
  have less : before.buffer.len - 1 = n := by
    rw [counted]
    exact Nat.add_sub_cancel n 1
  have ends : Ends (pop side) before _ _ :=
    pop_ends False (fun error => ∃ size, error = .allocationFailed size) sound
  have sizes := pop_sized side sound filled
  rw [less] at sizes
  apply (ends.and sizes).mono
  · intro _ after ended
    obtain ⟨⟨owns, popped⟩, sized⟩ := ended
    obtain ⟨-, holds⟩ := popped within
    apply sized.imp_left
    intro sized
    refine ⟨holds.within, holds.limited, ?_, sized, owns.wellFormed⟩
    rw [len, ← owns.wellFormed.length_toList, holds.toList, End.length_trim, length]
    exact less
  · exact fun _ _ stopped => ⟨stopped.1.due.isMishap, stopped.2⟩

end ElasticRing

end RingDeque
