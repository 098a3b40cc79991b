import RingDeque.Proofs.Elastic.Hysteresis
import RingDeque.Proofs.Ring.Reporting

/-!
The block of an elastic ring when elements go.

Nothing that is given up makes the block larger. But the reserve is looked after whenever elements
go, also where nothing is given up, so a block that is still nearly full is doubled instead. The
report of it says that the block shrank.
-/

namespace RingDeque

open Effect Act

/-- Only a size below the floor, or one without a reserve, is settled on a larger one. -/
theorem Limits.poppedSize_larger {limits : Limits} {len size : Nat} (fits : len ≤ size)
    (word : 2 * size ≤ Word.greatest) (larger : size < limits.poppedSize len size) :
    size < limits.floor ∨
      size ≤ len + size / 5 ∧ limits.poppedSize len size = min (2 * size) limits.ceiling := by
  by_cases low : size < limits.floor
  · exact .inl low
  obtain ⟨kept, above, smaller⟩ := halvedTo_bounds fits (Nat.le_of_not_lt low)
  right
  rw [poppedSize] at larger ⊢
  by_cases loose : len ≤ size / 3
  · -- With a third in use at most, even twice the halved size is no larger than the present one.
    have bounded := limits.withReserve_cases len
      (show halvedTo len limits.floor size ≤ Word.greatest by omega)
    simp only [Word.saturatingDouble] at bounded
    omega
  · rw [halvedTo_eq_self (.inr (Nat.lt_of_not_le loose))] at larger ⊢
    have bounded := limits.withReserve_cases len (show size ≤ Word.greatest by omega)
    simp only [Word.saturatingDouble] at bounded
    omega

namespace ElasticRing

open RingDeque.Ring (Sound Stops KeepsSize)

variable {α : Type} {written : Prop} {origin : Tracked (Ring α) α}
  {before after : Tracked (ElasticRing α) α} {owned : Multiset Nat} {item model : Item α}
  {side toward : End} {cursor first last : Cursor} {n : Nat} {ring : Ring α} {ledger : Ledger α}

/-- The sizes that a report may give for a block that shrank. -/
def Recounts (before after : ElasticRing α) (event : Event) : Prop :=
  ∀ previous capacity len, event = .shrank previous capacity len →
    previous = before.physical ∧ capacity = after.physical ∧ capacity ≠ previous

/-- Elements went, and the block is as large as it was or smaller, unless it lay below the floor or
lacked a reserve. Reports that it shrank are about that. -/
structure Eased (before after : Tracked (ElasticRing α) α) : Prop where
  limited : after.buffer.limits = before.buffer.limits
  larger : before.buffer.physical < after.buffer.physical →
    before.buffer.physical < before.buffer.limits.floor ∨
      before.buffer.physical ≤ after.buffer.len + before.buffer.physical / 5 ∧
        after.buffer.physical = min (2 * before.buffer.physical) before.buffer.capacity
  tells : before.ledger.Tells (before.buffer.Recounts after.buffer) after.ledger

/-- However the action ends, the block was eased. -/
def Easing (act : Act (ElasticRing α) α γ) (before : Tracked (ElasticRing α) α) : Prop :=
  Ends act before (fun _ after => Eased before after) fun _ after => Eased before after

theorem Eased.of_le (limited : after.buffer.limits = before.buffer.limits)
    (smaller : after.buffer.physical ≤ before.buffer.physical)
    (tells : before.ledger.Tells (before.buffer.Recounts after.buffer) after.ledger) :
    Eased before after :=
  ⟨limited, fun larger => absurd smaller (Nat.not_le_of_lt larger), tells⟩

theorem Eased.refl (before : Tracked (ElasticRing α) α) : Eased before before :=
  .of_le rfl (Nat.le_refl _) (.nothing rfl)

/-- Work on the ring that keeps the block and reports nothing may come first. -/
theorem Eased.since (sized : ring.capacity = before.buffer.ring.capacity)
    (quiet : ledger.events = before.ledger.events)
    (eased : Eased ⟨{ before.buffer with ring }, ledger⟩ after) : Eased before after := by
  obtain ⟨limited, larger, reports, events, recounts⟩ := eased
  simp only [physical, capacity, Recounts, sized, quiet] at *
  exact ⟨limited, larger, reports, events, recounts⟩

/-- What is done with the elements afterwards, without a report, is no matter. -/
theorem Eased.quietly (eased : Eased before after) (quiet : ledger.events = after.ledger.events) :
    Eased before ⟨after.buffer, ledger⟩ := by
  obtain ⟨limited, larger, reports, events, recounts⟩ := eased
  exact ⟨limited, larger, reports, quiet.trans events, recounts⟩

theorem Easing.holding {act : Act (ElasticRing α) α γ} (easing : Easing act before) :
    Easing (holding item act) before := by
  simp only [Easing, RingDeque.holding, ends_tryCatch]
  apply easing.mono (fun _ _ => id)
  intro halt after eased
  cases halt with
  | refused error =>
      simp only [ends_bind, ends_ledger, ends_refuse]
      exact (Ledger.destroy_quiet item after.ledger).mono (fun _ _ => eased.quietly)
        fun _ _ => eased.quietly
  | interrupted cause =>
      simp only [ends_bind, ends_ledger, ends_throw]
      exact (Ledger.discard_quiet [item] after.ledger).mono (fun _ _ => eased.quietly)
        fun _ _ => eased.quietly
  | fault fault => exact eased

theorem Easing.consuming {act : Act (ElasticRing α) α γ} (easing : Easing act before) :
    Easing (consuming item act) before := by
  simp only [Easing, RingDeque.consuming, ends_bind, ends_ledger, ends_pure]
  apply easing.holding.mono
  · intro _ after eased
    exact (Ledger.destroy_quiet item after.ledger).mono (fun _ _ => eased.quietly)
      fun _ _ => eased.quietly
  · exact fun _ _ => id

theorem easing_onRing {act : Act (Ring α) α γ} {rest : γ → Act (ElasticRing α) α δ}
    {known : γ → Tracked (Ring α) α → Prop} (keeps : KeepsSize act) (quiet : Quiet act)
    (ends : Ends act ⟨before.buffer.ring, before.ledger⟩ known fun _ _ => True)
    (next : ∀ value ring ledger, known value ⟨ring, ledger⟩ →
      Easing (rest value) ⟨{ before.buffer with ring }, ledger⟩) :
    Easing (onRing act >>= rest) before := by
  simp only [Easing, ends_bind, ends_onRing]
  apply (((keeps ⟨before.buffer.ring, before.ledger⟩).and (quiet _)).and ends).mono
  · intro value middle ended
    obtain ⟨⟨sized, silent⟩, found⟩ := ended
    apply (next value middle.buffer middle.ledger found).mono
    · exact fun _ _ => .since (sized.resolve_right id) silent
    · exact fun _ _ => .since (sized.resolve_right id) silent
  · intro halt middle ended
    obtain ⟨⟨sized, silent⟩, -⟩ := ended
    exact .since (sized.resolve_right id) silent (.refl _)

/-- A report of moved elements is none of a block that shrank. -/
theorem recounts_reallocated {elastic final : ElasticRing α} {previous capacity len trimmed : Nat} :
    elastic.Recounts final (.reallocated previous capacity len trimmed) := by
  intro _ _ _ shrank
  cases shrank

theorem recounts_kept {elastic final : ElasticRing α} {previous capacity len : Nat}
    {error : Error} :
    elastic.Recounts final (.kept previous capacity len error) := by
  intro _ _ _ shrank
  cases shrank

/-- An exchange of the block that halts has not made it larger, and does not report more than that
the elements moved. -/
theorem setCapacity_easing
    (sound : Sound written origin owned before.buffer.ring before.ledger) (size : Nat) :
    Ends (Ring.setCapacity .front size) ⟨before.buffer.ring, before.ledger⟩
      (fun _ after => after.buffer.capacity = size ∧
        (before.buffer.len ≤ size → after.buffer.len = before.buffer.len) ∧
        ∀ final, before.ledger.Tells (before.buffer.Recounts final) after.ledger)
      (fun _ after => after.buffer.capacity ≤ before.buffer.ring.capacity ∧
        ∀ final, before.ledger.Tells (before.buffer.Recounts final) after.ledger) := by
  have fits : before.buffer.ring.len ≤ before.buffer.ring.capacity := sound.wellFormed.fits
  have changes : Ends (Ring.setCapacity .front size) ⟨before.buffer.ring, before.ledger⟩ _ _ :=
    Ring.setCapacity_ends False (fun _ => True) sound .front size fun _ => trivial
  have resizes := Ring.setCapacity_resizes .front size ⟨before.buffer.ring, before.ledger⟩
  have tells := Ring.setCapacity_tells .front size ⟨before.buffer.ring, before.ledger⟩
  apply ((changes.and resizes).and tells).mono
  · intro _ after ended
    obtain ⟨⟨leaves, -⟩, moved⟩ := ended
    refine ⟨leaves.sized, fun room => ?_, fun final => moved.mono ?_⟩
    · have listed := leaves.toList
      rw [Nat.sub_eq_zero_of_le (show before.buffer.ring.len ≤ size from room), End.trim_zero]
        at listed
      rw [← leaves.sound.wellFormed.length_toList, listed, sound.wellFormed.length_toList, len]
    · intro event reallocated
      obtain ⟨_, _, rfl⟩ := reallocated
      exact recounts_reallocated
  · intro halt after ended
    obtain ⟨⟨⟨-, reason⟩, sized⟩, moved⟩ := ended
    refine ⟨?_, fun final => moved.mono ?_⟩
    · -- A smaller block was had, and an element that it has no room for was in the way.
      rcases reason with ⟨-, rfl⟩ | tight
      · exact Nat.le_refl _
      · rcases sized with kept | exchanged
        · exact kept.le
        · exact exchanged.le.trans (tight.le.trans fits)
    · intro event reallocated
      obtain ⟨_, _, rfl⟩ := reallocated
      exact recounts_reallocated

/-- Giving up storage eases the block, for all sizes and limits. -/
theorem settle_easing (sound : Sound written origin owned before.buffer.ring before.ledger) :
    Easing settle before := by
  have fits : before.buffer.len ≤ before.buffer.physical := sound.wellFormed.fits
  have word : 2 * before.buffer.physical ≤ Word.greatest :=
    Nat.le_sub_one_of_lt sound.wellFormed.capacity_double_lt_word
  simp only [Easing, settle, ends_bind, ends_buffer]
  by_cases same : before.buffer.settledSize = before.buffer.physical
  · simp only [if_pos same, ends_pure]
    exact .refl before
  simp only [if_neg same, ends_tryCatch, ends_bind, ends_onRing, ends_report]
  apply (setCapacity_easing sound before.buffer.settledSize).mono
  · intro _ middle ended
    obtain ⟨sized, counted, moved⟩ := ended
    constructor
    · exact rfl
    · intro larger
      have wider : before.buffer.physical < before.buffer.settledSize := sized ▸ larger
      simp only [physical, len, sized, counted (fits.trans wider.le)] at *
      exact Limits.poppedSize_larger fits word wider
    · apply (moved _).trans
      apply Ledger.Tells.single rfl
      intro previous capacity len shrank
      cases shrank
      exact ⟨rfl, sized.symm, same⟩
  · intro halt middle ended
    obtain ⟨smaller, moved⟩ := ended
    cases halt with
    | refused error => exact .of_le rfl smaller ((moved _).trans (.single rfl recounts_kept))
    | interrupted cause => exact .of_le rfl smaller (moved _)
    | fault fault => exact .of_le rfl smaller (moved _)

theorem pop_easing (sound : Sound written origin owned before.buffer.ring before.ledger) :
    Easing (pop side) before := by
  apply easing_onRing (Ring.resizes_update (Ring.pop_steady side)) (quiet_update _)
    (Ring.pop_ends sound side)
  intro popped ring ledger ended
  cases popped with
  | none => exact .refl _
  | some item =>
      simp only [Easing, ends_bind, ends_pure]
      exact (settle_easing ended.2.sound).holding

theorem clear_easing (sound : Sound written origin owned before.buffer.ring before.ledger) :
    Easing clear before := by
  apply easing_onRing Ring.clear_keepsSize Ring.clear_quiet
    ((Ring.clear_ends False (fun _ => True) sound).mono (fun _ _ => id) fun _ _ _ => trivial)
  intro _ ring ledger leaves
  exact settle_easing leaves.sound

theorem settleKeeping_easing
    (sound : Sound written origin owned before.buffer.ring before.ledger) {index : Nat}
    (points : before.buffer.ring.Points cursor index) : Easing (settleKeeping cursor) before := by
  simp only [Easing, settleKeeping, ends_bind, ends_buffer, points.resolve sound.wellFormed,
    liftM_answer, ends_pure]
  apply (settle_easing sound).mono
  · intro _ after eased
    cases after.buffer.ring.cursorFor index with
    | ok issued => exact eased
    | error fault => exact eased
  · exact fun _ _ => id

theorem erase_easing (sound : Sound written origin owned before.buffer.ring before.ledger)
    (vouched : before.buffer.ring.Vouches cursor) : Easing (erase toward cursor) before := by
  apply easing_onRing (Ring.erase_keepsSize toward cursor) (Ring.erase_quiet toward cursor)
    ((Ring.erase_ends False sound vouched).mono (fun _ _ => id) fun _ _ _ => trivial)
  intro issued ring ledger ended
  obtain ⟨held, index, -, -, erases⟩ := ended
  exact settleKeeping_easing held erases.points

theorem eraseRange_easing (sound : Sound written origin owned before.buffer.ring before.ledger)
    (firstVouched : before.buffer.ring.Vouches first)
    (lastVouched : before.buffer.ring.Vouches last) :
    Easing (eraseRange toward first last) before := by
  apply easing_onRing (Ring.eraseRange_keepsSize toward first last)
    (Ring.eraseRange_quiet toward first last)
    ((Ring.eraseRange_ends False sound firstVouched lastVouched).mono (fun _ _ => id)
      fun _ _ _ => trivial)
  intro issued ring ledger ended
  obtain ⟨held, source, target, -, -, -, erases⟩ := ended
  exact settleKeeping_easing held erases.points

theorem resize_easing (sound : Sound written origin ({model.id} + owned) before.buffer.ring
    before.ledger) (fewer : n ≤ before.buffer.len) : Easing (resize side n model) before := by
  apply ends_curtailing fewer
  apply Easing.consuming
  have evicted : Ends (Ring.evict side (before.buffer.len - n)) ⟨before.buffer.ring, before.ledger⟩
      _ fun halt after => Stops written origin False (fun _ => True) ({model.id} + owned) halt
        after.buffer after.ledger := Ring.evict_ends sound side _
  apply easing_onRing (Ring.evict_keepsSize side _) (Ring.evict_quiet side _)
    (evicted.mono (fun _ _ => id) fun _ _ _ => trivial)
  intro _ ring ledger leaves
  exact settle_easing leaves.sound

end ElasticRing

end RingDeque
