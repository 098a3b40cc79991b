import RingDeque.Elastic.Replacement
import RingDeque.Proofs.Elastic.Proportions
import RingDeque.Proofs.Ring.Assigning
import RingDeque.Proofs.Ring.Resizing

/-!
Resizing an elastic ring when nothing fails.

Growing raises the ceiling first, so the block has room for all copies. Shrinking gives up elements
and settles afterwards, which costs no more of them as long as the ceiling allows what is left.
-/

namespace RingDeque

open Effect

theorem le_halvedTo {len capacity : Nat} (floor : Nat) (fits : len ≤ capacity) :
    len ≤ halvedTo len floor capacity := by
  fun_induction halvedTo len floor capacity with
  | case1 => omega
  | case2 capacity loose higher ih => omega
  | case3 => exact fits

namespace ElasticRing

variable {α : Type} {elastic : ElasticRing α} {ledger : Ledger α} {n : Nat} {side : End}
  {model : Item α}

/-- The block that suits a ring has room for its elements, as far as the ceiling allows, also if the
block at hand lies outside of the limits. -/
theorem settledSize_curtails (fits : elastic.len ≤ elastic.physical) :
    min elastic.len elastic.capacity ≤ elastic.settledSize ∧
      elastic.settledSize ≤ elastic.capacity := by
  have small := elastic.physical_le_greatest
  have halved := le_halvedTo elastic.limits.floor fits
  simp only [settledSize, Limits.withReserve, Word.saturatingDouble, capacity]
  split <;> omega

theorem settle_curtails (wellFormed : elastic.ring.WellFormed)
    (granted : elastic.capacity < elastic.len → ¬ ledger.Scarce elastic.capacity)
    (lasting : ∀ item ∈ elastic.ring.toList, ¬ ledger.FailsOn item) :
    ∃ after, settle ⟨elastic, ledger⟩ = .ok () after ∧ after.buffer.ring.WellFormed ∧
      after.buffer.ring.toList = End.kept elastic.capacity elastic.ring.toList ∧
      after.buffer.limits = elastic.limits ∧ ledger.Draws 0 0 after.ledger := by
  have length : elastic.ring.toList.length = elastic.len := wellFormed.length_toList
  have fits : elastic.len ≤ elastic.physical := wellFormed.fits
  obtain ⟨room, below⟩ := settledSize_curtails fits
  by_cases crowded : elastic.capacity < elastic.len
  · have plenty := granted crowded
    have size : elastic.settledSize = elastic.capacity := by omega
    have other : elastic.capacity ≠ elastic.physical := by omega
    obtain ⟨-, -, bounded⟩ := Ledger.granted_of_not_scarce plenty
    obtain ⟨final, rehoused, destroys⟩ :=
      Ring.setCapacity_rehouses wellFormed .front other bounded
    have ran := (destroys ledger plenty).returned
      fun item member => lasting item (List.mem_of_mem_take member)
    have trimmed := rehoused.toList
    rw [← wellFormed.length_toList] at trimmed
    have ends : Ends settle ⟨elastic, ledger⟩
        (fun _ after => after.buffer.ring.WellFormed ∧
          after.buffer.ring.toList = End.kept elastic.capacity elastic.ring.toList ∧
          after.buffer.limits = elastic.limits ∧ ledger.Draws 0 0 after.ledger)
        fun _ _ => False := by
      simp only [settle, ends_bind, Act.ends_buffer, size, if_neg other, ends_tryCatch,
        ends_onRing, Act.ends_report]
      rw [ends_of_ok ran]
      exact ⟨rehoused.wellFormed, trimmed, trivial,
        (Ledger.Draws.discarding _).trans (.telling _)⟩
    obtain ⟨_, after, ran, kept⟩ := ends.returned fun _ _ => id
    exact ⟨after, ran, kept⟩
  · obtain ⟨_, after, ran, turns, limited, draws, -⟩ :=
      settle_keeps wellFormed (show elastic.len ≤ elastic.settledSize by omega) ledger
    rw [End.kept_of_le (show elastic.ring.toList.length ≤ elastic.capacity by omega)]
    exact ⟨after, ran, turns.wellFormed, turns.toList, limited, draws⟩

theorem resize_shrinks (wellFormed : elastic.ring.WellFormed) (shorter : n ≤ elastic.len)
    (granted : elastic.capacity < n → ¬ ledger.Scarce elastic.capacity)
    (lasting : ∀ item ∈ elastic.ring.toList, ¬ ledger.FailsOn item)
    (lasts : ¬ ledger.FailsOn model) (side : End) :
    ∃ after, resize side n model ⟨elastic, ledger⟩ = .ok () after ∧
      after.buffer.ring.WellFormed ∧
      after.buffer.ring.toList =
        End.kept elastic.capacity (side.trim (elastic.len - n) elastic.ring.toList) ∧
      after.buffer.limits = elastic.limits := by
  obtain ⟨ring, gone, evicted, becomes⟩ :=
    Ring.evict_returns wellFormed side (elastic.len - n) fun item member =>
      lasting item ((side.perm_trimmed_trim _ _).mem_iff.mpr (List.mem_append_left _ member))
  have left : ElasticRing.len ⟨ring, elastic.limits⟩ = n := by
    have counted : elastic.ring.toList.length = elastic.len := wellFormed.length_toList
    rw [ElasticRing.len, becomes.len, End.length_trim, counted]
    omega
  obtain ⟨after, settled, valid, listed, limited, draws⟩ :
      ∃ after, settle ⟨⟨ring, elastic.limits⟩, ledger.discarding gone⟩ = .ok () after ∧ _ :=
    settle_curtails becomes.wellFormed (by rw [left]; exact granted) <| by
      intro item member
      rw [becomes.toList] at member
      rw [(Ledger.Draws.discarding gone).failsOn]
      exact lasting item ((side.perm_trimmed_trim _ _).mem_iff.mpr (List.mem_append_right _ member))
  rw [becomes.toList] at listed
  have stays : ¬ after.ledger.FailsOn model := by
    rw [draws.failsOn, (Ledger.Draws.discarding gone).failsOn]
    exact lasts
  have reduced : (do
        onRing (Ring.evict side (elastic.len - n))
        settle : Act (ElasticRing α) α Unit) ⟨elastic, ledger⟩ =
      .ok () ⟨after.buffer, after.ledger⟩ := by
    apply eq_ok_of_ends
    simp only [ends_bind, ends_onRing]
    rw [ends_of_ok evicted, ends_of_ok settled]
    exact ⟨trivial, rfl⟩
  have ran : resize side n model ⟨elastic, ledger⟩ =
      .ok () ⟨after.buffer, after.ledger.discarding [model]⟩ := by
    apply eq_ok_of_ends
    refine ends_curtailing shorter ?_
    rw [ends_of_ok (Act.consuming_of_ok reduced stays)]
    exact ⟨rfl, rfl⟩
  exact ⟨_, ran, valid, listed, limited⟩

/-- The size of the block in which an elastic ring grows to `n` elements. -/
def expandedSize (elastic : ElasticRing α) (n : Nat) : Nat :=
  grownSize { elastic with limits := elastic.limits.raisedTo n } (min n Word.greatest)

theorem expandedSize_le (elastic : ElasticRing α) (n : Nat) :
    elastic.expandedSize n ≤ max elastic.capacity n :=
  Nat.min_le_right _ _

theorem secure_at_rest (room : elastic.len + n ≤ elastic.physical) (ledger : Ledger α) :
    secure n ⟨elastic, ledger⟩ = .ok () ⟨elastic, ledger⟩ := by
  have enough : Word.saturatingAdd elastic.len n ≤ elastic.physical :=
    Nat.le_trans (Nat.min_le_left _ _) room
  apply eq_ok_of_ends
  simp only [secure, ends_bind, Act.ends_buffer, if_pos enough, ends_pure, and_self]

/-- If the ceiling allows `n` more elements, the block that is secured has room for them. -/
theorem secure_houses (wellFormed : elastic.ring.WellFormed)
    (allowed : elastic.len + n ≤ elastic.capacity)
    (granted : elastic.physical < elastic.len + n →
      ¬ ledger.Scarce (elastic.grownSize (Word.saturatingAdd elastic.len n))) :
    ∃ after, secure n ⟨elastic, ledger⟩ = .ok () after ∧ after.buffer.ring.WellFormed ∧
      after.buffer.ring.toList = elastic.ring.toList ∧ after.buffer.limits = elastic.limits ∧
      elastic.len + n ≤ after.buffer.physical ∧ ledger.Draws 0 0 after.ledger := by
  by_cases room : elastic.len + n ≤ elastic.physical
  · exact ⟨_, secure_at_rest room ledger, wellFormed, rfl, rfl, room, .refl ledger⟩
  · have short : elastic.physical < elastic.len + n := Nat.lt_of_not_le room
    have below : elastic.physical < elastic.capacity := Nat.lt_of_lt_of_le short allowed
    obtain ⟨_, after, ran, draws, valid, listed, limited, extended⟩ :=
      (secure_moves wellFormed below short ledger).returned
        fun _ _ stopped => granted short stopped.2.2
    have reached : min (elastic.len + n) elastic.capacity ≤ after.buffer.physical := extended.room
    rw [Nat.min_eq_left allowed] at reached
    exact ⟨after, ran, valid, listed, limited, reached, draws⟩

theorem resize_expands (wellFormed : elastic.ring.WellFormed) (longer : elastic.len < n)
    (granted : elastic.physical < n → ¬ ledger.Scarce (elastic.expandedSize n))
    (enough : Entry.copyable ledger.copiesLeft (n - elastic.len) = n - elastic.len)
    (lasts : ¬ ledger.FailsOn model) (side : End) :
    ∃ after new, resize side n model ⟨elastic, ledger⟩ = .ok () after ∧
      after.buffer.ring.WellFormed ∧
      new.map (·.value) = List.replicate (n - elastic.len) model.value ∧
      after.buffer.ring.toList = side.flank new elastic.ring.toList ∧
      after.buffer.limits = elastic.limits.raisedTo n := by
  have total : elastic.len + (n - elastic.len) = n := by omega
  -- The ceiling is raised before the block is secured.
  let raised : ElasticRing α := { elastic with limits := elastic.limits.raisedTo n }
  have whole : raised.ring.WellFormed := wellFormed
  obtain ⟨middle, secured, valid, listed, limited, room, draws⟩ :
      ∃ middle, secure (n - elastic.len) ⟨raised, ledger⟩ = .ok () middle ∧ _ :=
    secure_houses whole
      (show elastic.len + (n - elastic.len) ≤ max elastic.limits.ceiling n by omega) <| by
        intro short
        have counted : Word.saturatingAdd raised.len (n - elastic.len) = min n Word.greatest :=
          congrArg (min · Word.greatest) total
        rw [counted]
        exact granted (total ▸ short)
  have length : middle.buffer.ring.len = elastic.len := by
    rw [← valid.length_toList, listed]
    exact wellFormed.length_toList
  have raises : Ends (holding model do
        setLimitsOnly (elastic.limits.raisedTo n)
        secure (n - elastic.len) : Act (ElasticRing α) α Unit) ⟨elastic, ledger⟩
      (fun _ after => after.buffer.ring.WellFormed ∧ after = middle) fun _ _ => False := by
    simp only [holding, setLimitsOnly, ends_tryCatch, ends_bind, Act.ends_buffer, Act.ends_become]
    rw [ends_of_ok secured]
    exact ⟨valid, rfl⟩
  have ends : Ends (resize side n model) ⟨elastic, ledger⟩
      (fun _ after => ∃ new, after.buffer.ring.WellFormed ∧
        new.map (·.value) = List.replicate (n - elastic.len) model.value ∧
        after.buffer.ring.toList = side.flank new elastic.ring.toList ∧
        after.buffer.limits = elastic.limits.raisedTo n) fun _ _ => False := by
    refine ends_expanding raises longer ?_
    intro reached cursor same points
    subst same
    have left : Entry.copyable reached.ledger.copiesLeft (n - elastic.len) = n - elastic.len := by
      rw [draws.copiesLeft, Entry.copies_sub_zero]
      exact enough
    obtain ⟨issued, after, new, ran, values, grows⟩ := Ring.insertCopies_flanks valid
      (points.resolve valid) rfl (by rw [length]; exact room) left
      (fun failing => lasts (draws.failsOn.mp failing))
    rw [length, total, side.opposite_opposite] at grows
    rw [ends_of_ok ran]
    exact ⟨new, grows.wellFormed, values, listed ▸ grows.toList, limited⟩
  obtain ⟨_, after, ran, new, expanded⟩ := ends.returned fun _ _ => id
  exact ⟨after, new, ran, expanded⟩

end ElasticRing

end RingDeque
