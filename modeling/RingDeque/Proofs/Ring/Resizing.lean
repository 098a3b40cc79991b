import RingDeque.Proofs.Destruction
import RingDeque.Proofs.Ring.Receiving

/-!
Resizing a ring when nothing fails.

A ring that grows receives the copies at one end, in a larger block if need be; one that shrinks
gives up elements at the other end.
-/

namespace RingDeque

theorem End.opposite_opposite (side : End) : side.opposite.opposite = side := by
  cases side <;> rfl

namespace Ring

open Effect

variable {α : Type} {ring : Ring α} {ledger : Ledger α} {n index : Nat} {yields : End} {cursor : Cursor}
  {model : Item α}

theorem evict_returns (wellFormed : ring.WellFormed) (side : End) (count : Nat)
    (lasting : ∀ item ∈ side.trimmed count ring.toList, ¬ ledger.FailsOn item) :
    ∃ after gone, evict side count ⟨ring, ledger⟩ = .ok () ⟨after, ledger.discarding gone⟩ ∧
      ring.Becomes after (side.trim count ring.toList) := by
  obtain ⟨_, after, ran, becomes, gone, -, discarded⟩ :=
    (evict_exactly wellFormed side count ledger).returned <| by
      intro halt after stopped
      obtain ⟨cause, -, -, item, member, failing⟩ := stopped
      exact lasting item member failing
  have same : after = ⟨after.buffer, ledger.discarding gone⟩ :=
    congrArg (Tracked.mk after.buffer) discarded
  exact ⟨after.buffer, gone, same ▸ ran, becomes⟩

/-- New elements that find room go to one end of the ring. -/
theorem insertCopies_flanks (wellFormed : ring.WellFormed)
    (resolved : ring.resolve cursor = .ok index)
    (placed : index = yields.farIndex ring.len)
    (room : ring.len + n ≤ ring.capacity)
    (enough : Entry.copyable ledger.copiesLeft n = n) (lasts : ¬ ledger.FailsOn model) :
    ∃ issued after new, insertCopies yields cursor n model ⟨ring, ledger⟩ = .ok issued after ∧
      new.map (·.value) = List.replicate n model.value ∧
      Grows yields.opposite (ring.len + n) new ring after.buffer := by
  have inside : index ≤ ring.len := by
    rw [placed]
    cases yields <;> simp [End.farIndex]
  have admitted : ring.admits yields index n = n := by
    rw [placed]
    cases yields <;> simp only [admits, End.admitted, End.roomAt, End.farIndex] <;> omega
  have none : ring.surplus n = 0 := by
    rw [surplus]
    omega
  have inserts : Ends (insertCopies yields cursor n model) ⟨ring, ledger⟩ _ _ :=
    insertCopies_exactly wellFormed resolved inside n model ledger
  simp only [admitted, none, yields.trimmed_zero, enough] at inserts
  obtain ⟨issued, after, ran, -, ⟨new, values, receives, -⟩, -⟩ := inserts.returned <| by
    intro halt after stopped
    obtain ⟨cause, -, ⟨-, item, impossible | rfl, failing⟩ | ⟨-, fewer, -⟩⟩ := stopped
    · cases impossible
    · exact lasts failing
    · exact Nat.lt_irrefl n fewer
  subst placed
  exact ⟨issued, after, new, ran, values, receives.grows room wellFormed.length_toList⟩

theorem resize_expands (wellFormed : ring.WellFormed) (longer : ring.len < n)
    (granted : ring.capacity < n → ¬ ledger.Scarce n)
    (enough : Entry.copyable ledger.copiesLeft (n - ring.len) = n - ring.len)
    (lasts : ¬ ledger.FailsOn model) (yields : End) :
    ∃ after new, resize yields n model ⟨ring, ledger⟩ = .ok () after ∧
      new.map (·.value) = List.replicate (n - ring.len) model.value ∧
      Grows yields.opposite n new ring after.buffer := by
  have grows := resize_grows wellFormed longer granted yields model
  simp only [enough] at grows
  obtain ⟨_, after, ran, -, ⟨new, values, grown⟩, -⟩ := grows.returned <| by
    intro halt after stopped
    obtain ⟨cause, -, ⟨-, item, impossible | rfl, failing⟩ | ⟨-, fewer, -⟩⟩ := stopped
    · exact impossible
    · exact lasts failing
    · exact Nat.lt_irrefl _ fewer
  exact ⟨after, new, ran, values, grown⟩

theorem resize_shrinks (wellFormed : ring.WellFormed) (shorter : n ≤ ring.len)
    (lasting : ∀ item ∈ yields.trimmed (ring.len - n) ring.toList, ¬ ledger.FailsOn item)
    (lasts : ¬ ledger.FailsOn model) :
    ∃ after, resize yields n model ⟨ring, ledger⟩ = .ok () after ∧
      ring.Becomes after.buffer (yields.trim (ring.len - n) ring.toList) := by
  obtain ⟨final, gone, evicted, becomes⟩ :=
    evict_returns wellFormed yields (ring.len - n) lasting
  have stays : ¬ (ledger.discarding gone).FailsOn model := by
    rw [(Ledger.Draws.discarding gone).failsOn]
    exact lasts
  have ran : resize yields n model ⟨ring, ledger⟩ =
      .ok () ⟨final, (ledger.discarding gone).discarding [model]⟩ := by
    apply Act.consuming_of_ok _ stays
    apply eq_ok_of_ends
    simp only [ends_bind, Act.ends_buffer, if_neg (Nat.not_lt_of_le shorter)]
    rw [ends_of_ok evicted]
    exact ⟨trivial, rfl⟩
  exact ⟨_, ran, becomes⟩

end Ring

end RingDeque
