import RingDeque.Proofs.Ring.Gathering
import RingDeque.Proofs.Ring.Supplying
import RingDeque.Ring.Erasure

/-!
Erasure against lists.

The doomed elements are gathered at an end and evicted from there, so an erasure that is cut short
leaves the ring whole, with some of them still at that end.
-/

namespace RingDeque

/-- The index of the entry beside a range that was erased, on the side `toward`. -/
def End.beside (toward : End) (index count : Nat) : Nat :=
  match toward with
  | .front => if count = 0 then index else index - 1
  | .back => index

namespace Ring

open Effect

variable {α : Type} {written : Prop} {origin before : Tracked (Ring α) α}
  {owned : Multiset Nat} {ring : Ring α} {refuses : Error → Prop} {breaks : Prop}
  {index count : Nat} {cursor first last : Cursor} {toward tie : End}

theorem without_nothing : ring.without index 0 = ring.toList := by
  rw [without, Nat.add_zero, List.take_append_drop]

theorem WellFormed.length_doomed (wellFormed : ring.WellFormed) (bound : index + count ≤ ring.len) :
    (ring.doomed index count).length = count := by
  rw [doomed, List.length_take, List.length_drop, wellFormed.length_toList]
  omega

theorem WellFormed.length_without (wellFormed : ring.WellFormed) (bound : index + count ≤ ring.len) :
    (ring.without index count).length = ring.len - count := by
  rw [without, List.length_append, List.length_take, List.length_drop, wellFormed.length_toList]
  omega

/-- Gathering at either end, with the contents that eviction from there starts from. -/
theorem gathered_ends (sound : Sound written origin owned before.buffer before.ledger)
    {after : Ring α} {gathered : List (Item α)} {side : End} (bound : index + count ≤ before.buffer.len)
    (becomes : before.buffer.Becomes after (side.flank gathered (before.buffer.without index count)))
    (same : gathered.Perm (before.buffer.doomed index count)) :
    Ends (evict side count) ⟨after, before.ledger⟩
      (fun _ final => Leaves written origin owned before.buffer.capacity
        (before.buffer.without index count) final.buffer final.ledger)
      (fun halt final =>
        Stops written origin breaks refuses owned halt final.buffer final.ledger) := by
  have counted : gathered.length = count := by
    rw [same.length_eq, sound.wellFormed.length_doomed bound]
  have moved : Sound written origin owned after before.ledger := by
    refine sound.turn becomes.turnsInto ?_
    rw [ids_perm ((before.buffer.perm_doomed_without index count).trans
      ((same.symm.append_right _).trans side.perm_flank.symm))]
  refine (evict_ends moved side count).mono ?_ fun _ _ => id
  intro _ final leaves
  simp only [becomes.capacity, becomes.toList] at leaves
  rw [← counted, side.trim_flank, counted] at leaves
  exact leaves

/-- The doomed elements are carried to an end, the one with fewer elements before it, and evicted
from there. -/
theorem removeRange_gathers {side : End} (wellFormed : ring.WellFormed)
    (bound : index + count ≤ ring.len) (some : count ≠ 0)
    (moved : End.shorter index (ring.len - index - count) tie = side) :
    ∃ after gathered, gathered.Perm (ring.doomed index count) ∧
      ring.Becomes after (side.flank gathered (ring.without index count)) ∧
      ∀ (ledger : Ledger α) returns halts,
        Ends (removeRange index count tie) ⟨ring, ledger⟩ returns halts ↔
          Ends (evict side count) ⟨after, ledger⟩ returns halts := by
  have word := ring.capacity_lt_word
  have fits := wellFormed.fits
  cases side with
  | front =>
      obtain ⟨after, gathered, shifted, becomes, same⟩ := gatherFront_exists wellFormed bound
      refine ⟨after, gathered, same, becomes, ?_⟩
      intro ledger returns halts
      simp only [removeRange, if_neg some, ends_bind, Act.ends_buffer, liftM_ok, ends_pure,
        Word.sub_eq (show index ≤ ring.len by omega),
        Word.sub_eq (show count ≤ ring.len - index by omega), moved]
      rw [Act.ends_alter_mk shifted]
  | back =>
      obtain ⟨after, gathered, shifted, becomes, same⟩ := gatherBack_exists wellFormed bound
      refine ⟨after, gathered, same, becomes, ?_⟩
      intro ledger returns halts
      simp only [removeRange, if_neg some, ends_bind, Act.ends_buffer, liftM_ok, ends_pure,
        Word.sub_eq (show index ≤ ring.len by omega),
        Word.sub_eq (show count ≤ ring.len - index by omega), moved,
        Word.add_eq (show index + count < Word.limit by omega)]
      rw [Act.ends_alter_mk shifted]

theorem removeRange_ends (sound : Sound written origin owned before.buffer before.ledger)
    (bound : index + count ≤ before.buffer.len) :
    Ends (removeRange index count tie) before
      (fun _ after => Leaves written origin owned before.buffer.capacity
        (before.buffer.without index count) after.buffer after.ledger)
      (fun halt after =>
        Stops written origin breaks refuses owned halt after.buffer after.ledger) := by
  by_cases nothing : count = 0
  · simp only [removeRange, if_pos nothing, ends_pure]
    rw [nothing, without_nothing]
    exact .refl sound
  · obtain ⟨after, gathered, same, becomes, ends⟩ :=
      removeRange_gathers sound.wellFormed bound nothing rfl
    exact (ends before.ledger _ _).mpr (gathered_ends sound bound becomes same)

/-- What an erasure of `count` elements makes of a ring: the others are left, and the cursor points
to the neighbour of those erased. -/
structure Erases (toward : End) (index count : Nat) (before : Ring α) (cursor : Cursor)
    (after : Ring α) : Prop where
  sized : after.capacity = before.capacity
  toList : after.toList = before.without index count
  points : after.Points cursor (toward.beside index count)

theorem cursorBeside_exists (toward : End) {after : Ring α} (wellFormed : ring.WellFormed)
    (afterWellFormed : after.WellFormed) (bound : index + count ≤ ring.len) (some : count ≠ 0)
    (listed : after.toList = ring.without index count) :
    ∃ cursor, after.cursorBeside toward index = .ok cursor ∧
      after.Points cursor (toward.beside index count) := by
  have left : after.len = ring.len - count := by
    rw [← afterWellFormed.length_toList, listed, wellFormed.length_without bound]
  cases toward with
  | back =>
      obtain ⟨cursor, issued, points⟩ := afterWellFormed.cursorFor_exists index
      rw [Nat.min_eq_left (by omega)] at points
      exact ⟨cursor, issued, points⟩
  | front =>
      obtain ⟨cursor, issued, points⟩ := afterWellFormed.cursorFor_exists (index - 1)
      rw [Nat.min_eq_left (by omega)] at points
      refine ⟨cursor, issued, ?_⟩
      rw [End.beside, if_neg some]
      exact points

theorem erase_ends (breaks : Prop) (sound : Sound written origin owned before.buffer before.ledger)
    (vouched : before.buffer.Vouches cursor) :
    Ends (erase toward cursor) before
      (fun issued after => Sound written origin owned after.buffer after.ledger ∧
        ∃ index < before.buffer.len, before.buffer.resolve cursor = .ok index ∧
          Erases toward index 1 before.buffer issued after.buffer)
      (fun halt after => Stops written origin breaks
        (fun error => before.buffer.resolveElement cursor = .error (.refused error)) owned halt
        after.buffer after.ledger) := by
  simp only [erase, ends_bind, Act.ends_buffer]
  refine (ends_query (fun index =>
    index < before.buffer.len ∧ before.buffer.resolve cursor = .ok index) ?_).mono ?_ ?_
  · rcases sound.wellFormed.resolveElement_cases vouched with
      ⟨index, bound, found, resolved⟩ | ⟨error, refused⟩
    · exact .inl ⟨index, found, bound, resolved⟩
    · exact .inr ⟨error, refused⟩
  · intro index after ended
    obtain ⟨rfl, -, bound, resolved⟩ := ended
    refine (removeRange_ends sound (show index + 1 ≤ after.buffer.len by omega)).mono ?_
      fun _ _ => id
    intro _ final leaves
    obtain ⟨issued, found, points⟩ := cursorBeside_exists toward sound.wellFormed
      leaves.sound.wellFormed (show index + 1 ≤ after.buffer.len by omega) Nat.one_ne_zero
      leaves.toList
    simp only [found, liftM_ok, ends_pure]
    exact ⟨leaves.sound, index, bound, resolved, leaves.sized, leaves.toList, points⟩
  · intro halt after stopped
    obtain ⟨rfl, error, rfl, refused⟩ := stopped
    exact ⟨.refusal refused, sound⟩

theorem eraseRange_ends (breaks : Prop) (sound : Sound written origin owned before.buffer before.ledger)
    (firstVouched : before.buffer.Vouches first) (lastVouched : before.buffer.Vouches last) :
    Ends (eraseRange toward first last) before
      (fun issued after => Sound written origin owned after.buffer after.ledger ∧
        ∃ source target, before.buffer.resolveRange first last = .ok (source, target) ∧
          source ≤ target ∧ target ≤ before.buffer.len ∧
          Erases toward source (target - source) before.buffer issued after.buffer)
      (fun halt after => Stops written origin breaks
        (fun error => before.buffer.resolveRange first last = .error (.refused error)) owned halt
        after.buffer after.ledger) := by
  simp only [eraseRange, ends_bind, Act.ends_buffer]
  refine (ends_query (fun range =>
    range.1 ≤ range.2 ∧ range.2 ≤ before.buffer.len) ?_).mono ?_ ?_
  · rcases sound.wellFormed.resolveRange_cases firstVouched lastVouched with
      ⟨source, target, ordered, bound, found⟩ | ⟨error, refused⟩
    · exact .inl ⟨(source, target), found, ordered, bound⟩
    · exact .inr ⟨error, refused⟩
  · intro reached after ended
    obtain ⟨source, target⟩ := reached
    obtain ⟨rfl, found, ordered, bound⟩ := ended
    simp only at ordered bound
    by_cases nothing : source = target
    · obtain ⟨issued, given, points⟩ := sound.wellFormed.cursorFor_exists source
      rw [Nat.min_eq_left (by omega)] at points
      simp only [if_pos nothing, ends_bind, Act.ends_buffer, given, liftM_ok, ends_pure]
      refine ⟨sound, source, target, found, ordered, bound, rfl, ?_, ?_⟩
      · rw [← nothing, Nat.sub_self, without_nothing]
      · rw [← nothing, Nat.sub_self]
        cases toward with
        | front => exact points
        | back => exact points
    · simp only [if_neg nothing, ends_bind, Word.sub_eq ordered, liftM_ok, ends_pure,
        Act.ends_buffer]
      have inside : source + (target - source) ≤ after.buffer.len := by omega
      refine (removeRange_ends sound inside).mono ?_ fun _ _ => id
      intro _ final leaves
      obtain ⟨issued, given, points⟩ := cursorBeside_exists toward sound.wellFormed
        leaves.sound.wellFormed inside (by omega) leaves.toList
      simp only [given, liftM_ok, ends_pure]
      exact ⟨leaves.sound, source, target, found, ordered, bound, leaves.sized, leaves.toList,
        points⟩
  · intro halt after stopped
    obtain ⟨rfl, error, rfl, refused⟩ := stopped
    exact ⟨.refusal refused, sound⟩

end Ring

end RingDeque
