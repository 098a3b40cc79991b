import RingDeque.Proofs.Ring.Faltering
import RingDeque.Proofs.Ring.Overwriting
import RingDeque.Proofs.Traversal
import RingDeque.Ring.Iteration

/-!
Walking over a ring against its list.

Overwriting an element at its place changes that element and nothing else. A walk that takes elements
out answers as a cursor over the list would; what it takes out it yields or destroys.
-/

namespace RingDeque

open Effect

namespace Ledger

variable {α : Type} {ledger : Ledger α} {given gone more others : List (Item α)}

/-- The record after these elements were handed back and those destroyed. -/
def parting (ledger : Ledger α) (given gone : List (Item α)) : Ledger α :=
  { ledger.discarding gone with returned := given.reverse ++ ledger.returned }

theorem parting_parting :
    (ledger.parting given gone).parting more others = ledger.parting (given ++ more) (gone ++ others) := by
  simp only [parting, discarding, List.reverse_append, List.append_assoc]

theorem discarding_parting :
    (ledger.parting given gone).discarding others = ledger.parting given (gone ++ others) := by
  simp only [parting, discarding, List.reverse_append, List.append_assoc]

end Ledger

namespace Ring

variable {α : Type} {ring middle after : Ring α} {before between final : Tracked (Ring α) α}
  {given gone rest more others last : List (Item α)} {cause : Interruption} {index : Nat}
  {old : Item α}

/-- A ring that has its elements in the slots where another one has them. -/
structure Congruent (before after : Ring α) : Prop where
  wellFormed : after.WellFormed
  len : after.len = before.len
  capacity : after.capacity = before.capacity
  start : after.start = before.start
  registry : after.registry = before.registry

namespace Congruent

theorem refl (wellFormed : ring.WellFormed) : ring.Congruent ring :=
  ⟨wellFormed, rfl, rfl, rfl, rfl⟩

theorem trans (first : ring.Congruent middle) (second : middle.Congruent after) :
    ring.Congruent after :=
  ⟨second.wellFormed, second.len.trans first.len, second.capacity.trans first.capacity,
    second.start.trans first.start, second.registry.trans first.registry⟩

theorem place (congruent : ring.Congruent after) (index : Nat) :
    after.place index = ring.place index := by
  rw [Ring.place, Ring.place, congruent.capacity, congruent.start]

theorem placed (congruent : ring.Congruent after) : after.placed = ring.placed :=
  funext fun entry => congrArg (Placed.mk · entry.1) (congruent.place entry.2)

end Congruent

/-- Overwriting the element at a place. -/
theorem overwriteSlot_place (wellFormed : ring.WellFormed) (found : ring.toList[index]? = some old)
    (item : Item α) :
    ∃ after, ring.overwriteSlot (ring.place index) item = .ok (old, after) ∧
      ring.Congruent after ∧ after.toList = ring.toList.set index item := by
  have live : index < ring.len := by
    rw [← wellFormed.length_toList]
    exact (List.getElem?_eq_some_iff.mp found).1
  have slotInside := place_lt_slots wellFormed.sited (Nat.lt_of_lt_of_le live wellFormed.fits)
  have turned := turnsInto_putCell wellFormed live slotInside item
  have held : ring.block.get? (ring.place index) = some old :=
    (wellFormed.cell_eq live).trans found
  exact ⟨_, overwriteSlot_eq slotInside held item,
    ⟨turned.wellFormed, rfl, turned.sized, rfl, rfl⟩, turned.toList⟩

/-- A place that a walk yielded stays the place of its position while elements are overwritten. -/
theorem Congruent.overwriteSlot {place : Placed α} (congruent : ring.Congruent middle)
    (found : (ring.toList.zipIdx.map ring.placed)[index]? = some place)
    (wellFormed : ring.WellFormed) (item : Item α) :
    ∃ old after, middle.toList[index]? = some old ∧
      middle.overwriteSlot place.slot item = .ok (old, after) ∧
      middle.Congruent after ∧ after.toList = middle.toList.set index item := by
  have bound := (List.getElem?_eq_some_iff.mp found).1
  rw [List.length_map, List.length_zipIdx, wellFormed.length_toList, ← congruent.len,
    ← congruent.wellFormed.length_toList] at bound
  have same : place.slot = middle.place index := by
    rw [List.getElem?_map, List.getElem?_zipIdx, Option.map_map] at found
    obtain ⟨first, -, rfl⟩ := Option.map_eq_some_iff.mp found
    rw [congruent.place]
    exact congrArg ring.place (Nat.zero_add index)
  obtain ⟨after, replaced, kept, listed⟩ :=
    overwriteSlot_place congruent.wellFormed (List.getElem?_eq_getElem bound) item
  exact ⟨_, after, List.getElem?_eq_getElem bound, same ▸ replaced, kept, listed⟩

/-- Elements were taken out of a ring: these were handed back, those were destroyed, and the rest is
left. -/
structure Parted (before : Tracked (Ring α) α) (given gone rest : List (Item α))
    (after : Tracked (Ring α) α) : Prop where
  wellFormed : after.buffer.WellFormed
  toList : after.buffer.toList = rest
  lasted : ∀ item ∈ gone, ¬ before.ledger.FailsOn item
  recorded : after.ledger = before.ledger.parting given gone

/-- Elements were taken out of a ring: these were handed back and those were destroyed, up to one
whose destruction failed. -/
structure Severed (before : Tracked (Ring α) α) (given gone : List (Item α)) (cause : Interruption)
    (after : Tracked (Ring α) α) : Prop where
  wellFormed : after.buffer.WellFormed
  parts : (given ++ gone ++ after.buffer.toList).Perm before.buffer.toList
  failed : before.ledger.FailsAmong (· ∈ gone) cause
  recorded : after.ledger = (before.ledger.parting given gone).disarmed

namespace Parted

theorem trans (first : Parted before given gone rest between)
    (second : Parted between more others last final) :
    Parted before (given ++ more) (gone ++ others) last final where
  wellFormed := second.wellFormed
  toList := second.toList
  lasted := by
    intro item member
    rcases List.mem_append.mp member with early | late
    · exact first.lasted item early
    · have lasts := second.lasted item late
      rwa [first.recorded] at lasts
  recorded := by rw [second.recorded, first.recorded, Ledger.parting_parting]

theorem severed (first : Parted before given gone rest between)
    (parts : (given ++ gone ++ rest).Perm before.buffer.toList)
    (second : Severed between more others cause final) :
    Severed before (given ++ more) (gone ++ others) cause final where
  wellFormed := second.wellFormed
  parts := by
    have whole := second.parts
    rw [first.toList] at whole
    have together := (whole.append_left (given ++ gone)).trans parts
    simp only [List.append_assoc] at together ⊢
    exact ((List.perm_append_comm_assoc _ _ _).append_left _).trans together
  failed := by
    have among := second.failed
    rw [first.recorded] at among
    exact Ledger.FailsAmong.mono among fun item => List.mem_append_right gone
  recorded := by rw [second.recorded, first.recorded, Ledger.parting_parting]

/-- What was taken out and not destroyed is handed back. -/
theorem handedBack (parted : Parted before [] gone rest final) (given : List (Item α)) :
    Parted before given gone rest
      ⟨final.buffer, { final.ledger with returned := given.reverse ++ final.ledger.returned }⟩ where
  wellFormed := parted.wellFormed
  toList := parted.toList
  lasted := parted.lasted
  recorded := by simp only [parted.recorded, Ledger.parting, List.reverse_nil, List.nil_append]

end Parted

theorem takeNth_decided (side : End) (skipped : Nat) (wellFormed : before.buffer.WellFormed) :
    Ends (takeNth side skipped) before
      (fun taken after => taken = side.last? (side.trim skipped before.buffer.toList) ∧
        Parted before [] (side.leaving skipped before.buffer.toList)
          (side.trim (skipped + 1) before.buffer.toList) after)
      (Interrupted fun cause after => ∃ gone, Severed before [] gone cause after) := by
  -- Each element that is skipped is popped and destroyed first; the one that is kept comes last.
  induction skipped generalizing before with
  | zero =>
      obtain ⟨after, popped, becomes⟩ := pop_exists wellFormed side
      rw [takeNth, Act.ends_update popped, side.trim_zero, side.leaving_zero]
      exact ⟨rfl, becomes.wellFormed, becomes.toList, by simp, rfl⟩
  | succ skipped ih =>
      obtain ⟨middle, popped, becomes⟩ := pop_exists wellFormed side
      rw [takeNth, ends_bind, Act.ends_update popped]
      have listed : middle.toList = side.trim 1 before.buffer.toList := becomes.toList
      cases found : side.last? before.buffer.toList with
      | none =>
          rw [(side.last?_eq_none_iff _).mp found] at listed ⊢
          simp only [End.popped, (side.last?_eq_none_iff _).mpr, ends_pure, side.trim_nil,
            side.leaving_nil] at listed ⊢
          exact ⟨trivial, becomes.wellFormed, listed, by simp, rfl⟩
      | some item =>
          simp only [End.popped, found, ends_bind, Act.ends_ledger]
          apply (Ledger.destroy_decided item before.ledger).mono
          · intro _ ledger ended
            obtain ⟨lasts, rfl⟩ := ended
            have first : Parted before [] [item] (side.trim 1 before.buffer.toList)
                ⟨middle, before.ledger.discarding [item]⟩ :=
              ⟨becomes.wellFormed, listed, by simpa using lasts, rfl⟩
            have parts := (End.perm_of_last? found).symm
            apply (ih becomes.wellFormed).mono
            · intro taken after ended
              obtain ⟨same, parted⟩ := ended
              simp only [listed, End.trim_trim, Nat.add_comm 1] at same parted
              rw [End.leaving_succ skipped found]
              exact ⟨same, first.trans parted⟩
            · intro halt after stopped
              apply stopped.mono
              intro cause cut
              obtain ⟨gone, severed⟩ := cut
              exact ⟨_, first.severed parts severed⟩
          · intro halt ledger stopped
            apply stopped.mono
            intro cause failed
            obtain ⟨among, rfl⟩ := failed
            have parts := End.perm_of_last? found
            rw [← listed] at parts
            exact ⟨[item], becomes.wellFormed, parts.symm,
              among.mono fun other => List.mem_singleton.mpr, rfl⟩

theorem takeMany_decided (side : End) (count : Nat) (wellFormed : before.buffer.WellFormed) :
    Ends (takeMany side count) before
      (fun taken after => taken = side.leaving count before.buffer.toList ∧
        Parted before [] [] (side.trim count before.buffer.toList) after)
      fun _ _ => False := by
  induction count generalizing before with
  | zero =>
      rw [side.leaving_zero, side.trim_zero]
      exact ⟨rfl, wellFormed, rfl, by simp, rfl⟩
  | succ count ih =>
      obtain ⟨middle, popped, becomes⟩ := pop_exists wellFormed side
      rw [takeMany, ends_bind, Act.ends_update popped]
      have listed : middle.toList = side.trim 1 before.buffer.toList := becomes.toList
      cases found : side.last? before.buffer.toList with
      | none =>
          rw [(side.last?_eq_none_iff _).mp found] at listed ⊢
          simp only [End.popped, (side.last?_eq_none_iff _).mpr, ends_pure, side.trim_nil,
            side.leaving_nil] at listed ⊢
          exact ⟨trivial, becomes.wellFormed, listed, by simp, rfl⟩
      | some item =>
          simp only [End.popped, found, ends_bind, ends_pure]
          apply (ih becomes.wellFormed).mono
          · intro taken after ended
            obtain ⟨rfl, parted⟩ := ended
            simp only [listed, End.trim_trim, Nat.add_comm 1] at parted ⊢
            rw [End.leaving_succ count found]
            exact ⟨rfl, parted.wellFormed, parted.toList, by simp, parted.recorded⟩
          · exact fun _ _ => id

theorem last?_trim_back (skipped : Nat) (items : List (Item α)) :
    End.back.last? (End.back.trim skipped items) = items.reverse[skipped]? := by
  rw [End.last?, End.trim, ← List.head?_drop, List.drop_reverse, List.head?_reverse]

/-- A walk that takes elements out answers a step as a cursor over the list does. What the cursor
passes over is destroyed. -/
theorem drain_decided (step : Traversal.Step) (wellFormed : before.buffer.WellFormed) :
    Ends (drain step) before
      (fun answer after => answer = step.answered before.buffer.toList ∧
        Parted before [] (step.passed before.buffer.toList) (step.remaining before.buffer.toList)
          after)
      (Interrupted fun cause after => ∃ gone, Severed before [] gone cause after) := by
  have length := wellFormed.length_toList
  have one := fun side skipped => takeNth_decided side skipped wellFormed
  have many := fun side => takeMany_decided side before.buffer.len wellFormed
  cases step with
  | next =>
      simp only [drain, ends_bind, ends_pure]
      apply (one .front 0).mono _ fun _ _ => id
      intro taken after ended
      obtain ⟨rfl, parted⟩ := ended
      exact ⟨rfl, parted⟩
  | nextBack =>
      simp only [drain, ends_bind, ends_pure]
      apply (one .back 0).mono _ fun _ _ => id
      intro taken after ended
      obtain ⟨rfl, parted⟩ := ended
      rw [End.trim_zero]
      exact ⟨rfl, parted⟩
  | nth skipped =>
      simp only [drain, ends_bind, ends_pure]
      apply (one .front skipped).mono _ fun _ _ => id
      intro taken after ended
      obtain ⟨rfl, parted⟩ := ended
      exact ⟨congrArg _ List.head?_drop, parted⟩
  | nthBack skipped =>
      simp only [drain, ends_bind, ends_pure]
      apply (one .back skipped).mono _ fun _ _ => id
      intro taken after ended
      obtain ⟨rfl, parted⟩ := ended
      exact ⟨congrArg _ (last?_trim_back skipped _), parted⟩
  | length | bounds =>
      simp only [drain, ends_bind, Act.ends_buffer, ends_pure, Traversal.Step.answered, length]
      exact ⟨trivial, wellFormed, rfl, by simp [Traversal.Step.passed], rfl⟩
  | rest =>
      simp only [drain, ends_bind, Act.ends_buffer, ends_pure]
      apply (many .front).mono _ fun _ _ => False.elim
      intro taken after ended
      obtain ⟨rfl, parted⟩ := ended
      rw [End.trim, ← length, List.drop_length] at parted
      rw [End.leaving, ← length, List.take_length]
      exact ⟨rfl, parted⟩
  | reversed =>
      simp only [drain, ends_bind, Act.ends_buffer, ends_pure]
      apply (many .back).mono _ fun _ _ => False.elim
      intro taken after ended
      obtain ⟨rfl, parted⟩ := ended
      rw [End.trim, length, Nat.sub_self, List.take_zero] at parted
      rw [End.leaving, ← length, ← List.length_reverse, List.take_length]
      exact ⟨rfl, parted⟩

end Ring

end RingDeque
