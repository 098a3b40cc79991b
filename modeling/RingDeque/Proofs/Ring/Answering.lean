import RingDeque.Proofs.Outcome
import RingDeque.Proofs.Ring.Reading
import RingDeque.Ring.Comparison

/-!
Questions about a well formed ring.

Whatever is read from the block on the way to an answer is there, so a question is answered, or
refused because of what was asked.
-/

namespace RingDeque

theorem Query.yields_of_exists {checked : Checked γ} {good : γ → Prop}
    (answered : ∃ value, checked = .ok value ∧ good value) :
    Query.Yields (liftM checked) good := by
  obtain ⟨value, rfl, found⟩ := answered
  exact found

theorem Query.yields_of_answered {checked : Checked γ} (answered : ∃ value, checked = .ok value) :
    Query.Yields (liftM checked) fun _ => True := by
  obtain ⟨value, rfl⟩ := answered
  exact trivial

namespace Ring

open Query

variable {α : Type} {ring first second : Ring α}

/-- An element that was reached stands at the logical index under which it is reported. -/
theorem WellFormed.reach_yields (wellFormed : ring.WellFormed) (reach : Reach) :
    Yields (ring.reach reach) fun found =>
      ∀ index item, found = some (index, item) → ring.toList[index]? = some item := by
  cases reach with
  | get index =>
      simp only [Ring.reach, wellFormed.get?_eq, Query.liftM_ok, yields_bind, yields_pure]
      cases found : ring.toList[index]? <;> simp [found]
  | element index =>
      simp only [Ring.reach, Ring.element, wellFormed.get?_eq, Query.liftM_ok, yields_bind,
        yields_pure]
      cases found : ring.toList[index]? <;> simp [found]
  | demand index =>
      simp only [Ring.reach, Ring.demand, wellFormed.get?_eq, Query.liftM_ok, yields_bind,
        yields_pure]
      cases found : ring.toList[index]? with
      | none => exact trivial
      | some item => simp [found]
  | peek side =>
      have length := wellFormed.length_toList
      simp only [Ring.reach, wellFormed.peek_eq, Query.liftM_ok, yields_bind, yields_pure]
      cases side with
      | front =>
          simp only [End.last?, List.head?_eq_getElem?]
          cases found : ring.toList[0]? <;> simp [found]
      | back =>
          simp only [End.last?, List.getLast?_eq_getElem?, length]
          cases found : ring.toList[ring.len - 1]? <;> simp [found]

theorem WellFormed.runs_yields (wellFormed : ring.WellFormed) :
    Yields (liftM ring.runs) fun _ => True := by
  obtain ⟨front, back, read, -⟩ := wellFormed.runs_exists
  exact yields_of_answered ⟨(front, back), read⟩

theorem WellFormed.isOrderable_eq [Value α] (wellFormed : ring.WellFormed) :
    ring.isOrderable =
      .ok ((ring.toList.map Item.value).all fun value => Value.order? value value == some .eq) := by
  simp only [isOrderable, wellFormed.values_eq, Checked.ok_bind, Checked.pure_eq_ok]

theorem WellFormed.equals_exists [Value α] (firstWellFormed : first.WellFormed)
    (secondWellFormed : second.WellFormed) : ∃ same, first.equals second = .ok same := by
  simp only [equals, firstWellFormed.values_eq, secondWellFormed.values_eq, Checked.ok_bind,
    Checked.pure_eq_ok]
  split <;> exact ⟨_, rfl⟩

theorem cutBefore_eq {values : List α} {n : Nat} (inside : n ≤ values.length) :
    cutBefore values n = .ok (values.take n) :=
  if_pos inside

theorem cutAfter_eq {values : List α} {n : Nat} (inside : n ≤ values.length) :
    cutAfter values n = .ok (values.drop n) :=
  if_pos inside

/-- The runs meet within a list that is as long as the ring. -/
theorem WellFormed.length_front_le {front back : List (Item α)} (wellFormed : ring.WellFormed)
    (read : ring.runs = .ok (front, back)) : front.length ≤ ring.len :=
  wellFormed.length_front read ▸ Nat.min_le_left ..

/-- A list of another length is not cut at all. -/
theorem WellFormed.equalsList_exists [Value α] (wellFormed : ring.WellFormed) (values : List α) :
    ∃ front back, front ++ back = ring.toList ∧ ring.equalsList values = .ok
      (decide (ring.len = values.length) && (front.map Item.value == values.take front.length &&
        back.map Item.value == values.drop front.length)) := by
  obtain ⟨front, back, read, parts⟩ := wellFormed.runs_exists
  refine ⟨front, back, parts, ?_⟩
  by_cases lengths : ring.len = values.length
  · have inside := lengths ▸ wellFormed.length_front_le read
    simp only [equalsList, read, cutBefore_eq inside, cutAfter_eq inside, Checked.ok_bind,
      Checked.pure_eq_ok, ne_eq, lengths, not_true_eq_false, if_false, decide_true, Bool.true_and]
    cases same : front.map Item.value == values.take front.length <;> simp [bne, same]
  · simp only [equalsList, read, Checked.ok_bind, Checked.pure_eq_ok, ne_eq, lengths,
      not_false_eq_true, if_true, decide_false, Bool.false_and]

theorem WellFormed.order?_eq [Value α] (one : first.WellFormed) (other : second.WellFormed) :
    first.order? second =
      .ok (lexicographic? (first.toList.map Item.value) (second.toList.map Item.value)) := by
  simp only [order?, one.values_eq, other.values_eq, Checked.ok_bind, Checked.pure_eq_ok]

theorem WellFormed.totalOrder?_exists [Value α] (one : first.WellFormed)
    (other : second.WellFormed) : ∃ order, first.totalOrder? second = .ok order := by
  simp only [totalOrder?, one.isOrderable_eq, other.isOrderable_eq, one.values_eq,
    other.values_eq, Checked.ok_bind, Checked.pure_eq_ok]
  split <;> exact ⟨_, rfl⟩

theorem WellFormed.hashed_eq [Value α] (wellFormed : ring.WellFormed) :
    ring.hashed = .ok (.size (ring.toList.map Item.value).length ::
      (ring.toList.map Item.value).flatMap Value.hashed) := by
  simp only [hashed, wellFormed.values_eq, Checked.ok_bind, Checked.pure_eq_ok,
    List.length_map, wellFormed.length_toList]

theorem WellFormed.listing_exists [Value α] (wellFormed : ring.WellFormed) :
    ∃ listing, ring.listing = .ok listing := by
  simp only [listing, wellFormed.values_eq, Checked.ok_bind, Checked.pure_eq_ok]
  exact ⟨_, rfl⟩

end Ring

end RingDeque
