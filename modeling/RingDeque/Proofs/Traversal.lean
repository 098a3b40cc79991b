import Mathlib.Data.List.Basic
import RingDeque.Proofs.Slot
import RingDeque.Traversal

/-!
Walks against lists.

A cursor over a list that closes in from both ends answers a step by what lies between its ends. A
walk over two runs answers as such a cursor over the runs put together, wherever they are cut: main
statement `Traversal.answer_exists`.
-/

namespace RingDeque.Traversal

variable {ι κ : Type} {walk : Traversal ι} {entries : List ι} {entry : ι} {step : Step}
  {steps : List Step}

namespace Step

/-- What a cursor answers that has these entries between its ends. -/
def answered (entries : List ι) : Step → Answer ι
  | .next => .one entries.head?
  | .nextBack => .one entries.getLast?
  | .nth skipped => .one entries[skipped]?
  | .nthBack skipped => .one entries.reverse[skipped]?
  | .length => .count entries.length
  | .bounds => .bounds entries.length entries.length
  | .rest => .many entries
  | .reversed => .many entries.reverse

/-- What the cursor passes over, entry by entry. -/
def passed (entries : List ι) : Step → List ι
  | .nth skipped => entries.take skipped
  | .nthBack skipped => entries.reverse.take skipped
  | .next | .nextBack | .length | .bounds | .rest | .reversed => []

/-- What is between the ends afterwards. -/
def remaining (entries : List ι) : Step → List ι
  | .next => entries.drop 1
  | .nextBack => entries.take (entries.length - 1)
  | .nth skipped => entries.drop (skipped + 1)
  | .nthBack skipped => entries.take (entries.length - (skipped + 1))
  | .length | .bounds => entries
  | .rest | .reversed => []

theorem answered_map (f : ι → κ) (entries : List ι) (step : Step) :
    step.answered (entries.map f) = (step.answered entries).map f := by
  cases step <;> simp [answered, Answer.map, ← List.map_reverse]

theorem remaining_map (f : ι → κ) (entries : List ι) (step : Step) :
    step.remaining (entries.map f) = (step.remaining entries).map f := by
  cases step <;> simp [remaining]

/-- Once nothing is left, a cursor yields nothing, whatever it is asked. -/
theorem taken_answered_nil (step : Step) :
    (step.answered ([] : List ι)).taken = [] ∧ step.remaining ([] : List ι) = [] := by
  cases step <;> simp [answered, remaining, Answer.taken]

theorem perm_of_nth (skipped : Nat) (entries : List ι) :
    (entries[skipped]?.toList ++ entries.take skipped ++ entries.drop (skipped + 1)).Perm entries := by
  have rest : entries[skipped]?.toList ++ entries.drop (skipped + 1) = entries.drop skipped := by
    rw [← List.tail_drop, ← List.head?_drop]
    cases entries.drop skipped <;> rfl
  have exchanged := List.perm_append_comm_assoc entries[skipped]?.toList (entries.take skipped)
    (entries.drop (skipped + 1))
  rwa [rest, List.take_append_drop, ← List.append_assoc] at exchanged

/-- Each entry is yielded, passed over or left. -/
theorem answered_perm (step : Step) (entries : List ι) :
    ((step.answered entries).taken ++ step.passed entries ++ step.remaining entries).Perm
      entries := by
  cases step with
  | next => cases entries <;> exact .refl _
  | nextBack =>
      rcases List.eq_nil_or_concat entries with rfl | ⟨front, last, rfl⟩
      · exact .refl _
      · simpa [answered, passed, remaining, Answer.taken] using (List.perm_append_singleton last front).symm
  | nth skipped => exact perm_of_nth skipped entries
  | nthBack skipped =>
      have back : entries.take (entries.length - (skipped + 1)) =
          (entries.reverse.drop (skipped + 1)).reverse := by
        rw [List.drop_reverse, List.reverse_reverse]
      rw [remaining, back]
      exact ((List.reverse_perm _).append_left _).trans
        ((perm_of_nth skipped entries.reverse).trans (List.reverse_perm entries))
  | length | bounds => exact .refl _
  | rest => simp [answered, passed, remaining, Answer.taken]
  | reversed => simp [answered, passed, remaining, Answer.taken]

theorem remaining_sublist (step : Step) (entries : List ι) :
    (step.remaining entries).Sublist entries := by
  cases step with
  | next | nth => exact List.drop_sublist _ entries
  | nextBack | nthBack => exact List.take_sublist _ entries
  | length | bounds => exact .refl entries
  | rest | reversed => exact List.nil_sublist entries

end Step

/-- The answers to steps that are asked one after the other. -/
def answers : List Step → List ι → List (Answer ι)
  | [], _ => []
  | step :: rest, entries => step.answered entries :: answers rest (step.remaining entries)

/-- What the steps yield, in the order in which they do. -/
def yielded (steps : List Step) (entries : List ι) : List ι :=
  (answers steps entries).flatMap Answer.taken

/-- What the steps pass over. -/
def skipped : List Step → List ι → List ι
  | [], _ => []
  | step :: rest, entries => step.passed entries ++ skipped rest (step.remaining entries)

/-- What is left after the steps. -/
def left (steps : List Step) (entries : List ι) : List ι :=
  steps.foldl Step.remaining entries

/-- The walk after the steps. -/
def after (steps : List Step) (walk : Traversal ι) : Checked (Traversal ι) :=
  steps.foldlM (fun walk step => return (← walk.answer step).2) walk

theorem yielded_cons : yielded (step :: steps) entries =
    (step.answered entries).taken ++ yielded steps (step.remaining entries) :=
  List.flatMap_cons

/-- Over a whole script, too, each entry is yielded at most once. -/
theorem yielded_perm (steps : List Step) (entries : List ι) :
    (yielded steps entries ++ skipped steps entries ++ left steps entries).Perm entries := by
  induction steps generalizing entries with
  | nil => exact .refl _
  | cons step rest ih =>
      rw [yielded_cons, skipped]
      have split := ((ih (step.remaining entries)).append_left _).trans (step.answered_perm entries)
      simp only [List.append_assoc] at split ⊢
      exact ((List.perm_append_comm_assoc _ _ _).append_left _).trans split

theorem yielded_append (first second : List Step) (entries : List ι) :
    yielded (first ++ second) entries = yielded first entries ++ yielded second (left first entries) := by
  induction first generalizing entries with
  | nil => rfl
  | cons step rest ih =>
      rw [List.cons_append, yielded_cons, yielded_cons, ih, List.append_assoc]
      rfl

theorem yielded_nil (steps : List Step) : yielded steps ([] : List ι) = [] := by
  induction steps with
  | nil => rfl
  | cons step rest ih =>
      obtain ⟨nothing, still⟩ := step.taken_answered_nil
      rw [yielded_cons, nothing, still, ih, List.append_nil]

theorem next_eq (walk : Traversal ι) :
    walk.next.1 = walk.toList.head? ∧ walk.next.2.toList = walk.toList.drop 1 := by
  obtain ⟨front, back⟩ := walk
  cases front with
  | cons first front => exact ⟨rfl, rfl⟩
  | nil => cases back <;> exact ⟨rfl, rfl⟩

theorem nextBack_eq (walk : Traversal ι) :
    walk.nextBack.1 = walk.toList.getLast? ∧
      walk.nextBack.2.toList = walk.toList.take (walk.toList.length - 1) := by
  rw [← List.dropLast_eq_take]
  obtain ⟨front, back⟩ := walk
  rcases List.eq_nil_or_concat back with rfl | ⟨back, last, rfl⟩
  · rcases List.eq_nil_or_concat front with rfl | ⟨front, last, rfl⟩
    · exact ⟨rfl, rfl⟩
    · simp [nextBack, toList]
  · simp [nextBack, toList, List.dropLast_append_of_ne_nil]

theorem nth_eq (skipped : Nat) (walk : Traversal ι) :
    (walk.nth skipped).1 = walk.toList[skipped]? ∧
      (walk.nth skipped).2.toList = walk.toList.drop (skipped + 1) := by
  induction skipped generalizing walk with
  | zero =>
      rw [nth, ← List.head?_eq_getElem?]
      exact next_eq walk
  | succ skipped ih =>
      obtain ⟨first, rest⟩ := next_eq walk
      rw [nth]
      cases taken : walk.next with
      | mk found others =>
          rw [taken] at first rest
          cases found with
          | none =>
              rw [List.head?_eq_none_iff.mp first.symm] at rest ⊢
              exact ⟨rfl, rest⟩
          | some entry =>
              obtain ⟨answer, left⟩ := ih others
              rw [rest] at answer left
              rw [List.getElem?_drop, Nat.add_comm] at answer
              rw [List.drop_drop, Nat.add_comm] at left
              exact ⟨answer, left⟩

theorem nthBack_eq (skipped : Nat) (walk : Traversal ι) :
    (walk.nthBack skipped).1 = walk.toList.reverse[skipped]? ∧
      (walk.nthBack skipped).2.toList = walk.toList.take (walk.toList.length - (skipped + 1)) := by
  induction skipped generalizing walk with
  | zero =>
      rw [nthBack, ← List.head?_eq_getElem?, List.head?_reverse]
      exact nextBack_eq walk
  | succ skipped ih =>
      obtain ⟨last, rest⟩ := nextBack_eq walk
      rw [nthBack]
      cases taken : walk.nextBack with
      | mk found others =>
          rw [taken] at last rest
          cases found with
          | none =>
              rw [List.getLast?_eq_none_iff.mp last.symm] at rest ⊢
              exact ⟨rfl, rest.trans List.take_nil.symm⟩
          | some entry =>
              obtain ⟨answer, left⟩ := ih others
              rw [rest] at answer left
              constructor
              · rw [answer, ← List.drop_reverse, List.getElem?_drop, Nat.add_comm]
              · rw [left, List.length_take, List.take_take]
                congr 1
                omega

/-- The entries left are counted, if their number is a word. -/
theorem length_eq (bounded : walk.toList.length < Word.limit) :
    walk.length = .ok walk.toList.length := by
  rw [toList, List.length_append] at *
  exact Word.add_eq bounded

/-- A walk answers as a cursor over the entries it has left, however they are cut into runs. -/
theorem answer_exists (step : Step) (bounded : walk.toList.length < Word.limit) :
    ∃ others, walk.answer step = .ok (step.answered walk.toList, others) ∧
      others.toList = step.remaining walk.toList := by
  have taking : ∀ taken : Option ι × Traversal ι, ∀ yielded? : Option ι,
      taken.1 = yielded? → (.ok (taken.map .one id) : Checked (Answer ι × Traversal ι)) =
        .ok (.one yielded?, taken.2) := by
    intro taken yielded? same
    rw [← same]
    rfl
  have counted := length_eq bounded
  cases step with
  | next => exact ⟨_, taking _ _ (next_eq walk).1, (next_eq walk).2⟩
  | nextBack => exact ⟨_, taking _ _ (nextBack_eq walk).1, (nextBack_eq walk).2⟩
  | nth skipped => exact ⟨_, taking _ _ (nth_eq skipped walk).1, (nth_eq skipped walk).2⟩
  | nthBack skipped => exact ⟨_, taking _ _ (nthBack_eq skipped walk).1, (nthBack_eq skipped walk).2⟩
  | length | bounds => exact ⟨walk, by simp only [answer, counted]; rfl, rfl⟩
  | rest | reversed => exact ⟨_, rfl, rfl⟩

namespace Step

/-- A cursor yields entries that it had before it. -/
theorem mem_of_answered (step : Step) (member : entry ∈ (step.answered entries).taken) :
    entry ∈ entries :=
  (step.answered_perm entries).subset (List.mem_append_left _ (List.mem_append_left _ member))

theorem mem_of_remaining (step : Step) (member : entry ∈ step.remaining entries) :
    entry ∈ entries :=
  (step.remaining_sublist entries).subset member

theorem remaining_lt {bound : Nat} (step : Step) (bounded : entries.length < bound) :
    (step.remaining entries).length < bound :=
  Nat.lt_of_le_of_lt (step.remaining_sublist entries).length_le bounded

end Step

theorem left_next (count : Nat) (entries : List ι) :
    left (List.replicate count .next) entries = entries.drop count := by
  induction count generalizing entries with
  | zero => rfl
  | succ count ih =>
      calc left (List.replicate (count + 1) .next) entries
        _ = left (List.replicate count .next) (entries.drop 1) := rfl
        _ = entries.drop (count + 1) := by rw [ih, List.drop_drop, Nat.add_comm]

theorem left_nextBack (count : Nat) (entries : List ι) :
    (left (List.replicate count .nextBack) entries).reverse = entries.reverse.drop count := by
  induction count generalizing entries with
  | zero => rfl
  | succ count ih =>
      calc (left (List.replicate (count + 1) .nextBack) entries).reverse
        _ = (left (List.replicate count .nextBack) (entries.take (entries.length - 1))).reverse := rfl
        _ = entries.dropLast.reverse.drop count := by rw [ih, List.dropLast_eq_take]
        _ = entries.reverse.drop (count + 1) := by
          rw [← List.tail_reverse, ← List.drop_one, List.drop_drop, Nat.add_comm]

theorem left_sublist (steps : List Step) (entries : List ι) :
    (left steps entries).Sublist entries := by
  induction steps generalizing entries with
  | nil => exact .refl entries
  | cons step rest ih => exact (ih _).trans (step.remaining_sublist entries)

theorem after_exists (steps : List Step) (bounded : walk.toList.length < Word.limit) :
    ∃ walked, walk.after steps = .ok walked ∧ walked.toList = left steps walk.toList := by
  induction steps generalizing walk with
  | nil => exact ⟨walk, rfl, rfl⟩
  | cons step rest ih =>
      obtain ⟨others, asked, entries⟩ := answer_exists step bounded
      obtain ⟨walked, ran, reached⟩ := @ih others (by rw [entries]; exact step.remaining_lt bounded)
      refine ⟨walked, ?_, reached.trans (congrArg (left rest) entries)⟩
      rw [after, List.foldlM_cons, asked]
      exact ran

/-- Taking entries from the front yields them in order, and nothing more after the last. -/
theorem next_after (bounded : walk.toList.length < Word.limit) (count : Nat) :
    ∃ walked, walk.after (List.replicate count .next) = .ok walked ∧
      walked.next.1 = walk.toList[count]? := by
  obtain ⟨walked, ran, reached⟩ := after_exists (List.replicate count .next) bounded
  exact ⟨walked, ran, by rw [(next_eq _).1, reached, left_next, List.head?_drop]⟩

/-- Taking entries from the back yields them in reverse. -/
theorem nextBack_after (bounded : walk.toList.length < Word.limit) (count : Nat) :
    ∃ walked, walk.after (List.replicate count .nextBack) = .ok walked ∧
      walked.nextBack.1 = walk.toList.reverse[count]? := by
  obtain ⟨walked, ran, reached⟩ := after_exists (List.replicate count .nextBack) bounded
  refine ⟨walked, ran, ?_⟩
  rw [(nextBack_eq _).1, reached, ← List.head?_reverse, left_nextBack, List.head?_drop]

end RingDeque.Traversal
