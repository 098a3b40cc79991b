import Mathlib.Data.List.Forall2
import RingDeque.Datum
import RingDeque.Proofs.Ring.Answering
import RingDeque.Session.Reply

/-!
Comparing and hashing rings by the values of their elements.

Neither the layout of a ring nor its capacity has a part in equality, in the order or in the hash:
they are those of the lists of values. Equality of values need not be reflexive, and values may be
unordered. Main statement: `Ring.comparison_sees_contents`.
-/

namespace RingDeque

theorem forall₂_of_mem {α : Type} {as bs : List α} {R S : α → α → Prop}
    (follows : ∀ a ∈ as, ∀ b ∈ bs, R a b → S a b) (related : List.Forall₂ R as bs) :
    List.Forall₂ S as bs := by
  obtain ⟨length, pairs⟩ := List.forall₂_iff_zip.mp related
  refine List.forall₂_iff_zip.mpr ⟨length, fun member => ?_⟩
  obtain ⟨left, right⟩ := List.of_mem_zip member
  exact follows _ left _ right (pairs member)

section

variable {α : Type} [Value α] {a b : α} {as bs : List α} {result other : Option Ordering}

/-- Two lists of the same length whose values are equal pair by pair. -/
def Alike (as bs : List α) : Prop :=
  List.Forall₂ (fun a b => (a == b) = true) as bs

/-- The first `count` pairs of two lists compare as equal. -/
def Tied (as bs : List α) (count : Nat) : Prop :=
  ∀ index < count, ∃ a b, as[index]? = some a ∧ bs[index]? = some b ∧ Value.order? a b = some .eq

/-- What decides the order of two lists: the first pair that does not compare as equal, or else their
lengths. -/
inductive Decides (as bs : List α) : Option Ordering → Prop where
  | pair {index : Nat} {a b : α} (before : Tied as bs index) (left : as[index]? = some a)
      (right : bs[index]? = some b) (differs : Value.order? a b ≠ some .eq) :
      Decides as bs (Value.order? a b)
  | lengths (tied : Tied as bs (min as.length bs.length)) :
      Decides as bs (some (compare as.length bs.length))

/-- Values that the total order applies to. -/
structure Ordered (values : List α) : Prop where
  agrees : ∀ a ∈ values, ∀ b ∈ values, Value.order? a b = some (Value.order a b)
  refl : ∀ a ∈ values, Value.order a a = .eq

theorem beq_iff_alike (as bs : List α) : (as == bs) = true ↔ Alike as bs := by
  induction as generalizing bs with
  | nil => cases bs <;> simp [Alike]
  | cons a as ih =>
      cases bs with
      | nil => simp [Alike]
      | cons b bs => simp [Alike, List.cons_beq_cons, ih]

theorem false_iff_alike (different : as.length ≠ bs.length) : false = true ↔ Alike as bs :=
  ⟨fun same => absurd same Bool.false_ne_true, fun alike => absurd alike.length_eq different⟩

theorem all_zip_iff_alike (same : as.length = bs.length) :
    ((as.zip bs).all fun (a, b) => a == b) = true ↔ Alike as bs := by
  rw [Alike, List.forall₂_iff_zip, List.all_eq_true]
  constructor
  · intro all
    exact ⟨same, fun member => all _ member⟩
  · intro pairs entry member
    exact pairs.2 member

/-- The second list may be cut where the first one is put together. -/
theorem alike_append_iff (front back values : List α) :
    Alike (front ++ back) values ↔
      Alike front (values.take front.length) ∧ Alike back (values.drop front.length) := by
  constructor
  · intro alike
    have frontAlike := List.forall₂_take front.length alike
    have backAlike := List.forall₂_drop front.length alike
    rw [List.take_left] at frontAlike
    rw [List.drop_left] at backAlike
    exact ⟨frontAlike, backAlike⟩
  · rintro ⟨frontAlike, backAlike⟩
    have whole : Alike (front ++ back) (values.take front.length ++ values.drop front.length) :=
      List.rel_append frontAlike backAlike
    rwa [List.take_append_drop] at whole

theorem Alike.flatMap_hashed (alike : Alike as bs)
    (respects : ∀ a ∈ as, ∀ b ∈ bs, (a == b) = true → Value.hashed a = Value.hashed b) :
    as.flatMap Value.hashed = bs.flatMap Value.hashed := by
  have hashes := forall₂_of_mem respects alike
  clear respects alike
  induction hashes with
  | nil => rfl
  | cons first _ rest => rw [List.flatMap_cons, List.flatMap_cons, first, rest]

theorem Tied.cons {count : Nat} (tied : Tied as bs count) (first : Value.order? a b = some .eq) :
    Tied (a :: as) (b :: bs) (count + 1) := by
  intro index inside
  cases index with
  | zero => exact ⟨a, b, rfl, rfl, first⟩
  | succ index => exact tied index (by omega)

theorem Decides.cons (decides : Decides as bs result) (first : Value.order? a b = some .eq) :
    Decides (a :: as) (b :: bs) result := by
  cases decides with
  | pair before left right differs =>
      exact .pair (before.cons first) (by simpa using left) (by simpa using right) differs
  | lengths tied =>
      have longer : compare as.length bs.length =
          compare (a :: as).length (b :: bs).length := by
        simp only [List.length_cons, Nat.compare_eq_ite_lt, Nat.add_lt_add_iff_right]
      rw [longer]
      refine .lengths ?_
      rw [List.length_cons, List.length_cons, Nat.add_min_add_right]
      exact tied.cons first

theorem lexicographic?_decides (as bs : List α) : Decides as bs (lexicographic? as bs) := by
  fun_induction lexicographic? as bs with
  | case1 => exact .lengths fun index inside => by simp at inside
  | case2 b bs =>
      have shorter : compare ([] : List α).length (b :: bs).length = .lt := by
        simp [Nat.compare_eq_lt]
      rw [← shorter]
      exact .lengths fun index inside => by simp at inside
  | case3 a as =>
      have longer : compare (a :: as).length ([] : List α).length = .gt := by
        simp [Nat.compare_eq_gt]
      rw [← longer]
      exact .lengths fun index inside => by simp at inside
  | case4 a as b bs first ih => exact ih.cons first
  | case5 a as b bs differs =>
      have before : Tied (a :: as) (b :: bs) 0 := fun index inside => by simp at inside
      exact .pair before rfl rfl differs

theorem Tied.order?_eq {count index : Nat} (tied : Tied as bs count) (inside : index < count)
    (left : as[index]? = some a) (right : bs[index]? = some b) :
    Value.order? a b = some .eq := by
  obtain ⟨x, y, leftSame, rightSame, same⟩ := tied index inside
  cases left.symm.trans leftSame
  cases right.symm.trans rightSame
  exact same

theorem Tied.order?_eq_of_all {index : Nat} (tied : Tied as bs (min as.length bs.length))
    (left : as[index]? = some a) (right : bs[index]? = some b) :
    Value.order? a b = some .eq :=
  tied.order?_eq (Nat.lt_min.mpr
    ⟨(List.getElem?_eq_some_iff.mp left).1, (List.getElem?_eq_some_iff.mp right).1⟩) left right

theorem Decides.unique (one : Decides as bs result) (two : Decides as bs other) :
    result = other := by
  cases one with
  | @pair index a b before left right differs =>
      cases two with
      | @pair index' _ _ before' left' right' differs' =>
          -- All pairs before either of them are tied, so neither comes before the other.
          obtain below | rfl | above := Nat.lt_trichotomy index index'
          · exact absurd (before'.order?_eq below left right) differs
          · cases left.symm.trans left'
            cases right.symm.trans right'
            rfl
          · exact absurd (before.order?_eq above left' right') differs'
      | lengths tied => exact absurd (tied.order?_eq_of_all left right) differs
  | lengths tied =>
      cases two with
      | pair _ left right differs => exact absurd (tied.order?_eq_of_all left right) differs
      | lengths => rfl

theorem lexicographic?_iff_decides (as bs : List α) (result : Option Ordering) :
    lexicographic? as bs = result ↔ Decides as bs result := by
  constructor
  · rintro rfl
    exact lexicographic?_decides as bs
  · exact (lexicographic?_decides as bs).unique

theorem lexicographic?_eq_iff (as bs : List α) :
    lexicographic? as bs = some .eq ↔
      List.Forall₂ (fun a b => Value.order? a b = some .eq) as bs := by
  fun_induction lexicographic? as bs with
  | case1 => simp
  | case2 => simp
  | case3 => simp
  | case4 a as b bs first ih => simp [ih, first]
  | case5 a as b bs differs =>
      constructor
      · exact fun same => absurd same differs
      · rintro (_ | ⟨same, _⟩)
        exact absurd same differs

/-- The two orders agree as far as the total one applies. -/
theorem lexicographic?_of_agrees
    (agrees : ∀ a ∈ as, ∀ b ∈ bs, Value.order? a b = some (Value.order a b)) :
    lexicographic? as bs = some (lexicographic as bs) := by
  induction as generalizing bs with
  | nil => cases bs <;> rfl
  | cons a as ih =>
      cases bs with
      | nil => rfl
      | cons b bs =>
          have first := agrees a (by simp) b (by simp)
          have rest : lexicographic? as bs = some (lexicographic as bs) :=
            ih fun x left y right => agrees x (by simp [left]) y (by simp [right])
          simp only [lexicographic?, lexicographic, first, rest]
          cases Value.order a b <;> rfl

theorem Ordered.all_orderable {values : List α} (ordered : Ordered values) (within : as ⊆ values) :
    (as.all fun value => Value.order? value value == some .eq) = true := by
  rw [List.all_eq_true]
  intro value member
  rw [ordered.agrees value (within member) value (within member),
    ordered.refl value (within member)]
  rfl

end

namespace Ring

variable {α : Type} [Value α] {first second ring : Ring α}

/-- What comparing a ring of the values `as` with one of the values `bs` yields, and what hashing
them does. -/
structure Compares (first second : Ring α) (as bs : List α) : Prop where
  equals : ∃ same, first.equals second = .ok same ∧ (same = true ↔ Alike as bs)
  equalsList : ∀ values, ∃ same, first.equalsList values = .ok same ∧
    (same = true ↔ Alike as values)
  /-- A list of the ring's length can be cut where the ring's runs meet. -/
  cut : ∀ front back, first.runs = .ok (front, back) →
    ∀ values : List α, values.length = first.len → ∃ before behind,
      cutBefore values front.length = .ok before ∧ cutAfter values front.length = .ok behind ∧
        before ++ behind = values
  order? : ∃ result, first.order? second = .ok result ∧
    ∀ other, Decides as bs other ↔ other = result
  total : Ordered (as ++ bs) → ∃ order, first.totalOrder? second = .ok (some order) ∧
    first.order? second = .ok (some order)
  operators : ∀ comparison : Session.Comparison,
    first.order? second = .ok comparison.partialOrder →
      (comparison.lt = true ↔ Decides as bs (some .lt)) ∧
      (comparison.gt = true ↔ Decides as bs (some .gt)) ∧
      (comparison.le = true ↔ Decides as bs (some .lt) ∨ Decides as bs (some .eq)) ∧
      (comparison.ge = true ↔ Decides as bs (some .gt) ∨ Decides as bs (some .eq))
  hashed : first.hashed = .ok (.size as.length :: as.flatMap Value.hashed) ∧
    second.hashed = .ok (.size bs.length :: bs.flatMap Value.hashed)
  respects : (∀ a ∈ as, ∀ b ∈ bs, (a == b) = true → Value.hashed a = Value.hashed b) →
    first.equals second = .ok true → first.hashed = second.hashed
  coincides : (∀ a ∈ as, ∀ b ∈ bs, Value.order? a b = some .eq ↔ (a == b) = true) →
    (first.order? second = .ok (some .eq) ↔ first.equals second = .ok true)

theorem WellFormed.equals_alike (one : first.WellFormed) (other : second.WellFormed) :
    ∃ same, first.equals second = .ok same ∧
      (same = true ↔ Alike (first.toList.map Item.value) (second.toList.map Item.value)) := by
  have firstLength := one.length_toList
  have secondLength := other.length_toList
  rw [Ring.equals]
  by_cases lengths : first.len = second.len
  · rw [if_neg (not_not.mpr lengths)]
    simp only [one.values_eq, other.values_eq, Checked.ok_bind, Checked.pure_eq_ok]
    exact ⟨_, rfl, all_zip_iff_alike (by simp only [List.length_map]; omega)⟩
  · rw [if_pos lengths]
    exact ⟨false, rfl, false_iff_alike (by simp only [List.length_map]; omega)⟩

theorem WellFormed.equalsList_alike (wellFormed : ring.WellFormed) (values : List α) :
    ∃ same, ring.equalsList values = .ok same ∧
      (same = true ↔ Alike (ring.toList.map Item.value) values) := by
  have length := wellFormed.length_toList
  obtain ⟨front, back, parts, compared⟩ := wellFormed.equalsList_exists values
  refine ⟨_, compared, ?_⟩
  by_cases lengths : ring.len = values.length
  · -- The list is cut where the runs meet, so the same pairs are compared as in the whole.
    rw [decide_eq_true lengths, Bool.true_and, Bool.and_eq_true, beq_iff_alike, beq_iff_alike,
      ← parts, List.map_append, alike_append_iff, List.length_map]
  · rw [decide_eq_false lengths, Bool.false_and]
    exact false_iff_alike (by simp only [List.length_map]; omega)

theorem WellFormed.totalOrder?_of_ordered (one : first.WellFormed) (other : second.WellFormed)
    (ordered : Ordered (first.toList.map Item.value ++ second.toList.map Item.value)) :
    ∃ order, first.totalOrder? second = .ok (some order) ∧
      first.order? second = .ok (some order) := by
  have left := ordered.all_orderable (List.subset_append_left ..)
  have right := ordered.all_orderable (List.subset_append_right ..)
  refine ⟨lexicographic (first.toList.map Item.value) (second.toList.map Item.value), ?_, ?_⟩
  · simp only [totalOrder?, one.isOrderable_eq, other.isOrderable_eq, left, right, one.values_eq,
      other.values_eq, Checked.ok_bind, Checked.pure_eq_ok, Bool.and_self, if_true]
  · rw [one.order?_eq other, lexicographic?_of_agrees fun a left b right =>
      ordered.agrees a (List.mem_append_left _ left) b (List.mem_append_right _ right)]

/-- Comparing and hashing see the values in order and nothing else of a ring. -/
theorem comparison_sees_contents (one : first.WellFormed) (other : second.WellFormed) :
    first.Compares second (first.toList.map Item.value) (second.toList.map Item.value) := by
  have order := one.order?_eq other
  obtain ⟨same, equals, alike⟩ := one.equals_alike other
  constructor
  case equals => exact ⟨same, equals, alike⟩
  case equalsList => exact one.equalsList_alike
  case cut =>
    intro front back read values length
    have inside := length ▸ one.length_front_le read
    exact ⟨_, _, cutBefore_eq inside, cutAfter_eq inside, List.take_append_drop ..⟩
  case order? =>
    exact ⟨_, order, fun other => (lexicographic?_iff_decides _ _ other).symm.trans eq_comm⟩
  case total => exact one.totalOrder?_of_ordered other
  case operators =>
    intro comparison asked
    have result := Except.ok.inj (order.symm.trans asked)
    simp only [← lexicographic?_iff_decides, result, Session.Comparison.lt, Session.Comparison.gt,
      Session.Comparison.le, Session.Comparison.ge]
    cases comparison.partialOrder with
    | none => simp
    | some order => cases order <;> decide
  case hashed => exact ⟨one.hashed_eq, other.hashed_eq⟩
  case respects =>
    intro respects equal
    cases equals.symm.trans equal
    rw [one.hashed_eq, other.hashed_eq, (alike.mp rfl).flatMap_hashed respects,
      (alike.mp rfl).length_eq]
  case coincides =>
    intro coincides
    rw [order, equals, Except.ok.injEq, Except.ok.injEq, lexicographic?_eq_iff, alike]
    constructor
    · exact forall₂_of_mem fun a left b right => (coincides a left b right).mp
    · exact forall₂_of_mem fun a left b right => (coincides a left b right).mpr

/-- Two integers around the end of a block of three slots. -/
def crossing : Ring Datum where
  block := ⟨#[some ⟨1, .int 8⟩, none, some ⟨0, .int 7⟩], by decide⟩
  start := 2
  len := 2
  registry := ⟨0, 0, 0, ⟨#[0, 0, 0], by decide⟩⟩

/-- The same two integers in the first slots of a larger block. -/
def upright : Ring Datum where
  block := ⟨#[some ⟨2, .int 7⟩, some ⟨3, .int 8⟩, none, none, none], by decide⟩
  start := 0
  len := 2
  registry := ⟨1, 0, 0, ⟨#[0, 0, 0, 0, 0], by decide⟩⟩

/-- An integer and a value that is unequal to itself, without a free slot. -/
def unequalled : Ring Datum where
  block := ⟨#[some ⟨5, .nan⟩, some ⟨4, .int 7⟩], by decide⟩
  start := 1
  len := 2
  registry := ⟨2, 0, 0, ⟨#[0, 0], by decide⟩⟩

/-- Rings of equal values in different layouts are equal, also to the list of the values, compare as
equal and are hashed alike. A ring that holds a value unequal to itself is not equal to itself, and
has no order with itself. -/
theorem comparison_sees_contents_crossing :
    crossing.equals upright = .ok true ∧ crossing.equalsList [.int 7, .int 8] = .ok true ∧
      crossing.order? upright = .ok (some .eq) ∧ crossing.totalOrder? upright = .ok (some .eq) ∧
      crossing.hashed = upright.hashed ∧
      unequalled.equals unequalled = .ok false ∧ unequalled.order? unequalled = .ok none := by
  have crossingFormed : crossing.WellFormed :=
    ⟨by decide, by decide, rfl, by simp only [Holds]; decide⟩
  have uprightFormed : upright.WellFormed :=
    ⟨by decide, by decide, rfl, by simp only [Holds]; decide⟩
  have unequalledFormed : unequalled.WellFormed :=
    ⟨by decide, by decide, rfl, by simp only [Holds]; decide⟩
  have compares := comparison_sees_contents crossingFormed uprightFormed
  have itself := comparison_sees_contents unequalledFormed unequalledFormed
  have first : crossing.toList.map Item.value = [.int 7, .int 8] := rfl
  have second : upright.toList.map Item.value = [.int 7, .int 8] := rfl
  have third : unequalled.toList.map Item.value = [.int 7, .nan] := rfl
  rw [first, second] at compares
  rw [third] at itself
  have alike : Alike [Datum.int 7, .int 8] [.int 7, .int 8] := .cons rfl (.cons rfl .nil)
  have ordered : Ordered ([Datum.int 7, .int 8] ++ [.int 7, .int 8]) :=
    ⟨by simp; decide, by simp; decide⟩
  obtain ⟨same, equal, sameAlike⟩ := compares.equals
  obtain rfl := sameAlike.mpr alike
  obtain ⟨sameList, equalList, sameListAlike⟩ := compares.equalsList [.int 7, .int 8]
  obtain rfl := sameListAlike.mpr alike
  have tied := (compares.coincides (by simp; decide)).mpr equal
  obtain ⟨total, totally, partially⟩ := compares.total ordered
  cases tied.symm.trans partially
  have hashes := compares.respects (by simp; decide) equal
  obtain ⟨itselfSame, itselfEqual, itselfAlike⟩ := itself.equals
  obtain ⟨itselfOrder, itselfCompared, onlyNone⟩ := itself.order?
  obtain rfl := (onlyNone none).mp (lexicographic?_decides [Datum.int 7, .nan] [.int 7, .nan])
  have unequal : itselfSame = false := by
    apply Bool.eq_false_iff.mpr
    intro same
    obtain _ | ⟨-, _ | ⟨wrong, -⟩⟩ := itselfAlike.mp same
    cases wrong
  rw [unequal] at itselfEqual
  exact ⟨equal, equalList, tied, totally, hashes, itselfEqual, itselfCompared⟩

end Ring

end RingDeque
