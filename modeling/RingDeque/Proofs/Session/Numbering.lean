import Mathlib.Data.List.Nodup
import RingDeque.Session.Basic

/-!
Buffers under their numbers.

As long as no number is given twice, a session is the buffer under a number and the other ones, and
looking up a number finds what was put there last.
-/

namespace RingDeque.Session

variable {α : Type} {session : Session α} {number other : Nat} {buffer changed : Buffer α}

/-- The buffers under other numbers. -/
def others (session : Session α) (number : Nat) : List (Nat × Buffer α) :=
  session.buffers.filter (·.1 != number)

/-- No number is given twice. -/
def Numbered (session : Session α) : Prop :=
  (session.buffers.map Prod.fst).Nodup

theorem mem_others {entry : Nat × Buffer α} :
    entry ∈ session.others number ↔ entry ∈ session.buffers ∧ entry.1 ≠ number := by
  simp [others]

theorem lookup_filter (entries : List (Nat × Buffer α)) (distinct : other ≠ number) :
    (entries.filter (·.1 != number)).lookup other = entries.lookup other := by
  induction entries with
  | nil => rfl
  | cons entry rest ih =>
      obtain ⟨key, held⟩ := entry
      by_cases same : key = number
      · have skipped : (other == key) = false := by simpa [same] using distinct
        simp only [List.filter_cons, same, bne_self_eq_false, Bool.false_eq_true, if_false, ih]
        rw [List.lookup_cons, ← same, skipped]
      · have kept : (key != number) = true := by simpa using same
        simp only [List.filter_cons, kept, if_true, List.lookup_cons, ih]

theorem lookup_filter_self (entries : List (Nat × Buffer α)) :
    (entries.filter (·.1 != number)).lookup number = none := by
  rw [List.lookup_eq_none_iff]
  intro entry member
  have kept := (List.mem_filter.mp member).2
  simp only [bne_iff_ne, ne_eq] at kept
  simpa using Ne.symm kept

theorem buffer?_withBuffer_self : (session.withBuffer number buffer).buffer? number = some buffer := by
  simp [withBuffer, buffer?, List.lookup_append, lookup_filter_self]

theorem buffer?_withBuffer_of_ne (distinct : other ≠ number) :
    (session.withBuffer number buffer).buffer? other = session.buffer? other := by
  have skipped : (other == number) = false := by simpa using distinct
  simp [withBuffer, buffer?, List.lookup_append, lookup_filter _ distinct, List.lookup_cons, skipped]

theorem mem_of_buffer? (found : session.buffer? number = some buffer) :
    (number, buffer) ∈ session.buffers := by
  obtain ⟨before, after, parts, -⟩ := List.lookup_eq_some_iff.mp found
  rw [parts]
  simp

theorem Numbered.perm (numbered : session.Numbered) (found : session.buffer? number = some buffer) :
    session.buffers.Perm ((number, buffer) :: session.others number) := by
  obtain ⟨before, after, parts, fresh⟩ := List.lookup_eq_some_iff.mp found
  rw [Numbered, parts] at numbered
  have absent : ∀ entry ∈ before ++ after, entry.1 ≠ number := by
    intro entry member same
    simp only [List.map_append, List.map_cons, List.nodup_append, List.nodup_cons] at numbered
    obtain ⟨-, ⟨notLater, -⟩, apart⟩ := numbered
    rcases List.mem_append.mp member with early | late
    · exact apart entry.1 (List.mem_map_of_mem early) number (by simp) same
    · exact notLater (same ▸ List.mem_map_of_mem late)
  have kept : session.others number = before ++ after := by
    rw [others, parts, List.filter_append, List.filter_cons]
    simp only [bne_self_eq_false, Bool.false_eq_true, if_false]
    rw [← List.filter_append, List.filter_eq_self]
    intro entry member
    simpa using absent entry member
  rw [kept, parts]
  exact List.perm_middle

theorem Numbered.buffer?_eq_some_iff (numbered : session.Numbered) :
    session.buffer? number = some buffer ↔ (number, buffer) ∈ session.buffers := by
  refine ⟨mem_of_buffer?, fun member => ?_⟩
  cases found : session.buffer? number with
  | none =>
      have absent := List.lookup_eq_none_iff.mp found (number, buffer) member
      simp at absent
  | some held =>
      have same := (numbered.perm found).subset member
      rcases List.mem_cons.mp same with equal | elsewhere
      · rw [(Prod.mk.inj equal).2]
      · exact absurd rfl (mem_others.mp elsewhere).2

theorem others_of_vacant (vacant : session.buffer? number = none) :
    session.others number = session.buffers := by
  rw [others, List.filter_eq_self]
  intro entry member
  have absent : number ≠ entry.1 := by
    simpa using List.lookup_eq_none_iff.mp vacant entry member
  simpa using Ne.symm absent

end RingDeque.Session
