import Mathlib.Algebra.BigOperators.Group.List.Basic
import RingDeque.Proofs.Session.Buffers
import RingDeque.Proofs.Session.Numbering

/-!
What operations on a session keep, at any point in the middle of their work.

Each buffer descends from one that had its number and its identity before, or is new; every cursor
in a bookmark was issued by one of the buffers there are or were; and the elements that the ledger
has afloat are those in the buffers, together with those `owned` by the operation.
-/

namespace RingDeque.Session

open Effect

variable {α β γ : Type} {writes : Nat → Prop} {origin session middle later after : Session α}
  {owned further : Multiset Nat} {number other : Nat} {buffer changed : Buffer α} {cursor : Cursor}
  {ledger : Ledger α}

/-- The identities of the elements in numbered buffers. -/
def afloat (buffers : List (Nat × Buffer α)) : Multiset Nat :=
  (buffers.map fun entry => ids entry.2.ring.toList).sum

theorem afloat_perm {buffers rest : List (Nat × Buffer α)} (same : buffers.Perm rest) :
    afloat buffers = afloat rest :=
  (same.map _).sum_eq

@[simp] theorem afloat_nil : afloat ([] : List (Nat × Buffer α)) = 0 := rfl

@[simp] theorem afloat_cons {entry : Nat × Buffer α} {rest : List (Nat × Buffer α)} :
    afloat (entry :: rest) = ids entry.2.ring.toList + afloat rest := rfl

theorem afloat_of_found (numbered : session.Numbered)
    (found : session.buffer? number = some buffer) :
    afloat session.buffers = ids buffer.ring.toList + afloat (session.others number) :=
  afloat_perm (numbered.perm found)

theorem afloat_withBuffer :
    afloat (session.withBuffer number changed).buffers =
      ids changed.ring.toList + afloat (session.others number) :=
  afloat_perm (List.perm_append_comm.trans (List.Perm.refl _))

/-- A cursor that some buffer issued at some earlier moment. -/
structure Vouches (session : Session α) (cursor : Cursor) : Prop where
  known : cursor.owner < session.ledger.rings
  regular : cursor.Regular
  vouched : ∀ entry ∈ session.buffers, entry.2.ring.Vouches cursor

/-- Buffers have numbers and identities of their own, and their rings are well formed. -/
structure Valid (session : Session α) : Prop where
  numbered : session.Numbered
  owners : (session.buffers.map fun entry => entry.2.ring.registry.owner).Nodup
  wellFormed : ∀ entry ∈ session.buffers, entry.2.ring.WellFormed
  known : ∀ entry ∈ session.buffers, entry.2.ring.registry.owner < session.ledger.rings
  vouched : ∀ entry ∈ session.bookmarks, session.Vouches entry.2.cursor

/-- Every buffer is new or has aged since there was an earlier session, in which it had the same
number. -/
structure Descends (writes : Nat → Prop) (origin session : Session α) : Prop where
  rings : origin.ledger.rings ≤ session.ledger.rings
  buffers : ∀ entry ∈ session.buffers, origin.ledger.rings ≤ entry.2.ring.registry.owner ∨
    ∃ earlier, (entry.1, earlier) ∈ origin.buffers ∧
      Ring.Ages (writes entry.1) earlier.ring entry.2.ring

theorem Descends.refl (session : Session α) : Descends writes session session :=
  ⟨Nat.le_refl _, fun entry member => .inr ⟨entry.2, member, .refl _⟩⟩

theorem Descends.trans (first : Descends writes origin middle)
    (second : Descends writes middle later) : Descends writes origin later where
  rings := Nat.le_trans first.rings second.rings
  buffers := by
    intro entry member
    rcases second.buffers entry member with fresh | ⟨earlier, inMiddle, ages⟩
    · exact .inl (Nat.le_trans first.rings fresh)
    · rcases first.buffers (entry.1, earlier) inMiddle with fresh | ⟨earliest, inOrigin, agesFirst⟩
      · exact .inl (by rwa [ages.owner])
      · exact .inr ⟨earliest, inOrigin, agesFirst.trans ages⟩

theorem Vouches.of_descends (vouches : origin.Vouches cursor)
    (descends : Descends writes origin session) : session.Vouches cursor where
  known := Nat.lt_of_lt_of_le vouches.known descends.rings
  regular := vouches.regular
  vouched := by
    intro entry member
    rcases descends.buffers entry member with fresh | ⟨earlier, inOrigin, ages⟩
    · refine Ring.vouches_of_foreign ?_
      have := vouches.known
      omega
    · exact (vouches.vouched _ inOrigin).of_ages ages

/-- A cursor that one buffer issues is vouched for by all of them. -/
theorem Valid.vouches_of_issues (valid : session.Valid) (member : (number, buffer) ∈ session.buffers)
    (issues : buffer.ring.Issues cursor) : session.Vouches cursor := by
  obtain ⟨index, points⟩ := issues
  have own := points.owner (valid.wellFormed _ member)
  refine ⟨by rw [own]; exact valid.known _ member, points.regular (valid.wellFormed _ member), ?_⟩
  intro entry inside
  by_cases same : entry = (number, buffer)
  · rw [same]
    exact points.vouches (valid.wellFormed _ member)
  · refine Ring.vouches_of_foreign fun foreign => same ?_
    exact List.inj_on_of_nodup_map valid.owners inside member (foreign.symm.trans own)

/-- The buffer that comes under a number: it has aged from the one that was there, or it is new. -/
def Replaces (writes : Nat → Prop) (session : Session α) (number : Nat) (changed : Buffer α)
    (ledger : Ledger α) : Prop :=
  (∃ buffer, session.buffer? number = some buffer ∧
    Ring.Ages (writes number) buffer.ring changed.ring) ∨
  session.ledger.rings ≤ changed.ring.registry.owner ∧ changed.ring.registry.owner < ledger.rings

theorem mem_withBuffer {entry : Nat × Buffer α}
    (member : entry ∈ (session.withBuffer number changed).buffers) :
    entry = (number, changed) ∨ entry ∈ session.buffers ∧ entry.1 ≠ number := by
  rcases List.mem_append.mp member with old | new
  · exact .inr (mem_others.mp old)
  · exact .inl (List.mem_singleton.mp new)

theorem Numbered.withBuffer (numbered : session.Numbered) :
    (session.withBuffer number changed).Numbered := by
  simp only [Numbered, Session.withBuffer, List.map_append, List.map_cons, List.map_nil]
  rw [List.nodup_append]
  refine ⟨numbered.sublist (List.filter_sublist.map _), List.nodup_singleton _, ?_⟩
  intro key member other same equal
  obtain ⟨entry, kept, rfl⟩ := List.mem_map.mp member
  rw [List.mem_singleton] at same
  exact (mem_others.mp kept).2 (equal.trans same)

/-- No other buffer has the identity of the one that comes under a number. -/
theorem Replaces.owner_ne (replaces : Replaces writes session number changed ledger)
    (valid : session.Valid) {entry : Nat × Buffer α} (member : entry ∈ session.others number) :
    entry.2.ring.registry.owner ≠ changed.ring.registry.owner := by
  rcases replaces with ⟨buffer, found, ages⟩ | ⟨fresh, -⟩
  · rw [ages.owner]
    have distinct := (valid.numbered.perm found).map fun entry => entry.2.ring.registry.owner
    have apart := distinct.nodup_iff.mp valid.owners
    rw [List.map_cons, List.nodup_cons] at apart
    intro same
    exact apart.1 (same ▸ List.mem_map_of_mem (f := fun entry => entry.2.ring.registry.owner) member)
  · have known := valid.known entry (mem_others.mp member).1
    omega

/-- A session with another buffer under a number, and another ledger. -/
theorem Valid.housing (valid : session.Valid) (more : session.ledger.rings ≤ ledger.rings)
    (wellFormed : changed.ring.WellFormed)
    (replaces : Replaces writes session number changed ledger) :
    ({ session with ledger }.withBuffer number changed).Valid ∧
      Descends writes session ({ session with ledger }.withBuffer number changed) := by
  have descends : Descends writes session
      ({ session with ledger }.withBuffer number changed) := by
    refine ⟨more, fun entry member => ?_⟩
    rcases mem_withBuffer member with rfl | ⟨old, -⟩
    · rcases replaces with ⟨buffer, found, ages⟩ | ⟨fresh, -⟩
      · exact .inr ⟨buffer, mem_of_buffer? found, ages⟩
      · exact .inl fresh
    · exact .inr ⟨entry.2, old, .refl _⟩
  refine ⟨⟨Numbered.withBuffer valid.numbered, ?_, ?_, ?_, ?_⟩,
    descends⟩
  · simp only [Session.withBuffer, List.map_append, List.map_cons, List.map_nil]
    rw [List.nodup_append]
    refine ⟨valid.owners.sublist (List.filter_sublist.map _), List.nodup_singleton _, ?_⟩
    intro owner member other same equal
    obtain ⟨entry, kept, rfl⟩ := List.mem_map.mp member
    rw [List.mem_singleton] at same
    exact replaces.owner_ne valid kept (equal.trans same)
  · intro entry member
    rcases mem_withBuffer member with rfl | ⟨old, -⟩
    · exact wellFormed
    · exact valid.wellFormed _ old
  · intro entry member
    rcases mem_withBuffer member with rfl | ⟨old, -⟩
    · rcases replaces with ⟨buffer, found, ages⟩ | ⟨-, known⟩
      · rw [ages.owner]
        exact Nat.lt_of_lt_of_le (valid.known _ (mem_of_buffer? found)) more
      · exact known
    · exact Nat.lt_of_lt_of_le (valid.known _ old) more
  · intro entry member
    exact (valid.vouched _ member).of_descends descends

/-- A session in the middle of an operation that owns some elements. -/
structure Agrees (writes : Nat → Prop) (origin : Session α) (owned : Multiset Nat)
    (session : Session α) : Prop where
  valid : session.Valid
  descends : Descends writes origin session
  balanced : session.ledger.Balanced (afloat session.buffers + owned)

theorem Agrees.of_eq (agrees : Agrees writes origin owned session) (same : owned = further) :
    Agrees writes origin further session :=
  same ▸ agrees

/-- The buffer under a number as the origin of what is done with it. -/
theorem Agrees.sound (agrees : Agrees writes origin owned session)
    (found : session.buffer? number = some buffer) :
    Ring.Sound (writes number) ⟨buffer.ring, session.ledger⟩
      (owned + afloat (session.others number)) buffer.ring session.ledger where
  wellFormed := agrees.valid.wellFormed _ (mem_of_buffer? found)
  ages := .refl _
  keeps := ⟨.refl _, by
    have balanced := agrees.balanced
    rw [afloat_of_found agrees.valid.numbered found] at balanced
    rwa [← add_assoc, add_right_comm]⟩

/-- What an action left of the buffer under a number is put back. -/
theorem Agrees.housing (agrees : Agrees writes origin owned session)
    (found : session.buffer? number = some buffer)
    (sound : Ring.Sound (writes number) ⟨buffer.ring, session.ledger⟩
      (further + afloat (session.others number)) changed.ring ledger) :
    Agrees writes origin further ({ session with ledger }.withBuffer number changed) := by
  obtain ⟨valid, descends⟩ := agrees.valid.housing sound.follows.rings sound.wellFormed
    (.inl ⟨buffer, found, sound.ages⟩)
  refine ⟨valid, agrees.descends.trans descends, ?_⟩
  have balanced := sound.keeps.balanced
  rw [afloat_withBuffer]
  rwa [add_left_comm, add_comm further] at balanced

end RingDeque.Session
