import RingDeque.Datum
import RingDeque.Proofs.Elastic.Resizing
import RingDeque.Proofs.Session.Contents
import RingDeque.Session.Run

/-!
Resizing a buffer of either kind.

Growing is the same for both kinds, as callers see it. Shrinking is not: a fixed ring gives up the
elements at the end opposite to the one at which it grows, an elastic ring those at the same end.
Main statement: `Session.Buffer.resize_law`.
-/

namespace RingDeque.Session

open Effect

namespace Buffer

variable {α : Type} {buffer : Buffer α} {ledger : Ledger α} {model : Item α} {n : Nat}

/-- The floor of the block, which only an elastic ring has. -/
def floor? : Buffer α → Option Nat
  | .fixed _ => none
  | .elastic outer => some outer.limits.floor

/-- The end at which a buffer gives up elements, if it grows at the end `side`. -/
def sheds (side : End) : Buffer α → End
  | .fixed _ => side.opposite
  | .elastic _ => side

/-- There is memory for the block that `n` elements need, unless the present one has room. -/
def Grants (ledger : Ledger α) (n : Nat) : Buffer α → Prop
  | .fixed ring => ring.capacity < n → ¬ ledger.Scarce n
  | .elastic outer => outer.physical < n → ¬ ledger.Scarce (outer.expandedSize n)

/-- A buffer of the same kind, with the same floor, that holds at most `bound` elements and has
these. -/
structure Resized (bound : Nat) (items : List (Item α)) (before after : Buffer α) : Prop where
  wellFormed : after.ring.WellFormed
  toList : after.ring.toList = items
  bounded : after.bound = bound
  floored : after.floor? = before.floor?

section

variable {γ : Type} {onFixed : Act (Ring α) α γ} {onElastic : Act (ElasticRing α) α γ}
  {ring : Ring α} {outer : ElasticRing α} {value : γ}

theorem either_fixed {after : Tracked (Ring α) α}
    (ran : onFixed ⟨ring, ledger⟩ = .ok value after) :
    either onFixed onElastic ⟨.fixed ring, ledger⟩ =
      .ok value ⟨.fixed after.buffer, after.ledger⟩ := by
  simp only [either, Act.onPart, ran]

theorem either_elastic {after : Tracked (ElasticRing α) α}
    (ran : onElastic ⟨outer, ledger⟩ = .ok value after) :
    either onFixed onElastic ⟨.elastic outer, ledger⟩ =
      .ok value ⟨.elastic after.buffer, after.ledger⟩ := by
  simp only [either, Act.onPart, ran]

end

theorem resize_grown (wellFormed : buffer.ring.WellFormed) (longer : buffer.ring.len < n)
    (granted : buffer.Grants ledger n)
    (enough : Entry.copyable ledger.copiesLeft (n - buffer.ring.len) = n - buffer.ring.len)
    (lasts : ¬ ledger.FailsOn model) (side : End) :
    ∃ after new, resize side n model ⟨buffer, ledger⟩ = .ok () after ∧
      new.map (·.value) = List.replicate (n - buffer.ring.len) model.value ∧
      Resized (max buffer.bound n) (side.flank new buffer.ring.toList) buffer after.buffer := by
  cases buffer with
  | fixed ring =>
      obtain ⟨after, new, ran, values, grows⟩ :=
        Ring.resize_expands wellFormed longer granted enough lasts side.opposite
      rw [side.opposite_opposite] at grows
      exact ⟨_, new, either_fixed ran, values, grows.wellFormed, grows.toList, grows.capacity, rfl⟩
  | elastic outer =>
      obtain ⟨after, new, ran, valid, values, listed, limited⟩ :=
        ElasticRing.resize_expands wellFormed longer granted enough lasts side
      have floor : after.buffer.limits.floor = outer.limits.floor := by
        rw [limited]
        rfl
      exact ⟨_, new, either_elastic ran, values, valid, listed, congrArg Limits.ceiling limited,
        congrArg some floor⟩

theorem resize_shed (wellFormed : buffer.ring.WellFormed) (shorter : n ≤ buffer.ring.len)
    (granted : buffer.bound < n → ¬ ledger.Scarce buffer.bound)
    (lasting : ∀ item ∈ buffer.ring.toList, ¬ ledger.FailsOn item)
    (lasts : ¬ ledger.FailsOn model) (side : End) :
    ∃ after, resize side n model ⟨buffer, ledger⟩ = .ok () after ∧
      Resized buffer.bound
        (End.kept buffer.bound ((buffer.sheds side).trim (buffer.ring.len - n) buffer.ring.toList))
        buffer after.buffer := by
  have length := wellFormed.length_toList
  cases buffer with
  | fixed ring =>
      have fits : ring.len ≤ ring.capacity := wellFormed.fits
      obtain ⟨after, ran, becomes⟩ := Ring.resize_shrinks wellFormed shorter
        (fun item member => lasting item
          ((side.opposite.perm_trimmed_trim _ _).mem_iff.mpr (List.mem_append_left _ member))) lasts
      have room : (side.opposite.trim (ring.len - n) ring.toList).length ≤ ring.capacity := by
        rw [End.length_trim]
        exact Nat.le_trans (Nat.sub_le _ _) (length.trans_le fits)
      exact ⟨_, either_fixed ran, becomes.wellFormed,
        becomes.toList.trans (End.kept_of_le room).symm, becomes.capacity, rfl⟩
  | elastic outer =>
      obtain ⟨after, ran, valid, listed, limited⟩ :=
        ElasticRing.resize_shrinks wellFormed shorter granted lasting lasts side
      exact ⟨_, either_elastic ran, valid, listed, congrArg Limits.ceiling limited,
        congrArg some (congrArg Limits.floor limited)⟩

/-- Resizing to more elements adds copies at the end `side`, and the buffer may hold at least `n`
elements from then on. Resizing to fewer elements gives up some at the end that the kind of the
buffer determines. Neither depends on the layout or on the block, except that an elastic ring with
more elements than its ceiling allows is first of all cut down to its last ones. -/
theorem resize_law (wellFormed : buffer.ring.WellFormed)
    (lasting : ∀ item, item = model ∨ item ∈ buffer.ring.toList → ¬ ledger.FailsOn item)
    (side : End) (n : Nat) :
    (buffer.ring.len < n → buffer.Grants ledger n →
      Entry.copyable ledger.copiesLeft (n - buffer.ring.len) = n - buffer.ring.len →
      ∃ after new, resize side n model ⟨buffer, ledger⟩ = .ok () after ∧
        new.map (·.value) = List.replicate (n - buffer.ring.len) model.value ∧
        Resized (max buffer.bound n) (side.flank new buffer.ring.toList) buffer after.buffer) ∧
    (n ≤ buffer.ring.len → n ≤ buffer.bound →
      ∃ after, resize side n model ⟨buffer, ledger⟩ = .ok () after ∧
        Resized buffer.bound
          ((buffer.sheds side).trim (buffer.ring.len - n) buffer.ring.toList)
          buffer after.buffer) ∧
    (n ≤ buffer.ring.len → buffer.bound < n → ¬ ledger.Scarce buffer.bound →
      ∃ after, resize side n model ⟨buffer, ledger⟩ = .ok () after ∧
        Resized buffer.bound
          (End.kept buffer.bound
            ((buffer.sheds side).trim (buffer.ring.len - n) buffer.ring.toList))
          buffer after.buffer) := by
  have length := wellFormed.length_toList
  have lasts : ¬ ledger.FailsOn model := lasting model (.inl rfl)
  have others : ∀ item ∈ buffer.ring.toList, ¬ ledger.FailsOn item :=
    fun item member => lasting item (.inr member)
  constructor
  · intro longer granted enough
    exact resize_grown wellFormed longer granted enough lasts side
  constructor
  · intro shorter allowed
    have resized := resize_shed wellFormed shorter
      (fun crowded => absurd allowed (Nat.not_le_of_lt crowded)) others lasts side
    rw [End.kept_of_le (by rw [End.length_trim, length]; omega)] at resized
    exact resized
  · intro shorter crowded plenty
    exact resize_shed wellFormed shorter (fun _ => plenty) others lasts side

/-- A full ring of four grows by two copies at its front; a fixed ring then keeps the first two of its
elements where an elastic one keeps the last two. -/
theorem resize_law_turned :
    let ledger : Ledger Nat := { Ledger.blank (.below 16) with created := 4 }
    let outer : ElasticRing Nat := ⟨Ring.turned, ⟨5, 0, by decide⟩⟩
    (∃ after, resize .front 6 ⟨9, 70⟩ ⟨.elastic outer, ledger⟩ = .ok () after ∧
      after.buffer.bound = 6 ∧
      after.buffer.ring.toList.map (·.value) = [70, 70, 10, 20, 30, 40]) ∧
    (∃ after, resize .front 2 ⟨9, 70⟩ ⟨.elastic outer, ledger⟩ = .ok () after ∧
      after.buffer.bound = 5 ∧ after.buffer.ring.toList = [⟨2, 30⟩, ⟨3, 40⟩]) ∧
    ∃ after, resize .front 2 ⟨9, 70⟩ ⟨.fixed Ring.turned, ledger⟩ = .ok () after ∧
      after.buffer.bound = 4 ∧ after.buffer.ring.toList = [⟨0, 10⟩, ⟨1, 20⟩] := by
  intro ledger outer
  -- As long as the ring is a variable, no step of the proof runs the operations on it.
  obtain ⟨ring, same⟩ : ∃ ring, ring = Ring.turned := ⟨_, rfl⟩
  have wellFormed : ring.WellFormed := same ▸ Ring.turned_wellFormed
  have listed : ring.toList = [⟨0, 10⟩, ⟨1, 20⟩, ⟨2, 30⟩, ⟨3, 40⟩] := same ▸ Ring.turned_toList
  have length : ring.len = 4 := by rw [same]; rfl
  have size : ring.capacity = 4 := by rw [same]; rfl
  have elastic : outer = ⟨ring, ⟨5, 0, by decide⟩⟩ := by rw [same]
  have calm : ∀ (items : List (Item Nat)) item, item = ⟨9, 70⟩ ∨ item ∈ items →
      ¬ ledger.FailsOn item := fun _ _ _ => Ledger.not_failsOn rfl
  rw [elastic, ← same]
  have room : ¬ ledger.Scarce (ElasticRing.expandedSize ⟨ring, ⟨5, 0, by decide⟩⟩ 6) := by
    have bound := ElasticRing.expandedSize_le ⟨ring, ⟨5, 0, by decide⟩⟩ 6
    rw [Ledger.scarce_below rfl]
    simp only [ElasticRing.capacity, Stamps.limit] at bound ⊢
    omega
  have wholeElastic : (Buffer.elastic ⟨ring, ⟨5, 0, by decide⟩⟩).ring.WellFormed := wellFormed
  have wholeFixed : (Buffer.fixed ring).ring.WellFormed := wellFormed
  have grown := (resize_law wholeElastic (calm ring.toList) .front 6).1
  have shrunk := (resize_law wholeElastic (calm ring.toList) .front 2).2.1
  have fixed := (resize_law wholeFixed (calm ring.toList) .front 2).2.1
  simp only [Buffer.ring, bound, ElasticRing.capacity, listed, length, size] at grown shrunk fixed
  refine ⟨?_, ?_, ?_⟩
  · obtain ⟨after, new, ran, values, resized⟩ := grown (by decide) (fun _ => room) rfl
    refine ⟨after, ran, resized.bounded, ?_⟩
    rw [resized.toList, End.flank, List.map_append, values]
    rfl
  · obtain ⟨after, ran, resized⟩ := shrunk (by decide) (by decide)
    exact ⟨after, ran, resized.bounded, resized.toList⟩
  · obtain ⟨after, ran, resized⟩ := fixed (by decide) (by decide)
    exact ⟨after, ran, resized.bounded, resized.toList⟩

end Buffer

/-- An interrupted assignment has left two elements under a ceiling for one. The first of them is
lost when the buffer is resized to the two elements that it has. -/
theorem resize_past_ceiling_drops :
    let session := run [.build 0 (.elastic ⟨1, some 1⟩), .on 0 (.push .back (.int 1)) none,
      .armDestruction (some (.int 1)), .on 0 (.assignFeed (.ofValues [.int 7, .int 8])) none]
      (blank (.below 64) : Session Datum)
    let resized := session.step (.on 0 (.resize .back 2 (.int 9)) none)
    (session.buffer? 0).map (·.ring.toList.map (·.id)) = some [1, 2] ∧
      (resized.1 matches .done) ∧
      (resized.2.buffer? 0).map (·.ring.toList.map (·.id)) = some [2] := by
  decide +kernel

end RingDeque.Session
