import RingDeque.Proofs.Foretelling
import RingDeque.Proofs.Ring.Making
import RingDeque.Proofs.Ring.Receiving

/-!
A ring as a queue of bounded length that is open at both ends.

The contents of a ring, and what it hands out, are those of a list to which the same requests are
made, however the run of elements has travelled around the block in between. The elements that come
from a supply are numbered by the ledger, so the list tells which element comes out, and not only
its value. Main statement: `Ring.queue_requests`.
-/

namespace RingDeque

open Effect

/-- The elements that entries yield if none of them fails. The first is the next to be made. -/
def Entry.made (created : Nat) : List (Entry α) → List (Item α)
  | [] => []
  | entry :: rest => (entry.value?.map (⟨created, ·⟩)).toList ++ made (created + 1) rest

theorem Entry.made_copies (created : Nat) (items : List (Item α)) :
    (Entry.made created (items.map .copyOf)).map Item.value = items.map Item.value := by
  induction items generalizing created with
  | nil => rfl
  | cons item rest ih => exact congrArg (item.value :: ·) (ih (created + 1))

/-- What a queue can be asked for. -/
inductive Request (α : Type) where
  | push (side : End) (item : Item α)
  | pop (side : End)
  | extend (entries : List (Entry α))

namespace Request

variable {α : Type}

/-- The request as a ring carries it out. The answer is the element that comes out. -/
def onRing : Request α → Act (Ring α) α (Option (Item α))
  | .push side item => Act.update (Ring.push side · item)
  | .pop side => Act.update (Ring.pop side)
  | .extend entries => do
      Ring.extend entries
      return none

/-- The request as a list of bounded length answers it, with the list that remains. -/
def onList (capacity created : Nat) (items : List (Item α)) :
    Request α → Option (Item α) × List (Item α)
  | .push side item => side.pushed capacity items item
  | .pop side => side.popped items
  | .extend entries => (none, End.kept capacity (items ++ Entry.made created entries))

/-- The number of elements that have to be made for it. -/
def makes : Request α → Nat
  | .extend entries => entries.length
  | _ => 0

/-- A source fails in the course of it. -/
def Breaks : Request α → Prop
  | .extend entries => .breaks ∈ entries
  | _ => False

/-- Requests one after the other, with all answers. -/
def allOnRing : List (Request α) → Act (Ring α) α (List (Option (Item α)))
  | [] => return []
  | request :: rest => do
      let answer ← request.onRing
      return answer :: (← allOnRing rest)

def allOnList (capacity created : Nat) (items : List (Item α)) :
    List (Request α) → List (Option (Item α)) × List (Item α)
  | [] => ([], items)
  | request :: rest =>
      let (answer, left) := request.onList capacity created items
      let (answers, final) := allOnList capacity (created + request.makes) left rest
      (answer :: answers, final)

end Request

namespace Ring

variable {α : Type} {ring : Ring α} {refuses : Error → Prop}

theorem takeIn_exactly (wellFormed : ring.WellFormed) (entry : Entry α) (ledger : Ledger α) :
    Ends (takeIn entry) ⟨ring, ledger⟩
      (fun _ after => ring.Becomes after.buffer
          (End.kept ring.capacity (ring.toList ++ Entry.made ledger.created [entry])) ∧
        ledger.Draws 1 entry.cost after.ledger)
      (fun halt after => after.buffer.WellFormed ∧ ledger.Due (entry = .breaks) refuses halt) := by
  have fits : ring.toList.length ≤ ring.capacity := wellFormed.length_toList ▸ wellFormed.fits
  simp only [takeIn, ends_bind, Act.ends_ledger]
  apply (entry.produce_exactly ledger).mono
  · intro item made ended
    obtain ⟨yielded, numbered, draws⟩ := ended
    obtain ⟨pushed, stepped, becomes⟩ := push_exists wellFormed .back item
    have new : Entry.made ledger.created [entry] = [item] := by
      simp only [Entry.made, Entry.value?_of_outcome yielded, Option.map_some, ← numbered]
      rfl
    rw [End.pushed_back_eq fits, ← new] at becomes
    rw [Act.ends_update_mk stepped]
    split
    · exact ⟨becomes, draws⟩
    · rename_i evicted _
      simp only [Act.ends_ledger]
      apply (Ledger.destroy_exactly evicted made).mono
      · intro _ gone same
        subst same
        exact ⟨becomes, draws.trans (.discarding [evicted])⟩
      · intro halt gone stopped
        obtain ⟨cause, rfl, among⟩ := stopped
        exact ⟨becomes.wellFormed, (draws.failsAmong among).due⟩
  · intro halt made stopped
    obtain ⟨cause, rfl, failed⟩ := stopped
    exact ⟨wellFormed, Entry.due_of_outcome failed⟩

theorem extend_exactly (wellFormed : ring.WellFormed) (entries : List (Entry α))
    (ledger : Ledger α) :
    Ends (extend entries) ⟨ring, ledger⟩
      (fun _ after => ring.Becomes after.buffer
          (End.kept ring.capacity (ring.toList ++ Entry.made ledger.created entries)) ∧
        ledger.Draws entries.length (Entry.costs entries) after.ledger)
      (fun halt after =>
        after.buffer.WellFormed ∧ ledger.Due (.breaks ∈ entries) refuses halt) := by
  induction entries generalizing ring ledger with
  | nil =>
      have fits : ring.toList.length ≤ ring.capacity := wellFormed.length_toList ▸ wellFormed.fits
      simp only [extend, ends_pure, Entry.made, List.append_nil, End.kept_of_le fits]
      exact ⟨.refl wellFormed, .refl ledger⟩
  | cons entry rest ih =>
      have new : Entry.made ledger.created (entry :: rest) =
          Entry.made ledger.created [entry] ++ Entry.made (ledger.created + 1) rest := by
        simp only [Entry.made, List.append_nil]
      rw [extend_cons, ends_bind]
      apply (takeIn_exactly wellFormed entry ledger).mono
      · intro _ middle ended
        obtain ⟨becomes, draws⟩ := ended
        apply (ih becomes.wellFormed middle.ledger).mono
        · intro _ after ended
          obtain ⟨final, others⟩ := ended
          rw [becomes.toList, becomes.capacity, draws.created, End.kept_append, List.append_assoc,
            ← new] at final
          have whole := draws.trans others
          rw [Nat.add_comm 1] at whole
          exact ⟨becomes.trans final, whole⟩
        · intro halt after stopped
          exact ⟨stopped.1, (draws.due stopped.2).mono (List.mem_cons_of_mem _) fun _ => id⟩
      · intro halt middle stopped
        exact ⟨stopped.1, stopped.2.mono (fun same => same ▸ List.mem_cons_self) fun _ => id⟩

/-- One request: the ring answers as its contents do, and they become what the list becomes. -/
theorem request_exactly (wellFormed : ring.WellFormed) (request : Request α) (ledger : Ledger α) :
    Ends request.onRing ⟨ring, ledger⟩
      (fun answer after =>
        answer = (request.onList ring.capacity ledger.created ring.toList).1 ∧
        ring.Becomes after.buffer
          (request.onList ring.capacity ledger.created ring.toList).2 ∧
        ∃ copied, ledger.Draws request.makes copied after.ledger)
      (fun halt _ => ledger.Due request.Breaks refuses halt) := by
  cases request with
  | push side item =>
      obtain ⟨pushed, stepped, becomes⟩ := push_exists wellFormed side item
      rw [Request.onRing, Act.ends_update_mk stepped]
      exact ⟨rfl, becomes, 0, .refl ledger⟩
  | pop side =>
      obtain ⟨popped, stepped, becomes⟩ := pop_exists wellFormed side
      rw [Request.onRing, Act.ends_update_mk stepped]
      exact ⟨rfl, becomes, 0, .refl ledger⟩
  | extend entries =>
      simp only [Request.onRing, ends_bind, ends_pure]
      apply (extend_exactly wellFormed entries ledger).mono
      · exact fun _ _ extended => ⟨rfl, extended.1, _, extended.2⟩
      · exact fun _ _ stopped => stopped.2

theorem requests_exactly (wellFormed : ring.WellFormed) (requests : List (Request α))
    (ledger : Ledger α) :
    Ends (Request.allOnRing requests) ⟨ring, ledger⟩
      (fun answers after =>
        answers = (Request.allOnList ring.capacity ledger.created ring.toList requests).1 ∧
        ring.Becomes after.buffer
          (Request.allOnList ring.capacity ledger.created ring.toList requests).2)
      (fun halt _ => ledger.Due (∃ request ∈ requests, request.Breaks) refuses halt) := by
  induction requests generalizing ring ledger with
  | nil => exact ⟨rfl, .refl wellFormed⟩
  | cons request rest ih =>
      simp only [Request.allOnRing, ends_bind, ends_pure]
      apply (request_exactly wellFormed request ledger).mono
      · intro answer middle ended
        obtain ⟨rfl, becomes, copied, draws⟩ := ended
        apply (ih becomes.wellFormed middle.ledger).mono
        · intro answers after ended
          obtain ⟨rfl, final⟩ := ended
          rw [becomes.toList, becomes.capacity, draws.created] at final ⊢
          exact ⟨rfl, becomes.trans final⟩
        · intro halt after due
          apply (draws.due due).mono _ fun _ => id
          intro broken
          obtain ⟨other, member, breaks⟩ := broken
          exact ⟨other, List.mem_cons_of_mem _ member, breaks⟩
      · intro halt after due
        exact due.mono (fun breaks => ⟨request, List.mem_cons_self, breaks⟩) fun _ => id

theorem new_exactly (capacity : Nat) (ledger : Ledger α) :
    Ends (Ring.new capacity) ledger
      (fun ring after => ¬ ledger.Scarce capacity ∧ ring.WellFormed ∧ ring.capacity = capacity ∧
        ring.toList = [] ∧ after = { ledger with rings := ledger.rings + 1 })
      (fun halt after => halt = .refused (.allocationFailed capacity) ∧ ledger.Scarce capacity ∧
        after = ledger) := by
  simp only [Ring.new, Registry.issue, Ledger.identify, ends_bind, ends_get, ends_set, ends_pure]
  apply Ledger.ends_allocating _ fun scarce => ⟨rfl, scarce, rfl⟩
  intro plenty block stamps sized vacant counted
  obtain ⟨valid, listed⟩ := wellFormed_of_vacant
    { block, start := 0, len := 0, registry := ⟨ledger.rings, 0, 0, stamps⟩ }
    ⟨show 0 < max _ 1 by omega, counted.trans sized.symm⟩ rfl vacant
  exact ⟨plenty, valid, sized, listed, rfl⟩

/-- A new ring that takes in what the entries yield. -/
theorem filling_exactly (wellFormed : ring.WellFormed) (listed : ring.toList = [])
    (entries : List (Entry α)) (ledger : Ledger α) (refuses : Error → Prop) :
    Ends (building ring contents (extend entries)) { ledger with rings := ledger.rings + 1 }
      (fun filled _ => filled.WellFormed ∧ filled.capacity = ring.capacity ∧
        filled.toList = End.kept ring.capacity (Entry.made ledger.created entries))
      (fun halt _ => ledger.Due (.breaks ∈ entries) refuses halt) := by
  have draws : ledger.Draws 0 0 { ledger with rings := ledger.rings + 1 } :=
    ⟨rfl, Entry.copies_sub_zero.symm, rfl⟩
  simp only [Act.ends_building]
  apply (extend_exactly wellFormed entries _).mono
  · intro _ after ended
    obtain ⟨becomes, -⟩ := ended
    rw [listed, List.nil_append] at becomes
    exact ⟨becomes.wellFormed, becomes.capacity, becomes.toList⟩
  · intro halt after stopped
    obtain ⟨valid, due⟩ := stopped
    simp only [valid.contents_eq, liftM_ok, ends_bind, ends_pure, Ledger.discard, ends_modify,
      ends_throw]
    exact draws.due due

theorem ofSupply_exactly (capacity : Nat) (supply : Supply α) (ledger : Ledger α) :
    Ends (ofSupply capacity supply) ledger
      (fun ring _ => ring.WellFormed ∧ ring.capacity = capacity ∧
        ring.toList = End.kept capacity (Entry.made ledger.created supply.entries))
      (fun halt _ => ledger.Due (.breaks ∈ supply.entries)
        (fun error => error = .allocationFailed capacity ∧ ledger.Scarce capacity) halt) := by
  simp only [ofSupply, ends_bind]
  apply (new_exactly capacity ledger).mono
  · intro ring made ended
    obtain ⟨-, wellFormed, rfl, listed, rfl⟩ := ended
    exact filling_exactly wellFormed listed supply.entries ledger _
  · intro halt after stopped
    obtain ⟨rfl, scarce, -⟩ := stopped
    exact .refusal ⟨rfl, scarce⟩

/-- A copy is interrupted, and not refused, for want of a block. -/
theorem duplicate_exactly (wellFormed : ring.WellFormed) (ledger : Ledger α) :
    Ends ring.duplicate ledger
      (fun copy _ => copy.WellFormed ∧ copy.capacity = ring.capacity ∧
        copy.toList = Entry.made ledger.created (ring.toList.map .copyOf))
      (fun halt _ => ledger.Due False (fun _ => False) halt ∨
        ledger.Unexpected .duplicate ring.capacity halt) := by
  have fits : (Entry.made ledger.created (ring.toList.map .copyOf)).length ≤ ring.capacity := by
    rw [← List.length_map (f := Item.value), Entry.made_copies, List.length_map,
      wellFormed.length_toList]
    exact wellFormed.fits
  simp only [duplicate, wellFormed.contents_eq, liftM_ok, ends_bind, ends_pure, ends_expecting]
  apply (new_exactly ring.capacity ledger).mono
  · intro copy made ended
    obtain ⟨-, valid, sized, listed, rfl⟩ := ended
    apply (filling_exactly valid listed (ring.toList.map .copyOf) ledger fun _ => False).mono
    · intro filled after ended
      obtain ⟨finished, same, kept⟩ := ended
      rw [sized] at same kept
      exact ⟨finished, same, kept.trans (End.kept_of_le fits)⟩
    · exact fun halt after due => .inl (due.mono (by simp) fun _ => id)
  · intro halt after stopped
    obtain ⟨rfl, scarce, -⟩ := stopped
    exact .inr ⟨rfl, scarce⟩

/-- Whatever its layout, a ring answers requests as a list of at most so many elements does, and
holds what that list comes to hold. A ring that is filled from a source, or a copy of a ring, is one
that started empty. Nothing but a failure that was set, a source that fails, or the lack of a block
prevents it. -/
theorem queue_requests (wellFormed : ring.WellFormed) (requests : List (Request α))
    (ledger : Ledger α) :
    Ends (Request.allOnRing requests) ⟨ring, ledger⟩
      (fun answers after => after.buffer.WellFormed ∧ after.buffer.capacity = ring.capacity ∧
        (answers, after.buffer.toList) =
          Request.allOnList ring.capacity ledger.created ring.toList requests)
      (fun halt _ =>
        ledger.Due (∃ request ∈ requests, request.Breaks) (fun _ => False) halt) ∧
    (∀ capacity entries, Ends (ofSupply capacity (.listed entries)) ledger
      (fun filled _ => filled.WellFormed ∧ filled.capacity = capacity ∧
        filled.toList = End.kept capacity (Entry.made ledger.created entries))
      (fun halt _ => ledger.Due (.breaks ∈ entries)
        (fun error => error = .allocationFailed capacity ∧ ledger.Scarce capacity) halt)) ∧
    Ends ring.duplicate ledger
      (fun copy _ => copy.WellFormed ∧ copy.capacity = ring.capacity ∧
        copy.toList = Entry.made ledger.created (ring.toList.map .copyOf) ∧
        copy.toList.map Item.value = ring.toList.map Item.value)
      (fun halt _ => ledger.Due False (fun _ => False) halt ∨
        ledger.Unexpected .duplicate ring.capacity halt) := by
  constructor
  · apply (requests_exactly wellFormed requests ledger).mono
    · intro answers after ended
      obtain ⟨rfl, becomes⟩ := ended
      exact ⟨becomes.wellFormed, becomes.capacity, Prod.ext rfl becomes.toList⟩
    · exact fun _ _ => id
  constructor
  · exact fun capacity entries => ofSupply_exactly capacity (.listed entries) ledger
  · apply (duplicate_exactly wellFormed ledger).mono
    · intro copy after ended
      obtain ⟨valid, sized, listed⟩ := ended
      exact ⟨valid, sized, listed, listed ▸ Entry.made_copies _ _⟩
    · exact fun _ _ => id

/-- A full ring that starts in its third slot: elements come in at both ends, and others go. -/
theorem queue_requests_turned :
    let ledger : Ledger Nat := { Ledger.blank (.below 16) with created := 4 }
    let requests := [.push .back ⟨9, 50⟩, .pop .front, .extend [.fresh 60, .fresh 70],
      .push .front ⟨8, 5⟩, .pop .back]
    ∃ after, Request.allOnRing requests ⟨turned, ledger⟩ =
        .ok [some ⟨0, 10⟩, some ⟨1, 20⟩, none, some ⟨5, 70⟩, some ⟨4, 60⟩] after ∧
      after.buffer.toList = [⟨8, 5⟩, ⟨3, 40⟩, ⟨9, 50⟩] := by
  intro ledger requests
  have calm : ∀ halt,
      ¬ ledger.Due (∃ request ∈ requests, request.Breaks) (fun _ => False) halt := by
    intro halt due
    cases due with
    | copy armed => exact armed rfl
    | destruction armed => exact armed rfl
    | source broken => simp [requests, Request.Breaks] at broken
    | refusal refused => exact refused
  have answered : Request.allOnList turned.capacity ledger.created
      [⟨0, 10⟩, ⟨1, 20⟩, ⟨2, 30⟩, ⟨3, 40⟩] requests =
        ([some ⟨0, 10⟩, some ⟨1, 20⟩, none, some ⟨5, 70⟩, some ⟨4, 60⟩],
          [⟨8, 5⟩, ⟨3, 40⟩, ⟨9, 50⟩]) := by
    decide +kernel
  rw [← turned_toList] at answered
  have wellFormed := turned_wellFormed
  -- As long as the ring is a variable, no step of the proof runs the requests on it.
  generalize turned = ring at *
  obtain ⟨answers, after, ran, -, -, same⟩ :=
    (queue_requests wellFormed requests ledger).1.returned fun halt _ => calm halt
  rw [answered] at same
  obtain ⟨rfl, listed⟩ := Prod.mk.inj same
  exact ⟨after, ran, listed⟩

end Ring

end RingDeque
