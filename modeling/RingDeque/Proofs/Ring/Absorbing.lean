import RingDeque.Proofs.Ring.Receiving

/-!
Insertion without a failure, against the whole sequence.

Put the new elements between the two parts of the contents, however many they are, and cut the
sequence down to the capacity: insertion that gives way at the front keeps the last elements of it,
and insertion that gives way at the back the first ones. Main statement: `Ring.insertion_absorbs`.
-/

namespace RingDeque

open Effect

namespace End

variable {β : Type} {items new : List β} {capacity index : Nat}

/-- Making room for those entries that are kept is cutting the whole sequence down. -/
theorem ahead_kept_behind (yields : End) (fits : items.length ≤ capacity)
    (inside : index ≤ items.length) {count : Nat}
    (counted : count = yields.admitted capacity items.length index new.length) :
    yields.ahead index (items.length + count - capacity) items ++
        yields.trim (new.length - count) new ++
        yields.behind index (items.length + count - capacity) items =
      yields.trim (items.length + new.length - capacity)
        (items.take index ++ new ++ items.drop index) := by
  have front : (items.take index).length = index := by
    rw [List.length_take]
    omega
  cases yields with
  | front =>
      simp only [admitted, roomAt] at counted
      have ahead : (items.take index).drop (items.length + count - capacity) =
          (items.take index).drop (items.length + new.length - capacity) := by
        rw [List.drop_eq_drop_iff, front]
        omega
      have kept : new.length - count = items.length + new.length - capacity - index := by omega
      have rest : items.length + new.length - capacity - (index + new.length) = 0 := by omega
      simp only [trim, List.drop_append, List.length_append, front, rest, List.drop_zero,
        End.ahead, behind, ahead, kept]
  | back =>
      simp only [admitted, roomAt] at counted
      have most : count ≤ new.length := counted ▸ Nat.min_le_right _ _
      have length : items.length + new.length - (items.length + new.length - capacity) =
          min capacity (items.length + new.length) := by omega
      have ahead : (items.take index).take (min capacity (items.length + new.length)) =
          items.take index := List.take_of_length_le (by rw [front]; omega)
      have kept : new.take (new.length - (new.length - count)) =
          new.take (min capacity (items.length + new.length) - index) := by
        rw [List.take_eq_take_iff]
        omega
      have rest : (items.drop index).take (items.length - (items.length + count - capacity) - index) =
          (items.drop index).take
            (min capacity (items.length + new.length) - (index + new.length)) := by
        rw [List.take_eq_take_iff]
        omega
      have whole : (items.take index ++ new ++ items.drop index).length =
          items.length + new.length := by
        simp only [List.length_append, List.length_take, List.length_drop]
        omega
      simp only [trim, whole, length, List.take_append, List.length_append, front, End.ahead,
        behind, List.drop_take, ahead, kept, rest]

theorem head?_kept_behind (yields : End) (fits : items.length ≤ capacity)
    {count : Nat} (counted : count = yields.admitted capacity items.length index new.length) :
    (yields.trim (new.length - count) new ++
        yields.behind index (items.length + count - capacity) items).head? =
      (yields.trim (new.length - count) new ++ items.drop index).head? := by
  cases yields with
  | front => rfl
  | back =>
      simp only [admitted, roomAt] at counted
      by_cases none : count = 0
      · have rest : (items.take (items.length - (items.length + count - capacity))).drop index =
            items.drop index := by
          rw [List.take_of_length_le (by omega)]
        simp only [behind, rest]
      · have some : End.back.trim (new.length - count) new ≠ [] := by
          rw [← List.length_pos_iff, length_trim]
          omega
        rw [List.head?_append_of_ne_nil _ some, List.head?_append_of_ne_nil _ some]

theorem shifted_admitted (yields : End) {length n count : Nat} (fits : length ≤ capacity)
    (inside : index ≤ length) (counted : count = yields.admitted capacity length index n) :
    yields.shifted index (length + count - capacity) =
      yields.shifted index (length + n - capacity) := by
  cases yields with
  | front =>
      simp only [shifted, admitted, roomAt] at *
      omega
  | back => rfl

/-- A list of which only a part is known can be completed to one with given values. -/
theorem exists_trim {γ : Type} (value : β → γ) (choose : γ → β)
    (chosen : ∀ image, value (choose image) = image) (yields : End) {count : Nat} {values : List γ}
    (few : count ≤ values.length) (known : new.map value = yields.trim count values) :
    ∃ items, items.map value = values ∧ yields.trim count items = new := by
  have length := congrArg List.length known
  rw [List.length_map, length_trim] at length
  have same : value ∘ choose = id := funext chosen
  cases yields with
  | front =>
      refine ⟨(values.take count).map choose ++ new, ?_, ?_⟩
      · rw [List.map_append, List.map_map, same, List.map_id, known]
        exact List.take_append_drop count values
      · exact List.drop_left' (by rw [List.length_map, List.length_take, Nat.min_eq_left few])
  | back =>
      refine ⟨new ++ (values.drop (values.length - count)).map choose, ?_, ?_⟩
      · rw [List.map_append, List.map_map, same, List.map_id, known]
        exact List.take_append_drop (values.length - count) values
      · apply List.take_left'
        rw [List.length_append, List.length_map, List.length_drop, length]
        omega

end End

namespace Ring

variable {α : Type} {ring : Ring α} {ledger : Ledger α} {index : Nat} {cursor : Cursor}
  {yields : End}

/-- What an insertion before a logical index leaves of the whole sequence, and the cursor to the
first new element that is kept, or else to the element that follows. -/
structure Absorbs (yields : End) (index : Nat) (new : List (Item α)) (before : Ring α)
    (issued : Cursor) (after : Ring α) : Prop where
  wellFormed : after.WellFormed
  capacity : after.capacity = before.capacity
  toList : after.toList = yields.trim (before.len + new.length - before.capacity)
    (before.toList.take index ++ new ++ before.toList.drop index)
  denotes : after.Denotes issued (yields.shifted index (before.len + new.length - before.capacity))
    (yields.trim (new.length - before.admits yields index new.length) new ++
      before.toList.drop index).head?

theorem Receives.absorbs {kept new : List (Item α)} {issued : Cursor} {after : Ring α} {n : Nat}
    (wellFormed : ring.WellFormed) (inside : index ≤ ring.len) (counted : new.length = n)
    (same : yields.trim (n - ring.admits yields index n) new = kept)
    (receives : Receives yields index (ring.surplus (ring.admits yields index n)) kept ring after)
    (denotes : after.Denotes issued
      (yields.shifted index (ring.surplus (ring.admits yields index n)))
      (kept ++ yields.behind index (ring.surplus (ring.admits yields index n)) ring.toList).head?) :
    Absorbs yields index new ring issued after := by
  subst counted same
  have length := wellFormed.length_toList
  have fits : ring.toList.length ≤ ring.capacity := length ▸ wellFormed.fits
  have insideList : index ≤ ring.toList.length := length.symm ▸ inside
  have admitted : ring.admits yields index new.length =
      yields.admitted ring.capacity ring.toList.length index new.length := by
    rw [length]
    rfl
  have whole := End.ahead_kept_behind yields fits insideList admitted
  have first := End.head?_kept_behind yields fits admitted
  have place := End.shifted_admitted yields wellFormed.fits inside
    (show ring.admits yields index new.length = _ from rfl)
  rw [length] at whole first
  apply Absorbs.mk receives.wellFormed receives.capacity (receives.toList.trans whole)
  rw [← first, ← place]
  exact denotes

theorem insert_absorbs (wellFormed : ring.WellFormed) (resolved : ring.resolve cursor = .ok index)
    (inside : index ≤ ring.len) (item : Item α) (ledger : Ledger α) :
    Ends (insert yields cursor item) ⟨ring, ledger⟩
      (fun issued after => Absorbs yields index [item] ring issued after.buffer)
      (Interrupted fun cause _ => ledger.FailsAmong (fun other =>
        other ∈ yields.trimmed (ring.surplus (ring.admits yields index 1)) ring.toList ∨
          other = item) cause) := by
  have asked : Ends (holding item do (← Act.buffer).resolve cursor : Act (Ring α) α Nat)
      ⟨ring, ledger⟩ (fun place after => place = index ∧ after = ⟨ring, ledger⟩)
      (fun _ _ => False) := by
    simp only [holding, ends_tryCatch, ends_bind, Act.ends_buffer, resolved, liftM_answer,
      ends_pure, and_self]
  simp only [insert, ends_bind]
  apply asked.mono _ fun _ _ => False.elim
  intro place after ended
  obtain ⟨same, rfl⟩ := ended
  rw [same]
  simp only [Act.ends_buffer, wellFormed.room_eq inside, liftM_ok, ends_pure]
  by_cases full : yields.roomAt ring.capacity ring.len index = 0
  · have none : ring.admits yields index 1 = 0 := by
      rw [admits, End.admitted, full, Nat.zero_min]
    obtain ⟨issued, given, receives, denotes⟩ := wellFormed.receives_nothing yields inside
    simp only [if_pos full, ends_bind, Act.ends_ledger, Act.ends_buffer, given, liftM_ok, ends_pure]
    apply (Ledger.destroy_exactly item ledger).mono
    · intro _ _ _
      have kept : yields.trim (1 - ring.admits yields index 1) [item] = [] := by
        rw [none]
        cases yields <;> rfl
      rw [← none] at receives denotes
      exact receives.absorbs wellFormed inside rfl kept denotes
    · intro halt after stopped
      exact stopped.mono fun cause among => among.mono fun _ => .inr
  · have one : ring.admits yields index 1 = 1 := by
      simp only [admits, End.admitted]
      omega
    have room : 1 ≤ yields.roomAt ring.capacity ring.len index := by omega
    simp only [if_neg full, ends_bind]
    have making := Act.holding_interrupted item (fun _ _ _ _ => id)
      (makeRoom_exactly wellFormed inside room ledger)
    apply making.mono
    · intro place middle ended
      obtain ⟨rfl, becomes, -⟩ := ended
      obtain ⟨flanks, fits⟩ := wellFormed.surplus_bounds inside room
      have few : [item].length ≤ 1 := Nat.le_refl 1
      obtain ⟨after, issued, spliced, given, receives, denotes⟩ :=
        splice_receives wellFormed inside flanks becomes fits few
      rw [Act.ends_alter spliced]
      simp only [Act.ends_buffer, given, liftM_ok, ends_pure]
      have kept : yields.trim (1 - ring.admits yields index 1) [item] = [item] := by
        rw [one, Nat.sub_self, yields.trim_zero]
      rw [← one] at receives denotes
      exact receives.absorbs wellFormed inside rfl kept denotes
    · intro halt after stopped
      rw [one]
      exact stopped.mono fun cause among => among.mono fun _ => .inl

theorem insertCopies_absorbs (wellFormed : ring.WellFormed)
    (resolved : ring.resolve cursor = .ok index) (inside : index ≤ ring.len) {n : Nat}
    (enough : Entry.copyable ledger.copiesLeft (ring.admits yields index n) =
      ring.admits yields index n) (model : Item α) :
    Ends (insertCopies yields cursor n model) ⟨ring, ledger⟩
      (fun issued after =>
        (∃ copies, copies.map (·.value) = List.replicate n model.value ∧
          Absorbs yields index copies ring issued after.buffer) ∧
        ledger.Draws (ring.admits yields index n) (ring.admits yields index n) after.ledger)
      (Interrupted fun cause _ => ledger.FailsAmong (fun item =>
        item ∈ yields.trimmed (ring.surplus (ring.admits yields index n)) ring.toList ∨
          item = model) cause) := by
  have few : ring.admits yields index n ≤ n := Nat.min_le_right _ _
  apply (insertCopies_exactly wellFormed resolved inside n model ledger).mono
  · intro issued after ended
    rw [enough] at ended
    obtain ⟨-, ⟨kept, values, receives, denotes⟩, draws⟩ := ended
    have known : kept.map (·.value) =
        yields.trim (n - ring.admits yields index n) (List.replicate n model.value) := by
      rw [values]
      cases yields <;> simp only [End.trim, List.drop_replicate, List.take_replicate,
        List.length_replicate] <;> congr 1 <;> omega
    obtain ⟨copies, made, same⟩ := yields.exists_trim Item.value (Item.mk 0)
      (fun _ => rfl) (by rw [List.length_replicate]; exact Nat.sub_le _ _) known
    have counted := congrArg List.length made
    rw [List.length_map, List.length_replicate] at counted
    exact ⟨⟨copies, made, receives.absorbs wellFormed inside counted same denotes⟩, draws⟩
  · intro halt after stopped
    apply stopped.mono
    intro cause reason
    rw [enough] at reason
    rcases reason with among | ⟨-, fewer, -⟩
    · exact among
    · exact absurd fewer (Nat.lt_irrefl _)

theorem insertFeed_absorbs (wellFormed : ring.WellFormed)
    (resolved : ring.resolve cursor = .ok index) (inside : index ≤ ring.len) {feed : Feed α}
    {values : List α} (truthful : feed.claimed = values.length)
    (unfailing : Entry.outcomes ledger.copiesLeft feed.entries = values.map .ok) :
    Ends (insertFeed yields cursor feed) ⟨ring, ledger⟩
      (fun issued after => ∃ new, new.map (·.value) = values ∧
        Absorbs yields index new ring issued after.buffer)
      (Interrupted fun cause _ => ledger.FailsAmong (fun item => ledger.created ≤ item.id ∨
        item ∈ yields.trimmed (ring.surplus (ring.admits yields index values.length)) ring.toList)
        cause) := by
  have few : ring.admits yields index values.length ≤ values.length := Nat.min_le_right _ _
  have feeding := insertFeed_exactly yields wellFormed resolved inside feed ledger
  simp only [truthful, unfailing, ← List.map_take, ← List.map_drop, (Entry.produced_ok _).1,
    (Entry.produced_ok _).2] at feeding
  apply feeding.mono
  · intro issued after ended
    obtain ⟨-, -, kept, known, receives, denotes⟩ := ended
    have part : kept.map (·.value) =
        yields.trim (values.length - ring.admits yields index values.length) values := by
      rw [known]
      cases yields with
      | front =>
          apply List.take_of_length_le
          rw [skips, List.length_drop]
          omega
      | back =>
          simp only [skips, List.drop_zero, End.trim]
          congr 1
          omega
    obtain ⟨new, made, same⟩ := yields.exists_trim Item.value (Item.mk 0)
      (fun _ => rfl) (Nat.sub_le _ _) part
    have counted := congrArg List.length made
    rw [List.length_map] at counted
    exact ⟨new, made, receives.absorbs wellFormed inside counted same denotes⟩
  · intro halt after stopped
    apply stopped.mono
    intro cause reason
    rcases reason with among | ⟨failed, -⟩ | ⟨-, failed, -⟩
    · exact among
    · cases failed
    · cases failed

/-- Insertion of one element, of any number of copies or of a feed that tells its length keeps what
fits of the whole sequence, and of copies no more are made than are kept. The only thing that can
interrupt it is the destruction of an element that is given up. -/
theorem insertion_absorbs (yields : End) (wellFormed : ring.WellFormed)
    (resolved : ring.resolve cursor = .ok index) (inside : index ≤ ring.len) (ledger : Ledger α) :
    (∀ item : Item α,
      Ends (insert yields cursor item) ⟨ring, ledger⟩
        (fun issued after => Absorbs yields index [item] ring issued after.buffer)
        (Interrupted fun cause _ => ledger.FailsAmong (fun other =>
          other ∈ yields.trimmed (ring.surplus (ring.admits yields index 1)) ring.toList ∨
            other = item) cause)) ∧
    (∀ (n : Nat) (model : Item α),
      Entry.copyable ledger.copiesLeft (ring.admits yields index n) = ring.admits yields index n →
      Ends (insertCopies yields cursor n model) ⟨ring, ledger⟩
        (fun issued after =>
          (∃ copies, copies.map (·.value) = List.replicate n model.value ∧
            Absorbs yields index copies ring issued after.buffer) ∧
          ledger.Draws (ring.admits yields index n) (ring.admits yields index n) after.ledger)
        (Interrupted fun cause _ => ledger.FailsAmong (fun item =>
          item ∈ yields.trimmed (ring.surplus (ring.admits yields index n)) ring.toList ∨
            item = model) cause)) ∧
    (∀ (feed : Feed α) (values : List α), feed.claimed = values.length →
      Entry.outcomes ledger.copiesLeft feed.entries = values.map .ok →
      Ends (insertFeed yields cursor feed) ⟨ring, ledger⟩
        (fun issued after => ∃ new, new.map (·.value) = values ∧
          Absorbs yields index new ring issued after.buffer)
        (Interrupted fun cause _ => ledger.FailsAmong (fun item => ledger.created ≤ item.id ∨
          item ∈ yields.trimmed (ring.surplus (ring.admits yields index values.length))
            ring.toList) cause)) :=
  ⟨fun item => insert_absorbs wellFormed resolved inside item ledger,
    fun _ model enough => insertCopies_absorbs wellFormed resolved inside enough model,
    fun _ _ truthful unfailing =>
      insertFeed_absorbs wellFormed resolved inside truthful unfailing⟩

/-- Before the last of four elements of a full ring, only three of six copies find room. -/
theorem insertion_absorbs_turned :
    let ledger : Ledger Nat := { Ledger.blank (.below 16) with created := 4 }
    (∃ issued after, insert .front ⟨0, some 1, 0, 0⟩ ⟨9, 50⟩ ⟨turned, ledger⟩ = .ok issued after ∧
      after.buffer.toList.map (·.value) = [20, 30, 50, 40]) ∧
    (∃ issued after, insertCopies .front ⟨0, some 1, 0, 0⟩ 6 ⟨9, 70⟩ ⟨turned, ledger⟩ =
        .ok issued after ∧
      after.buffer.toList.map (·.value) = [70, 70, 70, 40] ∧ after.ledger.created = 7) ∧
    ∃ issued after, insertFeed .front ⟨0, some 1, 0, 0⟩ ⟨[.fresh 50, .fresh 60], 2⟩
        ⟨turned, ledger⟩ = .ok issued after ∧
      after.buffer.toList.map (·.value) = [30, 50, 60, 40] := by
  intro ledger
  -- As long as the ring is a variable, no step of the proof runs the operations on it.
  obtain ⟨ring, same⟩ : ∃ ring, ring = turned := ⟨_, rfl⟩
  have resolved : ring.resolve ⟨0, some 1, 0, 0⟩ = .ok 3 := by
    rw [same]
    rfl
  obtain ⟨one, many, feeds⟩ :=
    insertion_absorbs .front (same ▸ turned_wellFormed) resolved (by rw [same]; decide) ledger
  rw [← same]
  refine ⟨?_, ?_, ?_⟩
  · obtain ⟨issued, after, ran, absorbs⟩ :=
      (one ⟨9, 50⟩).returned fun _ _ => Ledger.unfailing rfl
    have listed := absorbs.toList
    rw [same] at listed
    exact ⟨issued, after, ran, by rw [listed]; rfl⟩
  · obtain ⟨issued, after, ran, ⟨copies, made, absorbs⟩, draws⟩ :=
      (many 6 ⟨9, 70⟩ rfl).returned fun _ _ => Ledger.unfailing rfl
    have counted : copies.length = 6 := by simpa using congrArg List.length made
    have listed := absorbs.toList
    rw [same, counted] at listed
    have created := draws.created
    rw [same] at created
    refine ⟨issued, after, ran, ?_, created⟩
    rw [listed, End.trim, List.map_drop, List.map_append, List.map_append, made]
    rfl
  · obtain ⟨issued, after, ran, new, made, absorbs⟩ :=
      (feeds ⟨[.fresh 50, .fresh 60], 2⟩ [50, 60] rfl rfl).returned
        fun _ _ => Ledger.unfailing rfl
    have counted : new.length = 2 := by simpa using congrArg List.length made
    have listed := absorbs.toList
    rw [same, counted] at listed
    refine ⟨issued, after, ran, ?_⟩
    rw [listed, End.trim, List.map_drop, List.map_append, List.map_append, made]
    rfl

end Ring

end RingDeque
