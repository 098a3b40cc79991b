import RingDeque.Proofs.Halting
import RingDeque.Ring.Erasure
import RingDeque.Ring.Replacement

/-!
The size of the block, however an operation ends.

Only a change of capacity and a replacement of the contents exchange the block. Every other action
keeps its size, for all rings and not only for well formed ones, and whether it returns or halts.
-/

namespace RingDeque

open Checked Effect

namespace Block

variable {β : Type} {block : Block β}

theorem write_size (block : Block β) (slot : Nat) (value : β) :
    (block.write slot value).Gives fun after => after.size = block.size := by
  unfold write
  split
  · split
    · exact .of_error _
    · exact .of_ok size_put
  · exact .of_error _

theorem take_size (block : Block β) (slot : Nat) :
    (block.take slot).Gives fun taken => taken.2.size = block.size := by
  unfold take
  split
  · split
    · exact .of_ok size_put
    · exact .of_error _
  · exact .of_error _

theorem takeSlots_size (block : Block β) (slots : List Nat) :
    (block.takeSlots slots).Gives fun taken => taken.2.size = block.size := by
  induction slots generalizing block with
  | nil => exact .of_ok rfl
  | cons slot rest ih =>
      refine (block.take_size slot).bind fun first same => (ih first.2).bind fun taken kept => ?_
      exact .of_ok (kept.trans same)

theorem takeRuns_size (block : Block β) (start len : Nat) :
    (block.takeRuns start len).Gives fun taken => taken.2.size = block.size := by
  refine .past fun slots => (block.takeSlots_size slots.1).bind fun front same => ?_
  exact (front.2.takeSlots_size slots.2).bind fun back kept => .of_ok (kept.trans same)

theorem replace_size (block : Block β) (slot : Nat) (value : β) :
    (block.replace slot value).Gives fun replaced => replaced.2.size = block.size := by
  unfold replace
  split
  · split
    · exact .of_ok size_put
    · exact .of_error _
  · exact .of_error _

theorem swap_size (block : Block β) (first second : Nat) :
    (block.swap first second).Gives fun after => after.size = block.size := by
  unfold swap
  split
  · exact .of_ok (by simp [size])
  · exact .of_error _

theorem writeRun_size (block : Block β) (start : Nat) (values : List β) :
    (block.writeRun start values).Gives fun after => after.size = block.size := by
  induction values generalizing block start with
  | nil => exact .of_ok rfl
  | cons value rest ih =>
      refine (block.write_size start value).bind fun written same => .past fun next => ?_
      rw [← same]
      exact ih written next

end Block

namespace Ring

variable {α : Type} {ring : Ring α} {sizes : Nat → Prop}

/-- A step that leaves the block as large as it is. -/
def Steady (step : Ring α → Checked (γ × Ring α)) : Prop :=
  ∀ ring, (step ring).Gives fun reached => reached.2.capacity = ring.capacity

theorem pushBack_steady (item : Item α) : Steady (pushBack · item) := by
  intro ring
  simp only [pushBack]
  split
  · exact .of_ok rfl
  split
  · refine .past fun start => (ring.block.replace_size _ _).bind fun replaced same => .of_ok same
  · refine .past fun slot => (ring.block.write_size _ _).bind fun written same => ?_
    exact .past fun len => .of_ok same

theorem popBack_steady : Steady (popBack (α := α)) := by
  intro ring
  simp only [popBack]
  split
  · exact .of_ok rfl
  refine .past fun len => .past fun slot => ?_
  exact (ring.block.take_size _).bind fun taken same => .of_ok same

theorem popFront_steady : Steady (popFront (α := α)) := by
  intro ring
  simp only [popFront]
  split
  · exact .of_ok rfl
  refine .past fun start => .past fun len => ?_
  exact (ring.block.take_size _).bind fun taken same => .of_ok same

theorem pop_steady (side : End) : Steady (pop (α := α) side) := by
  cases side with
  | front => exact popFront_steady
  | back => exact popBack_steady

theorem emptied_steady : Steady (emptied (α := α)) := by
  intro ring
  exact (ring.block.takeRuns_size ring.start ring.len).bind fun taken same => .of_ok same

theorem relocate_capacity (ring : Ring α) (source target : Nat) :
    (ring.relocate source target).Gives fun after => after.capacity = ring.capacity :=
  (ring.block.swap_size source target).bind fun _ same => .of_ok same

/-- Exchanging slots one pair after the other. -/
theorem foldlM_capacity {move : Ring α → Nat → Checked (Ring α)}
    (moves : ∀ ring index, (move ring index).Gives fun after => after.capacity = ring.capacity)
    (indices : List Nat) (ring : Ring α) :
    (indices.foldlM move ring).Gives fun after => after.capacity = ring.capacity := by
  induction indices generalizing ring with
  | nil => exact .of_ok rfl
  | cons index rest ih =>
      rw [List.foldlM_cons]
      refine (moves ring index).bind fun middle same => ?_
      rw [← same]
      exact ih middle

theorem shiftBack_capacity (ring : Ring α) (width : Nat) (indices : List Nat) :
    (ring.shiftBack width indices).Gives fun after => after.capacity = ring.capacity :=
  foldlM_capacity (fun ring _ => .past fun source => .past fun _ => .past fun target =>
    ring.relocate_capacity source target) indices ring

theorem shiftFront_capacity (ring : Ring α) (width : Nat) (indices : List Nat) :
    (ring.shiftFront width indices).Gives fun after => after.capacity = ring.capacity :=
  foldlM_capacity (fun ring _ => .past fun source => .past fun _ => .past fun target =>
    ring.relocate_capacity source target) indices ring

theorem slideFront_capacity (ring : Ring α) (count width : Nat) :
    (ring.slideFront count width).Gives fun after => after.capacity = ring.capacity := by
  refine .past fun start => ?_
  refine (foldlM_capacity (fun ring _ => ?_) (List.range count) ring).bind fun _ same => .of_ok same
  exact .past fun source => .past fun target => ring.relocate_capacity source target

theorem openGap_capacity (ring : Ring α) (index width : Nat) (tie : End) :
    (ring.openGap index width tie).Gives fun after => after.capacity = ring.capacity := by
  refine .past fun tail => ?_
  cases End.shorter index tail tie with
  | front => exact ring.slideFront_capacity index width
  | back => exact ring.shiftBack_capacity width _

theorem fillGap_capacity (ring : Ring α) (index : Nat) (items : List (Item α)) :
    (ring.fillGap index items).Gives fun after => after.capacity = ring.capacity := by
  induction items generalizing ring index with
  | nil => exact .of_ok rfl
  | cons item rest ih =>
      refine .past fun slot => (ring.block.write_size slot item).bind fun written same => ?_
      refine .past fun next => (ih { ring with block := written } next).mono fun after kept => ?_
      exact kept.trans same

theorem closeGap_capacity (ring : Ring α) (index width tail : Nat) :
    (ring.closeGap index width tail).Gives fun after => after.capacity = ring.capacity := by
  unfold closeGap
  split
  · exact .of_ok rfl
  · refine .past fun behind => foldlM_capacity (fun ring _ => ?_) (List.range tail) ring
    exact .past fun _ => .past fun source => .past fun _ => .past fun target =>
      ring.relocate_capacity source target

theorem splice_capacity (ring : Ring α) (index width : Nat) (tie : End) (items : List (Item α)) :
    (ring.splice index width tie items).Gives fun after => after.capacity = ring.capacity := by
  refine .past fun tail => (ring.openGap_capacity index width tie).bind fun opened same => ?_
  refine (opened.fillGap_capacity index items).bind fun filled kept => ?_
  refine .past fun behind => .past fun missing => ?_
  refine (filled.closeGap_capacity behind missing tail).bind fun closed still => ?_
  exact .past fun len => .of_ok (still.trans (kept.trans same))

/-- However the action ends, the block is as large as it was, or has one of the given sizes. -/
def Resizes (sizes : Nat → Prop) (act : Act (Ring α) α γ) : Prop :=
  ∀ before, Ends act before
    (fun _ after => after.buffer.capacity = before.buffer.capacity ∨ sizes after.buffer.capacity)
    fun _ after => after.buffer.capacity = before.buffer.capacity ∨ sizes after.buffer.capacity

/-- However the action ends, the block is as large as it was. -/
abbrev KeepsSize (act : Act (Ring α) α γ) : Prop :=
  Resizes (fun _ => False) act

theorem resizes_pure (value : γ) : Resizes sizes (pure value : Act (Ring α) α γ) :=
  fun _ => .inl rfl

theorem resizes_throw (halt : Halt) : Resizes sizes (throw halt : Act (Ring α) α γ) :=
  fun _ => .inl rfl

theorem resizes_checked (step : Checked γ) :
    Resizes sizes (liftM step : Act (Ring α) α γ) := by
  intro before
  cases step with
  | ok value => exact .inl rfl
  | error fault => exact .inl rfl

theorem resizes_query (query : Query γ) : Resizes sizes (liftM query : Act (Ring α) α γ) := by
  intro before
  cases query with
  | ok value => exact .inl rfl
  | error halt => exact .inl rfl

theorem resizes_ledger (act : Effect (Ledger α) γ) :
    Resizes sizes (liftM act : Act (Ring α) α γ) := by
  intro before
  rw [Act.ends_ledger]
  exact Ends.anyhow (fun _ _ => .inl rfl) fun _ _ => .inl rfl

theorem resizes_update {step : Ring α → Checked (γ × Ring α)}
    (steady : Steady step) : Resizes sizes (Act.update step) := by
  intro before
  simp only [Act.update, ends_bind, Act.ends_buffer]
  cases stepped : step before.buffer with
  | ok reached => exact .inl (steady _ reached stepped)
  | error fault => exact .inl rfl

theorem resizes_alter {step : Ring α → Checked (Ring α)}
    (same : ∀ ring, (step ring).Gives fun after => after.capacity = ring.capacity) :
    Resizes sizes (Act.alter step) := by
  intro before
  simp only [Act.alter, ends_bind, Act.ends_buffer]
  cases stepped : step before.buffer with
  | ok after => exact .inl (same _ after stepped)
  | error fault => exact .inl rfl

namespace Resizes

variable {act : Act (Ring α) α γ} {item : Item α}

theorem mono {more : Nat → Prop} (resizes : Resizes sizes act)
    (wider : ∀ size, sizes size → more size) : Resizes more act :=
  fun before => (resizes before).mono (fun _ _ => Or.imp_right (wider _))
    fun _ _ => Or.imp_right (wider _)

theorem bind {next : γ → Act (Ring α) α δ} (first : Resizes sizes act)
    (rest : ∀ value, Resizes sizes (next value)) : Resizes sizes (act >>= next) := by
  intro before
  rw [ends_bind]
  refine (first before).mono ?_ fun _ _ => id
  intro value middle reached
  -- The size at hand in between is the first one, or one of those given.
  have onward : ∀ size, size = middle.buffer.capacity ∨ sizes size →
      size = before.buffer.capacity ∨ sizes size := by
    intro size final
    rcases final with rfl | given
    · exact reached
    · exact .inr given
  exact (rest value middle).mono (fun _ after => onward after.buffer.capacity)
    fun _ after => onward after.buffer.capacity

theorem of_buffer {next : Ring α → Act (Ring α) α δ} (rest : ∀ ring, Resizes sizes (next ring)) :
    Resizes sizes (Act.buffer >>= next) :=
  fun before => rest before.buffer before

theorem holding (resizes : Resizes sizes act) : Resizes sizes (holding item act) :=
  fun before => Act.ends_holding (fun ring : Ring α =>
    ring.capacity = before.buffer.capacity ∨ sizes ring.capacity) (resizes before)

theorem consuming (resizes : Resizes sizes act) : Resizes sizes (consuming item act) :=
  resizes.holding.bind fun value => (resizes_ledger (Ledger.destroy item)).bind fun _ => resizes_pure value

end Resizes

variable {model : Item α}

theorem evict_keepsSize (side : End) (count : Nat) : KeepsSize (evict (α := α) side count) := by
  induction count with
  | zero => exact resizes_pure _
  | succ count ih =>
      refine (resizes_update (pop_steady side)).bind fun popped => ?_
      cases popped with
      | none => exact resizes_pure _
      | some item => exact (resizes_ledger _).bind fun _ => ih

theorem extend_keepsSize (entries : List (Entry α)) : KeepsSize (extend entries) := by
  induction entries with
  | nil => exact resizes_pure _
  | cons entry rest ih =>
      refine (resizes_ledger _).bind fun item => ?_
      refine (resizes_update (pushBack_steady item)).bind fun evicted => ?_
      cases evicted with
      | none => exact ih
      | some evicted => exact (resizes_ledger _).bind fun _ => ih

theorem clear_keepsSize : KeepsSize (clear (α := α)) :=
  (resizes_update emptied_steady).bind fun _ => resizes_ledger _

theorem makeRoom_keepsSize (yields : End) (index count : Nat) :
    KeepsSize (makeRoom (α := α) yields index count) := by
  refine .of_buffer fun ring => (resizes_checked _).bind fun total => ?_
  refine (evict_keepsSize _ _).bind fun _ => ?_
  cases yields with
  | front => exact resizes_checked _
  | back => exact resizes_pure _

theorem cursorFor_keepsSize (index : Nat) :
    KeepsSize (do liftM ((← Act.buffer).cursorFor index) : Act (Ring α) α Cursor) :=
  .of_buffer fun _ => resizes_checked _

theorem insertEntries_keepsSize (yields : End) (index count : Nat) (entries : List (Entry α)) :
    KeepsSize (insertEntries yields index count entries) := by
  simp only [insertEntries]
  by_cases nothing : count = 0
  · simp only [if_pos nothing]
    exact cursorFor_keepsSize index
  · simp only [if_neg nothing]
    refine (makeRoom_keepsSize yields index count).bind fun place => ?_
    refine (resizes_ledger _).bind fun made => ?_
    refine (resizes_alter fun ring => ring.splice_capacity place count _ _).bind fun _ => ?_
    cases made.2 with
    | none => exact cursorFor_keepsSize place
    | some halt => exact resizes_throw halt

theorem insert_keepsSize (yields : End) (cursor : Cursor) (item : Item α) :
    KeepsSize (insert yields cursor item) := by
  refine (Resizes.of_buffer fun _ => resizes_query _).holding.bind fun index => ?_
  refine .of_buffer fun ring => (resizes_checked _).bind fun room => ?_
  by_cases full : room = 0
  · simp only [if_pos full]
    exact (resizes_ledger _).bind fun _ => cursorFor_keepsSize index
  · simp only [if_neg full]
    refine (makeRoom_keepsSize yields index 1).holding.bind fun place => ?_
    refine (resizes_alter fun ring => ring.splice_capacity place 1 _ _).bind fun _ => ?_
    exact cursorFor_keepsSize place

theorem insertCopies_keepsSize (yields : End) (cursor : Cursor) (n : Nat) (model : Item α) :
    KeepsSize (insertCopies yields cursor n model) := by
  refine Resizes.consuming (.of_buffer fun ring => (resizes_query _).bind fun index => ?_)
  exact (resizes_checked _).bind fun room => insertEntries_keepsSize yields index _ _

theorem insertFeed_keepsSize (yields : End) (cursor : Cursor) (feed : Feed α) :
    KeepsSize (insertFeed yields cursor feed) := by
  refine .of_buffer fun ring => (resizes_query _).bind fun index => ?_
  refine (resizes_checked _).bind fun room => ?_
  cases yields with
  | front => exact (resizes_ledger _).bind fun left => insertEntries_keepsSize .front index _ left
  | back => exact insertEntries_keepsSize .back index _ feed.entries

theorem removeRange_keepsSize (index count : Nat) (tie : End) :
    KeepsSize (removeRange (α := α) index count tie) := by
  simp only [removeRange]
  by_cases nothing : count = 0
  · simp only [if_pos nothing]
    exact resizes_pure _
  simp only [if_neg nothing]
  refine .of_buffer fun ring => (resizes_checked _).bind fun tail => ?_
  refine (resizes_checked _).bind fun behind => ?_
  cases End.shorter index behind tie with
  | front =>
      refine (resizes_alter fun ring => ring.shiftBack_capacity count _).bind fun _ => ?_
      exact evict_keepsSize .front count
  | back =>
      refine (resizes_checked _).bind fun first => ?_
      refine (resizes_alter fun ring => ring.shiftFront_capacity count _).bind fun _ => ?_
      exact evict_keepsSize .back count

theorem erase_keepsSize (toward : End) (cursor : Cursor) :
    KeepsSize (erase (α := α) toward cursor) := by
  refine .of_buffer fun ring => (resizes_query _).bind fun index => ?_
  refine (removeRange_keepsSize index 1 toward).bind fun _ => ?_
  exact .of_buffer fun _ => resizes_checked _

theorem eraseRange_keepsSize (toward : End) (first last : Cursor) :
    KeepsSize (eraseRange (α := α) toward first last) := by
  refine .of_buffer fun ring => (resizes_query _).bind fun range => ?_
  obtain ⟨source, target⟩ := range
  by_cases nothing : source = target
  · simp only [if_pos nothing]
    exact cursorFor_keepsSize source
  · simp only [if_neg nothing]
    refine (resizes_checked _).bind fun count => ?_
    refine (removeRange_keepsSize source count toward).bind fun _ => ?_
    exact .of_buffer fun _ => resizes_checked _

theorem rehouse_capacity (trim : End) (target : Block (Item α)) (stamps : Stamps) (ring : Ring α) :
    (ring.rehouse trim target stamps).Gives fun reached => reached.2.capacity = target.size := by
  refine .past fun trimmed => .past fun moved => ?_
  refine (target.writeRun_size 0 _).bind fun block same => .past fun slot => .past fun runs => ?_
  exact .of_ok same

theorem setCapacity_resizes (trim : End) (capacity : Nat) :
    Resizes (· = capacity) (setCapacity (α := α) trim capacity) := by
  simp only [setCapacity]
  refine .of_buffer fun previous => ?_
  by_cases same : capacity = previous.capacity
  · simp only [if_pos same]
    exact resizes_pure _
  simp only [if_neg same]
  intro before
  simp only [ends_bind, Act.ends_ledger]
  apply Ledger.ends_allocating _ fun _ => .inl trivial
  intro _ block stamps sized _ _
  simp only [Act.update, ends_bind, Act.ends_buffer]
  cases stepped : before.buffer.rehouse trim block stamps with
  | error fault => exact .inl rfl
  | ok reached =>
      have resized : reached.2.capacity = capacity :=
        (rehouse_capacity trim block stamps before.buffer reached stepped).trans sized
      simp only [liftM_ok, ends_pure, Act.ends_become]
      cases Word.sub previous.len reached.2.len with
      | error fault => exact .inr resized
      | ok trimmed =>
          simp only [liftM_ok, ends_pure, Act.ends_report]
          exact Ends.anyhow (fun _ _ => .inr resized) fun _ _ => .inr resized

theorem ofSupply_capacity (capacity : Nat) (supply : Supply α) (ledger : Ledger α) :
    Ends (ofSupply capacity supply) ledger (fun ring _ => ring.capacity = capacity)
      fun _ _ => True := by
  simp only [ofSupply, Ring.new, ends_bind, ends_pure]
  apply Ledger.ends_allocating _ fun _ => trivial
  intro _ block stamps sized _ _
  refine Ends.anyhow (fun registry after => ?_) fun _ _ => trivial
  refine Act.ends_building.mpr ((extend_keepsSize supply.entries _).mono ?_ ?_)
  · intro _ final kept
    exact (kept.resolve_right id).trans sized
  · intro halt final _
    simp only [ends_bind, ends_throw]
    exact Ends.anyhow (fun _ _ => Ends.anyhow (fun _ _ => trivial) fun _ _ => trivial)
      fun _ _ => trivial

theorem replaceContents_resizes (capacity : Nat) (supply : Supply α) :
    Resizes (· = capacity) (replaceContents capacity supply) := by
  refine .of_buffer fun ring => ?_
  by_cases same : capacity = ring.capacity
  · simp only [if_pos same]
    have kept : KeepsSize (do
        clear
        extend supply.entries) :=
      clear_keepsSize.bind fun _ => extend_keepsSize supply.entries
    exact kept.mono fun _ => False.elim
  simp only [if_neg same]
  intro before
  rw [ends_bind, Act.ends_ledger]
  refine (ofSupply_capacity capacity supply before.ledger).mono ?_ fun _ _ _ => .inl rfl
  intro fresh ledger sized
  simp only [ends_bind, Act.ends_report, Act.ends_become, Act.ends_ledger]
  exact Ends.anyhow (fun _ _ => .inr sized) fun _ _ => .inr sized

theorem assignWithin_resizes (capacity n : Nat) (model : Item α) :
    Resizes (· = capacity) (assignWithin capacity n model) := by
  refine Resizes.consuming ?_
  by_cases small : capacity < n
  · simp only [if_pos small]
    exact (resizes_throw _).bind fun _ => replaceContents_resizes capacity _
  · simp only [if_neg small]
    exact replaceContents_resizes capacity _

end Ring

end RingDeque
