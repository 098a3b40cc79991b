import RingDeque.Proofs.Halting
import RingDeque.Ring.Erasure
import RingDeque.Ring.Replacement

/-!
Operations on a ring that are refused leave the ring as it was.

What can be refused comes first: a cursor is resolved and a block is had before an element moves.
The rest cannot be refused, for all rings and not only for well formed ones.
-/

namespace RingDeque.Ring

open Effect Act

variable {α : Type} {item model : Item α} {yields toward trim tie : End} {index count n : Nat}
  {cursor first last : Cursor} {feed : Feed α} {supply : Supply α} {capacity : Nat}

theorem evict_unrefused (side : End) (count : Nat) : Unrefused (evict (α := α) side count) := by
  induction count with
  | zero => exact haltsOnly_pure _
  | succ count ih =>
      refine (unrefused_update _).bind fun popped => ?_
      cases popped with
      | none => exact haltsOnly_pure _
      | some item =>
          exact (haltsOnly_ledger (Ledger.destroy_unrefused item)).bind fun _ => ih

theorem extend_unrefused (entries : List (Entry α)) : Unrefused (extend entries) := by
  induction entries with
  | nil => exact haltsOnly_pure _
  | cons entry rest ih =>
      refine (haltsOnly_ledger entry.produce_unrefused).bind fun item => ?_
      refine (unrefused_update _).bind fun evicted => ?_
      cases evicted with
      | none => exact ih
      | some evicted =>
          exact (haltsOnly_ledger (Ledger.destroy_unrefused evicted)).bind fun _ => ih

theorem clear_unrefused : Unrefused (clear (α := α)) :=
  (unrefused_update _).bind fun runs =>
    haltsOnly_ledger (Ledger.destroyRuns_unrefused runs.1 runs.2)

theorem destroy_unrefused (ring : Ring α) : Unrefused ring.destroy :=
  (unrefused_checked _).bind fun runs => Ledger.destroyRuns_unrefused runs.1 runs.2

/-- The cursor to a logical index, asked of the ring as it is. -/
theorem cursorFor_unrefused (index : Nat) :
    Unrefused (do liftM ((← Act.buffer).cursorFor index) : Act (Ring α) α Cursor) :=
  haltsOnly_buffer fun _ => unrefused_checked _

theorem makeRoom_unrefused (yields : End) (index count : Nat) :
    Unrefused (makeRoom (α := α) yields index count) := by
  refine haltsOnly_buffer fun ring => (unrefused_checked _).bind fun total => ?_
  refine (evict_unrefused _ _).bind fun _ => ?_
  cases yields with
  | front => exact unrefused_checked _
  | back => exact haltsOnly_pure _

theorem insertEntries_unrefused (yields : End) (index count : Nat) (entries : List (Entry α)) :
    Unrefused (insertEntries yields index count entries) := by
  simp only [insertEntries]
  by_cases nothing : count = 0
  · simp only [if_pos nothing]
    exact cursorFor_unrefused index
  · simp only [if_neg nothing]
    refine (makeRoom_unrefused yields index count).bind fun place => ?_
    -- The halt that the entries ended with goes on only now.
    refine HaltsOnly.after (fun made => ∀ halt, made.2 = some halt → halt.isRefusal = false) ?_ ?_
    · intro before
      rw [ends_ledger]
      exact Entry.produceAll_unrefused _ before.ledger
    · intro made other
      obtain ⟨items, halt⟩ := made
      refine (unrefused_alter _).bind fun _ => ?_
      cases halt with
      | none => exact cursorFor_unrefused place
      | some halt => exact haltsOnly_throw (other halt rfl)

theorem insert_atomic (yields : End) (cursor : Cursor) (item : Item α) :
    Atomic (insert yields cursor item) := by
  refine Atomic.bind (Atomic.of_buffer fun ring => atomic_query _).holding fun index => ?_
  refine haltsOnly_buffer fun ring => (unrefused_checked _).bind fun room => ?_
  by_cases full : room = 0
  · simp only [if_pos full]
    exact (haltsOnly_ledger (Ledger.destroy_unrefused item)).bind fun _ =>
      cursorFor_unrefused index
  · simp only [if_neg full]
    refine (unrefused_holding (makeRoom_unrefused yields index 1)).bind fun place => ?_
    exact (unrefused_alter _).bind fun _ => cursorFor_unrefused place

theorem insertCopies_atomic (yields : End) (cursor : Cursor) (n : Nat) (model : Item α) :
    Atomic (insertCopies yields cursor n model) := by
  refine Atomic.consuming (Atomic.of_buffer fun ring => .of_query fun index => ?_)
  refine .of_checked fun room => .of_unrefused ?_
  exact insertEntries_unrefused yields index _ _

theorem insertFeed_atomic (yields : End) (cursor : Cursor) (feed : Feed α) :
    Atomic (insertFeed yields cursor feed) := by
  refine Atomic.of_buffer fun ring => .of_query fun index => .of_checked fun room => ?_
  cases yields with
  | front =>
      refine .of_unrefused ((haltsOnly_ledger (feed.skipSurplus_unrefused _)).bind fun left => ?_)
      exact insertEntries_unrefused .front index _ left
  | back => exact .of_unrefused (insertEntries_unrefused .back index _ feed.entries)

theorem removeRange_unrefused (index count : Nat) (tie : End) :
    Unrefused (removeRange (α := α) index count tie) := by
  simp only [removeRange]
  by_cases nothing : count = 0
  · simp only [if_pos nothing]
    exact haltsOnly_pure _
  simp only [if_neg nothing]
  refine haltsOnly_buffer fun ring => (unrefused_checked _).bind fun tail => ?_
  refine (unrefused_checked _).bind fun behind => ?_
  cases End.shorter index behind tie with
  | front => exact (unrefused_alter _).bind fun _ => evict_unrefused .front count
  | back =>
      refine (unrefused_checked _).bind fun first => ?_
      exact (unrefused_alter _).bind fun _ => evict_unrefused .back count

/-- The neighbour of what was erased, asked of the ring as it is. -/
theorem cursorBeside_unrefused (toward : End) (index : Nat) :
    Unrefused (do liftM ((← Act.buffer).cursorBeside toward index) :
      Act (Ring α) α Cursor) :=
  haltsOnly_buffer fun _ => unrefused_checked _

theorem erase_atomic (toward : End) (cursor : Cursor) :
    Atomic (erase (α := α) toward cursor) := by
  refine Atomic.of_buffer fun ring => .of_query fun index => .of_unrefused ?_
  exact (removeRange_unrefused index 1 toward).bind fun _ => cursorBeside_unrefused toward index

theorem eraseRange_atomic (toward : End) (first last : Cursor) :
    Atomic (eraseRange (α := α) toward first last) := by
  refine Atomic.of_buffer fun ring => .of_query fun range => ?_
  obtain ⟨source, target⟩ := range
  by_cases nothing : source = target
  · simp only [if_pos nothing]
    exact .of_unrefused (cursorFor_unrefused source)
  · simp only [if_neg nothing]
    refine .of_checked fun count => .of_unrefused ?_
    exact (removeRange_unrefused source count toward).bind fun _ =>
      cursorBeside_unrefused toward source

theorem setCapacity_atomic (trim : End) (capacity : Nat) :
    Atomic (setCapacity (α := α) trim capacity) := by
  simp only [setCapacity]
  refine Atomic.of_buffer fun ring => ?_
  by_cases same : capacity = ring.capacity
  · simp only [if_pos same]
    exact .of_unrefused (haltsOnly_pure _)
  · simp only [if_neg same]
    -- Both requests are made before the first element moves.
    refine Atomic.of_ledger fun block => Atomic.of_ledger fun stamps => .of_unrefused ?_
    refine (unrefused_update _).bind fun runs => haltsOnly_buffer fun final => ?_
    refine (unrefused_checked _).bind fun trimmed => ?_
    refine (haltsOnly_ledger (Ledger.report_unrefused _)).bind fun _ => ?_
    exact haltsOnly_ledger (Ledger.destroyRuns_unrefused runs.1 runs.2)

theorem growing_unrefused (yields : End) (n : Nat) (model : Item α) :
    Unrefused (do
      let len := (← Act.buffer).len
      let count ← Word.sub n len
      let index := match yields with
        | .front => len
        | .back => 0
      let _ ← insertEntries yields index count (List.replicate count (.copyOf model))
      pure () : Act (Ring α) α Unit) := by
  refine haltsOnly_buffer fun ring => (unrefused_checked _).bind fun count => ?_
  exact (insertEntries_unrefused _ _ _ _).bind fun _ => haltsOnly_pure _

theorem resize_atomic (yields : End) (n : Nat) (model : Item α) :
    Atomic (resize yields n model) := by
  refine Atomic.consuming (Atomic.of_buffer fun ring => ?_)
  by_cases short : ring.len < n
  · simp only [if_pos short]
    -- The block grows first, and the copies follow.
    by_cases tight : ring.capacity < n
    · simp only [if_pos tight]
      exact (setCapacity_atomic yields n).bind fun _ => growing_unrefused yields n model
    · simp only [if_neg tight]
      exact .of_unrefused (growing_unrefused yields n model)
  · simp only [if_neg short]
    exact .of_unrefused (evict_unrefused yields _)

theorem replaceContents_atomic (capacity : Nat) (supply : Supply α) :
    Atomic (replaceContents capacity supply) := by
  refine Atomic.of_buffer fun ring => ?_
  by_cases same : capacity = ring.capacity
  · simp only [if_pos same]
    exact .of_unrefused (clear_unrefused.bind fun _ => extend_unrefused supply.entries)
  · simp only [if_neg same]
    refine Atomic.of_ledger fun fresh => .of_unrefused ?_
    refine (haltsOnly_ledger (Ledger.report_unrefused _)).bind fun _ => ?_
    exact (haltsOnly_modify _).bind fun _ => haltsOnly_ledger ring.destroy_unrefused

theorem assign_atomic (n : Nat) (model : Item α) : Atomic (assign n model) :=
  Atomic.consuming (Atomic.of_buffer fun _ => replaceContents_atomic _ _)

theorem assignWithin_atomic (capacity n : Nat) (model : Item α) :
    Atomic (assignWithin capacity n model) := by
  refine Atomic.consuming ?_
  by_cases small : capacity < n
  · simp only [if_pos small]
    exact .of_refuse _ _
  · simp only [if_neg small]
    exact replaceContents_atomic capacity _

theorem assignFeed_atomic (feed : Feed α) : Atomic (assignFeed feed) :=
  Atomic.of_buffer fun _ => replaceContents_atomic _ _

theorem assignFeedWithin_atomic (capacity : Nat) (feed : Feed α) :
    Atomic (assignFeedWithin capacity feed) :=
  replaceContents_atomic capacity _

end RingDeque.Ring
