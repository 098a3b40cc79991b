import RingDeque.Datum
import RingDeque.Proofs.Ring.Locating
import RingDeque.Proofs.Session.Integrity

/-!
Cursors over whole runs.

Main statement: `accepted_cursor_tracks`. While a buffer accepts a cursor that it issued for an
element, that element has stayed in its slot all along, and the cursor leads to it. No other buffer
ever accepts the cursor.
-/

namespace RingDeque

theorem Registry.owner_of_accepts {registry : Registry} {cursor : Cursor}
    (accepted : registry.accepts cursor = true) : cursor.owner = registry.owner := by
  simp only [Registry.accepts, Bool.and_eq_true, beq_iff_eq] at accepted
  exact accepted.1

namespace Ring

variable {α : Type} {written : Prop} {earlier later : Ring α} {cursor : Cursor}

/-- A cursor that a ring accepts was accepted ever since it was issued, and meanwhile the element in
its slot gave way only by being written over. -/
theorem Ages.accepted (ages : Ages written earlier later) (vouched : earlier.Vouches cursor)
    (accepted : later.registry.accepts cursor = true) :
    earlier.registry.accepts cursor = true ∧ ∀ slot, cursor.slot = some slot →
      ∃ item laterItem, earlier.block.get? slot = some item ∧
        later.block.get? slot = some laterItem ∧ (laterItem = item ∨ written) := by
  have endGeneration := ages.endGeneration
  have generation := ages.generation
  simp only [Registry.accepts, Bool.and_eq_true, beq_iff_eq] at accepted ⊢
  obtain ⟨own, current⟩ := accepted
  have owner : cursor.owner = earlier.registry.owner := own.trans ages.owner
  have vouched := vouched owner
  cases stands : cursor.slot with
  | none =>
      simp only [stands, beq_iff_eq] at current vouched ⊢
      refine ⟨⟨owner, by omega⟩, ?_⟩
      intro _ impossible
      cases impossible
  | some slot =>
      simp only [stands, Bool.and_eq_true, beq_iff_eq] at current vouched ⊢
      have same : later.registry.generation = earlier.registry.generation := by omega
      obtain ⟨stamp, found, bound, held⟩ := vouched.2 (by omega)
      obtain ⟨laterStamp, laterFound, laterBound, tenant⟩ := ages.tenants same slot stamp found
      rw [current.2, Option.some_inj] at laterFound
      have unmoved : stamp = cursor.stamp := by omega
      refine ⟨⟨owner, by omega, by rw [found, unmoved]⟩, ?_⟩
      intro _ impossible
      cases impossible
      obtain ⟨item, itemHeld⟩ := Option.isSome_iff_exists.mp (held unmoved)
      obtain ⟨laterItem, laterHeld, stays⟩ := tenant (by omega) item itemHeld
      exact ⟨item, laterItem, itemHeld, laterHeld, stays⟩

end Ring

namespace Session

open Effect

variable {α : Type} {session : Session α} {owned : Multiset Nat} {number slot : Nat}
  {cursor : Cursor} {later : Buffer α} {item last : Item α} {ops : List (Op α)}

/-- The buffer with a number and an identity has an element in a slot, as one of its elements. -/
def Tenant (number owner slot : Nat) (session : Session α) (item : Item α) : Prop :=
  ∃ buffer, session.buffer? number = some buffer ∧ buffer.ring.registry.owner = owner ∧
    buffer.ring.block.get? slot = some item ∧ item ∈ buffer.ring.toList

/-- An element stays in a slot during a run: it is there after every operation, unless an operation
that writes in place has put another one there instead. -/
inductive Stays [Value α] (number owner slot : Nat) : Session α → Item α → List (Op α) → Item α → Prop where
  | here {session : Session α} {item : Item α} (tenant : Tenant number owner slot session item) :
      Stays number owner slot session item [] item
  | later {session : Session α} {item next last : Item α} {op : Op α} {rest : List (Op α)}
      (tenant : Tenant number owner slot session item)
      (same : next = item ∨ op.inPlace number = true)
      (stays : Stays number owner slot (session.step op).2 next rest last) :
      Stays number owner slot session item (op :: rest) last

theorem Valid.tenant {buffer : Buffer α} (valid : session.Valid)
    (found : session.buffer? number = some buffer)
    (held : buffer.ring.block.get? slot = some item) :
    Tenant number buffer.ring.registry.owner slot session item := by
  have wellFormed := valid.wellFormed _ (mem_of_buffer? found)
  refine ⟨buffer, found, rfl, held, ?_⟩
  obtain ⟨index, inside, rfl⟩ :=
    Ring.exists_place wellFormed.sited (Block.lt_size_of_get? held)
  have live : index < buffer.ring.len := by
    rw [← wellFormed.isSome_cell inside, Ring.cell, held]
    rfl
  have listed := wellFormed.cell_eq live
  rw [Ring.cell, held] at listed
  exact List.mem_of_getElem? listed.symm

/-- What is accepted in the end was accepted all along. -/
theorem run_tracks [Value α] (valid : session.Valid)
    (balanced : session.ledger.Balanced (afloat session.buffers + owned))
    (vouches : session.Vouches cursor) (found : (run ops session).buffer? number = some later)
    (accepted : later.ring.registry.accepts cursor = true) :
    ∃ buffer, session.buffer? number = some buffer ∧
      buffer.ring.registry.accepts cursor = true ∧ later.ring.Vouches cursor ∧
      ∀ slot, cursor.slot = some slot → ∃ item last, buffer.ring.block.get? slot = some item ∧
        later.ring.block.get? slot = some last ∧
        Stays number cursor.owner slot session item ops last := by
  -- Read from the end: what is accepted after the rest was accepted after the first operation, and
  -- that operation did not make the buffer, whose number would be too large for the cursor.
  induction ops generalizing session owned with
  | nil =>
      refine ⟨later, found, accepted, vouches.of_found found, fun slot stands => ?_⟩
      have own := Registry.owner_of_accepts accepted
      have ages : Ring.Ages False later.ring later.ring := .refl _
      obtain ⟨-, tenants⟩ := ages.accepted (vouches.of_found found) accepted
      obtain ⟨item, -, held, -⟩ := tenants slot stands
      exact ⟨item, item, held, held, .here (own ▸ valid.tenant found held)⟩
  | cons op rest ih =>
      obtain ⟨-, lost, agrees, -⟩ := step_sound valid balanced op
      obtain ⟨middle, middleFound, middleAccepted, laterVouches, tracked⟩ :=
        ih agrees.valid agrees.balanced (vouches.of_descends agrees.descends) found
      have own := Registry.owner_of_accepts middleAccepted
      rcases agrees.descends.buffers _ (mem_of_buffer? middleFound) with
        fresh | ⟨earlier, member, ages⟩
      · have known := vouches.known
        simp only at fresh
        omega
      · have earlierFound := valid.numbered.buffer?_eq_some_iff.mpr member
        obtain ⟨earlierAccepted, tenants⟩ :=
          ages.accepted (vouches.of_found earlierFound) middleAccepted
        refine ⟨earlier, earlierFound, earlierAccepted, laterVouches, fun slot stands => ?_⟩
        obtain ⟨next, last, nextHeld, lastHeld, stays⟩ := tracked slot stands
        obtain ⟨item, laterItem, itemHeld, laterHeld, same⟩ := tenants slot stands
        rw [nextHeld, Option.some_inj] at laterHeld
        subst laterHeld
        have ownEarlier := own.trans ages.owner
        exact ⟨item, last, itemHeld, lastHeld,
          .later (ownEarlier ▸ valid.tenant earlierFound itemHeld) same stays⟩

/-- A buffer has just issued a cursor: it gives the cursor for a logical index, or an operation on
the buffer replied with the cursor, which was kept under a name. -/
inductive Issued [Value α] (number index : Nat) (cursor : Cursor) : Session α → Prop where
  | given {session : Session α} {buffer : Buffer α} (found : session.buffer? number = some buffer)
      (inside : index ≤ buffer.ring.len) (given : buffer.ring.cursorFor index = .ok cursor) :
      Issued number index cursor session
  | replied {before session : Session α} {command : Command α} {name : String} {isEnd : Bool}
      (reachable : before.Reachable)
      (replied : before.step (.on number command (some name)) = (.cursor index isEnd, session))
      (kept : session.bookmarks.lookup name = some ⟨number, cursor⟩) :
      Issued number index cursor session

/-- A cursor that stands at a logical index of the buffer under a number. -/
structure Stands (session : Session α) (number index : Nat) (cursor : Cursor) : Prop where
  vouches : session.Vouches cursor
  resolved : ∃ buffer, session.buffer? number = some buffer ∧
    buffer.ring.resolve cursor = .ok index

theorem lookup_withBookmark {name : String} {bookmark : Bookmark} :
    (session.withBookmark name bookmark).bookmarks.lookup name = some bookmark := by
  have vacant : (session.bookmarks.filter (·.1 != name)).lookup name = none := by
    rw [List.lookup_eq_none_iff]
    intro entry member
    have kept := (List.mem_filter.mp member).2
    simp only [bne_iff_ne, ne_eq] at kept
    simpa using Ne.symm kept
  simp [withBookmark, List.lookup_append, vacant]

/-- A cursor that an operation replies with is kept, and stands at the index in the reply. -/
theorem runOp_stands [Value α] {writes : Nat → Prop} {origin : Session α} {command : Command α}
    {name : String} (agrees : Agrees writes origin owned session)
    (allowed : command.inPlace = true → writes number) :
    Ends (runOp (.on number command (some name))) session
      (fun reply after => ∀ index isEnd, reply = .cursor index isEnd → ∃ cursor,
        after.bookmarks.lookup name = some ⟨number, cursor⟩ ∧ after.Stands number index cursor)
      fun _ _ => True := by
  simp only [runOp]
  rw [ends_bind]
  refine Ends.mono (runCommand_concludes agrees command allowed) ?_ fun _ _ _ => trivial
  intro outcome middle ended
  obtain ⟨held, fair⟩ := ended
  cases outcome with
  | reply reply =>
      intro index isEnd same
      subst same
      exact fair.elim
  | cursor cursor =>
      have kept : Agrees writes origin owned (middle.withBookmark name ⟨number, cursor⟩) :=
        held.bookmarking fair name
      have vouches : (middle.withBookmark name ⟨number, cursor⟩).Vouches cursor :=
        ⟨fair.known, fair.regular, fair.vouched⟩
      simp only [ends_bind, ends_modify, ends_pure]
      refine (askRing_ends (fun ring index => ring.resolve cursor = .ok index)
        fun buffer found => ?_).mono ?_ fun _ _ _ => trivial
      · exact ((kept.wellFormed found).resolve_yields (vouches.of_found found)).answer
      · intro place after reached index isEnd same
        obtain ⟨rfl, buffer, found, resolved⟩ := reached
        cases same
        exact ⟨cursor, lookup_withBookmark, vouches, buffer, found, resolved⟩

theorem Issued.stands [Value α] {index : Nat} (reachable : session.Reachable)
    (issued : session.Issued number index cursor) : session.Stands number index cursor := by
  cases issued with
  | given found inside given =>
      obtain ⟨memory, past, rfl⟩ := reachable
      obtain ⟨valid, -⟩ := run_sound (blank_valid memory) (blank_balanced memory) past
      have points : Ring.Points _ cursor index := ⟨given, inside⟩
      exact ⟨valid.vouches_of_issues (mem_of_buffer? found) points.issues, _, found,
        points.resolve (valid.wellFormed _ (mem_of_buffer? found))⟩
  | @replied before _ command name isEnd reachable replied kept =>
      obtain ⟨memory, past, rfl⟩ := reachable
      obtain ⟨valid, lost, balanced⟩ := run_sound (blank_valid memory) (blank_balanced memory) past
      have agrees : Agrees (fun _ => True) (run past (blank memory)) lost
          (run past (blank memory)) := ⟨valid, .refl _, balanced⟩
      rcases step_ends (runOp_stands agrees.silenced fun _ => trivial) with
        ended | ⟨halt, halted, -⟩ | ⟨idle, -⟩
      · rw [replied] at ended
        obtain ⟨issued, found, stands⟩ := ended index isEnd rfl
        rw [found, Option.some_inj, Bookmark.mk.injEq] at kept
        exact kept.2 ▸ stands
      · rw [replied] at halted
        cases halted
      · rw [replied] at idle
        cases idle

/-- A cursor to an element leads to that element for as long as a buffer accepts it, and a cursor
one past the last element leads there. Only the buffer that issued it ever accepts it. -/
theorem accepted_cursor_tracks [Value α] {index other : Nat} (reachable : session.Reachable)
    (issued : session.Issued number index cursor) (ops : List (Op α))
    (found : (run ops session).buffer? other = some later)
    (accepted : later.ring.registry.accepts cursor = true) :
    other = number ∧ ∃ buffer, session.buffer? number = some buffer ∧ index ≤ buffer.ring.len ∧
      later.ring.registry.owner = buffer.ring.registry.owner ∧
      (∀ item, buffer.ring.toList[index]? = some item → ∃ slot last place,
        cursor.slot = some slot ∧ Stays number cursor.owner slot session item ops last ∧
        place < later.ring.len ∧ later.ring.toList[place]? = some last ∧
        later.ring.resolve cursor = .ok place ∧ later.ring.elementUnder cursor = .ok last) ∧
      (index = buffer.ring.len → cursor.isEnd = true ∧
        later.ring.resolve cursor = .ok later.ring.len ∧
        later.ring.elementUnder cursor = .error (.refused .endOfBuffer)) := by
  obtain ⟨vouches, buffer, present, resolved⟩ := issued.stands reachable
  obtain ⟨memory, past, rfl⟩ := reachable
  obtain ⟨valid, lost, balanced⟩ := run_sound (blank_valid memory) (blank_balanced memory) past
  obtain ⟨laterValid, -⟩ := run_sound valid balanced ops
  have wellFormed : buffer.ring.WellFormed := valid.wellFormed _ (mem_of_buffer? present)
  have laterWellFormed : later.ring.WellFormed := laterValid.wellFormed _ (mem_of_buffer? found)
  have standing := Ring.accepts_of_resolve resolved
  obtain ⟨position, bound, resolvedThere, stands⟩ :=
    wellFormed.resolve_exists (vouches.of_found present) standing
  obtain rfl : position = index := by
    rw [resolved] at resolvedThere
    exact (Except.ok.inj resolvedThere).symm
  obtain ⟨earlier, earlierFound, earlierAccepted, laterVouches, tracked⟩ :=
    run_tracks valid balanced vouches found accepted
  -- Both buffers have the identity that the cursor names, so they have the same number.
  have sameEntry := List.inj_on_of_nodup_map valid.owners (mem_of_buffer? earlierFound)
    (mem_of_buffer? present)
    ((Registry.owner_of_accepts earlierAccepted).symm.trans (Registry.owner_of_accepts standing))
  obtain ⟨rfl, rfl⟩ := Prod.mk.inj sameEntry
  obtain ⟨place, placeBound, placeResolved, placeStands⟩ :=
    laterWellFormed.resolve_exists laterVouches accepted
  have sameOwner := (Registry.owner_of_accepts accepted).symm.trans
    (Registry.owner_of_accepts standing)
  refine ⟨rfl, earlier, present, bound, sameOwner, ?_, ?_⟩
  · intro item listed
    have inside : position < earlier.ring.len := by
      have within := (List.getElem?_eq_some_iff.mp listed).1
      rwa [wellFormed.length_toList] at within
    have atSlot : cursor.slot = some (earlier.ring.place position) := by
      rcases stands with ⟨-, final⟩ | ⟨same, -⟩
      · omega
      · exact same
    obtain ⟨first, last, firstHeld, lastHeld, stays⟩ := tracked _ atSlot
    have unmoved : first = item := by
      have cell := wellFormed.cell_eq inside
      rw [Ring.cell, firstHeld, listed] at cell
      exact Option.some_inj.mp cell
    rcases placeStands with ⟨vacant, -⟩ | ⟨same, live⟩
    · rw [atSlot] at vacant
      cases vacant
    · rw [atSlot, Option.some_inj] at same
      have listedThere : later.ring.toList[place]? = some last := by
        rw [← laterWellFormed.cell_eq live, Ring.cell, ← same, lastHeld]
      exact ⟨_, last, place, atSlot, unmoved ▸ stays, live, listedThere, placeResolved,
        laterWellFormed.elementUnder_eq placeResolved listedThere⟩
  · intro final
    have vacant : cursor.slot = none := by
      rcases stands with ⟨vacant, -⟩ | ⟨-, inside⟩
      · exact vacant
      · omega
    obtain rfl : place = later.ring.len := by
      rcases placeStands with ⟨-, final⟩ | ⟨same, -⟩
      · exact final
      · rw [vacant] at same
        cases same
    exact ⟨by rw [Cursor.isEnd, vacant]; rfl, placeResolved,
      laterWellFormed.elementUnder_refused placeResolved⟩

/-- The cursor to an element is kept while another element is pushed. -/
theorem accepted_cursor_tracks_marked :
    let session := run [.build 0 (.ring 2), .on 0 (.push .back (.int 7)) none,
      .on 0 (.mark (.index 0)) (some "first")] (blank (.below 8) : Session Datum)
    ∃ later last, (run [.on 0 (.push .front (.int 8)) none] session).buffer? 0 = some later ∧
      Stays 0 0 0 session ⟨0, .int 7⟩ [.on 0 (.push .front (.int 8)) none] last ∧
      later.ring.elementUnder ⟨0, some 0, 0, 0⟩ = .ok last := by
  intro session
  have replied : step (.on 0 (.mark (.index 0)) (some "first"))
      (run [.build 0 (.ring 2), .on 0 (.push .back (.int 7)) none] (blank (.below 8))) =
        (.cursor 0 false, session) := rfl
  have issued : session.Issued 0 0 ⟨0, some 0, 0, 0⟩ := .replied ⟨.below 8, _, rfl⟩ replied rfl
  have present : (run [.on 0 (.push .front (.int 8)) none] session).buffer? 0 = some _ := rfl
  obtain ⟨-, buffer, found, -, -, tracked, -⟩ :=
    accepted_cursor_tracks ⟨.below 8, _, rfl⟩ issued _ present rfl
  cases found
  obtain ⟨slot, last, place, stands, stays, -, -, -, under⟩ := tracked ⟨0, .int 7⟩ rfl
  cases stands
  exact ⟨_, last, present, stays, under⟩

end Session

end RingDeque
