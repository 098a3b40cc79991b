import Mathlib.Data.List.Basic
import RingDeque.Block
import RingDeque.Proofs.Slot

/-!
What the operations on a block do to the contents of its slots.
-/

namespace RingDeque.Block

variable {β : Type} {block after : Block β} {slot first second start len : Nat} {value : β}

/-- The elements in the block, in the order of their slots. -/
def items (block : Block β) : List β :=
  block.slots.toList.filterMap id

theorem size_lt_word (block : Block β) : block.size < Word.limit :=
  block.bounded

theorem get?_eq_none_of_le (outside : block.size ≤ slot) : block.get? slot = none := by
  simp [get?, Array.getElem?_eq_none outside]

theorem lt_size_of_get? (found : block.get? slot = some value) : slot < block.size := by
  by_contra outside
  rw [get?_eq_none_of_le (by omega)] at found
  contradiction

@[simp] theorem size_blank {capacity : Nat} (bounded : capacity < Word.limit) :
    (blank capacity bounded : Block β).size = capacity :=
  Array.size_replicate

theorem get?_blank {capacity : Nat} (bounded : capacity < Word.limit) :
    (blank capacity bounded : Block β).get? slot = none := by
  simp only [get?, blank, Array.getElem?_replicate]
  split <;> rfl

theorem ofList_exists {values : List β} (bounded : values.length < Word.limit) :
    ∃ block, ofList values = .ok block ∧ block.size = values.length ∧
      ∀ slot, block.get? slot = values[slot]? := by
  refine ⟨_, dif_pos bounded, by simp [size], ?_⟩
  intro slot
  simp only [get?, List.getElem?_toArray, List.getElem?_map]
  cases values[slot]? <;> rfl

theorem getElem_slots (inside : slot < block.slots.size) :
    block.slots[slot] = block.get? slot := by
  simp [get?, Array.getElem?_eq_getElem inside]

@[simp] theorem size_put {content : Option β} {inside : slot < block.slots.size} :
    (block.put slot content inside).size = block.size := by
  simp [put, size]

theorem get?_put {content : Option β} {inside : slot < block.slots.size} (other : Nat) :
    (block.put slot content inside).get? other =
      if other = slot then content else block.get? other := by
  simp only [put, get?, Array.getElem?_set]
  split
  · rename_i same
    simp [same]
  · rename_i distinct
    rw [if_neg (Ne.symm distinct)]

theorem read_eq (found : block.get? slot = some value) : block.read slot = .ok value := by
  have inside : slot < block.slots.size := lt_size_of_get? found
  rw [← getElem_slots inside] at found
  simp only [read, dif_pos inside, found]

theorem write_eq (inside : slot < block.slots.size) (vacant : block.get? slot = none) :
    block.write slot value = .ok (block.put slot (some value) inside) := by
  rw [← getElem_slots inside] at vacant
  simp only [write, dif_pos inside, vacant]

theorem take_eq (inside : slot < block.slots.size) (found : block.get? slot = some value) :
    block.take slot = .ok (value, block.put slot none inside) := by
  rw [← getElem_slots inside] at found
  simp only [take, dif_pos inside, found]

theorem replace_eq {old : β} (inside : slot < block.slots.size)
    (found : block.get? slot = some old) :
    block.replace slot value = .ok (old, block.put slot (some value) inside) := by
  rw [← getElem_slots inside] at found
  simp only [replace, dif_pos inside, found]

theorem swap_exists (firstInside : first < block.size) (secondInside : second < block.size) :
    ∃ after, block.swap first second = .ok after ∧ after.size = block.size ∧
      after.items.Perm block.items ∧
      ∀ slot, after.get? slot =
        if slot = first then block.get? second
        else if slot = second then block.get? first
        else block.get? slot := by
  have inside : first < block.slots.size ∧ second < block.slots.size :=
    ⟨firstInside, secondInside⟩
  refine ⟨_, dif_pos inside, by simp [size], ?_, ?_⟩
  · exact (Array.swap_perm inside.1 inside.2).toList.filterMap id
  · intro slot
    simp only [get?, Array.getElem?_swap]
    split
    · rename_i same
      subst same
      split
      · rename_i both
        subst both
        simp [Array.getElem?_eq_getElem inside.1]
      · simp [Array.getElem?_eq_getElem inside.1]
    · rename_i notSecond
      split
      · rename_i same
        subst same
        split <;> simp_all
      · rename_i notFirst
        rw [if_neg (Ne.symm notFirst), if_neg (Ne.symm notSecond)]

theorem items_eq_range (block : Block β) :
    block.items = (List.range block.size).filterMap block.get? := by
  have slots : block.slots.toList = (List.range block.size).map block.get? := by
    apply List.ext_getElem?
    intro slot
    by_cases inside : slot < block.slots.size
    · have same := getElem_slots inside
      simp_all [size]
    · simp [size, inside]
  rw [items, slots, List.filterMap_map]
  rfl

theorem writeRun_exists (block : Block β) (start : Nat) (values : List β)
    (fits : start + values.length ≤ block.size)
    (vacant : ∀ slot, start ≤ slot → slot < start + values.length → block.get? slot = none) :
    ∃ after, block.writeRun start values = .ok after ∧ after.size = block.size ∧
      ∀ slot, after.get? slot =
        if start ≤ slot ∧ slot < start + values.length then values[slot - start]?
        else block.get? slot := by
  -- The first value goes in, and the slots behind it are still vacant for the rest.
  induction values generalizing block start with
  | nil =>
      refine ⟨block, rfl, rfl, ?_⟩
      intro slot
      rw [if_neg (by simp only [List.length_nil]; omega)]
  | cons value rest ih =>
      simp only [List.length_cons] at fits vacant
      have inside : start < block.slots.size := by
        have := block.size_lt_word
        simp only [size] at fits
        omega
      have word := block.size_lt_word
      obtain ⟨after, written, sized, contents⟩ :=
        ih (block.put start (some value) inside) (start + 1)
          (by rw [size_put]; omega)
          (by
            intro slot lower upper
            rw [get?_put, if_neg (by omega)]
            exact vacant slot (by omega) (by omega))
      refine ⟨after, ?_, by rw [sized, size_put], ?_⟩
      · simp only [writeRun, write_eq inside (vacant start (by omega) (by omega)),
          Checked.ok_bind, Word.add_eq (show start + 1 < Word.limit by omega), written]
      · intro slot
        rw [contents slot]
        by_cases below : slot < start + 1
        · rw [if_neg (by omega), get?_put]
          by_cases same : slot = start
          · subst same
            simp
          · rw [if_neg same, if_neg (by omega)]
        · by_cases within : slot < start + 1 + rest.length
          · rw [if_pos (by omega), if_pos (by simp only [List.length_cons]; omega)]
            have shift : slot - start = slot - (start + 1) + 1 := by omega
            rw [shift, List.getElem?_cons_succ]
          · rw [if_neg (by omega), get?_put, if_neg (by omega),
              if_neg (by simp only [List.length_cons]; omega)]

theorem wrappedSlots_eq (starts : start < max block.size 1) (fits : len ≤ block.size) :
    block.wrappedSlots start len =
      .ok (List.range' start (min len (block.size - start)),
        List.range (len - (block.size - start))) := by
  simp only [wrappedSlots, Checked.pure_eq_ok]
  by_cases empty : len = 0
  · rw [if_pos empty, empty, Nat.zero_min, Nat.zero_sub]
    rfl
  rw [if_neg empty, if_neg (by omega)]
  by_cases together : len ≤ block.size - start
  · rw [if_pos together, Nat.min_eq_left together, Nat.sub_eq_zero_of_le together]
    rfl
  · rw [if_neg together, Word.sub_eq (by omega), Checked.ok_bind, if_neg (by omega),
      Nat.min_eq_right (by omega)]

theorem wrappedSlots_append (len : Nat) (starts : start < max block.size 1) :
    List.range' start (min len (block.size - start)) ++
        List.range (len - (block.size - start)) =
      (List.range len).map fun index => Slot.wrapped block.size (start + index) := by
  apply List.ext_getElem
  · simp only [List.length_append, List.length_range', List.length_range, List.length_map]
    omega
  · intro index inLeft inRight
    simp only [List.length_map, List.length_range] at inRight
    simp only [List.getElem_append, List.length_range', List.getElem_range', List.getElem_range,
      List.getElem_map, Slot.wrapped]
    split <;> split <;> omega

theorem mapM_read_eq {slots : List Nat} {values : List β}
    (found : slots.map block.get? = values.map some) : slots.mapM block.read = .ok values := by
  induction slots generalizing values with
  | nil =>
      cases values with
      | nil => rfl
      | cons value rest => simp at found
  | cons slot slots ih =>
      cases values with
      | nil => simp at found
      | cons value rest =>
          simp only [List.map_cons, List.cons.injEq] at found
          simp only [List.mapM_cons, read_eq found.1, Checked.ok_bind, ih found.2,
            Checked.pure_eq_ok]

theorem wrappedRuns_eq {frontSlots backSlots : List Nat} {front back : List β}
    (split : block.wrappedSlots start len = .ok (frontSlots, backSlots))
    (frontFound : frontSlots.map block.get? = front.map some)
    (backFound : backSlots.map block.get? = back.map some) :
    block.wrappedRuns start len = .ok (front, back) := by
  simp only [wrappedRuns, split, Checked.ok_bind, mapM_read_eq frontFound, mapM_read_eq backFound,
    Checked.pure_eq_ok]

/-- Elements that are moved out leave their slots empty, and no other slot changes. -/
theorem takeSlots_exists {slots : List Nat} {values : List β} (distinct : slots.Nodup)
    (found : slots.map block.get? = values.map some) :
    ∃ after, block.takeSlots slots = .ok (values, after) ∧ after.size = block.size ∧
      ∀ slot, after.get? slot = if slot ∈ slots then none else block.get? slot := by
  induction slots generalizing block values with
  | nil =>
      cases values with
      | nil => exact ⟨block, rfl, rfl, fun slot => (if_neg List.not_mem_nil).symm⟩
      | cons value rest => simp at found
  | cons first slots ih =>
      cases values with
      | nil => simp at found
      | cons value rest =>
          obtain ⟨fresh, others⟩ := List.nodup_cons.mp distinct
          rw [List.map_cons, List.map_cons, List.cons.injEq] at found
          have inside : first < block.slots.size := lt_size_of_get? found.1
          have still : slots.map (block.put first none inside).get? = rest.map some := by
            rw [← found.2]
            apply List.map_congr_left
            intro slot member
            rw [get?_put, if_neg fun same : slot = first => fresh (same ▸ member)]
          obtain ⟨after, taken, sized, contents⟩ := ih others still
          refine ⟨after, ?_, sized.trans size_put, ?_⟩
          · simp only [takeSlots, take_eq inside found.1, Checked.ok_bind, taken,
              Checked.pure_eq_ok]
          · intro slot
            rw [contents, get?_put]
            by_cases later : slot ∈ slots
            · rw [if_pos later, if_pos (List.mem_cons_of_mem _ later)]
            · by_cases same : slot = first
              · rw [if_neg later, if_pos same, if_pos (by rw [same]; exact List.mem_cons_self)]
              · rw [if_neg later, if_neg same,
                  if_neg fun member => (List.mem_cons.mp member).elim same later]

theorem takeRuns_exists {frontSlots backSlots : List Nat} {front back : List β}
    (split : block.wrappedSlots start len = .ok (frontSlots, backSlots))
    (distinct : (frontSlots ++ backSlots).Nodup)
    (frontFound : frontSlots.map block.get? = front.map some)
    (backFound : backSlots.map block.get? = back.map some) :
    ∃ after, block.takeRuns start len = .ok ((front, back), after) ∧ after.size = block.size ∧
      ∀ slot, after.get? slot =
        if slot ∈ frontSlots ++ backSlots then none else block.get? slot := by
  obtain ⟨frontDistinct, backDistinct, apart⟩ := List.nodup_append.mp distinct
  obtain ⟨middle, frontTaken, middleSized, middleContents⟩ :=
    takeSlots_exists frontDistinct frontFound
  -- The slots of the second run are none of the first, so they still hold what they held.
  have backStill : backSlots.map middle.get? = back.map some := by
    rw [← backFound]
    apply List.map_congr_left
    intro slot member
    rw [middleContents, if_neg fun among => apart slot among slot member rfl]
  obtain ⟨after, backTaken, sized, contents⟩ := takeSlots_exists backDistinct backStill
  refine ⟨after, ?_, sized.trans middleSized, ?_⟩
  · simp only [takeRuns, split, Checked.ok_bind, frontTaken, backTaken, Checked.pure_eq_ok]
  · intro slot
    rw [contents, middleContents]
    by_cases inBack : slot ∈ backSlots
    · rw [if_pos inBack, if_pos (List.mem_append_right _ inBack)]
    · by_cases inFront : slot ∈ frontSlots
      · rw [if_neg inBack, if_pos inFront, if_pos (List.mem_append_left _ inFront)]
      · rw [if_neg inBack, if_neg inFront,
          if_neg fun member => (List.mem_append.mp member).elim inFront inBack]

end RingDeque.Block
