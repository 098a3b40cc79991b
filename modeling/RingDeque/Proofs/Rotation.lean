import Mathlib.Data.Int.GCD
import Mathlib.Data.Nat.ModEq
import RingDeque.Block.Rotation
import RingDeque.Proofs.Block

/-!
Correctness of the rotation in place.

Following one cycle moves every slot of that cycle and no other. A slot lies on the cycle of the
leader that it is congruent to modulo the greatest common divisor of size and shift, so the
leaders below that divisor share the slots of the block among them. No walk round a cycle needs the
bound on its exchanges.

The walk to the next slot takes a sum before it goes round the block. In a block of more than half of
all words such a sum may be no word, and then the rotation fails. Main statement:
`Block.rotation_ends`.
-/

namespace RingDeque.Block

variable {β : Type} {size shift leader : Nat}

/-- The slot that is reached from a leader after some steps of its cycle. -/
def cycleSlot (size shift leader steps : Nat) : Nat :=
  (leader + steps * shift) % size

/-- The number of slots on a cycle. -/
def cycleLength (size shift : Nat) : Nat :=
  size / Nat.gcd size shift

theorem cycleSlot_lt (shift leader : Nat) (positive : 0 < size) (steps : Nat) :
    cycleSlot size shift leader steps < size :=
  Nat.mod_lt _ positive

theorem cycleSlot_zero (shift : Nat) (inside : leader < size) :
    cycleSlot size shift leader 0 = leader := by
  rw [cycleSlot, Nat.zero_mul, Nat.add_zero, Nat.mod_eq_of_lt inside]

theorem cycleSlot_succ (steps : Nat) :
    cycleSlot size shift leader (steps + 1) = (cycleSlot size shift leader steps + shift) % size := by
  rw [cycleSlot, cycleSlot, Nat.mod_add_mod, Nat.succ_mul, Nat.add_assoc]

theorem cycleLength_pos (positive : 0 < size) : 0 < cycleLength size shift :=
  Nat.div_pos (Nat.gcd_le_left _ positive) (Nat.gcd_pos_of_pos_left _ positive)

theorem cycleSlot_mod_gcd (steps : Nat) :
    cycleSlot size shift leader steps % Nat.gcd size shift = leader % Nat.gcd size shift := by
  rw [cycleSlot, Nat.mod_mod_of_dvd _ (Nat.gcd_dvd_left size shift), Nat.add_mod,
    Nat.mod_eq_zero_of_dvd ((Nat.gcd_dvd_right size shift).mul_left steps), Nat.add_zero,
    Nat.mod_mod]

theorem cycleSlot_cycleLength (inside : leader < size) :
    cycleSlot size shift leader (cycleLength size shift) = leader := by
  have whole : cycleLength size shift * shift = size * (shift / Nat.gcd size shift) := by
    rw [cycleLength, Nat.div_mul_right_comm (Nat.gcd_dvd_left size shift),
      Nat.mul_div_assoc _ (Nat.gcd_dvd_right size shift)]
  rw [cycleSlot, whole, Nat.add_mul_mod_self_left, Nat.mod_eq_of_lt inside]

theorem cycleSlot_injective (positive : 0 < size) {first second : Nat}
    (firstBound : first < cycleLength size shift) (secondBound : second < cycleLength size shift)
    (same : cycleSlot size shift leader first = cycleSlot size shift leader second) :
    first = second := by
  have congruent : first * shift ≡ second * shift [MOD size] :=
    Nat.ModEq.add_left_cancel' leader same
  have reduced := Nat.ModEq.cancel_right_div_gcd positive congruent
  exact Nat.ModEq.eq_of_lt_of_lt reduced firstBound secondBound

theorem cycleSlot_covers {slot : Nat} (inside : slot < size) (nonzero : 0 < shift)
    (small : shift < size) (congruent : slot % Nat.gcd size shift = leader) :
    ∃ steps < cycleLength size shift, cycleSlot size shift leader steps = slot := by
  have positive : 0 < size := by omega
  obtain ⟨factor, -, multiple⟩ := Nat.exists_mul_mod_eq_gcd (n := shift) (k := size)
    (Nat.lt_of_le_of_lt (Nat.gcd_le_left size nonzero) small)
  let quotient := slot / Nat.gcd size shift
  -- The shift taken `factor` times moves a slot by the divisor, so `quotient` such moves suffice.
  have reached : cycleSlot size shift leader (factor * quotient) = slot := by
    have steps : factor * quotient * shift ≡ Nat.gcd size shift * quotient [MOD size] := by
      have moved : shift * factor ≡ Nat.gcd size shift [MOD size] := by
        rw [Nat.ModEq, multiple, Nat.gcd_comm size shift, Nat.mod_eq_of_lt]
        exact Nat.lt_of_le_of_lt (Nat.gcd_le_left size nonzero) small
      have product : factor * quotient * shift = shift * factor * quotient := by
        rw [Nat.mul_comm _ shift, Nat.mul_assoc]
      rw [product]
      exact moved.mul_right quotient
    have total : leader + Nat.gcd size shift * quotient = slot := by
      rw [← congruent]
      exact Nat.mod_add_div slot _
    have target := (steps.add_left leader)
    rw [total] at target
    exact Eq.trans target (Nat.mod_eq_of_lt inside)
  refine ⟨factor * quotient % cycleLength size shift,
    Nat.mod_lt _ (cycleLength_pos positive), ?_⟩
  have reduced : factor * quotient % cycleLength size shift * shift ≡
      factor * quotient * shift [MOD size] := by
    have remainder : factor * quotient % cycleLength size shift ≡ factor * quotient
        [MOD cycleLength size shift] := Nat.mod_modEq _ _
    have scaled := remainder.mul_right' shift
    have divides : size ∣ cycleLength size shift * shift := by
      rw [cycleLength, Nat.div_mul_right_comm (Nat.gcd_dvd_left size shift),
        Nat.mul_div_assoc _ (Nat.gcd_dvd_right size shift)]
      exact Nat.dvd_mul_right _ _
    exact scaled.of_dvd divides
  exact Eq.trans (reduced.add_left leader) reached

/-- Every sum that is taken while a block is turned by `mid` places is a word. -/
def Turnable (block : Block β) (mid : Nat) : Prop :=
  0 < block.size → block.size + mid % block.size ≤ Word.limit

theorem turnable_of_size_le (block : Block β) (half : 2 * block.size ≤ Word.limit) (mid : Nat) :
    block.Turnable mid := by
  intro positive
  have := Nat.mod_lt mid positive
  omega

theorem following_eq {block : Block β} {hole : Nat} (word : hole + shift < Word.limit) :
    block.following shift hole = .ok (Slot.wrapped block.size (hole + shift)) := by
  simp only [following, Word.add_eq word, Checked.ok_bind, Slot.wrapped]
  by_cases inside : hole + shift < block.size
  · rw [if_neg (by omega), if_pos inside, Checked.pure_eq_ok]
  · rw [if_pos (by omega), if_neg inside, Word.sub_eq (by omega)]

/-- The walk round a cycle as it goes when nothing bounds it: from a hole on, each slot takes what the
slot `shift` places after it holds, until that slot is the leader. -/
inductive Walks (shift leader : Nat) : (hole : Nat) → Block β → (moved : Nat) → Block β → Prop where
  | home {hole : Nat} {block : Block β}
      (closed : Slot.wrapped block.size (hole + shift) = leader) :
      Walks shift leader hole block 0 block
  | onward {hole source moved : Nat} {block swapped after : Block β}
      (reached : Slot.wrapped block.size (hole + shift) = source) (distinct : source ≠ leader)
      (swap : block.swap hole source = .ok swapped)
      (rest : Walks shift leader source swapped moved after) :
      Walks shift leader hole block (moved + 1) after

/-- The walks of all leaders below a number, one after the other. Each passes one slot more than it
makes exchanges. -/
inductive WalksBelow (shift : Nat) : (leaders : Nat) → Block β → (passed : Nat) → Block β → Prop where
  | none {block : Block β} : WalksBelow shift 0 block 0 block
  | next {leaders passed moved : Nat} {block middle after : Block β}
      (earlier : WalksBelow shift leaders block passed middle)
      (walk : Walks shift leaders leaders middle moved after) :
      WalksBelow shift (leaders + 1) block (passed + moved + 1) after

/-- A walk that is `steps` steps behind the leader: the slots passed so far hold what their
successors held in `origin`, the hole holds what the leader did, and no other slot has changed. -/
structure Underway (origin : Block β) (shift leader steps : Nat) (block : Block β) : Prop where
  sized : block.size = origin.size
  passed : ∀ step < steps, block.get? (cycleSlot origin.size shift leader step) =
    origin.get? (cycleSlot origin.size shift leader (step + 1))
  hole : block.get? (cycleSlot origin.size shift leader steps) = origin.get? leader
  rest : ∀ slot, (∀ step ≤ steps, slot ≠ cycleSlot origin.size shift leader step) →
    block.get? slot = origin.get? slot

/-- The slots on the cycle of a leader hold what their successors held, and no other slot has
changed. -/
structure Turned (origin : Block β) (shift leader : Nat) (after : Block β) : Prop where
  sized : after.size = origin.size
  onCycle : ∀ step < cycleLength origin.size shift,
    after.get? (cycleSlot origin.size shift leader step) =
      origin.get? (cycleSlot origin.size shift leader (step + 1))
  offCycle : ∀ slot, (∀ step < cycleLength origin.size shift,
    slot ≠ cycleSlot origin.size shift leader step) → after.get? slot = origin.get? slot

section

variable {origin block : Block β} {steps : Nat} (inside : leader < origin.size)
include inside

theorem underway_start (shift : Nat) : Underway origin shift leader 0 origin where
  sized := rfl
  passed := nofun
  hole := by rw [cycleSlot_zero shift inside]
  rest := fun _ _ => rfl

/-- The walk is over when the successor of the hole is the leader. -/
theorem Underway.turned (underway : Underway origin shift leader steps block)
    (last : steps + 1 = cycleLength origin.size shift) : Turned origin shift leader block := by
  have closed : cycleSlot origin.size shift leader (steps + 1) = leader := by
    rw [last, cycleSlot_cycleLength inside]
  refine ⟨underway.sized, ?_, ?_⟩
  · intro step stepBound
    by_cases final : step = steps
    · subst final
      rw [underway.hole, closed]
    · exact underway.passed step (by omega)
  · intro slot distinct
    exact underway.rest slot fun step stepBound => distinct step (by omega)

/-- One exchange: the hole takes what its successor holds, and moves on to it. -/
theorem Underway.onward (underway : Underway origin shift leader steps block)
    (next : steps + 1 < cycleLength origin.size shift) :
    ∃ swapped, block.swap (cycleSlot origin.size shift leader steps)
        (cycleSlot origin.size shift leader (steps + 1)) = .ok swapped ∧
      Underway origin shift leader (steps + 1) swapped := by
  have positive : 0 < origin.size := by omega
  have holeInside := cycleSlot_lt shift leader positive steps
  have sourceInside := cycleSlot_lt shift leader positive (steps + 1)
  -- No two of the slots passed are the same, as the walk has not come home.
  have apart : ∀ {first second : Nat}, first ≤ steps + 1 → second ≤ steps + 1 → first ≠ second →
      cycleSlot origin.size shift leader first ≠ cycleSlot origin.size shift leader second := by
    intro first second firstBound secondBound distinct same
    exact distinct (cycleSlot_injective positive (by omega) (by omega) same)
  obtain ⟨swapped, swap, swappedSize, -, contents⟩ := swap_exists
    (holeInside.trans_eq underway.sized.symm) (sourceInside.trans_eq underway.sized.symm)
  refine ⟨swapped, swap, swappedSize.trans underway.sized, ?_, ?_, ?_⟩
  · intro step stepBound
    rw [contents]
    by_cases current : step = steps
    · subst current
      rw [if_pos rfl]
      exact underway.rest _ fun earlier earlierBound => apart (by omega) (by omega) (by omega)
    · rw [if_neg (apart (by omega) (by omega) current),
        if_neg (apart (by omega) (by omega) (by omega))]
      exact underway.passed step (by omega)
  · rw [contents, if_neg (apart (by omega) (by omega) (by omega)), if_pos rfl, underway.hole]
  · intro slot distinct
    rw [contents, if_neg (distinct steps (by omega)), if_neg (distinct (steps + 1) (by omega))]
    exact underway.rest slot fun step stepBound => distinct step (by omega)

/-- The walk is not over before it has passed each slot of the cycle. -/
theorem cycleSlot_ne_leader (next : steps + 1 < cycleLength origin.size shift) :
    cycleSlot origin.size shift leader (steps + 1) ≠ leader := by
  intro closed
  have start := cycleSlot_zero shift inside
  have := cycleSlot_injective (by omega) next (by omega) (closed.trans start.symm)
  omega

/-- Following a cycle to its end. With as many exchanges as the cycle has slots left, the bound on
them plays no part. -/
theorem followCycle_exists {fuel : Nat} (underway : Underway origin shift leader steps block)
    (small : shift < origin.size) (bound : steps < cycleLength origin.size shift)
    (words : ∀ step < cycleLength origin.size shift,
      cycleSlot origin.size shift leader step + shift < Word.limit)
    (enough : cycleLength origin.size shift ≤ fuel + steps) :
    ∃ moved after,
      followCycle shift leader fuel (cycleSlot origin.size shift leader steps) block =
        .ok (moved, after) ∧
      Walks shift leader (cycleSlot origin.size shift leader steps) block moved after ∧
      moved + steps + 1 = cycleLength origin.size shift ∧ Turned origin shift leader after := by
  have positive : 0 < origin.size := by omega
  -- The induction is on the exchanges left, and `Underway` is what each of them preserves.
  induction fuel generalizing block steps with
  | zero => omega
  | succ fuel ih =>
      have sized := underway.sized
      have holeInside := cycleSlot_lt shift leader positive steps
      have successor : Slot.wrapped block.size (cycleSlot origin.size shift leader steps + shift) =
          cycleSlot origin.size shift leader (steps + 1) := by
        rw [sized, Slot.wrapped_eq_mod (by omega), cycleSlot_succ]
      simp only [followCycle, following_eq (words steps bound), successor, Checked.ok_bind]
      by_cases last : steps + 1 = cycleLength origin.size shift
      · have closed : cycleSlot origin.size shift leader (steps + 1) = leader := by
          rw [last, cycleSlot_cycleLength inside]
        rw [if_pos closed]
        exact ⟨0, block, rfl, .home (successor.trans closed), by omega,
          underway.turned inside last⟩
      · have next : steps + 1 < cycleLength origin.size shift := by omega
        have unclosed := cycleSlot_ne_leader inside next
        obtain ⟨swapped, swap, further⟩ := underway.onward inside next
        obtain ⟨moved, after, followed, walks, count, turned⟩ := ih further next (by omega)
        have word : moved + 1 < Word.limit := by
          have lengthBound : cycleLength origin.size shift ≤ origin.size := Nat.div_le_self _ _
          have := size_lt_word origin
          omega
        refine ⟨moved + 1, after, ?_, .onward successor unclosed swap walks, by omega, turned⟩
        simp only [if_neg unclosed, swap, Checked.ok_bind, followed, Word.add_eq word,
          Checked.pure_eq_ok]

end

/-- The slots on the cycles of the leaders below a number have moved, and no other slot has. -/
structure TurnedBelow (origin : Block β) (shift leaders : Nat) (after : Block β) : Prop where
  sized : after.size = origin.size
  slots : ∀ slot < origin.size, after.get? slot =
    if slot % Nat.gcd origin.size shift < leaders then origin.get? ((slot + shift) % origin.size)
    else origin.get? slot

/-- The cycle of one more leader. Its slots are those congruent to the leader, so none of them had
moved before. -/
theorem TurnedBelow.next {origin block after : Block β} {leaders : Nat}
    (below : TurnedBelow origin shift leaders block) (nonzero : 0 < shift)
    (small : shift < origin.size) (bound : leaders < Nat.gcd origin.size shift)
    (turned : Turned block shift leaders after) : TurnedBelow origin shift (leaders + 1) after := by
  have onCycle := turned.onCycle
  have offCycle := turned.offCycle
  rw [below.sized] at onCycle offCycle
  refine ⟨turned.sized.trans below.sized, ?_⟩
  intro slot inside
  have leaderMod : leaders % Nat.gcd origin.size shift = leaders := Nat.mod_eq_of_lt bound
  by_cases mine : slot % Nat.gcd origin.size shift = leaders
  · obtain ⟨steps, stepsBound, reached⟩ := cycleSlot_covers inside nonzero small mine
    have successor : cycleSlot origin.size shift leaders (steps + 1) =
        (slot + shift) % origin.size := by
      rw [cycleSlot_succ, reached]
    have successorMod : (slot + shift) % origin.size % Nat.gcd origin.size shift = leaders := by
      rw [← successor, cycleSlot_mod_gcd, leaderMod]
    rw [if_pos (by omega), ← reached, onCycle steps stepsBound, successor,
      below.slots _ (Nat.mod_lt _ (by omega)), if_neg (by omega), reached]
  · rw [offCycle slot, below.slots slot inside]
    · by_cases earlier : slot % Nat.gcd origin.size shift < leaders
      · rw [if_pos earlier, if_pos (by omega)]
      · rw [if_neg earlier, if_neg (by omega)]
    · intro steps stepsBound same
      apply mine
      rw [same, cycleSlot_mod_gcd, leaderMod]

/-- Following the cycles of the leaders below a number, one after the other. -/
theorem followCycles_exists (block : Block β) (nonzero : 0 < shift) (small : shift < block.size)
    (leaders : Nat) (bound : leaders ≤ Nat.gcd block.size shift)
    (words : ∀ leader < leaders, ∀ step < cycleLength block.size shift,
      cycleSlot block.size shift leader step + shift < Word.limit) :
    ∃ after,
      (List.range leaders).foldlM (fun (relocated, block) leader => do
          let (moved, block) ← block.followCycle shift leader block.size leader
          let relocated ← Word.add relocated moved
          return (← Word.add relocated 1, block)) (0, block) =
        (.ok (leaders * cycleLength block.size shift, after) : Checked (Nat × Block β)) ∧
      WalksBelow shift leaders block (leaders * cycleLength block.size shift) after ∧
      TurnedBelow block shift leaders after := by
  -- The leaders so far have turned their own cycles and left the slots of the others alone.
  induction leaders with
  | zero => exact ⟨block, by simp, by simpa using WalksBelow.none, rfl, by simp⟩
  | succ leaders ih =>
      obtain ⟨reached, folded, walked, below⟩ :=
        ih (by omega) fun leader earlier => words leader (by omega)
      have sized := below.sized
      have divisorLe : Nat.gcd block.size shift ≤ block.size := Nat.gcd_le_left _ (by omega)
      have inside : leaders < reached.size := by omega
      obtain ⟨moved, after, followed, walks, count, turned⟩ :=
        followCycle_exists inside (underway_start inside shift) (by omega)
          (cycleLength_pos (by omega)) (by rw [sized]; exact words leaders (by omega))
          (show cycleLength reached.size shift ≤ reached.size + 0 from Nat.div_le_self _ _)
      rw [cycleSlot_zero _ inside] at followed walks
      rw [sized] at count
      have turns : (leaders + 1) * cycleLength block.size shift ≤ block.size := by
        calc (leaders + 1) * cycleLength block.size shift
            ≤ Nat.gcd block.size shift * cycleLength block.size shift := Nat.mul_le_mul_right _ bound
          _ = block.size := Nat.mul_div_cancel' (Nat.gcd_dvd_left _ _)
      rw [Nat.succ_mul] at turns
      have word := size_lt_word block
      have total : (leaders + 1) * cycleLength block.size shift =
          leaders * cycleLength block.size shift + moved + 1 := by
        rw [Nat.succ_mul]
        omega
      refine ⟨after, ?_, total ▸ walked.next walks, below.next nonzero small bound turned⟩
      rw [List.range_succ, List.foldlM_append, folded]
      simp only [Checked.ok_bind, List.foldlM_cons, List.foldlM_nil, followed,
        Word.add_eq (show leaders * cycleLength block.size shift + moved < Word.limit by omega),
        Word.add_eq (show leaders * cycleLength block.size shift + moved + 1 < Word.limit by omega),
        Checked.pure_eq_ok, total]

theorem rotateLeft_still {mid : Nat} (block : Block β)
    (still : block.size = 0 ∨ mid % block.size = 0) : block.rotateLeft mid = .ok (0, block) := by
  rw [rotateLeft, if_pos still]

/-- What the walks round all cycles leave in each slot. -/
theorem rotateLeft_walks {mid : Nat} (block : Block β) (turnable : block.Turnable mid)
    (moving : ¬ (block.size = 0 ∨ mid % block.size = 0)) :
    ∃ after, block.rotateLeft mid = .ok (block.size, after) ∧
      WalksBelow (mid % block.size) (Nat.gcd block.size (mid % block.size)) block block.size after ∧
      after.size = block.size ∧
      ∀ slot < block.size, after.get? slot = block.get? ((slot + mid) % block.size) := by
  have positive : 0 < block.size := by omega
  have room := turnable positive
  obtain ⟨after, folded, walked, sized, contents⟩ := followCycles_exists block
    (show 0 < mid % block.size by omega) (Nat.mod_lt _ positive) _ (Nat.le_refl _)
    fun leader _ step _ => by
      have := cycleSlot_lt (mid % block.size) leader positive step
      omega
  have whole : Nat.gcd block.size (mid % block.size) *
      cycleLength block.size (mid % block.size) = block.size :=
    Nat.mul_div_cancel' (Nat.gcd_dvd_left _ _)
  rw [whole] at folded walked
  refine ⟨after, ?_, walked, sized, ?_⟩
  · simp only [rotateLeft, if_neg moving, Word.gcd_eq]
    exact folded
  · intro slot inside
    rw [contents slot inside, if_pos (Nat.mod_lt _ (Nat.gcd_pos_of_pos_left _ positive)),
      Nat.add_mod_mod]

/-- Rotating puts into each slot what was in the slot `mid` places further round the block. -/
theorem rotateLeft_exists (block : Block β) (mid : Nat) (turnable : block.Turnable mid) :
    ∃ after, block.rotateLeft mid =
        .ok (if block.size = 0 ∨ mid % block.size = 0 then 0 else block.size, after) ∧
      after.size = block.size ∧
      ∀ slot < block.size, after.get? slot = block.get? ((slot + mid) % block.size) := by
  by_cases still : block.size = 0 ∨ mid % block.size = 0
  · refine ⟨block, by rw [rotateLeft_still block still, if_pos still], rfl, ?_⟩
    intro slot inside
    rcases still with empty | multiple
    · omega
    · rw [Nat.add_mod, multiple, Nat.add_zero, Nat.mod_mod, Nat.mod_eq_of_lt inside]
  · obtain ⟨after, rotated, -, sized, contents⟩ := rotateLeft_walks block turnable still
    exact ⟨after, by rw [rotated, if_neg still], sized, contents⟩

end RingDeque.Block
