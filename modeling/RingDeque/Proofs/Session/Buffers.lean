import RingDeque.Proofs.Elastic.Replacing
import RingDeque.Proofs.Ring.Answering
import RingDeque.Proofs.Session.Walks
import RingDeque.Session.Buffer

/-!
Operations on buffers of either kind.

`Careful` says in one form what every such operation keeps, so that a session need not know which
kind of ring it addresses, nor what the operation does to it.
-/

namespace RingDeque.Session

open Effect
open RingDeque.Ring (Sound Stops)

variable {α β γ : Type} {written : Prop} {origin : Tracked (Ring α) α} {owned : Multiset Nat}
  {inside : β → Ring α} {given : γ → Multiset Nat} {good : γ → Ring α → Prop}

/-- An action after which ring and ledger agree, however it ends. What it hands out is then owned by
its caller. -/
def Careful (written : Prop) (origin : Tracked (Ring α) α) (owned : Multiset Nat)
    (inside : β → Ring α) (given : γ → Multiset Nat) (good : γ → Ring α → Prop) (act : Act β α γ)
    (before : Tracked β α) : Prop :=
  Ends act before
    (fun value after =>
      Sound written origin (given value + owned) (inside after.buffer) after.ledger ∧
        good value (inside after.buffer))
    (fun halt after =>
      Stops written origin True (fun _ => True) owned halt (inside after.buffer) after.ledger)

/-- An action that hands out nothing. -/
theorem careful_unit (breaks : Prop) (refuses : Error → Prop) {act : Act β α Unit} {before : Tracked β α}

    (ends : Ends act before
      (fun _ after => Sound written origin owned (inside after.buffer) after.ledger)
      (fun halt after =>
        Stops written origin breaks refuses owned halt (inside after.buffer) after.ledger)) :
    Careful written origin owned inside (fun _ => 0) (fun _ _ => True) act before :=
  ends.mono (fun _ _ sound => ⟨sound.of_eq (zero_add _).symm, trivial⟩) fun _ _ stops => stops.anyhow

/-- An action that makes an element first. -/
theorem careful_making {act : Item α → Act β α γ} {before : Tracked β α} {value : α}
    (sound : Sound written origin owned (inside before.buffer) before.ledger)
    (next : ∀ item ledger,
      Sound written origin ({item.id} + owned) (inside before.buffer) ledger →
      Careful written origin owned inside given good (act item) ⟨before.buffer, ledger⟩) :
    Careful written origin owned inside given good (do act (← Ledger.make value)) before := by
  simp only [Careful, ends_bind, Act.ends_ledger]
  exact (sound.make_ends value).mono (fun item ledger made => next item ledger made.2) fun _ _ => id

namespace Buffer

variable {before : Tracked (Buffer α) α} {ledger : Ledger α} {item model old : Item α}
  {side trim toward yields : End} {cursor first last : Cursor} {n index : Nat} {bounds : Bounds}
  {feed : Feed α} {value : α}

section

variable {onFixed : Act (Ring α) α γ} {onElastic : Act (ElasticRing α) α γ} {ring : Ring α}
  {outer : ElasticRing α} {returns : γ → Tracked (Buffer α) α → Prop}
  {halts : Halt → Tracked (Buffer α) α → Prop}

theorem ends_fixed :
    Ends (either onFixed onElastic) ⟨.fixed ring, ledger⟩ returns halts ↔
      Ends onFixed ⟨ring, ledger⟩
        (fun value after => returns value ⟨.fixed after.buffer, after.ledger⟩)
        (fun halt after => halts halt ⟨.fixed after.buffer, after.ledger⟩) := by
  simp only [Ends, either, Act.onPart]
  cases onFixed ⟨ring, ledger⟩ <;> rfl

theorem ends_elastic :
    Ends (either onFixed onElastic) ⟨.elastic outer, ledger⟩ returns halts ↔
      Ends onElastic ⟨outer, ledger⟩
        (fun value after => returns value ⟨.elastic after.buffer, after.ledger⟩)
        (fun halt after => halts halt ⟨.elastic after.buffer, after.ledger⟩) := by
  simp only [Ends, either, Act.onPart]
  cases onElastic ⟨outer, ledger⟩ <;> rfl

theorem careful_fixed
    (careful : Careful written origin owned (fun ring => ring) given good onFixed ⟨ring, ledger⟩) :
    Careful written origin owned Buffer.ring given good (either onFixed onElastic)
      ⟨.fixed ring, ledger⟩ :=
  ends_fixed.mpr careful

theorem careful_elastic
    (careful : Careful written origin owned ElasticRing.ring given good onElastic ⟨outer, ledger⟩) :
    Careful written origin owned Buffer.ring given good (either onFixed onElastic)
      ⟨.elastic outer, ledger⟩ :=
  ends_elastic.mpr careful

end

theorem careful_onRing {act : Act (Ring α) α γ}
    (careful : Careful written origin owned (fun ring => ring) given good act
      ⟨before.buffer.ring, before.ledger⟩) :
    Careful written origin owned Buffer.ring given good (onRing act) before := by
  obtain ⟨buffer, ledger⟩ := before
  cases buffer with
  | fixed ring => exact careful_fixed careful
  | elastic outer => exact careful_elastic (ElasticRing.ends_onRing.mpr careful)

/-- Bounds that make no sense are refused before anything else. -/
theorem careful_demand {act : Limits → Act β α γ} {before : Tracked β α}
    (sound : Sound written origin owned (inside before.buffer) before.ledger)
    (next : ∀ limits, Careful written origin owned inside given good (act limits) before) :
    Careful written origin owned inside given good (do act (← bounds.demand)) before := by
  simp only [Careful, ends_bind, Bounds.demand]
  cases bounds.limits with
  | ok limits => exact next limits
  | error error => exact ⟨.refusal trivial, sound⟩

theorem push_careful
    (sound : Sound written origin ({item.id} + owned) before.buffer.ring before.ledger) :
    Careful written origin owned Buffer.ring (fun evicted => ids evicted.toList) (fun _ _ => True)
      (push side item) before := by
  obtain ⟨buffer, ledger⟩ := before
  cases buffer with
  | fixed ring =>
      refine careful_fixed ?_
      exact (Ring.push_ends sound side).mono
        (fun _ _ ended => ⟨ended.2.sound, trivial⟩) fun _ _ => id
  | elastic outer =>
      refine careful_elastic ?_
      exact (ElasticRing.push_ends True (fun _ => True) sound fun _ => trivial).mono
        (fun _ _ ended => ⟨ended.1, trivial⟩) fun _ _ => id

theorem pop_careful (sound : Sound written origin owned before.buffer.ring before.ledger) :
    Careful written origin owned Buffer.ring (fun popped => ids popped.toList) (fun _ _ => True)
      (pop side) before := by
  obtain ⟨buffer, ledger⟩ := before
  cases buffer with
  | fixed ring =>
      refine careful_fixed ?_
      exact (Ring.pop_ends sound side).mono
        (fun _ _ ended => ⟨ended.2.sound, trivial⟩) fun _ _ => id
  | elastic outer =>
      refine careful_elastic ?_
      exact (ElasticRing.pop_ends True (fun _ => True) sound).mono
        (fun _ _ ended => ⟨ended.1, trivial⟩) fun _ _ => id

/-- An action that issues a cursor. -/
theorem careful_cursor {act : Act β α Cursor} {before : Tracked β α} {breaks : Prop}
    {refuses : Error → Prop} {further : Cursor → Tracked β α → Prop}
    (ends : Ends act before
      (fun issued after => Sound written origin owned (inside after.buffer) after.ledger ∧
        further issued after)
      (fun halt after =>
        Stops written origin breaks refuses owned halt (inside after.buffer) after.ledger))
    (issues : ∀ issued after, further issued after → (inside after.buffer).Issues issued) :
    Careful written origin owned inside (fun _ => 0) (fun issued ring => ring.Issues issued) act
      before :=
  ends.mono (fun issued after ended =>
    ⟨ended.1.of_eq (zero_add _).symm, issues issued after ended.2⟩) fun _ _ stops => stops.anyhow

theorem insert_careful
    (sound : Sound written origin ({item.id} + owned) before.buffer.ring before.ledger)
    (vouched : before.buffer.ring.Vouches cursor) :
    Careful written origin owned Buffer.ring (fun _ => 0) (fun issued ring => ring.Issues issued)
      (insert yields cursor item) before := by
  obtain ⟨buffer, ledger⟩ := before
  cases buffer with
  | fixed ring =>
      refine careful_fixed (careful_cursor (Ring.insert_ends False sound vouched) ?_)
      intro issued after ended
      obtain ⟨index, -, inserts⟩ := ended
      exact inserts.points.issues
  | elastic outer =>
      exact careful_elastic (careful_cursor (ElasticRing.insert_ends False sound vouched) fun _ _ ended => ended.1)

theorem insertCopies_careful
    (sound : Sound written origin ({model.id} + owned) before.buffer.ring before.ledger)
    (vouched : before.buffer.ring.Vouches cursor) :
    Careful written origin owned Buffer.ring (fun _ => 0) (fun issued ring => ring.Issues issued)
      (insertCopies yields cursor n model) before := by
  obtain ⟨buffer, ledger⟩ := before
  cases buffer with
  | fixed ring =>
      refine careful_fixed (careful_cursor (Ring.insertCopies_ends sound vouched) ?_)
      intro issued after ended
      obtain ⟨index, -, inserts⟩ := ended
      exact inserts.points.issues
  | elastic outer =>
      exact careful_elastic (careful_cursor (ElasticRing.insertCopies_ends sound vouched) fun _ _ ended => ended.1)

theorem insertFeed_careful (sound : Sound written origin owned before.buffer.ring before.ledger)
    (vouched : before.buffer.ring.Vouches cursor) :
    Careful written origin owned Buffer.ring (fun _ => 0) (fun issued ring => ring.Issues issued)
      (insertFeed yields cursor feed) before := by
  obtain ⟨buffer, ledger⟩ := before
  cases buffer with
  | fixed ring =>
      refine careful_fixed (careful_cursor (Ring.insertFeed_ends sound vouched) ?_)
      intro issued after ended
      obtain ⟨index, -, -, inserts⟩ := ended
      exact inserts.points.issues
  | elastic outer =>
      exact careful_elastic (careful_cursor (ElasticRing.insertFeed_ends sound vouched) fun _ _ ended => ended.1)

theorem erase_careful (sound : Sound written origin owned before.buffer.ring before.ledger)
    (vouched : before.buffer.ring.Vouches cursor) :
    Careful written origin owned Buffer.ring (fun _ => 0) (fun issued ring => ring.Issues issued)
      (erase toward cursor) before := by
  obtain ⟨buffer, ledger⟩ := before
  cases buffer with
  | fixed ring =>
      refine careful_fixed (careful_cursor (Ring.erase_ends False sound vouched) ?_)
      intro issued after ended
      obtain ⟨index, -, -, erases⟩ := ended
      exact erases.points.issues
  | elastic outer =>
      exact careful_elastic (careful_cursor (ElasticRing.erase_ends False sound vouched) fun _ _ ended => ended.1)

theorem eraseRange_careful (sound : Sound written origin owned before.buffer.ring before.ledger)
    (firstVouched : before.buffer.ring.Vouches first)
    (lastVouched : before.buffer.ring.Vouches last) :
    Careful written origin owned Buffer.ring (fun _ => 0) (fun issued ring => ring.Issues issued)
      (eraseRange toward first last) before := by
  obtain ⟨buffer, ledger⟩ := before
  cases buffer with
  | fixed ring =>
      refine careful_fixed (careful_cursor (Ring.eraseRange_ends False sound firstVouched lastVouched) ?_)
      intro issued after ended
      obtain ⟨source, target, -, -, -, erases⟩ := ended
      exact erases.points.issues
  | elastic outer =>
      exact careful_elastic (careful_cursor (ElasticRing.eraseRange_ends False sound firstVouched lastVouched) fun _ _ ended => ended.1)

theorem clear_careful (sound : Sound written origin owned before.buffer.ring before.ledger) :
    Careful written origin owned Buffer.ring (fun _ => 0) (fun _ _ => True) clear before := by
  obtain ⟨buffer, ledger⟩ := before
  cases buffer with
  | fixed ring =>
      refine careful_fixed (careful_unit True (fun _ => True) ?_)
      exact (Ring.clear_ends _ _ sound).mono (fun _ _ leaves => leaves.sound) fun _ _ => id
  | elastic outer =>
      refine careful_elastic (careful_unit True (fun _ => True) ?_)
      exact (ElasticRing.clear_ends True (fun _ => True) sound).mono (fun _ _ ended => ended.1) fun _ _ => id

theorem setCapacity_careful (sound : Sound written origin owned before.buffer.ring before.ledger) :
    Careful written origin owned Buffer.ring (fun _ => 0) (fun _ _ => True)
      (setCapacity trim bounds) before := by
  obtain ⟨buffer, ledger⟩ := before
  cases buffer with
  | fixed ring =>
      refine careful_fixed (careful_unit True (fun _ => True) ?_)
      exact (Ring.setCapacity_ends _ _ sound trim _ fun _ => trivial).mono (fun _ _ leaves => leaves.sound)
        fun _ _ stopped => stopped.1
  | elastic outer =>
      refine careful_elastic (careful_demand sound fun limits => ?_)
      refine careful_unit True (fun _ => True) ?_
      exact (ElasticRing.setLimits_ends _ _ sound trim limits fun _ => trivial).mono (fun _ _ ended => ended.1) fun _ _ => id

theorem setFloor_careful (sound : Sound written origin owned before.buffer.ring before.ledger)
    (floor : Nat) :
    Careful written origin owned Buffer.ring (fun _ => 0) (fun _ _ => True)
      (either (pure ()) (ElasticRing.setFloor floor)) before := by
  obtain ⟨buffer, ledger⟩ := before
  cases buffer with
  | fixed ring => exact careful_fixed (careful_unit False (fun _ => False) (ends_pure.mpr sound))
  | elastic outer =>
      refine careful_elastic (careful_unit True (fun _ => True) ?_)
      exact (ElasticRing.setFloor_ends True sound
        floor).mono (fun _ _ ended => ended.1) fun _ _ stopped => stopped.1.anyhow

theorem resize_careful
    (sound : Sound written origin ({model.id} + owned) before.buffer.ring before.ledger) :
    Careful written origin owned Buffer.ring (fun _ => 0) (fun _ _ => True)
      (resize side n model) before := by
  obtain ⟨buffer, ledger⟩ := before
  cases buffer with
  | fixed ring =>
      exact careful_fixed (careful_unit _ _ (Ring.resize_ends sound))
  | elastic outer =>
      exact careful_elastic
        (careful_unit _ _ (ElasticRing.resize_ends sound))

theorem assign_careful
    (sound : Sound written origin ({model.id} + owned) before.buffer.ring before.ledger) :
    Careful written origin owned Buffer.ring (fun _ => 0) (fun _ _ => True)
      (assign n model) before := by
  obtain ⟨buffer, ledger⟩ := before
  cases buffer with
  | fixed ring =>
      exact careful_fixed (careful_unit _ _ (Ring.assign_ends sound))
  | elastic outer =>
      exact careful_elastic
        (careful_unit _ _ (ElasticRing.assign_ends sound))

theorem assignWithin_careful
    (sound : Sound written origin owned before.buffer.ring before.ledger) :
    Careful written origin owned Buffer.ring (fun _ => 0) (fun _ _ => True)
      (assignWithin bounds n value) before := by
  obtain ⟨buffer, ledger⟩ := before
  cases buffer with
  | fixed ring =>
      refine careful_fixed (careful_making sound ?_)
      intro model middle owns
      exact careful_unit _ _ (Ring.assignWithin_ends owns)
  | elastic outer =>
      refine careful_elastic (careful_demand sound fun limits => ?_)
      refine careful_making sound ?_
      intro model middle owns
      exact careful_unit _ _ (ElasticRing.assignUnder_ends owns)

theorem assignFeed_careful (sound : Sound written origin owned before.buffer.ring before.ledger) :
    Careful written origin owned Buffer.ring (fun _ => 0) (fun _ _ => True)
      (assignFeed feed) before := by
  obtain ⟨buffer, ledger⟩ := before
  cases buffer with
  | fixed ring =>
      exact careful_fixed (careful_unit _ _ (Ring.assignFeed_ends sound))
  | elastic outer =>
      exact careful_elastic
        (careful_unit _ _ (ElasticRing.assignFeed_ends sound))

theorem assignFeedWithin_careful
    (sound : Sound written origin owned before.buffer.ring before.ledger) :
    Careful written origin owned Buffer.ring (fun _ => 0) (fun _ _ => True)
      (assignFeedWithin bounds feed) before := by
  obtain ⟨buffer, ledger⟩ := before
  cases buffer with
  | fixed ring =>
      exact careful_fixed
        (careful_unit _ _ (Ring.assignFeedWithin_ends sound))
  | elastic outer =>
      refine careful_elastic (careful_demand sound fun limits => ?_)
      exact careful_unit _ _ (ElasticRing.assignFeedUnder_ends sound)

theorem extend_careful (sound : Sound written origin owned before.buffer.ring before.ledger)
    (entries : List (Entry α)) :
    Careful written origin owned Buffer.ring (fun _ => 0) (fun _ _ => True)
      (onRing (Ring.extend entries)) before := by
  refine careful_onRing (careful_unit True (fun _ => True) ?_)
  refine (Ring.extend_ends (fun _ => True) sound entries).mono ?_ fun _ _ stops => stops.anyhow
  intro _ after ended
  obtain ⟨new, -, leaves⟩ := ended
  exact leaves.sound

theorem linearize_careful (sound : Sound written origin owned before.buffer.ring before.ledger) :
    Careful written origin owned Buffer.ring (fun _ => 0) (fun _ _ => True)
      (onRing Ring.linearize) before := by
  refine careful_onRing ?_
  refine (Ring.linearize_ends sound).mono ?_
    fun _ _ => id
  intro items after ended
  obtain ⟨-, -, leaves⟩ := ended
  exact ⟨leaves.sound.of_eq (zero_add _).symm, trivial⟩

theorem reverseRuns_careful (sound : Sound True origin owned before.buffer.ring before.ledger) :
    Careful True origin owned Buffer.ring (fun _ => 0) (fun _ _ => True)
      (onRing (Act.alter Ring.reverseRuns)) before := by
  obtain ⟨after, items, reversed, turns, same⟩ := Ring.reverseRuns_exists sound.wellFormed
  refine careful_onRing (careful_unit False (fun _ => False) ?_)
  rw [Act.ends_alter
    reversed]
  exact sound.turn turns (by rw [ids_perm same])

/-- Overwriting an element hands out the old one. -/
theorem overwrite_careful (sound : Sound True origin owned before.buffer.ring before.ledger)
    (found : before.buffer.ring.toList[index]? = some old) :
    Careful True origin owned Buffer.ring (fun old => ids [old]) (fun _ _ => True)
      (do
        let item ← Ledger.make value
        onRing (Act.update (·.overwrite index item))) before := by
  refine careful_making sound ?_
  intro item ledger owns
  obtain ⟨after, written, turns⟩ := Ring.overwrite_exists owns.wellFormed found item
  refine careful_onRing ?_
  rw [Careful, Act.ends_update written]
  refine ⟨owns.turn turns ?_, trivial⟩
  rw [ids_exchange (Ring.perm_set found), ids_cons, ids_nil, add_zero]

theorem overwriteScript_careful [Value α] {script : List (Overwrite α)}
    {walk : Traversal (Placed α)}
    (sound : Sound True origin owned before.buffer.ring before.ledger)
    (filled : Filled before.buffer.ring walk.toList) (bounded : walk.toList.length < Word.limit) :
    Careful True origin owned Buffer.ring (fun _ => 0) (fun _ _ => True)
      (onRing (overwriteScript script walk)) before := by
  refine careful_onRing ?_
  exact (overwriteScript_ends sound filled bounded).mono
    (fun _ _ final => ⟨final.of_eq (zero_add _).symm, trivial⟩) fun _ _ => id

theorem info_exists {buffer : Buffer α} (wellFormed : buffer.ring.WellFormed) :
    ∃ info, buffer.info = .ok info := by
  obtain ⟨linear, asked, -⟩ := wellFormed.isLinear_exists
  cases buffer with
  | fixed ring =>
      simp only [info, asked, Checked.ok_bind]
      simp only [Buffer.ring] at wellFormed
      rw [wellFormed.remaining_eq]
      exact ⟨_, rfl⟩
  | elastic outer =>
      simp only [info, asked, Checked.ok_bind]
      exact ⟨_, rfl⟩

theorem picture_exists {buffer : Buffer α} (wellFormed : buffer.ring.WellFormed) :
    ∃ picture, buffer.picture = .ok picture := by
  obtain ⟨front, back, read, -⟩ := wellFormed.runs_exists
  simp only [picture, read, Checked.ok_bind]
  cases buffer <;> exact ⟨_, rfl⟩

theorem listing_exists [Value α] {buffer : Buffer α} (wellFormed : buffer.ring.WellFormed) :
    ∃ listing, buffer.listing = .ok listing := by
  obtain ⟨items, listed⟩ := wellFormed.listing_exists
  cases buffer with
  | fixed ring => exact ⟨items, listed⟩
  | elastic outer =>
      simp only [Buffer.ring] at listed
      simp only [listing, ElasticRing.listing, listed, Checked.ok_bind]
      exact ⟨_, rfl⟩

end Buffer

end RingDeque.Session
