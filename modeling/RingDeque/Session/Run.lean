import RingDeque.Session.Move
import RingDeque.Session.Walk

/-!
Running a session: one operation after the other, each with its reply.

An operation that halts leaves its buffer as far as it got, and the session goes on from there.
`Session.run` is the run of a list of operations, and `Session.Reachable` says which sessions come
about in this way.
-/

namespace RingDeque.Session

variable {α : Type}

/-- What a command comes to: a reply, or a cursor that may be kept. -/
inductive Outcome (α : Type) where
  | reply (reply : Reply α)
  | cursor (cursor : Cursor)

/-- An action without a result. -/
def doing (number : Nat) (act : Act (Buffer α) α Unit) : Move α (Outcome α) := do
  onBuffer number act
  return .reply .done

/-- An action whose result is a cursor. -/
def pointing (number : Nat) (act : Act (Buffer α) α Cursor) : Move α (Outcome α) :=
  return .cursor (← onBuffer number act)

/-- Runs a command on the buffer under a number. -/
def runCommand [Value α] (number : Nat) : Command α → Move α (Outcome α)
  | .info => do return .reply (.info (← ask (← demandBuffer number).info))
  | .read reach => do
      let found ← askRing number (·.reach reach)
      return .reply (.element (found.map (·.2.value)))
  | .write reach value => do
      match ← askRing number (·.reach reach) with
      | none => return .reply (.element none)
      | some (index, _) =>
          let old ← onBuffer number do
            let item ← Ledger.make value
            Buffer.onRing (Act.update (·.overwrite index item))
          return .reply (← handBackOne (some old))
  | .reverseRuns => do
      onBuffer number (Buffer.onRing (Act.alter Ring.reverseRuns))
      let (front, back) ← askRing number (liftM ·.runs)
      return .reply (.runs (front.map Item.value) (back.map Item.value))
  | .linearize reverse => do
      let _ ← onBuffer number (Buffer.onRing Ring.linearize)
      if reverse then
        onBuffer number (Buffer.onRing (Act.alter Ring.reverseRuns))
      let (front, _) ← askRing number (liftM ·.runs)
      return .reply (.elements (front.map Item.value))
  | .mark site => return .cursor (← cursorOf number site)
  | .next site => do
      let cursor ← cursorOf number site
      return .cursor (← askRing number (·.next cursor))
  | .previous site => do
      let cursor ← cursorOf number site
      return .cursor (← askRing number (·.previous cursor))
  | .offset site n => do
      let cursor ← cursorOf number site
      return .cursor (← askRing number (·.offset cursor n))
  | .distance source target => do
      let source ← cursorOf number source
      let target ← cursorOf number target
      return .reply (.distance (← askRing number (·.distance source target)))
  | .compare first second => do
      let first ← cursorOf number first
      let second ← cursorOf number second
      return .reply (.order (← askRing number (·.compareCursors first second)))
  | .same first second => do
      let first ← cursorOf number first
      let second ← cursorOf number second
      return .reply (.truth (first = second))
  | .inspect site => do
      let cursor ← cursorOf number site
      let ring := (← demandBuffer number).ring
      let element ← askEither (ring.elementUnder cursor)
      return .reply (.inspection {
        isEnd := cursor.isEnd
        isValid := ring.registry.accepts cursor
        index := ← askEither (ring.resolve cursor)
        element := element.map Item.value })
  | .writeUnder site value => do
      let cursor ← cursorOf number site
      let (index, _) ← askRing number (·.locate cursor)
      let old ← onBuffer number do
        let item ← Ledger.make value
        Buffer.onRing (Act.update (·.overwrite index item))
      return .reply (← handBackOne (some old))
  | .push side value => do
      let evicted ← onBuffer number do Buffer.push side (← Ledger.make value)
      return .reply (← handBackOne evicted)
  | .pop side => do
      let item ← onBuffer number (Buffer.pop side)
      return .reply (← handBackOne item)
  | .extend feed => do
      match ← demandBuffer number with
      | .fixed _ => doing number (Buffer.onRing (Ring.extend feed.entries))
      | .elastic _ => inapplicable
  | .insert yields site value => do
      let cursor ← cursorOf number site
      pointing number do Buffer.insert yields cursor (← Ledger.make value)
  | .insertCopies yields site n value => do
      let cursor ← cursorOf number site
      pointing number do Buffer.insertCopies yields cursor n (← Ledger.make value)
  | .insertFeed yields site feed => do
      let cursor ← cursorOf number site
      pointing number (Buffer.insertFeed yields cursor feed)
  | .erase toward site => do
      let cursor ← cursorOf number site
      pointing number (Buffer.erase toward cursor)
  | .eraseRange toward first last => do
      let first ← cursorOf number first
      let last ← cursorOf number last
      pointing number (Buffer.eraseRange toward first last)
  | .clear => doing number Buffer.clear
  | .setCapacity trim bounds => doing number (Buffer.setCapacity trim bounds)
  | .setFloor floor => do
      match ← demandBuffer number with
      | .fixed _ => inapplicable
      | .elastic _ => doing number (Buffer.either (pure ()) (ElasticRing.setFloor floor))
  | .resize side n value => doing number do Buffer.resize side n (← Ledger.make value)
  | .assign n value => doing number do Buffer.assign n (← Ledger.make value)
  | .assignWithin bounds n value => doing number (Buffer.assignWithin bounds n value)
  | .assignFeed feed => doing number (Buffer.assignFeed feed)
  | .assignFeedWithin bounds feed => doing number (Buffer.assignFeedWithin bounds feed)
  | .look script => do
      let walk ← askRing number (liftM ·.iterate)
      return .reply (.walk (← ask (lookScript script walk)))
  | .overwrite script => do
      let walk ← askRing number (liftM ·.places)
      return .reply (.walk (← onBuffer number (Buffer.onRing (overwriteScript script walk))))
  | .equalsList values => do
      return .reply (.truth (← askRing number (liftM <| ·.equalsList values)))
  | .hash => do
      match ← demandBuffer number with
      | .fixed ring => return .reply (.hash (← ask ring.hashed))
      | .elastic _ => inapplicable
  | .listing => do
      let listing ← ask (← demandBuffer number).listing
      return .reply (.listing listing.compact listing.pretty)

/-- Runs an operation. -/
def runOp [Value α] : Op α → Move α (Reply α)
  | .build number plan => do
      demandVacant number
      let buffer ← onLedger (Buffer.build plan)
      modify (·.withBuffer number buffer)
      return .done
  | .duplicate source target => do
      demandVacant target
      let buffer ← demandBuffer source
      let copy ← onLedger buffer.duplicate
      modify (·.withBuffer target copy)
      return .done
  | .destroy number => do
      let buffer ← demandBuffer number
      modify (·.withoutBuffer number)
      onLedger buffer.ring.destroy
      return .done
  | .drain number script => do
      match ← demandBuffer number with
      | .fixed ring =>
          modify (·.withoutBuffer number)
          return .walk (← onLedger (spending ring Ring.runs (drainScript script)))
      | .elastic _ => inapplicable
  | .exchange first second => do
      if first = second then
        inapplicable
      match (← demandBuffer first).swap? (← demandBuffer second) with
      | none => inapplicable
      | some (changedFirst, changedSecond) =>
          modify fun session =>
            (session.withBuffer first changedFirst).withBuffer second changedSecond
          return .done
  | .equals first second => do
      let first := (← demandBuffer first).ring
      let second := (← demandBuffer second).ring
      return .truth (← ask (first.equals second))
  | .order first second => do
      let first := (← demandBuffer first).ring
      let second := (← demandBuffer second).ring
      return .comparison {
        partialOrder := ← ask (first.order? second)
        totalOrder := ← ask (first.totalOrder? second) }
  | .armCopy copies => do
      onLedger (Ledger.armCopy copies)
      return .done
  | .armDestruction value => do
      onLedger (Ledger.armDestruction (value.map fun value item => item.value == value))
      return .done
  | .provide memory => do
      onLedger (Ledger.provide memory)
      return .done
  | .on number command save => do
      match ← runCommand number command with
      | .reply reply => return reply
      | .cursor cursor =>
          if let some name := save then
            modify (·.withBookmark name ⟨number, cursor⟩)
          return .cursor (← askRing number (·.resolve cursor)) cursor.isEnd

/-- One operation: the reply, and the session after it. Reports of earlier operations are put
aside. -/
def step [Value α] (op : Op α) (session : Session α) : Reply α × Session α :=
  let session := { session with ledger := { session.ledger with events := [] } }
  match runOp op session with
  | .ok reply session => (reply, session)
  | .error (.halted halt) session => (.halted halt, session)
  | .error .inapplicable session => (.inapplicable, session)

/-- The session after a list of operations. -/
def run [Value α] (ops : List (Op α)) (session : Session α) : Session α :=
  ops.foldl (fun session op => (session.step op).2) session

/-- Whether a session comes about by operations on a blank one, with any memory. -/
def Reachable [Value α] (session : Session α) : Prop :=
  ∃ memory ops, run ops (blank memory) = session

end RingDeque.Session
