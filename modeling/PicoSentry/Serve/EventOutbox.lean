import Mathlib.Data.List.Sort
import PicoSentry.Foundation.Dict
import PicoSentry.Foundation.Json
import PicoSentry.Foundation.Run

namespace PicoSentry.Serve.Outbox

open Foundation

structure OutboxRow where
  seq : Nat
  id : Str
  type : Str
  source : Str
  payload : Str
  priority : Str
  orgId : Option Str
  workerId : Str
  createdAt : Int
  deriving DecidableEq, Repr

structure Event where
  id : Str
  type : Str
  source : Str
  payload : Json
  timestamp : Int
  priority : Str
  orgId : Option Str

structure EventBus where
  workerId : Str
  subscribers : Dict Str (List Nat)
  localOnlySubscribers : List Nat
  eventHistory : List Event

def wildcard : Str := "*".toList

def maxHistory : Nat := 1000

def outboxBatch : Nat := 500

-- A callback that raises one of _HANDLER_ERRORS is logged; the other errors of _POLL_ERRORS, the
-- database errors, leave _dispatch.
inductive Outcome where
  | returned
  | handlerError
  | pollError
  deriving DecidableEq, Repr

namespace EventBus

def remember (bus : EventBus) (event : Event) : EventBus :=
  let history := bus.eventHistory ++ [event]
  { bus with eventHistory := history.drop (history.length - maxHistory) }

def subscribersOf (bus : EventBus) (type : Str) : List Nat := (bus.subscribers.get? type).getD []

def callbacks (bus : EventBus) (type : Str) (skipLocalOnly : Bool) : List Nat :=
  (bus.subscribersOf type ++ bus.subscribersOf wildcard).filter fun cb =>
    !(skipLocalOnly && bus.localOnlySubscribers.contains cb)

def invoke (outcome : Nat → Outcome) : List Nat → List Nat × Bool
  | [] => ([], false)
  | cb :: rest =>
    if outcome cb = .pollError then ([cb], true)
    else (cb :: (invoke outcome rest).1, (invoke outcome rest).2)

end EventBus

structure Drained where
  bus : EventBus
  last : Nat
  deliveries : List (Nat × Nat)
  failed : Bool

def decodePayload (payload : Str) : Option Json :=
  if payload = [] then some (.obj .nil) else Json.loads payload

def rowEvent (row : OutboxRow) (payload : Json) : Event where
  id := row.id
  type := row.type
  source := row.source
  payload := payload
  timestamp := row.createdAt
  priority := if row.priority = [] then "normal".toList else row.priority
  orgId := row.orgId

structure Poller where
  bus : EventBus
  startedAt : Option Int := none
  startSeq : Nat := 0
  last : Nat := 0
  lastPrune : Option Int := none
  pruneDue : Bool := false

def retention : Int := 3600000000

def pruneInterval : Int := 300000000

section Drain

variable (startedAt : Int) (outcome : Nat → Nat → Outcome)

def drainRow (bus : EventBus) (row : OutboxRow) : EventBus × List Nat × Bool :=
  if row.workerId = bus.workerId then (bus, [], false)
  else
    match decodePayload row.payload with
    | none => (bus, [], true)
    | some payload =>
      let event := rowEvent row payload
      if event.timestamp < startedAt then (bus.remember event, [], false)
      else
        let r := EventBus.invoke (outcome row.seq) (bus.callbacks event.type true)
        (bus.remember event, r.1, r.2)

def drainRows : EventBus → Nat → List OutboxRow → Drained
  | bus, last, [] => ⟨bus, last, [], false⟩
  | bus, last, row :: rows =>
    let r := drainRow startedAt outcome bus row
    let deliveries := r.2.1.map fun cb => (row.seq, cb)
    if r.2.2 then ⟨r.1, max last row.seq, deliveries, true⟩
    else
      let rest := drainRows r.1 (max last row.seq) rows
      { rest with deliveries := deliveries ++ rest.deliveries }

end Drain

structure State where
  nextSeq : Nat
  inFlight : List OutboxRow
  table : List OutboxRow
  pollers : List Poller

structure Draft where
  id : Str
  type : Str
  source : Str
  payload : Str
  priority : Str
  orgId : Option Str
  timestamp : Int

inductive Step where
  | publish (worker : Nat) (event : Draft)
  | commit (seq : Nat)
  | abort (seq : Nat)
  | start (worker : Nat) (now : Int)
  | drain (worker : Nat) (selectFails : Bool) (outcome : Nat → Nat → Outcome)
  | prune (worker : Nat) (now : Int) (fails : Bool)

inductive Effect where
  | started (worker : Nat)
  | committed (row : OutboxRow)
  | delivered (worker seq callback : Nat)
  deriving DecidableEq

def outboxRow (seq : Nat) (workerId : Str) (event : Draft) : OutboxRow where
  seq := seq
  id := event.id
  type := event.type
  source := event.source
  payload := event.payload
  priority := event.priority
  orgId := event.orgId
  workerId := workerId
  createdAt := event.timestamp

def maxSeq (table : List OutboxRow) : Nat := (table.map OutboxRow.seq).foldl max 0

def batch (table : List OutboxRow) (last : Nat) : List OutboxRow :=
  ((table.filter fun row => last < row.seq).insertionSort fun a b => a.seq ≤ b.seq).take outboxBatch

def drainPoller (table : List OutboxRow) (p : Poller) (startedAt : Int)
    (outcome : Nat → Nat → Outcome) : Poller × List (Nat × Nat) :=
  let d := drainRows startedAt outcome p.bus p.last (batch table p.last)
  if d.failed then ({ p with bus := d.bus }, d.deliveries)
  else ({ p with bus := d.bus, last := d.last, pruneDue := true }, d.deliveries)

def pruneNow (p : Poller) (now : Int) : Bool :=
  p.lastPrune.all fun before => pruneInterval ≤ now - before

def State.setPoller (s : State) (worker : Nat) (p : Poller) : State :=
  { s with pollers := s.pollers.set worker p }

def step (s : State) : Step → Option (State × List Effect)
  | .publish worker event => do
      let p ← s.pollers[worker]?
      return ({ s with
        nextSeq := s.nextSeq + 1
        inFlight := s.inFlight ++ [outboxRow s.nextSeq p.bus.workerId event] }, [])
  | .commit seq => do
      let row ← s.inFlight.find? fun row => row.seq = seq
      return ({ s with
        inFlight := s.inFlight.filter fun r => r.seq ≠ seq
        table := s.table ++ [row] }, [.committed row])
  | .abort seq => some ({ s with inFlight := s.inFlight.filter fun r => r.seq ≠ seq }, [])
  | .start worker now => do
      let p ← s.pollers[worker]?
      if p.startedAt.isSome then none
      else
        let seq := maxSeq s.table
        return (s.setPoller worker { p with startedAt := some now, startSeq := seq, last := seq },
          [.started worker])
  | .drain worker selectFails outcome => do
      let p ← s.pollers[worker]?
      let startedAt ← p.startedAt
      if p.pruneDue then none
      else if selectFails then return (s, [])
      else
        let r := drainPoller s.table p startedAt outcome
        return (s.setPoller worker r.1, r.2.map fun d => .delivered worker d.1 d.2)
  | .prune worker now fails => do
      let p ← s.pollers[worker]?
      if !p.pruneDue then none
      else if pruneNow p now then
        let s := s.setPoller worker { p with pruneDue := false, lastPrune := some now }
        if fails then return (s, [])
        else return ({ s with
          table := s.table.filter fun row => now - retention ≤ row.createdAt }, [])
      else return (s.setPoller worker { p with pruneDue := false }, [])

end PicoSentry.Serve.Outbox
