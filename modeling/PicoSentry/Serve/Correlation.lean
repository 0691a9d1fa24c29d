import Mathlib.Algebra.Order.Ring.Rat
import Mathlib.Data.List.Dedup
import Mathlib.Data.List.Lex
import Mathlib.Data.List.Sort
import PicoSentry.Foundation.Dict
import PicoSentry.Foundation.Double
import PicoSentry.Foundation.Text

namespace PicoSentry.Serve.Correlation

open Foundation

inductive Severity where
  | critical
  | high
  | medium
  | low
  | info
  deriving DecidableEq, Repr

inductive Confidence where
  | exact
  | high
  | medium
  | low
  deriving DecidableEq, Repr

inductive KillChainPhase where
  | reconnaissance
  | delivery
  | execution
  | persistence
  | c2
  | exfiltration
  | impact
  deriving DecidableEq, Repr

structure CorrelatedEvent where
  artifactId : Str
  layer : Str
  ruleId : Str
  severity : Severity
  confidence : Confidence
  target : Str
  title : Str
  detail : Str
  timestamp : Str
  orgId : Option Str
  runId : Option Str
  deriving DecidableEq, Repr

abbrev PhaseEvents := Dict KillChainPhase (List CorrelatedEvent)

structure KillChainTimeline where
  artifactId : Str
  phases : PhaseEvents
  severity : Severity
  confidence : Confidence
  chainScore : ℚ
  narrative : Str
  relatedTargets : List Str
  orgId : Option Str
  deriving DecidableEq

def phaseWeight : KillChainPhase → ℚ
  | .reconnaissance => 3 / 10
  | .delivery => 5 / 10
  | .execution => 6 / 10
  | .persistence => 7 / 10
  | .c2 => 8 / 10
  | .exfiltration => 9 / 10
  | .impact => 1

def severityWeight : Severity → ℚ
  | .critical => 1
  | .high => 7 / 10
  | .medium => 4 / 10
  | .low => 2 / 10
  | .info => 5 / 100

def layerPhaseMap : Dict Str (List KillChainPhase) :=
  [("scan".toList, [.delivery, .execution, .persistence]),
   ("sandbox_l3".toList, [.execution, .c2]),
   ("sandbox_l4".toList, [.reconnaissance, .c2, .exfiltration]),
   ("watch".toList, [.reconnaissance, .impact, .exfiltration])]

def rulePhaseOverrides : Dict Str KillChainPhase :=
  [("L2-TYPO-001".toList, .delivery),
   ("L2-DEPC-001".toList, .delivery),
   ("L2-POST-001".toList, .execution),
   ("L2-OBFS-001".toList, .execution),
   ("L2-MAL-001".toList, .execution),
   ("L2-POSTINSTALL-001".toList, .execution),
   ("L2-PROV-001".toList, .persistence),
   ("L3-PROC-001".toList, .execution),
   ("L3-PROC-002".toList, .execution),
   ("L3-PROC-003".toList, .execution),
   ("L3-NET-001".toList, .c2),
   ("L3-NET-002".toList, .c2),
   ("L4-DNS-001".toList, .reconnaissance),
   ("L4-FILE-001".toList, .exfiltration),
   ("L5-PROMPT-001".toList, .reconnaissance),
   ("L5-PROMPT-002".toList, .impact),
   ("L6-OUTPUT-001".toList, .exfiltration)]

def severityIndex : Severity → Nat
  | .critical => 0
  | .high => 1
  | .medium => 2
  | .low => 3
  | .info => 4

def confidenceIndex : Confidence → Nat
  | .exact => 0
  | .high => 1
  | .medium => 2
  | .low => 3

def rulePrefix (ruleId : Str) : Option Str :=
  match ruleId.splitOn '-' with
  | first :: second :: _ => some (first ++ '-' :: second)
  | _ => none

def layerPhase (layer : Str) : KillChainPhase :=
  ((layerPhaseMap.get? layer).getD []).headD .delivery

def phaseForEvent (event : CorrelatedEvent) : KillChainPhase :=
  match rulePhaseOverrides.get? event.ruleId with
  | some phase => phase
  | none =>
    match (rulePrefix event.ruleId).bind rulePhaseOverrides.get? with
    | some phase => phase
    | none => layerPhase event.layer

def addToPhase (phases : PhaseEvents) (event : CorrelatedEvent) : PhaseEvents :=
  phases.set (phaseForEvent event) ((phases.get? (phaseForEvent event)).getD [] ++ [event])

def phasesOf (events : List CorrelatedEvent) : PhaseEvents := events.foldl addToPhase []

def worseSeverity (worst : Severity) (event : CorrelatedEvent) : Severity :=
  if severityIndex event.severity < severityIndex worst then event.severity else worst

def maxSeverity (events : List CorrelatedEvent) : Severity := events.foldl worseSeverity .info

def betterConfidence (best : Confidence) (event : CorrelatedEvent) : Confidence :=
  if confidenceIndex event.confidence < confidenceIndex best then event.confidence else best

def maxConfidence (events : List CorrelatedEvent) : Confidence :=
  events.foldl betterConfidence .low

section Score

-- What becomes of each literal and each result: the nearest double, or the number itself.
variable (rnd : ℚ → ℚ)

def maxSeverityWeight (events : List CorrelatedEvent) : ℚ :=
  events.foldl (fun weight event => max weight (rnd (severityWeight event.severity))) 0

def addPhase (totals : ℚ × ℚ) (entry : KillChainPhase × List CorrelatedEvent) : ℚ × ℚ :=
  let weight := rnd (phaseWeight entry.1)
  (rnd (totals.1 + rnd (maxSeverityWeight rnd entry.2 * weight)), rnd (totals.2 + weight))

def scoreOf (phases : PhaseEvents) : ℚ :=
  let totals := phases.foldl (addPhase rnd) (0, 0)
  if totals.2 = 0 then 0 else rnd (totals.1 / totals.2)

end Score

def computeChainScore (phases : PhaseEvents) : ℚ := scoreOf Double.round phases

def exactChainScore (phases : PhaseEvents) : ℚ := scoreOf id phases

def sortedSet (texts : List Str) : List Str := texts.dedup.insertionSort (· ≤ ·)

abbrev Narrator := Str → PhaseEvents → ℚ → Severity → Confidence → List Str → Str

def computeTimeline (narrate : Narrator) (artifactId : Str) (events : List CorrelatedEvent) :
    KillChainTimeline where
  artifactId := artifactId
  phases := phasesOf events
  severity := maxSeverity events
  confidence := maxConfidence events
  chainScore := computeChainScore (phasesOf events)
  narrative := narrate artifactId (phasesOf events) (computeChainScore (phasesOf events))
    (maxSeverity events) (maxConfidence events) (sortedSet (events.map CorrelatedEvent.layer))
  relatedTargets := sortedSet (events.map CorrelatedEvent.target)
  orgId := none

abbrev ChainKey := Option Str × Str

structure Engine where
  events : Dict Str (List CorrelatedEvent) := []
  chains : Dict ChainKey KillChainTimeline := []
  minuteBucketStart : Int := 0
  minuteEventCount : Nat := 0
  droppedEvents : Nat := 0

def maxEventsPerArtifact : Nat := 1000

def maxArtifacts : Nat := 5000

def maxEventsPerMinute : Nat := 10000

def minute : Int := 60000000

def visibleTo (org : Option Str) (event : CorrelatedEvent) : Bool :=
  event.orgId = none || event.orgId = org

def scopedEvents (org : Option Str) (events : List CorrelatedEvent) : List CorrelatedEvent :=
  events.filter (visibleTo org)

namespace Engine

def allowedByBackpressure (e : Engine) (now : Int) (count : Nat) : Nat × Engine :=
  let e := if minute ≤ now - e.minuteBucketStart then
    { e with minuteBucketStart := now, minuteEventCount := 0 } else e
  let allowed := min count (maxEventsPerMinute - e.minuteEventCount)
  (allowed, { e with minuteEventCount := e.minuteEventCount + allowed })

def stored (e : Engine) (artifact : Str) : List CorrelatedEvent :=
  (e.events.get? artifact).getD []

def lastEvents (events : List CorrelatedEvent) : List CorrelatedEvent :=
  events.drop (events.length - maxEventsPerArtifact)

def append (e : Engine) (event : CorrelatedEvent) : Engine :=
  let events := e.stored event.artifactId ++ [event]
  { e with events := e.events.set event.artifactId (lastEvents events) }

def popChain (e : Engine) (key : ChainKey) : Engine := { e with chains := e.chains.erase key }

def oldestTimestamp : List CorrelatedEvent → Str
  | [] => []
  | event :: events => events.foldl (fun t e => min t e.timestamp) event.timestamp

-- Ordered by the oldest timestamp alone, so that artifacts with equal ones keep their dict order.
def oldestQuarter (events : Dict Str (List CorrelatedEvent)) : List Str :=
  ((events.insertionSort fun p q => oldestTimestamp p.2 ≤ oldestTimestamp q.2).map Prod.fst).take
    (events.length / 4)

def evicted (e : Engine) : List Str :=
  if maxArtifacts < e.events.length then oldestQuarter e.events else []

def evict (e : Engine) (artifact : Str) : Engine :=
  { e with
    events := e.events.erase artifact
    chains := e.chains.erase ((e.stored artifact).head?.bind CorrelatedEvent.orgId, artifact) }

def evictOldest (e : Engine) : Engine := e.evicted.foldl evict e

def ingest (e : Engine) (now : Int) (event : CorrelatedEvent) : Engine :=
  let r := e.allowedByBackpressure now 1
  if r.1 = 0 then { r.2 with droppedEvents := r.2.droppedEvents + 1 }
  else (r.2.append event).evictOldest.popChain (event.orgId, event.artifactId)

def appendPop (e : Engine) (event : CorrelatedEvent) : Engine :=
  (e.append event).popChain (event.orgId, event.artifactId)

def ingestMany (e : Engine) (now : Int) (events : List CorrelatedEvent) : Engine :=
  let r := e.allowedByBackpressure now events.length
  if r.1 = 0 then { r.2 with droppedEvents := r.2.droppedEvents + events.length }
  else
    let e := ((events.take r.1).foldl appendPop r.2).evictOldest
    { e with droppedEvents := e.droppedEvents + (events.length - r.1) }

section Queries

variable (narrate : Narrator)

def scopedTimeline (org : Option Str) (artifact : Str) (events : List CorrelatedEvent) :
    Option KillChainTimeline :=
  match scopedEvents org events with
  | [] => none
  | visible => some { computeTimeline narrate artifact visible with orgId := org }

def killChain (e : Engine) (artifact : Str) (org : Option Str) :
    Option KillChainTimeline × Engine :=
  match e.chains.get? (org, artifact) with
  | some timeline => (some timeline, e)
  | none =>
    match scopedTimeline narrate org artifact (e.stored artifact) with
    | none => (none, e)
    | some timeline =>
      (some timeline, { e with chains := e.chains.set (org, artifact) timeline })

def visitArtifact (org : Option Str) (state : List KillChainTimeline × Engine)
    (entry : Str × List CorrelatedEvent) : List KillChainTimeline × Engine :=
  match state.2.chains.get? (org, entry.1) with
  | some timeline => (state.1 ++ [timeline], state.2)
  | none =>
    match scopedTimeline narrate org entry.1 entry.2 with
    | none => state
    | some timeline =>
      (state.1 ++ [timeline],
       { state.2 with chains := state.2.chains.set (org, entry.1) timeline })

def allChains (e : Engine) (org : Option Str) : List KillChainTimeline × Engine :=
  let r := e.events.foldl (visitArtifact narrate org) ([], e)
  (r.1.insertionSort fun a b => b.chainScore ≤ a.chainScore, r.2)

end Queries

def clear (e : Engine) : Engine := { e with events := [], chains := [] }

def loadEvent (e : Engine) (event : CorrelatedEvent) : Engine :=
  { e with events := e.events.set event.artifactId (e.stored event.artifactId ++ [event]) }

def loadEvents (e : Engine) (events : List CorrelatedEvent) : Engine :=
  { events.foldl loadEvent e with chains := [] }

end Engine

end PicoSentry.Serve.Correlation
