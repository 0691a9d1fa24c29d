import Mathlib.Data.List.Sort
import PicoSentry.Foundation.Dict
import PicoSentry.Foundation.Json
import PicoSentry.Foundation.Result
import PicoSentry.Foundation.Run

namespace PicoSentry.Serve.Audit

open Foundation

structure Sha256 where
  hexdigest : Str → Str
  nonempty : ∀ s, hexdigest s ≠ []
  noBar : ∀ s, '|' ∉ hexdigest s

-- The columns of a row that may hold NULL; an empty hash stands for NULL, as the code reads either.
structure Row where
  id : Nat
  action : Str
  userId : Option Int
  resourceType : Str
  resourceId : Option Str
  details : Option Str
  ipAddress : Option Str
  userAgent : Option Str
  prevHash : Str
  rowHash : Str
  orgId : Option Int
  severity : Str
  createdAt : Int
  deriving DecidableEq, Repr

structure AuditLog where
  rows : List Row := []
  nextId : Nat := 1
  deriving DecidableEq, Repr

inductive Details where
  | text (s : Str)
  | dict (fields : List (Str × Json))

structure AppendArgs where
  action : Str
  userId : Option Int
  resourceType : Str
  resourceId : Str
  details : Details
  ipAddress : Option Str := none
  userAgent : Option Str := none
  severity : Str := "default".toList
  orgId : Option Int := none

structure PurgeArgs where
  retentionDays : Option Int := none
  dryRun : Bool := false
  orgId : Option Int := none

structure PurgeEntry where
  severity : Option Str
  count : Nat
  cutoff : Int

structure Verdict where
  valid : Bool
  rowsChecked : Nat
  violation : Option Str
  rowId : Option Nat
  deriving DecidableEq, Repr

def userText : Option Int → Str
  | none => "None".toList
  | some n => intText n

def joined (prevHash action : Str) (userId : Option Int) (resourceId details : Str)
    (ipAddress : Option Str) : Str :=
  List.intercalate ['|']
    [prevHash, action, userText userId, resourceId, details, ipAddress.getD []]

-- "|".join raises on a NULL among the texts.
def canonical (prevHash action : Str) (userId : Option Int) (resourceId details ipAddress : Option Str) :
    Except PyError Str :=
  match resourceId, details with
  | some resourceId, some details => .ok (joined prevHash action userId resourceId details ipAddress)
  | _, _ => .error .typeError

def computeRowHash (sha : Sha256) (prevHash action : Str) (userId : Option Int)
    (resourceId details ipAddress : Option Str) : Except PyError Str :=
  (canonical prevHash action userId resourceId details ipAddress).map sha.hexdigest

def Row.computedHash (sha : Sha256) (row : Row) : Except PyError Str :=
  computeRowHash sha row.prevHash row.action row.userId row.resourceId row.details row.ipAddress

def detailsJson : Details → Str
  | .text s => s
  | .dict fields => (Json.obj (.ofList fields)).dumps

def hashOf : Option Row → Str
  | none => []
  | some row => row.rowHash

def newRow (sha : Sha256) (log : AuditLog) (args : AppendArgs) (now : Int) : Row :=
  let prevHash := hashOf log.rows.getLast?
  let userId := some (args.userId.getD (-1))
  let details := detailsJson args.details
  { id := log.nextId
    action := args.action
    userId := userId
    resourceType := args.resourceType
    resourceId := some args.resourceId
    details := some details
    ipAddress := args.ipAddress
    userAgent := args.userAgent
    prevHash := prevHash
    rowHash := sha.hexdigest (joined prevHash args.action userId args.resourceId details args.ipAddress)
    orgId := args.orgId
    severity := args.severity
    createdAt := now }

def appendAuditRow (sha : Sha256) (log : AuditLog) (args : AppendArgs) (now : Int) : AuditLog where
  rows := log.rows ++ [newRow sha log args now]
  nextId := log.nextId + 1

section Purge

def purgeAction : Str := "audit.purge".toList

def critical : Str := "critical".toList

def defaultRetention : List (Str × Int) :=
  [(critical, 365), ("high".toList, 180), ("medium".toList, 90), ("low".toList, 30),
   ("default".toList, 90)]

def addToRuns (runs : List (Nat × Nat)) (i : Nat) : List (Nat × Nat) :=
  match runs.getLast? with
  | some (lo, hi) => if i = hi + 1 then runs.dropLast ++ [(lo, i)] else runs ++ [(i, i)]
  | none => [(i, i)]

def contiguousRuns (ids : List Nat) : List (Nat × Nat) :=
  (ids.insertionSort (· ≤ ·)).foldl addToRuns []

def gapText (runs : List (Nat × Nat)) : Str :=
  match runs.head?, runs.getLast? with
  | some first, some last =>
    "gap:".toList ++ decimal first.1 ++ "..".toList ++ decimal last.2
  | _, _ => "gap:none".toList

def runJson (run : Nat × Nat) : Json := .arr (.ofList [.int run.1, .int run.2])

def orgJson : Option Int → Json
  | none => .null
  | some org => .int org

def markerFields (deleted : Nat) (runs : List (Nat × Nat)) (orgId : Option Int) :
    List (Str × Json) :=
  [("deleted".toList, .int deleted), ("gaps".toList, .arr (.ofList (runs.map runJson))),
   ("org_id".toList, orgJson orgId)]

def markerArgs (ids : List Nat) (orgId : Option Int) : AppendArgs where
  action := purgeAction
  userId := none
  resourceType := "audit_log".toList
  resourceId := gapText (contiguousRuns ids)
  details := .dict (markerFields ids.length (contiguousRuns ids) orgId)
  severity := critical
  orgId := orgId

def AuditLog.without (log : AuditLog) (ids : List Nat) : AuditLog :=
  { log with rows := log.rows.filter fun r => decide (r.id ∉ ids) }

def presentIds (log : AuditLog) (ids : List Nat) : List Nat :=
  (log.rows.filter fun r => decide (r.id ∈ ids)).map Row.id

def deleteIds (sha : Sha256) (log : AuditLog) (ids : List Nat) (orgId : Option Int) (now : Int) :
    AuditLog :=
  if ids = [] then log
  else
    let present := presentIds log ids
    appendAuditRow sha (log.without present) (markerArgs present orgId) now

def selectIds (log : AuditLog) (cutoff : Int) (severity : Option Str) (orgId : Option Int) :
    List Nat :=
  (log.rows.filter fun r =>
    decide (r.createdAt < cutoff) && severity.all (· = r.severity) &&
      orgId.all (some · = r.orgId)).map Row.id

def cutoffAt (now days : Int) : Int := now - 86400 * days

def purgeSelections (log : AuditLog) (args : PurgeArgs) (clock : Nat → Int) :
    List (Option Str × Int × List Nat) :=
  match args.retentionDays with
  | some days =>
    let cutoff := cutoffAt (clock 0) days
    [(none, cutoff, selectIds log cutoff none args.orgId)]
  | none =>
    defaultRetention.zipIdx.map fun ((severity, days), k) =>
      let cutoff := cutoffAt (clock k) days
      (some severity, cutoff, selectIds log cutoff (some severity) args.orgId)

def purgedBy (log : AuditLog) (args : PurgeArgs) (clock : Nat → Int) : List Nat :=
  (purgeSelections log args clock).flatMap fun s => s.2.2

def purgeAuditLogs (sha : Sha256) (log : AuditLog) (args : PurgeArgs) (clock : Nat → Int) :
    AuditLog × List PurgeEntry :=
  let entries := (purgeSelections log args clock).map fun s =>
    { severity := s.1, count := s.2.2.length, cutoff := s.2.1 }
  if args.dryRun then (log, entries)
  else (deleteIds sha log (purgedBy log args clock) args.orgId (clock 5), entries)

end Purge

section Verify

def asInt : Json → Option Int
  | .int n => some n
  | .bool true => some 1
  | .bool false => some 0
  | _ => none

def gapOf : Json → Option (Int × Int)
  | .arr (.cons lo (.cons hi .nil)) => do
      let hi ← asInt hi
      let lo ← asInt lo
      return (lo, hi)
  | _ => none

-- The loop stops at the first entry that raises; the ranges before it stay recorded.
def gapsOf : List Json → List (Int × Int)
  | [] => []
  | j :: js =>
    match gapOf j with
    | some g => g :: gapsOf js
    | none => []

def markerGaps (details : Str) : List (Int × Int) :=
  match Json.loads details with
  | some (.obj fields) =>
    match Dict.lastOf fields.toList "gaps".toList with
    | some (.arr items) => gapsOf items.toList
    | _ => []
  | _ => []

def markers (rows : List Row) : List Row := rows.filter fun r => decide (r.action = purgeAction)

def namedGaps (rows : List Row) : List (Int × Int) :=
  (markers rows).flatMap fun r => markerGaps (r.details.getD [])

-- On NULL json.loads raises a TypeError, and the slice in the warning about it raises another one.
def loadPurgedIds (rows : List Row) : Except PyError (List (Int × Int)) :=
  if (markers rows).any fun r => r.details.isNone then .error .typeError else .ok (namedGaps rows)

def isPurged (purged : List (Int × Int)) (i : Nat) : Bool :=
  purged.any fun g => decide (g.1 ≤ i) && decide ((i : Int) ≤ g.2)

def gapExplains (purged : List (Int × Int)) (prevId : Option Nat) (rowId : Nat) : Bool :=
  match prevId with
  | none =>
    decide (1 < rowId) && purged.any (fun g => decide (g.1 ≤ g.2)) &&
      (List.range' 1 (rowId - 1)).all (isPurged purged)
  | some prevId =>
    if rowId = prevId + 1 then false
    else (List.range' (prevId + 1) (rowId - (prevId + 1))).all (isPurged purged)

def linksFrom : Option Row → List Row → List (Option Row × Row)
  | _, [] => []
  | prev, row :: rows => (prev, row) :: linksFrom (some row) rows

def withPredecessor (rows : List Row) : List (Option Row × Row) := linksFrom none rows

def checkRow (sha : Sha256) (purged : List (Int × Int)) (prev : Option Row) (row : Row) :
    Except PyError (Option Str) :=
  if row.prevHash = [] ∧ row.rowHash = [] then .ok none
  else if row.prevHash ≠ hashOf prev then
    if gapExplains purged (prev.map Row.id) row.id then .ok none
    else
      .ok (some ("row ".toList ++ decimal row.id ++
        ": prev_hash does not match predecessor (fork or deleted link)".toList))
  else do
    let recomputed ← row.computedHash sha
    if recomputed ≠ row.rowHash then
      return some ("row ".toList ++ decimal row.id ++
        ": row_hash does not match stored fields (tampered)".toList)
    else return none

def firstViolation (sha : Sha256) (purged : List (Int × Int)) :
    List (Option Row × Row) → Except PyError (Option (Str × Nat))
  | [] => .ok none
  | link :: links =>
    match checkRow sha purged link.1 link.2 with
    | .error e => .error e
    | .ok (some text) => .ok (some (text, link.2.id))
    | .ok none => firstViolation sha purged links

def verifyAuditChain (sha : Sha256) (rows : List Row) (orgId : Option Int := none)
    (limit : Option Nat := none) : Except PyError Verdict := do
  let joined := (withPredecessor rows).filter fun link => orgId.all (some · = link.2.orgId)
  let checked :=
    match limit with
    | none => joined
    | some n => (joined.reverse.take n).reverse
  let purged ← loadPurgedIds rows
  let violation ← firstViolation sha purged checked
  return { valid := violation.isNone
           rowsChecked := checked.length
           violation := violation.map Prod.fst
           rowId := violation.map Prod.snd }

def reportedValid (sha : Sha256) (rows : List Row) : Except PyError Bool :=
  (verifyAuditChain sha rows).map Verdict.valid

end Verify

inductive Call where
  | append (args : AppendArgs) (now : Int)
  | purge (args : PurgeArgs) (clock : Nat → Int)

def call (sha : Sha256) (log : AuditLog) : Call → AuditLog
  | .append args now => appendAuditRow sha log args now
  | .purge args clock => (purgeAuditLogs sha log args clock).1

def run (sha : Sha256) (calls : List Call) : AuditLog := calls.foldl (call sha) {}

end PicoSentry.Serve.Audit
