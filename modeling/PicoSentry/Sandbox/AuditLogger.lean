import Mathlib.Logic.Function.Basic
import PicoSentry.Foundation.JsonLines
import PicoSentry.Foundation.Result
import PicoSentry.Foundation.Run

namespace PicoSentry.Sandbox.AuditLogger

open Foundation

inductive AuditEventType where
  | scanStart | scanComplete | scanAlert
  | policyCreate | policyUpdate | policyRollback | policyDelete
  | baselineCreate | baselineUpdate | baselineDelete
  | daemonStart | daemonStop | authSuccess | authFailure
  | commandDenied | rateLimited
  | dataRetentionCleanup | dataExport | dataDelete
  | clusterGossip
  deriving DecidableEq

def AuditEventType.value : AuditEventType → Str
  | .scanStart => "scan_start".toList
  | .scanComplete => "scan_complete".toList
  | .scanAlert => "scan_alert".toList
  | .policyCreate => "policy_create".toList
  | .policyUpdate => "policy_update".toList
  | .policyRollback => "policy_rollback".toList
  | .policyDelete => "policy_delete".toList
  | .baselineCreate => "baseline_create".toList
  | .baselineUpdate => "baseline_update".toList
  | .baselineDelete => "baseline_delete".toList
  | .daemonStart => "daemon_start".toList
  | .daemonStop => "daemon_stop".toList
  | .authSuccess => "auth_success".toList
  | .authFailure => "auth_failure".toList
  | .commandDenied => "command_denied".toList
  | .rateLimited => "rate_limited".toList
  | .dataRetentionCleanup => "data_retention_cleanup".toList
  | .dataExport => "data_export".toList
  | .dataDelete => "data_delete".toList
  | .clusterGossip => "cluster_gossip".toList

-- A metadata dict as json.dumps with default=str sees it, or what dumping it raises.
structure Metadata where
  fields : Except PyError JsonFields
  wellFormed : ∀ fs, fields = .ok fs → Json.WellFormedFields fs

-- metadata or {}
def Metadata.orEmpty : Option Metadata → Metadata
  | none => ⟨.ok .nil, fun _ h => by cases h; trivial⟩
  | some metadata => metadata

-- The arguments of record, with what uuid4 and gmtime gave.
structure Entry where
  eventType : AuditEventType
  actor : Str
  detail : Str := []
  target : Str := []
  metadata : Option Metadata := none
  eventId : Str
  timestamp : Str

structure AuditEvent where
  eventType : AuditEventType
  actor : Str
  detail : Str := []
  target : Str := []
  metadata : Metadata
  eventId : Str
  timestamp : Str
  prevHash : Str

def Entry.event (entry : Entry) (prevHash : Str) : AuditEvent where
  eventType := entry.eventType
  actor := entry.actor
  detail := entry.detail
  target := entry.target
  metadata := Metadata.orEmpty entry.metadata
  eventId := entry.eventId
  timestamp := entry.timestamp
  prevHash := prevHash

def auditSchemaVersion : Int := 2

def AuditEvent.toDict (event : AuditEvent) (metadata : JsonFields) : JsonFields :=
  .ofList [("actor".toList, .str event.actor), ("detail".toList, .str event.detail),
    ("event_id".toList, .str event.eventId), ("event_type".toList, .str event.eventType.value),
    ("metadata".toList, .obj metadata), ("prev_hash".toList, .str event.prevHash),
    ("schema_version".toList, .int auditSchemaVersion), ("target".toList, .str event.target),
    ("timestamp".toList, .str event.timestamp)]

def AuditEvent.toJsonLine (event : AuditEvent) : Except PyError Str := do
  let metadata ← event.metadata.fields
  return Json.dumps (.obj (event.toDict metadata))

-- A caught OSError or EOFError with its text, or another error that reading the file raises.
inductive ReadFailure where
  | os (text : Str)
  | other (error : PyError)

-- The text that reading the file yields before it ends or fails.
structure LogFile where
  text : Str := []
  failure : Option ReadFailure := none

-- The live log and the archives .1.jsonl.gz, .2.jsonl.gz and so on, by their number.
structure Disk where
  live : Option LogFile := none
  archives : Nat → Option LogFile := fun _ => none

structure LogPath where
  path : Str
  quoted : Str
  name : Str
  archiveName : Nat → Str

-- listText is str() of a list, size the st_size of a file with this text.
structure Env where
  unicode : Unicode
  hexdigest : Str → Str
  listText : List Json → Str
  size : Str → Nat
  logPath : LogPath
  rotateCount : Nat

structure Logger where
  prevHash : Str := []
  maxBytes : Int

structure World where
  disk : Disk := {}
  logger : Logger

section Reading

variable (env : Env)

def stripped (rawLines : List Str) : List Str :=
  (rawLines.map env.unicode.strip).filter (· ≠ [])

def LogFile.records (file : LogFile) : List Str := stripped env (textLines file.text)

def lastNonemptyLine : Option LogFile → Except PyError Str
  | none => .ok []
  | some file =>
    let last := (textLines file.text).foldl
      (fun last line => if env.unicode.strip line ≠ [] then env.unicode.strip line else last) []
    match file.failure with
    | none => .ok last
    | some (.os _) => .ok []
    | some (.other error) => .error error

def readLastHash (disk : Disk) : Except PyError Str := do
  let lastLine ← lastNonemptyLine env disk.live
  let lastLine ← if lastLine = [] then lastNonemptyLine env (disk.archives 1) else .ok lastLine
  if lastLine = [] then return []
  return if (Json.loads lastLine).isSome then env.hexdigest lastLine else []

def rotatedArchivePaths (disk : Disk) : List (Str × Option LogFile) :=
  (List.range' 1 env.rotateCount).reverse.filterMap fun i =>
    (disk.archives i).map fun file => (env.logPath.archiveName i, some file)

def sources (disk : Disk) : List (Str × Option LogFile) :=
  rotatedArchivePaths env disk ++ [(env.logPath.name, disk.live)]

structure Progress where
  expectedPrev : Str := []
  lineNum : Nat := 0
  violations : List Str := []

def Progress.report (p : Progress) (violation : Str) : Progress :=
  { p with violations := p.violations ++ [violation] }

def dictGet (fields : JsonFields) (key : String) (default : Json) : Json :=
  (Dict.get? fields.toList.reverse key.toList).getD default

def mismatchText (lineNum : Nat) (expected got : Str) : Str :=
  "Line ".toList ++ decimal lineNum ++ ": prev_hash mismatch — expected ".toList ++ expected ++
    "... got ".toList ++ got ++ "...".toList

def comparePrev (p : Progress) : Json → Except PyError Progress
  | .str recordedPrev =>
    .ok (if recordedPrev = p.expectedPrev then p
      else p.report (mismatchText p.lineNum (p.expectedPrev.take 16) (recordedPrev.take 16)))
  | .arr items =>
    .ok (p.report (mismatchText p.lineNum (p.expectedPrev.take 16)
      (env.listText (items.toList.take 16))))
  | _ => .error .typeError

def checkLine (p : Progress) (rawLine : Str) : Except PyError Progress :=
  let p := { p with lineNum := p.lineNum + 1 }
  let line := env.unicode.strip rawLine
  if line = [] then .ok p
  else
    match Json.loads line with
    | none => .ok (p.report ("Line ".toList ++ decimal p.lineNum ++ ": invalid JSON".toList))
    | some (.obj fields) => do
      let p ← if p.lineNum > 1 then comparePrev env p (dictGet fields "prev_hash" (.str [])) else .ok p
      return { p with expectedPrev := env.hexdigest line }
    | some _ => .error .attributeError

def readError (name text : Str) : Str :=
  "Error reading audit log ".toList ++ name ++ ": ".toList ++ text

def checkFile (p : Progress) : Str × Option LogFile → Except PyError Progress
  | (name, none) => .ok (p.report (readError name
      ("[Errno 2] No such file or directory: ".toList ++ env.logPath.quoted)))
  | (name, some file) => do
    let p ← (textLines file.text).foldlM (checkLine env) p
    match file.failure with
    | none => return p
    | some (.os text) => return p.report (readError name text)
    | some (.other error) => .error error

def verifyChain (disk : Disk) : Except PyError (List Str) :=
  if (sources env disk).all fun source => source.2.isNone then
    .ok ["Audit log not found: ".toList ++ env.logPath.path]
  else do
    let p ← (sources env disk).foldlM (checkFile env) {}
    return p.violations

def Disk.records (disk : Disk) : List Str :=
  (sources env disk).flatMap fun source => (source.2.map (LogFile.records env)).getD []

end Reading

section Writing

variable (env : Env)

def shiftArchive (archives : Nat → Option LogFile) (i : Nat) : Nat → Option LogFile :=
  match archives i with
  | none => archives
  | some src => Function.update (Function.update archives (i + 1) (some src)) i none

def rotate (disk : Disk) (live : LogFile) : Disk :=
  let archives := (List.range' 1 (env.rotateCount - 1)).reverse.foldl shiftArchive disk.archives
  { live := some {}, archives := Function.update archives 1 (some live) }

def Disk.write (disk : Disk) (line : Str) : Disk :=
  let live := disk.live.getD {}
  { disk with live := some { live with text := live.text ++ line ++ ['\n'] } }

def appendLine (maxBytes : Int) (disk : Disk) (line : Str) : Disk :=
  match disk.live with
  | none => disk.write line
  | some live =>
    if env.size live.text ≥ maxBytes then (rotate env disk live).write line else disk.write line

def record (w : World) (entry : Entry) : World × Except PyError AuditEvent :=
  let event := entry.event w.logger.prevHash
  match event.toJsonLine with
  | .error error => (w, .error error)
  | .ok line =>
    ({ disk := appendLine env w.logger.maxBytes w.disk line
       logger := { w.logger with prevHash := env.hexdigest line } }, .ok event)

inductive Call where
  | restart (maxBytes : Int)
  | record (entry : Entry)

-- The labels of a step are the lines that it writes.
def step (w : World) : Call → Option (World × List Str)
  | .restart maxBytes =>
    match readLastHash env w.disk with
    | .error _ => none
    | .ok prevHash => some ({ w with logger := { prevHash := prevHash, maxBytes := maxBytes } }, [])
  | .record entry =>
    some ((record env w entry).1, ((entry.event w.logger.prevHash).toJsonLine.toOption).toList)

def start (maxBytes : Int) : World where
  logger := { maxBytes := maxBytes }

end Writing

end PicoSentry.Sandbox.AuditLogger
