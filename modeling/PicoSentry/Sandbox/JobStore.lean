import Mathlib.Data.List.Lex
import PicoSentry.Foundation.Json
import PicoSentry.Foundation.Dict
import PicoSentry.Foundation.Run
import PicoSentry.Foundation.Result
import PicoSentry.Foundation.SortedBy
import PicoSentry.Foundation.Text

namespace PicoSentry.Sandbox.JobStore

open Foundation

abbrev Job := Dict Str Json

def jobStoreSchemaVersion : Int := 2

def maxFileSize : Nat := 10 * 1024 * 1024

def textField (job : Job) (key : String) : Str :=
  match job.get? key.toList with
  | some (.str s) => s
  | _ => []

def jobId (job : Job) : Str := textField job "job_id"

def createdAt (job : Job) : Str := textField job "created_at"

def toJson (job : Job) : Json := .obj (.ofList job)

def dumpLine (job : Job) : Str := Json.dumps (toJson job)

-- One line of jobs.jsonl is one list entry, its line break left out; none is a missing file.
structure Store where
  jobs : Dict Str Job := []
  appendsSinceRewrite : Nat := 0
  storeFile : Option (List Str) := none

def fileSize (lines : List Str) : Nat :=
  (lines.map fun line => (line.map Char.utf8Size).sum + 1).sum

section

variable (U : Unicode) (maxJobs : Nat)

-- A job_id that is not a text is passed over here; every line the store writes has a text there.
def readLine (jobs : Dict Str Job) (rawLine : Str) : Except PyError (Dict Str Job) :=
  let line := U.strip rawLine
  if line = [] then .ok jobs
  else match Json.loads line with
    | none => .ok jobs
    | some (.obj fields) =>
      let job : Job := fields.toList
      .ok (if jobId job = [] then jobs else jobs.set (jobId job) job)
    | some _ => .error .attributeError

def readJobs (lines : List Str) : Except PyError (Dict Str Job) := lines.foldlM (readLine U) []

def newest (jobs : List Job) : List Job := (descending createdAt jobs).take maxJobs

def byId (jobs : List Job) : Dict Str Job := .ofPairs (jobs.map fun job => (jobId job, job))

def compact (lines : List Str) : Except PyError (Dict Str Job × Option (List Str)) := do
  let jobs ← readJobs U lines
  let sortedJobs := newest maxJobs (jobs.map Prod.snd)
  return (byId sortedJobs, some (sortedJobs.map dumpLine))

def loadFromDisk : Option (List Str) → Except PyError (Dict Str Job × Option (List Str))
  | none => .ok ([], none)
  | some lines =>
    if fileSize lines > maxFileSize then compact U maxJobs lines
    else do
      let jobs ← readJobs U lines
      return (if jobs.length > maxJobs then byId (newest maxJobs (jobs.map Prod.snd)) else jobs,
        some lines)

def appendToDisk (s : Store) (job : Job) : Store :=
  { s with storeFile := some (s.storeFile.getD [] ++ [dumpLine job]) }

def rewriteDisk (s : Store) : Store :=
  { s with storeFile := some (s.jobs.map fun p => dumpLine p.2), appendsSinceRewrite := 0 }

def evictOldest (jobs : Dict Str Job) : Dict Str Job :=
  ((ascending createdAt (jobs.map Prod.snd)).take (jobs.length - maxJobs)).foldl
    (fun jobs job => jobs.erase (jobId job)) jobs

def newJob (id : Str) (command : List Str) (actor now : Str) : Job :=
  [("job_id".toList, .str id), ("command".toList, .arr (.ofList (command.map .str))),
   ("actor".toList, .str actor), ("status".toList, .str "pending".toList),
   ("created_at".toList, .str now), ("completed_at".toList, .null), ("result".toList, .null),
   ("error".toList, .null), ("schema_version".toList, .int jobStoreSchemaVersion)]

def add (s : Store) (job : Job) : Store :=
  let jobs := s.jobs.set (jobId job) job
  let jobs := if jobs.length > maxJobs then evictOldest maxJobs jobs else jobs
  let s := appendToDisk { s with jobs := jobs } job
  let s := { s with appendsSinceRewrite := s.appendsSinceRewrite + 1 }
  if s.appendsSinceRewrite > s.jobs.length then rewriteDisk s else s

-- The keyword arguments of update: job_id is already taken by a parameter of its own.
structure UpdateArgs where
  args : Dict Str Json
  no_job_id : args.get? "job_id".toList = none
  created_at_text : ∀ j, args.get? "created_at".toList = some j → ∃ s, j = .str s

def completes (args : Dict Str Json) : Bool :=
  match args.get? "status".toList with
  | some (.str status) => status = "completed".toList || status = "failed".toList
  | _ => false

def updateJob (job : Job) (args : Dict Str Json) (now : Str) : Job :=
  let job := job.setAll args
  if completes args then job.set "completed_at".toList (.str now) else job

def update (s : Store) (id : Str) (kwargs : UpdateArgs) (now : Str) : Store :=
  match s.jobs.get? id with
  | none => s
  | some job => rewriteDisk { s with jobs := s.jobs.set id (updateJob job kwargs.args now) }

def orphaned (job : Job) : Bool :=
  match job.get? "status".toList with
  | some (.str status) => status = "running".toList || status = "queued".toList
  | _ => false

def failJob (now : Str) (job : Job) : Job :=
  ((job.set "status".toList (.str "failed".toList)).set "error".toList
    (.str "ORPHANED_ON_RESTART".toList)).set "completed_at".toList (.str now)

def reconcileOnStart (s : Store) (now : Str) : Store :=
  let jobs := s.jobs.map fun p => (p.1, if orphaned p.2 then failJob now p.2 else p.2)
  if s.jobs.countP (fun p => orphaned p.2) = 0 then s else rewriteDisk { s with jobs := jobs }

inductive Call where
  | add (id : Str) (command : List Str) (actor now : Str)
  | update (id : Str) (kwargs : UpdateArgs) (now : Str)
  | reconcileOnStart (now : Str)
  | restart

def step (s : Store) : Call → Option (Store × List Unit)
  | .add id command actor now => some (add maxJobs s (newJob id command actor now), [])
  | .update id kwargs now => some (update s id kwargs now, [])
  | .reconcileOnStart now => some (reconcileOnStart s now, [])
  | .restart =>
    match loadFromDisk U maxJobs s.storeFile with
    | .ok (jobs, storeFile) =>
      some ({ jobs := jobs, appendsSinceRewrite := 0, storeFile := storeFile }, [])
    | .error _ => none

end

end PicoSentry.Sandbox.JobStore
