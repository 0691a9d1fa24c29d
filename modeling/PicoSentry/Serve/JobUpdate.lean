import PicoSentry.Serve.JobCreation
import PicoSentry.Serve.SchedulerQueue

namespace PicoSentry.Serve.JobUpdate

open Foundation
open JobCreation (CronConfig NextRun Params StoredParams getNextRun invalidParam)
open Scheduler (Queue Tracked cancelQueued enter liveEntries live_cancelQueued tracked_cancelQueued
  live_cancelQueued_self live_enter tracked_enter)

structure Job where
  name : Str
  cron : Str
  command : Str
  params : StoredParams
  enabled : Bool
  nextRun : Option Int
  lastRun : Option Int
  lastStatus : Option Str
  orgId : Option Int
  deriving DecidableEq

structure JobRows where
  rows : Dict Nat Job
  ids : rows.keys.Nodup

structure JobQueue where
  queue : Queue
  tracked : Tracked queue
  issued : ∀ e ∈ queue.heap, e.sequence < queue.nextSequence

structure State where
  jobs : Dict Nat Job
  table : JobRows
  queue : JobQueue
  running : Bool

structure Call where
  jobId : Nat
  cron : Option Str
  params : Option Params

-- The three readings of the clock, and the statements that raise.
structure Env where
  cron : CronConfig
  checked : Int
  scheduled : Int
  delayed : Int
  cronWriteRaises : Bool
  paramsWriteRaises : Bool
  selectRaises : Bool
  nextRunWriteRaises : Bool

inductive UpdateError where
  | invalidCron (cron : Str)
  | invalidParam (key : Str)
  | nextRunEscaped
  | unreadableParams
  | database
  deriving DecidableEq

section Queue

variable {q : JobQueue} {job : Nat}

theorem mem_of_mem_cancelQueued {e : Scheduler.Event} (h : e ∈ (cancelQueued q.queue job).heap) :
    e ∈ q.queue.heap := by
  have hlive : e ∈ liveEntries (cancelQueued q.queue job) e.job :=
    List.mem_filter.mpr ⟨h, decide_eq_true rfl⟩
  rw [live_cancelQueued q.tracked] at hlive
  split at hlive
  · cases hlive
  · exact (List.mem_filter.mp hlive).1

def JobQueue.cancel (q : JobQueue) (job : Nat) : JobQueue where
  queue := cancelQueued q.queue job
  tracked := tracked_cancelQueued q.tracked job
  issued e he := q.issued e (mem_of_mem_cancelQueued he)

def JobQueue.replace (q : JobQueue) (time : Int) (job : Nat) : JobQueue where
  queue := enter (cancelQueued q.queue job) time job
  tracked := tracked_enter (tracked_cancelQueued q.tracked job) (live_cancelQueued_self q.tracked job)
  issued := by
    intro e he
    rcases List.mem_append.mp he with he | he
    · exact (q.issued e (mem_of_mem_cancelQueued he)).trans (Nat.lt_succ_self _)
    · rw [List.mem_singleton.mp he]
      exact Nat.lt_succ_self _

def JobQueue.entries (q : JobQueue) (job : Nat) : List Scheduler.Event := liveEntries q.queue job

theorem entries_replace_ne (q : JobQueue) (time : Int) (job : Nat) :
    (q.replace time job).entries job ≠ q.entries job := by
  intro h
  have hlive : (q.replace time job).entries job = [⟨time, q.queue.nextSequence, job⟩] := by
    rw [JobQueue.entries, JobQueue.replace, live_enter (live_cancelQueued_self q.tracked job), if_pos rfl]
    rfl
  have hmem : ⟨time, q.queue.nextSequence, job⟩ ∈ q.entries job := by
    rw [← h, hlive]
    exact List.mem_singleton_self _
  exact absurd (q.issued _ (List.mem_filter.mp hmem).1) (lt_irrefl _)

end Queue

def updateRow (rows : Dict Nat Job) (job : Nat) (f : Job → Job) : Dict Nat Job :=
  match rows.get? job with
  | none => rows
  | some row => rows.set job (f row)

def JobRows.update (t : JobRows) (job : Nat) (f : Job → Job) : JobRows where
  rows := updateRow t.rows job f
  ids := by
    rw [updateRow]
    split
    · exact t.ids
    · exact Dict.keys_set_nodup t.ids _ _

def JobRows.get? (t : JobRows) (job : Nat) : Option Job := t.rows.get? job

def readable (row : Job) : Bool := row.params ≠ .unreadable

-- json.loads raises at the first row that it cannot read; the jobs before it are in memory by then.
def loadJobs (jobs : Dict Nat Job) : Dict Nat Job → Dict Nat Job × Bool
  | [] => (jobs, true)
  | (id, row) :: rows => if readable row then loadJobs (jobs.set id row) rows else (jobs, false)

def setCron (cron : Option Str) (job : Nat) (t : JobRows) : JobRows :=
  match cron with
  | none => t
  | some cron => t.update job fun row => { row with cron := cron }

def setParams (params : Option Params) (job : Nat) (t : JobRows) : JobRows :=
  match params with
  | none => t
  | some params => t.update job fun row => { row with params := .object params }

def writeCron (env : Env) (call : Call) (t : JobRows) : Except UpdateError JobRows :=
  match call.cron with
  | none => .ok t
  | some cron =>
    match getNextRun env.cron cron env.checked with
    | .escapes => .error .nextRunEscaped
    | .invalid => .error (.invalidCron cron)
    | .time _ => if env.cronWriteRaises then .error .database else .ok (setCron call.cron call.jobId t)

def writeParams (env : Env) (call : Call) (t : JobRows) : Except UpdateError JobRows :=
  match call.params with
  | none => .ok t
  | some params =>
    match invalidParam params with
    | some key => .error (.invalidParam key)
    | none =>
      if env.paramsWriteRaises then .error .database else .ok (setParams call.params call.jobId t)

def scheduleJob (env : Env) (job : Nat) (s : State) : State × Except UpdateError Bool :=
  match s.jobs.get? job with
  | none => (s, .ok true)
  | some config =>
    if config.enabled then
      match getNextRun env.cron config.cron env.scheduled with
      | .escapes => (s, .error .nextRunEscaped)
      | .invalid => (s, .ok true)
      | .time time =>
        let jobs := s.jobs.set job { config with nextRun := some time }
        if 0 < time - env.delayed then
          let s := { s with jobs := jobs, queue := s.queue.replace time job }
          if env.nextRunWriteRaises then (s, .error .database)
          else
            let table := s.table.update job fun row => { row with nextRun := some time }
            ({ s with table := table }, .ok true)
        else ({ s with jobs := jobs, queue := s.queue.cancel job }, .ok true)
    else (s, .ok true)

def reload (env : Env) (job : Nat) (s : State) : State × Except UpdateError Bool :=
  if env.selectRaises then (s, .error .database)
  else
    match loadJobs s.jobs s.table.rows with
    | (jobs, false) => ({ s with jobs := jobs }, .error .unreadableParams)
    | (jobs, true) =>
      let s := { s with jobs := jobs }
      if s.running then scheduleJob env job s else (s, .ok true)

def updateJob (env : Env) (call : Call) (s : State) : State × Except UpdateError Bool :=
  match s.jobs.get? call.jobId with
  | none => (s, .ok false)
  | some _ =>
    match writeCron env call s.table with
    | .error e => (s, .error e)
    | .ok t =>
      match writeParams env call t with
      | .error e => ({ s with table := t }, .error e)
      | .ok t => reload env call.jobId { s with table := t }

structure Unchanged (job : Nat) (s s' : State) : Prop where
  row : s'.table.get? job = s.table.get? job
  memory : s'.jobs.get? job = s.jobs.get? job
  entry : s'.queue.entries job = s.queue.entries job

structure Stored (call : Call) (s : State) : Prop where
  cron : ∀ cron ∈ call.cron, ∃ row ∈ s.table.get? call.jobId, row.cron = cron
  params : ∀ params ∈ call.params, ∃ row ∈ s.table.get? call.jobId, row.params = .object params

def Atomic (call : Call) (s : State) (r : State × Except UpdateError Bool) : Prop :=
  match r.2 with
  | .error _ => Unchanged call.jobId s r.1
  | .ok true => Stored call r.1
  | .ok false => True

def CronWritten (env : Env) (call : Call) : Prop :=
  ∀ cron ∈ call.cron, (∃ time, getNextRun env.cron cron env.checked = .time time) ∧
    env.cronWriteRaises = false

def ParamsWritten (env : Env) (call : Call) : Prop :=
  ∀ params ∈ call.params, invalidParam params = none ∧ env.paramsWriteRaises = false

def KeepsCron (call : Call) (s : State) : Prop :=
  ∀ row ∈ s.table.get? call.jobId, ∀ cron ∈ call.cron, row.cron = cron

def KeepsParams (call : Call) (s : State) : Prop :=
  ∀ row ∈ s.table.get? call.jobId, ∀ params ∈ call.params, row.params = .object params

def writtenRows (call : Call) (t : JobRows) : JobRows :=
  setParams call.params call.jobId (setCron call.cron call.jobId t)

def readRows (rows : Dict Nat Job) : Dict Nat Job := rows.takeWhile fun p => readable p.2

def allReadable (rows : Dict Nat Job) : Bool := rows.all fun p => readable p.2

def KeepsMemory (rows : Dict Nat Job) (call : Call) (s : State) : Prop :=
  ∀ row ∈ rows.get? call.jobId, s.jobs.get? call.jobId = some row

structure Loads (env : Env) (call : Call) (s : State) : Prop where
  cron : CronWritten env call
  params : ParamsWritten env call
  select : env.selectRaises = false
  readable : allReadable (writtenRows call s.table).rows = true

def loadedJob (call : Call) (s : State) : Option Job :=
  ((writtenRows call s.table).get? call.jobId).or (s.jobs.get? call.jobId)

def Scheduled (call : Call) (s : State) (job : Job) : Prop :=
  s.running = true ∧ loadedJob call s = some job ∧ job.enabled = true

structure Safe (env : Env) (call : Call) (s : State) : Prop where
  refused : CronWritten env call → ¬ ParamsWritten env call → KeepsCron call s
  select : CronWritten env call → ParamsWritten env call → env.selectRaises = true →
    KeepsCron call s ∧ KeepsParams call s
  unreadable : CronWritten env call → ParamsWritten env call → env.selectRaises = false →
    allReadable (writtenRows call s.table).rows = false →
    KeepsCron call s ∧ KeepsParams call s ∧ KeepsMemory (readRows s.table.rows) call s
  escapes : Loads env call s → ∀ job, Scheduled call s job →
    getNextRun env.cron job.cron env.scheduled = .escapes →
    KeepsCron call s ∧ KeepsParams call s ∧ KeepsMemory s.table.rows call s
  nextRun : Loads env call s → ∀ job, Scheduled call s job →
    ∀ time, getNextRun env.cron job.cron env.scheduled = .time time → env.delayed < time →
    env.nextRunWriteRaises = false
  stored : Loads env call s →
    (∀ job, Scheduled call s job → getNextRun env.cron job.cron env.scheduled ≠ .escapes) →
    call.cron ≠ none ∨ call.params ≠ none → s.table.get? call.jobId ≠ none

section Rows

variable {t : JobRows} {job : Nat}

theorem get?_update (t : JobRows) (job : Nat) (f : Job → Job) :
    (t.update job f).get? job = (t.get? job).map f := by
  cases hrow : t.rows.get? job with
  | none => simp [JobRows.get?, JobRows.update, updateRow, hrow]
  | some row => simp [JobRows.get?, JobRows.update, updateRow, hrow]

theorem set_eq_self {rows : Dict Nat Job} {row : Job} (h : rows.get? job = some row) :
    rows.set job row = rows := by
  induction rows with
  | nil => cases h
  | cons p rows ih =>
    obtain ⟨id,row'⟩ := p
    rw [Dict.get?] at h
    rw [Dict.set]
    split at h
    · next hid =>
      cases h
      rw [if_pos hid]
    · next hid => rw [if_neg hid, ih h]

theorem update_eq_self {f : Job → Job} (h : ∀ row ∈ t.get? job, f row = row) : t.update job f = t := by
  have hrows : updateRow t.rows job f = t.rows := by
    rw [updateRow]
    split
    · rfl
    · next row hrow => rw [h row hrow, set_eq_self hrow]
  obtain ⟨rows,ids⟩ := t
  simp only [JobRows.update, hrows]

theorem get?_setCron (cron : Option Str) (job : Nat) (t : JobRows) :
    (setCron cron job t).get? job =
      (t.get? job).map fun row => { row with cron := cron.getD row.cron } := by
  cases cron with
  | none => simp [setCron]
  | some cron => exact get?_update t job _

theorem get?_setParams (params : Option Params) (job : Nat) (t : JobRows) :
    (setParams params job t).get? job =
      (t.get? job).map fun row => { row with params := (params.map .object).getD row.params } := by
  cases params with
  | none => simp [setParams]
  | some params => exact get?_update t job _

theorem setCron_eq_self {cron : Option Str} (h : ∀ row ∈ t.get? job, ∀ c ∈ cron, row.cron = c) :
    setCron cron job t = t := by
  cases cron with
  | none => rfl
  | some cron => exact update_eq_self fun row hrow => by rw [← h row hrow cron rfl]

theorem setParams_eq_self {params : Option Params}
    (h : ∀ row ∈ t.get? job, ∀ p ∈ params, row.params = .object p) : setParams params job t = t := by
  cases params with
  | none => rfl
  | some params => exact update_eq_self fun row hrow => by rw [← h row hrow params rfl]

end Rows

section Load

variable {jobs rows : Dict Nat Job}

theorem loadJobs_eq (jobs rows : Dict Nat Job) :
    loadJobs jobs rows = (jobs.setAll (readRows rows), allReadable rows) := by
  induction rows generalizing jobs with
  | nil => rfl
  | cons p rows ih =>
    obtain ⟨id,row⟩ := p
    rw [loadJobs]
    cases hread : readable row with
    | true => simp [ih, readRows, allReadable, hread, Dict.setAll]
    | false => simp [readRows, allReadable, hread, Dict.setAll]

theorem get?_loaded (h : rows.keys.Nodup) (k : Nat) :
    (jobs.setAll rows).get? k = (rows.get? k).or (jobs.get? k) := by
  rw [Dict.get?_setAll, Dict.lastOf_of_nodup h]

theorem readRows_nodup (h : rows.keys.Nodup) : (readRows rows).keys.Nodup :=
  h.sublist ((List.takeWhile_sublist _).map Prod.fst)

theorem readRows_of_allReadable (h : allReadable rows = true) : readRows rows = rows :=
  List.takeWhile_eq_self_iff.mpr (List.all_eq_true.mp h)

theorem or_eq_right_iff {α : Type} {a b : Option α} : a.or b = b ↔ ∀ x ∈ a, b = some x := by
  cases a with
  | none => simp
  | some x => simp [eq_comm]

end Load

section Writes

variable {env : Env} {call : Call} {s : State}

theorem writeCron_of_written (h : CronWritten env call) (t : JobRows) :
    writeCron env call t = .ok (setCron call.cron call.jobId t) := by
  cases hcron : call.cron with
  | none => simp [writeCron, setCron, hcron]
  | some cron =>
    obtain ⟨⟨time,htime⟩,hwrite⟩ := h cron hcron
    simp [writeCron, hcron, htime, hwrite]

theorem writeCron_of_not_written (h : ¬ CronWritten env call) (t : JobRows) :
    ∃ e, writeCron env call t = .error e := by
  cases hcron : call.cron with
  | none => exact absurd (by simp [CronWritten, hcron]) h
  | some cron =>
    cases hnext : getNextRun env.cron cron env.checked with
    | invalid => exact ⟨.invalidCron cron, by simp [writeCron, hcron, hnext]⟩
    | escapes => exact ⟨.nextRunEscaped, by simp [writeCron, hcron, hnext]⟩
    | time time =>
      cases hwrite : env.cronWriteRaises with
      | false => exact absurd (by simp [CronWritten, hcron, hnext, hwrite]) h
      | true => exact ⟨.database, by simp [writeCron, hcron, hnext, hwrite]⟩

theorem writeParams_of_written (h : ParamsWritten env call) (t : JobRows) :
    writeParams env call t = .ok (setParams call.params call.jobId t) := by
  cases hparams : call.params with
  | none => simp [writeParams, setParams, hparams]
  | some params =>
    obtain ⟨hvalid,hwrite⟩ := h params hparams
    simp [writeParams, hparams, hvalid, hwrite]

theorem writeParams_of_not_written (h : ¬ ParamsWritten env call) (t : JobRows) :
    ∃ e, writeParams env call t = .error e := by
  cases hparams : call.params with
  | none => exact absurd (by simp [ParamsWritten, hparams]) h
  | some params =>
    cases hvalid : invalidParam params with
    | some key => exact ⟨.invalidParam key, by simp [writeParams, hparams, hvalid]⟩
    | none =>
      cases hwrite : env.paramsWriteRaises with
      | false => exact absurd (by simp [ParamsWritten, hparams, hvalid, hwrite]) h
      | true => exact ⟨.database, by simp [writeParams, hparams, hvalid, hwrite]⟩

theorem get?_setCron_eq_iff :
    (setCron call.cron call.jobId s.table).get? call.jobId = s.table.get? call.jobId ↔
      KeepsCron call s := by
  constructor
  · intro h row hrow cron hcron
    rw [get?_setCron, Option.mem_def.mp hrow, Option.mem_def.mp hcron] at h
    simpa using (congrArg Job.cron (Option.some.inj h)).symm
  · intro h
    rw [setCron_eq_self h]

theorem get?_writtenRows (call : Call) (t : JobRows) :
    (writtenRows call t).get? call.jobId = (t.get? call.jobId).map fun row =>
      { row with
        cron := call.cron.getD row.cron
        params := (call.params.map .object).getD row.params } := by
  rw [writtenRows, get?_setParams, get?_setCron, Option.map_map]
  rfl

theorem writtenRows_eq_self (hcron : KeepsCron call s) (hparams : KeepsParams call s) :
    writtenRows call s.table = s.table := by
  rw [writtenRows, setCron_eq_self hcron, setParams_eq_self hparams]

theorem get?_writtenRows_eq_iff :
    (writtenRows call s.table).get? call.jobId = s.table.get? call.jobId ↔
      KeepsCron call s ∧ KeepsParams call s := by
  constructor
  · intro h
    constructor
    · intro row hrow cron hcron
      rw [get?_writtenRows, Option.mem_def.mp hrow, Option.mem_def.mp hcron] at h
      simpa using (congrArg Job.cron (Option.some.inj h)).symm
    · intro row hrow params hparams
      rw [get?_writtenRows, Option.mem_def.mp hrow, Option.mem_def.mp hparams] at h
      simpa using (congrArg Job.params (Option.some.inj h)).symm
  · rintro ⟨hcron,hparams⟩
    rw [writtenRows_eq_self hcron hparams]

theorem unchanged_refused_iff :
    Unchanged call.jobId s { s with table := setCron call.cron call.jobId s.table } ↔
      KeepsCron call s :=
  ⟨fun h => get?_setCron_eq_iff.mp h.row, fun h => ⟨get?_setCron_eq_iff.mpr h, rfl, rfl⟩⟩

theorem unchanged_written_iff :
    Unchanged call.jobId s { s with table := writtenRows call s.table } ↔
      KeepsCron call s ∧ KeepsParams call s :=
  ⟨fun h => get?_writtenRows_eq_iff.mp h.row, fun h => ⟨get?_writtenRows_eq_iff.mpr h, rfl, rfl⟩⟩

theorem unchanged_loaded_iff :
    Unchanged call.jobId s
        { s with
          table := writtenRows call s.table
          jobs := s.jobs.setAll (readRows (writtenRows call s.table).rows) } ↔
      KeepsCron call s ∧ KeepsParams call s ∧ KeepsMemory (readRows s.table.rows) call s := by
  have hmemory : KeepsCron call s → KeepsParams call s →
      ((s.jobs.setAll (readRows (writtenRows call s.table).rows)).get? call.jobId =
          s.jobs.get? call.jobId ↔
        KeepsMemory (readRows s.table.rows) call s) := by
    intro hcron hparams
    rw [writtenRows_eq_self hcron hparams, get?_loaded (readRows_nodup s.table.ids), or_eq_right_iff]
    rfl
  constructor
  · intro h
    obtain ⟨hcron,hparams⟩ := get?_writtenRows_eq_iff.mp h.row
    exact ⟨hcron, hparams, (hmemory hcron hparams).mp h.memory⟩
  · rintro ⟨hcron,hparams,hmem⟩
    exact ⟨get?_writtenRows_eq_iff.mpr ⟨hcron, hparams⟩, (hmemory hcron hparams).mpr hmem, rfl⟩

theorem stored_iff {s' : State} {g : Job → Job}
    (hrow : s'.table.get? call.jobId = (s.table.get? call.jobId).map g)
    (hcron : ∀ row, (g row).cron = call.cron.getD row.cron)
    (hparams : ∀ row, (g row).params = (call.params.map .object).getD row.params) :
    Stored call s' ↔ (call.cron ≠ none ∨ call.params ≠ none → s.table.get? call.jobId ≠ none) := by
  cases hget : s.table.get? call.jobId with
  | none =>
    rw [hget, Option.map_none] at hrow
    constructor
    · rintro ⟨hstoredCron,hstoredParams⟩ (hsome | hsome)
      · obtain ⟨cron,hmem⟩ := Option.ne_none_iff_exists'.mp hsome
        obtain ⟨row,hnone,-⟩ := hstoredCron cron hmem
        rw [hrow] at hnone
        cases hnone
      · obtain ⟨params,hmem⟩ := Option.ne_none_iff_exists'.mp hsome
        obtain ⟨row,hnone,-⟩ := hstoredParams params hmem
        rw [hrow] at hnone
        cases hnone
    · intro hnone
      refine ⟨?_, ?_⟩
      · intro cron hmem
        exact absurd rfl (hnone (.inl (by rw [Option.mem_def.mp hmem]; simp)))
      · intro params hmem
        exact absurd rfl (hnone (.inr (by rw [Option.mem_def.mp hmem]; simp)))
  | some row =>
    rw [hget, Option.map_some] at hrow
    refine iff_of_true ⟨?_, ?_⟩ (fun _ => by simp)
    · intro cron hmem
      exact ⟨g row, hrow, by rw [hcron, Option.mem_def.mp hmem, Option.getD_some]⟩
    · intro params hmem
      exact ⟨g row, hrow, by rw [hparams, Option.mem_def.mp hmem, Option.map_some, Option.getD_some]⟩

end Writes

section Scheduling

variable {env : Env} {call : Call} {s : State}

def loadedState (call : Call) (s : State) : State :=
  { s with
    table := writtenRows call s.table
    jobs := s.jobs.setAll (writtenRows call s.table).rows }

theorem get?_loadedState (call : Call) (s : State) :
    (loadedState call s).jobs.get? call.jobId = loadedJob call s :=
  get?_loaded (writtenRows call s.table).ids call.jobId

theorem safe_iff_of_loads (h : Loads env call s) :
    Safe env call s ↔
      (∀ job, Scheduled call s job → getNextRun env.cron job.cron env.scheduled = .escapes →
        KeepsCron call s ∧ KeepsParams call s ∧ KeepsMemory s.table.rows call s) ∧
      (∀ job, Scheduled call s job → ∀ time,
        getNextRun env.cron job.cron env.scheduled = .time time → env.delayed < time →
        env.nextRunWriteRaises = false) ∧
      ((∀ job, Scheduled call s job → getNextRun env.cron job.cron env.scheduled ≠ .escapes) →
        call.cron ≠ none ∨ call.params ≠ none → s.table.get? call.jobId ≠ none) := by
  constructor
  · intro hsafe
    exact ⟨hsafe.escapes h, hsafe.nextRun h, hsafe.stored h⟩
  · rintro ⟨hescapes,hnext,hstored⟩
    refine ⟨fun _ hnot => absurd h.params hnot, ?_, ?_, fun _ => hescapes, fun _ => hnext,
      fun _ => hstored⟩
    · intro _ _ hraises
      rw [h.select] at hraises
      cases hraises
    · intro _ _ _ hunread
      rw [h.readable] at hunread
      cases hunread

theorem safe_iff_of_not_loads (h : ¬ Loads env call s) :
    Safe env call s ↔
      (CronWritten env call → ¬ ParamsWritten env call → KeepsCron call s) ∧
      (CronWritten env call → ParamsWritten env call → env.selectRaises = true →
        KeepsCron call s ∧ KeepsParams call s) ∧
      (CronWritten env call → ParamsWritten env call → env.selectRaises = false →
        allReadable (writtenRows call s.table).rows = false →
        KeepsCron call s ∧ KeepsParams call s ∧ KeepsMemory (readRows s.table.rows) call s) := by
  constructor
  · intro hsafe
    exact ⟨hsafe.refused, hsafe.select, hsafe.unreadable⟩
  · rintro ⟨hrefused,hselect,hunreadable⟩
    exact ⟨hrefused, hselect, hunreadable, fun hl => absurd hl h, fun hl => absurd hl h,
      fun hl => absurd hl h⟩

theorem unchanged_loadedState_iff (h : Loads env call s) :
    Unchanged call.jobId s (loadedState call s) ↔
      KeepsCron call s ∧ KeepsParams call s ∧ KeepsMemory s.table.rows call s := by
  have hread : loadedState call s = { s with
      table := writtenRows call s.table
      jobs := s.jobs.setAll (readRows (writtenRows call s.table).rows) } := by
    rw [readRows_of_allReadable h.readable]
    rfl
  rw [hread, unchanged_loaded_iff]
  refine and_congr_right fun hcron => and_congr_right fun hparams => ?_
  have hall := h.readable
  rw [writtenRows_eq_self hcron hparams] at hall
  rw [readRows_of_allReadable hall]

theorem stored_of_table_iff {s' : State} (htable : s'.table = writtenRows call s.table) :
    Stored call s' ↔ (call.cron ≠ none ∨ call.params ≠ none → s.table.get? call.jobId ≠ none) :=
  stored_iff (by rw [htable]; exact get?_writtenRows call s.table) (fun _ => rfl) (fun _ => rfl)

theorem stored_nextRun_iff {s' : State} {time : Int}
    (htable : s'.table = (writtenRows call s.table).update call.jobId fun row =>
      { row with nextRun := some time }) :
    Stored call s' ↔ (call.cron ≠ none ∨ call.params ≠ none → s.table.get? call.jobId ≠ none) := by
  refine stored_iff (g := fun row => { row with
    cron := call.cron.getD row.cron
    params := (call.params.map .object).getD row.params
    nextRun := some time }) ?_ (fun _ => rfl) (fun _ => rfl)
  rw [htable, get?_update, get?_writtenRows, Option.map_map]
  rfl

theorem safe_iff_of_idle (h : Loads env call s)
    (hidle : ∀ job, Scheduled call s job → getNextRun env.cron job.cron env.scheduled = .invalid) :
    Safe env call s ↔ (call.cron ≠ none ∨ call.params ≠ none → s.table.get? call.jobId ≠ none) := by
  rw [safe_iff_of_loads h]
  constructor
  · rintro ⟨-,-,hstored⟩
    exact hstored fun job hjob hescapes => by rw [hidle job hjob] at hescapes; cases hescapes
  · intro hstored
    refine ⟨?_, ?_, fun _ => hstored⟩
    · intro job hjob hescapes
      rw [hidle job hjob] at hescapes
      cases hescapes
    · intro job hjob time htime
      rw [hidle job hjob] at htime
      cases htime

theorem safe_iff_of_time (h : Loads env call s) {config : Job} {time : Int}
    (hsched : Scheduled call s config) (honly : ∀ job, Scheduled call s job → job = config)
    (hnext : getNextRun env.cron config.cron env.scheduled = .time time) :
    Safe env call s ↔ (env.delayed < time → env.nextRunWriteRaises = false) ∧
      (call.cron ≠ none ∨ call.params ≠ none → s.table.get? call.jobId ≠ none) := by
  have hnever : ∀ job, Scheduled call s job →
      getNextRun env.cron job.cron env.scheduled ≠ .escapes := by
    intro job hj
    rw [honly job hj, hnext]
    simp
  rw [safe_iff_of_loads h]
  constructor
  · rintro ⟨-,hwrite,hstored⟩
    exact ⟨hwrite config hsched time hnext, hstored hnever⟩
  · rintro ⟨hwrite,hstored⟩
    refine ⟨fun job hj hescapes => absurd hescapes (hnever job hj), ?_, fun _ => hstored⟩
    intro job hj time' htime'
    rw [honly job hj, hnext] at htime'
    cases htime'
    exact hwrite

theorem atomic_schedule_iff (h : Loads env call s) (hrunning : s.running = true) :
    Atomic call s (scheduleJob env call.jobId (loadedState call s)) ↔ Safe env call s := by
  rw [scheduleJob, get?_loadedState]
  cases hjob : loadedJob call s with
  | none =>
    rw [safe_iff_of_idle h fun job hsched => by cases hjob.symm.trans hsched.2.1]
    exact stored_of_table_iff rfl
  | some config =>
    have honly : ∀ job, Scheduled call s job → job = config := by
      rintro job ⟨-,hget,-⟩
      exact Option.some.inj (hget.symm.trans hjob)
    cases hon : config.enabled with
    | false =>
      have hidle : ∀ job, ¬ Scheduled call s job := by
        intro job hsched
        have htrue := hsched.2.2
        rw [honly job hsched, hon] at htrue
        cases htrue
      rw [safe_iff_of_idle h fun job hsched => absurd hsched (hidle job)]
      simp only [hon, Bool.false_eq_true, if_false]
      exact stored_of_table_iff rfl
    | true =>
      have hsched : Scheduled call s config := ⟨hrunning, hjob, hon⟩
      simp only [hon, if_true]
      cases hnext : getNextRun env.cron config.cron env.scheduled with
      | invalid =>
        rw [safe_iff_of_idle h fun job hj => by rw [honly job hj, hnext]]
        exact stored_of_table_iff rfl
      | escapes =>
        rw [safe_iff_of_loads h]
        constructor
        · intro hunchanged
          have hkeeps := (unchanged_loadedState_iff h).mp hunchanged
          refine ⟨fun _ _ _ => hkeeps, ?_, fun hnot => absurd hnext (hnot config hsched)⟩
          intro job hj time htime
          rw [honly job hj, hnext] at htime
          cases htime
        · rintro ⟨hescapes,-⟩
          exact (unchanged_loadedState_iff h).mpr (hescapes config hsched hnext)
      | time time =>
        rw [safe_iff_of_time h hsched honly hnext]
        by_cases hdelay : env.delayed < time
        · simp only [if_pos (Int.sub_pos.mpr hdelay)]
          cases hwrite : env.nextRunWriteRaises with
          | true =>
            refine iff_of_false ?_ ?_
            · intro hunchanged
              exact entries_replace_ne s.queue time call.jobId hunchanged.entry
            · rintro ⟨hfalse,-⟩
              cases hfalse hdelay
          | false =>
            rw [and_iff_right fun _ => rfl]
            exact stored_nextRun_iff rfl
        · have hnot : ¬ 0 < time - env.delayed := fun hpos => hdelay (Int.sub_pos.mp hpos)
          simp only [if_neg hnot]
          rw [and_iff_right fun hlt => absurd hlt hdelay]
          exact stored_of_table_iff rfl

theorem atomic_reload_iff (hcron : CronWritten env call) (hparams : ParamsWritten env call) :
    Atomic call s (reload env call.jobId { s with table := writtenRows call s.table }) ↔
      Safe env call s := by
  rw [reload]
  cases hselect : env.selectRaises with
  | true =>
    simp only [if_true]
    have hloads : ¬ Loads env call s := fun h => by cases hselect.symm.trans h.select
    have hsafe : Safe env call s ↔ KeepsCron call s ∧ KeepsParams call s := by
      simp [safe_iff_of_not_loads hloads, hcron, hparams, hselect]
    rw [hsafe]
    exact unchanged_written_iff
  | false =>
    simp only [Bool.false_eq_true, if_false]
    rw [loadJobs_eq]
    cases hread : allReadable (writtenRows call s.table).rows with
    | false =>
      have hloads : ¬ Loads env call s := fun h => by cases hread.symm.trans h.readable
      have hsafe : Safe env call s ↔
          KeepsCron call s ∧ KeepsParams call s ∧ KeepsMemory (readRows s.table.rows) call s := by
        simp [safe_iff_of_not_loads hloads, hcron, hparams, hselect, hread]
      rw [hsafe]
      exact unchanged_loaded_iff
    | true =>
      have hloads : Loads env call s := ⟨hcron, hparams, hselect, hread⟩
      rw [readRows_of_allReadable hread]
      change Atomic call s (if s.running = true then scheduleJob env call.jobId (loadedState call s)
        else (loadedState call s, .ok true)) ↔ Safe env call s
      split
      · next hrunning => exact atomic_schedule_iff hloads hrunning
      · next hstopped =>
        rw [safe_iff_of_idle hloads fun job hsched => absurd hsched.1 hstopped]
        exact stored_of_table_iff rfl

end Scheduling

theorem update_job_atomic_iff (env : Env) (call : Call) (s : State) :
    Atomic call s (updateJob env call s) ↔
      ((s.jobs.get? call.jobId).isSome = true → Safe env call s) := by
  rw [updateJob]
  cases hjob : s.jobs.get? call.jobId with
  | none => exact iff_of_true trivial (fun h => by cases h)
  | some job =>
    simp only [Option.isSome_some, true_implies]
    by_cases hcron : CronWritten env call
    · simp only [writeCron_of_written hcron]
      by_cases hparams : ParamsWritten env call
      · simp only [writeParams_of_written hparams]
        exact atomic_reload_iff hcron hparams
      · obtain ⟨e,he⟩ := writeParams_of_not_written hparams (setCron call.cron call.jobId s.table)
        simp only [he]
        have hloads : ¬ Loads env call s := fun h => hparams h.params
        have hsafe : Safe env call s ↔ KeepsCron call s := by
          simp [safe_iff_of_not_loads hloads, hcron, hparams]
        rw [hsafe]
        exact unchanged_refused_iff
    · obtain ⟨e,he⟩ := writeCron_of_not_written hcron s.table
      simp only [he]
      have hloads : ¬ Loads env call s := fun h => hcron h.cron
      exact iff_of_true ⟨rfl, rfl, rfl⟩ (by simp [safe_iff_of_not_loads hloads, hcron])

def hourlyCheck : Job where
  name := "checks".toList
  cron := "0 * * * *".toList
  command := "health_check".toList
  params := .object []
  enabled := true
  nextRun := none
  lastRun := none
  lastStatus := none
  orgId := none

def oneJob : State where
  jobs := [(1, hourlyCheck)]
  table := ⟨[(1, hourlyCheck)], List.nodup_singleton 1⟩
  queue :=
    { queue := ⟨[], [], 0⟩
      tracked := ⟨by simp [Dict.get?], fun _ => .inl rfl⟩
      issued := by simp }
  running := false

def healthy : Env := ⟨JobCreation.everyMinute, 0, 0, 0, false, false, false, false⟩

def withListParam : Call := ⟨1, some "0 0 * * *".toList, some [("targets".toList, .other)]⟩

theorem refused_update_changes_cron :
    (updateJob healthy withListParam oneJob).2 = .error (.invalidParam "targets".toList) ∧
      ((updateJob healthy withListParam oneJob).1.table.get? 1).map Job.cron =
        some "0 0 * * *".toList ∧
      ¬ Atomic withListParam oneJob (updateJob healthy withListParam oneJob) := by
  refine ⟨rfl, rfl, ?_⟩
  intro h
  have hcron := congrArg (Option.map Job.cron) h.row
  revert hcron
  decide

end PicoSentry.Serve.JobUpdate
