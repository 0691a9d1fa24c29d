import Mathlib.Algebra.Order.Ring.Int
import PicoSentry.Foundation.Dict
import PicoSentry.Foundation.Run

namespace PicoSentry.Serve.Scheduler

open Foundation

inductive Command where
  | batch
  | run
  | report
  | backup
  | cleanup
  | healthCheck
  | unknown
  deriving DecidableEq, Repr

def Command.slow : Command → Bool
  | .batch => true
  | .healthCheck => true
  | _ => false

structure Job where
  cron : String
  command : Command
  enabled : Bool
  deriving DecidableEq, Repr

structure Event where
  time : Int
  sequence : Nat
  job : Nat
  deriving DecidableEq, Repr

structure Queue where
  heap : List Event
  queued : Dict Nat (List Event)
  nextSequence : Nat
  deriving DecidableEq, Repr

inductive Thread where
  | scheduler
  | caller
  | slow
  deriving DecidableEq, Repr

-- leaving: past the reschedule tail of _execute_job, not yet discarded from _slow_running.
inductive Stage where
  | dispatched
  | executing
  | leaving
  deriving DecidableEq, Repr

structure Execution where
  job : Nat
  thread : Thread
  stage : Stage
  deriving DecidableEq, Repr

structure State where
  clock : Int
  jobs : Dict Nat Job
  table : Dict Nat Job
  queue : Queue
  slowRunning : List Nat
  executions : List Execution
  leader : Bool
  inTick : Bool
  alive : Bool

structure Config where
  nextRun : String → Int → Option Int

-- escaped: outside _JOB_EXECUTE_ERRORS, or the UPDATE of the except branch raised as well.
inductive Outcome where
  | returned
  | caught
  | escaped
  deriving DecidableEq, Repr

inductive Step where
  | advance (duration : Nat)
  | beginTick (leader : Bool) (lag : Nat → Nat)
  | fire
  | endTick (reload : Bool) (lag : Nat → Nat)
  | begin (execution : Execution)
  | finish (execution : Execution) (outcome : Outcome) (lag : Nat → Nat)
  | leave (execution : Execution)
  | triggerJob (job : Nat)
  | addJob (job : Nat) (config : Job) (lag : Nat → Nat)
  | enableJob (job : Nat) (lag : Nat → Nat)
  | disableJob (job : Nat)
  | updateJob (job : Nat) (cron : Option String) (lag : Nat → Nat)
  | removeJob (job : Nat)

-- scheduler.cancel raises ValueError on a fired event; the suppress ends the loop there.
def cancelEvents : List Event → List Event → List Event
  | heap, [] => heap
  | heap, event :: events =>
    if event ∈ heap then cancelEvents (heap.erase event) events else heap

def cancelQueued (q : Queue) (job : Nat) : Queue :=
  { q with
    heap := cancelEvents q.heap ((q.queued.get? job).getD [])
    queued := q.queued.erase job }

def enter (q : Queue) (time : Int) (job : Nat) : Queue where
  heap := q.heap ++ [⟨time, q.nextSequence, job⟩]
  queued := q.queued.set job [⟨time, q.nextSequence, job⟩]
  nextSequence := q.nextSequence + 1

def scheduleJob (cfg : Config) (clock : Int) (lag : Nat → Nat) (jobs : Dict Nat Job) (q : Queue)
    (job : Nat) : Queue :=
  match jobs.get? job with
  | none => q
  | some config =>
    if config.enabled then
      match cfg.nextRun config.cron clock with
      | none => q
      | some time =>
        if 0 < time - (clock + lag job) then enter (cancelQueued q job) time job
        else cancelQueued q job
    else q

def loadJobs (jobs table : Dict Nat Job) : Dict Nat Job := jobs.setAll table

def enabledJob (jobs : Dict Nat Job) (job : Nat) : Bool :=
  ((jobs.get? job).map Job.enabled).getD false

def cancelAll (q : Queue) : Queue := q.queued.keys.foldl cancelQueued q

def rescheduleAll (cfg : Config) (clock : Int) (lag : Nat → Nat) (jobs : Dict Nat Job) (q : Queue) :
    Queue :=
  (jobs.keys.filter (enabledJob jobs)).foldl (scheduleJob cfg clock lag jobs) (cancelAll q)

def cancelStale (jobs : Dict Nat Job) (q : Queue) : Queue :=
  q.queued.keys.foldl (fun q job => if enabledJob jobs job then q else cancelQueued q job) q

def scheduleMissing (cfg : Config) (clock : Int) (lag : Nat → Nat) (jobs : Dict Nat Job) (q : Queue)
    (job : Nat) : Queue :=
  if enabledJob jobs job && (q.queued.get? job).isNone then scheduleJob cfg clock lag jobs q job
  else q

def convergeJobs (cfg : Config) (clock : Int) (lag : Nat → Nat) (jobs : Dict Nat Job) (q : Queue) :
    Queue :=
  jobs.keys.foldl (scheduleMissing cfg clock lag jobs) (cancelStale jobs q)

def dispatchJob (thread : Thread) (s : State) (job : Nat) : State :=
  match s.jobs.get? job with
  | none => s
  | some config =>
    if config.command.slow then
      if job ∈ s.slowRunning then s
      else { s with
        slowRunning := job :: s.slowRunning
        executions := ⟨job, .slow, .dispatched⟩ :: s.executions }
    else { s with executions := ⟨job, thread, .dispatched⟩ :: s.executions }

def State.move (s : State) (execution : Execution) (stage : Stage) : State :=
  { s with executions := { execution with stage := stage } :: s.executions.erase execution }

def State.drop (s : State) (execution : Execution) : State :=
  { s with executions := s.executions.erase execution }

-- The finally of _run_slow_job still has to run on a slow thread; other threads are done.
def State.unwind (s : State) (execution : Execution) : State :=
  if execution.thread = .slow then s.move execution .leaving else s.drop execution

def rescheduleTail (cfg : Config) (lag : Nat → Nat) (s : State) (job : Nat) : State :=
  if enabledJob s.jobs job then
    { s with queue := scheduleJob cfg s.clock lag s.jobs s.queue job }
  else s

def Event.before (e e' : Event) : Bool :=
  e.time < e'.time || (e.time = e'.time && e.sequence ≤ e'.sequence)

def due (q : Queue) (clock : Int) : Option Event :=
  q.heap.find? fun e => e.time ≤ clock && q.heap.all e.before

def setEnabled (jobs : Dict Nat Job) (job : Nat) (enabled : Bool) : Dict Nat Job :=
  match jobs.get? job with
  | none => jobs
  | some config => jobs.set job { config with enabled := enabled }

def setCron (jobs : Dict Nat Job) (job : Nat) : Option String → Dict Nat Job
  | none => jobs
  | some cron =>
    match jobs.get? job with
    | none => jobs
    | some config => jobs.set job { config with cron := cron }

def State.free (s : State) : Bool :=
  s.alive && s.executions.all fun ex => ex.thread ≠ .scheduler

def beginTick (cfg : Config) (lag : Nat → Nat) (s : State) (leader : Bool) : State :=
  if leader = s.leader then { s with inTick := leader }
  else if leader then
    let jobs := loadJobs s.jobs s.table
    { s with
      jobs := jobs
      queue := rescheduleAll cfg s.clock lag jobs s.queue
      leader := true
      inTick := true }
  else { s with queue := cancelAll s.queue, leader := false, inTick := false }

def endTick (cfg : Config) (lag : Nat → Nat) (s : State) (reload : Bool) : State :=
  if reload then
    let jobs := loadJobs s.jobs s.table
    { s with jobs := jobs, queue := convergeJobs cfg s.clock lag jobs s.queue, inTick := false }
  else { s with inTick := false }

def reloadAndSchedule (cfg : Config) (lag : Nat → Nat) (s : State) (table : Dict Nat Job)
    (job : Nat) : State :=
  let jobs := loadJobs s.jobs table
  { s with jobs := jobs, table := table, queue := scheduleJob cfg s.clock lag jobs s.queue job }

def step (cfg : Config) (s : State) : Step → Option (State × List Nat)
  | .advance duration => some ({ s with clock := s.clock + duration }, [])
  | .beginTick leader lag =>
    if s.free && !s.inTick then some (beginTick cfg lag s leader, []) else none
  | .fire => do
      let event ← due s.queue s.clock
      if s.free && s.inTick then
        let s := { s with queue := { s.queue with heap := s.queue.heap.erase event } }
        return (dispatchJob .scheduler s event.job, [event.job])
      else none
  | .endTick reload lag =>
    if s.free && s.inTick then some (endTick cfg lag s reload, []) else none
  | .begin execution =>
    if execution ∈ s.executions ∧ execution.stage = .dispatched then
      if (s.jobs.get? execution.job).isSome then some (s.move execution .executing, [])
      else some (s.unwind execution, [])
    else none
  | .finish execution outcome lag =>
    if execution ∈ s.executions ∧ execution.stage = .executing then
      match outcome with
      | .escaped =>
        some ({ s.unwind execution with alive := s.alive && execution.thread ≠ .scheduler }, [])
      | _ => some ((rescheduleTail cfg lag s execution.job).unwind execution, [])
    else none
  | .leave execution =>
    if execution ∈ s.executions ∧ execution.stage = .leaving then
      some ({ s.drop execution with
        slowRunning := s.slowRunning.filter fun job => job ≠ execution.job }, [])
    else none
  | .triggerJob job =>
    if enabledJob s.jobs job then some (dispatchJob .caller s job, [job]) else some (s, [])
  | .addJob job config lag =>
    if (s.table.get? job).isSome || (cfg.nextRun config.cron s.clock).isNone then none
    else some (reloadAndSchedule cfg lag s (s.table.set job config) job, [])
  | .enableJob job lag =>
    if (s.jobs.get? job).isSome then
      let jobs := setEnabled s.jobs job true
      some ({ s with
        jobs := jobs
        table := setEnabled s.table job true
        queue := scheduleJob cfg s.clock lag jobs s.queue job }, [])
    else some (s, [])
  | .disableJob job =>
    if (s.jobs.get? job).isSome then
      some ({ s with
        jobs := setEnabled s.jobs job false
        table := setEnabled s.table job false
        queue := cancelQueued s.queue job }, [])
    else some (s, [])
  | .updateJob job cron lag =>
    if (s.jobs.get? job).isSome && cron.all (fun cron => (cfg.nextRun cron s.clock).isSome) then
      some (reloadAndSchedule cfg lag s (setCron s.table job cron) job, [])
    else some (s, [])
  | .removeJob job =>
    if (s.jobs.get? job).isSome then
      some ({ s with
        jobs := s.jobs.erase job
        table := s.table.erase job
        queue := cancelQueued s.queue job }, [])
    else some (s, [])

end PicoSentry.Serve.Scheduler
