import Mathlib.Algebra.Order.Ring.Int
import PicoSentry.Foundation.Run

namespace PicoSentry.Serve.SchedulerLease

open Foundation.Run

structure Entry where
  job : Nat
  time : Int
  deriving DecidableEq, Repr

-- Where the _run loop of a worker stands within its tick.
inductive Phase where
  | sleeping
  | clockRead (now : Int)
  | decided (leader : Bool)
  | inside
  | dead
  deriving DecidableEq, Repr

structure Worker where
  phase : Phase := .sleeping
  running : Bool := true
  leader : Bool := false
  queue : List Entry := []
  deriving DecidableEq, Repr

structure State where
  clock : Int
  holder : Option Nat
  expiresAt : Int
  workers : List Worker

structure Config where
  leaseTtl : Int
  nextRun : String → Int → Option Int

inductive Step where
  | advance (duration : Nat)
  | readClock (worker : Nat)
  | tryAcquire (worker : Nat) (fails : Bool)
  | settle (worker : Nat) (jobs : List (Nat × String))
  | dispatch (worker job : Nat)
  | finishRun (worker : Nat)
  | crash (worker : Nat)
  | schedule (worker job : Nat) (cron : String)
  | cancel (worker job : Nat)
  | start (worker : Nat) (jobs : List (Nat × String))
  | requestStop (worker : Nat)
  | release (worker : Nat) (fails : Bool)

structure Dispatch where
  worker : Nat
  job : Nat
  occurrence : Int
  deriving DecidableEq

def State.setWorker (s : State) (worker : Nat) (w : Worker) : State :=
  { s with workers := s.workers.set worker w }

def acquires (s : State) (worker : Nat) (now : Int) : Bool :=
  s.holder = some worker || s.expiresAt < now

def cancelQueued (queue : List Entry) (job : Nat) : List Entry := queue.filter fun e => e.job ≠ job

def scheduleJob (cfg : Config) (now : Int) (queue : List Entry) (job : Nat × String) :
    List Entry :=
  match cfg.nextRun job.2 now with
  | none => queue
  | some time =>
    if now < time then cancelQueued queue job.1 ++ [⟨job.1, time⟩] else cancelQueued queue job.1

def scheduleJobs (cfg : Config) (now : Int) (queue : List Entry) (jobs : List (Nat × String)) :
    List Entry :=
  jobs.foldl (scheduleJob cfg now) queue

def rescheduleAll (cfg : Config) (now : Int) (jobs : List (Nat × String)) : List Entry :=
  scheduleJobs cfg now [] jobs

def settleWorker (cfg : Config) (now : Int) (w : Worker) (leader : Bool)
    (jobs : List (Nat × String)) : Worker :=
  { w with
    phase := if leader then .inside else .sleeping
    leader := leader
    queue :=
      if leader = w.leader then w.queue
      else if leader then rescheduleAll cfg now jobs
      else [] }

def due (s : State) (w : Worker) (job : Nat) : Option Entry :=
  w.queue.find? fun e => e.job = job && e.time ≤ s.clock && w.queue.all fun e' => e.time ≤ e'.time

def step (cfg : Config) (s : State) : Step → Option (State × List Dispatch)
  | .advance duration => some ({ s with clock := s.clock + duration }, [])
  | .readClock worker => do
      let w ← s.workers[worker]?
      if w.phase = .sleeping ∧ w.running = true then
        return (s.setWorker worker { w with phase := .clockRead s.clock }, [])
      else none
  | .tryAcquire worker fails => do
      let w ← s.workers[worker]?
      match w.phase with
      | .clockRead now =>
        if fails then return (s.setWorker worker { w with phase := .decided false }, [])
        else if acquires s worker now then
          return ({ s.setWorker worker { w with phase := .decided true } with
            holder := some worker
            expiresAt := now + cfg.leaseTtl }, [])
        else return (s.setWorker worker { w with phase := .decided false }, [])
      | _ => none
  | .settle worker jobs => do
      let w ← s.workers[worker]?
      match w.phase with
      | .decided leader =>
        return (s.setWorker worker (settleWorker cfg s.clock w leader jobs), [])
      | _ => none
  | .dispatch worker job => do
      let w ← s.workers[worker]?
      let entry ← due s w job
      if w.phase = .inside then
        return (s.setWorker worker { w with queue := w.queue.erase entry },
          [⟨worker, job, entry.time⟩])
      else none
  | .finishRun worker => do
      let w ← s.workers[worker]?
      if w.phase = .inside ∧ w.queue.all (fun e => s.clock < e.time) then
        return (s.setWorker worker { w with phase := .sleeping }, [])
      else none
  | .crash worker => do
      let w ← s.workers[worker]?
      if w.phase = .inside then return (s.setWorker worker { w with phase := .dead }, []) else none
  | .schedule worker job cron => do
      let w ← s.workers[worker]?
      return (s.setWorker worker
        { w with queue := scheduleJob cfg s.clock w.queue (job, cron) }, [])
  | .cancel worker job => do
      let w ← s.workers[worker]?
      return (s.setWorker worker { w with queue := cancelQueued w.queue job }, [])
  | .start worker jobs => do
      let w ← s.workers[worker]?
      if w.running = false ∧ w.leader = false ∧ (w.phase = .sleeping ∨ w.phase = .dead) then
        return (s.setWorker worker { w with
          phase := .sleeping
          running := true
          queue := scheduleJobs cfg s.clock w.queue jobs }, [])
      else none
  | .requestStop worker => do
      let w ← s.workers[worker]?
      return (s.setWorker worker { w with running := false }, [])
  -- stop joins the thread for five seconds only, so the tick may still be under way here.
  | .release worker fails => do
      let w ← s.workers[worker]?
      if w.running then none
      else if !fails && s.holder = some worker then
        return ({ s.setWorker worker { w with leader := false } with
          holder := none
          expiresAt := s.clock - 1 }, [])
      else return (s.setWorker worker { w with leader := false }, [])

def Phase.readTime : Phase → Option Int
  | .clockRead now => some now
  | _ => none

def Phase.active : Phase → Bool
  | .decided leader => leader
  | .inside => true
  | _ => false

section Queue

variable {cfg : Config} {now bound : Int}

theorem mem_cancelQueued {queue : List Entry} {job : Nat} {e : Entry}
    (h : e ∈ cancelQueued queue job) : e ∈ queue :=
  (List.mem_filter.mp h).1

theorem mem_scheduleJob {queue : List Entry} {job : Nat × String} {e : Entry}
    (h : e ∈ scheduleJob cfg now queue job) : e ∈ queue ∨ now < e.time := by
  rw [scheduleJob] at h
  split at h
  · exact .inl h
  · split at h
    · next hlt =>
      rcases List.mem_append.mp h with h | h
      · exact .inl (mem_cancelQueued h)
      · rw [List.mem_singleton.mp h]
        exact .inr hlt
    · exact .inl (mem_cancelQueued h)

theorem mem_scheduleJobs {jobs : List (Nat × String)} {queue : List Entry} {e : Entry}
    (h : e ∈ scheduleJobs cfg now queue jobs) : e ∈ queue ∨ now < e.time := by
  induction jobs generalizing queue with
  | nil => exact .inl h
  | cons job jobs ih =>
    rcases ih h with h | h
    · exact mem_scheduleJob h
    · exact .inr h

theorem mem_rescheduleAll {jobs : List (Nat × String)} {e : Entry}
    (h : e ∈ rescheduleAll cfg now jobs) : now < e.time := by
  rcases mem_scheduleJobs h with h | h
  · cases h
  · exact h

end Queue

section Steps

variable {cfg : Config} {s s' : State} {es : List Dispatch}

inductive Moved (cfg : Config) (s : State) : Step → State → List Dispatch → Prop where
  | advanced (duration : Nat) :
    Moved cfg s (.advance duration) { s with clock := s.clock + duration } []
  | acquired {worker : Nat} {w : Worker} {now : Int} (hw : s.workers[worker]? = some w)
    (hnow : now ∈ w.phase.readTime) (hacq : acquires s worker now = true) :
    Moved cfg s (.tryAcquire worker false) { s.setWorker worker { w with phase := .decided true } with
      holder := some worker
      expiresAt := now + cfg.leaseTtl } []
  | settled {worker : Nat} {w : Worker} {leader : Bool} (hw : s.workers[worker]? = some w)
    (hphase : w.phase = .decided leader) (jobs : List (Nat × String)) :
    Moved cfg s (.settle worker jobs)
      (s.setWorker worker (settleWorker cfg s.clock w leader jobs)) []
  | dispatched {worker job : Nat} {w : Worker} {entry : Entry} (hw : s.workers[worker]? = some w)
    (hin : w.phase = .inside) (hdue : due s w job = some entry) :
    Moved cfg s (.dispatch worker job)
      (s.setWorker worker { w with queue := w.queue.erase entry }) [⟨worker, job, entry.time⟩]
  | released {worker : Nat} {w : Worker} (hw : s.workers[worker]? = some w)
    (hhold : s.holder = some worker) :
    Moved cfg s (.release worker false) { s.setWorker worker { w with leader := false } with
      holder := none
      expiresAt := s.clock - 1 } []
  | stoodDown {worker : Nat} {w : Worker} (hw : s.workers[worker]? = some w) (fails : Bool) :
    Moved cfg s (.release worker fails) (s.setWorker worker { w with leader := false }) []
  | idled {l : Step} {worker : Nat} {w w' : Worker} (hw : s.workers[worker]? = some w)
    (hphase : w'.phase.active = false) (hread : ∀ now ∈ w'.phase.readTime, now ≤ s.clock)
    (halive : w'.phase ≠ .dead → w.phase ≠ .dead) (hlead : w'.leader = w.leader)
    (hqueue : w'.queue = w.queue) :
    Moved cfg s l (s.setWorker worker w') []
  | requeued {l : Step} {worker : Nat} {w : Worker} {queue : List Entry} {running : Bool}
    (hw : s.workers[worker]? = some w) (hqueue : ∀ e ∈ queue, e ∈ w.queue ∨ s.clock < e.time) :
    Moved cfg s l (s.setWorker worker { w with running := running, queue := queue }) []
  | started {worker : Nat} {w w' : Worker} {jobs : List (Nat × String)}
    (hw : s.workers[worker]? = some w) (hphase : w'.phase = .sleeping) (hlead : w'.leader = false) :
    Moved cfg s (.start worker jobs) (s.setWorker worker w') []

theorem moved_of_tryAcquire {worker : Nat} {fails : Bool}
    (hstep : step cfg s (.tryAcquire worker fails) = some (s', es)) :
    Moved cfg s (.tryAcquire worker fails) s' es := by
  obtain ⟨w,hw,hstep⟩ := Option.bind_eq_some_iff.mp hstep
  split at hstep
  · next now hphase =>
    have halive : w.phase ≠ .dead := by
      rw [hphase]
      exact Phase.noConfusion
    cases fails with
    | true =>
      cases hstep
      exact .idled hw rfl (by simp [Phase.readTime]) (fun _ => halive) rfl rfl
    | false =>
      dsimp only at hstep
      rw [if_neg (by simp)] at hstep
      split at hstep
      · next hacq =>
        cases hstep
        exact .acquired hw (by rw [hphase]; rfl) hacq
      · cases hstep
        exact .idled hw rfl (by simp [Phase.readTime]) (fun _ => halive) rfl rfl
  · cases hstep

theorem moved_of_release {worker : Nat} {fails : Bool}
    (hstep : step cfg s (.release worker fails) = some (s', es)) :
    Moved cfg s (.release worker fails) s' es := by
  obtain ⟨w,hw,hstep⟩ := Option.bind_eq_some_iff.mp hstep
  split at hstep
  · cases hstep
  · split at hstep
    · next hrow =>
      cases hstep
      simp only [Bool.and_eq_true, Bool.not_eq_true', decide_eq_true_eq] at hrow
      obtain ⟨rfl,hhold⟩ := hrow
      exact .released hw hhold
    · cases hstep
      exact .stoodDown hw fails

theorem moved_of_step (l : Step) (hstep : step cfg s l = some (s', es)) : Moved cfg s l s' es := by
  cases l with
  | advance duration =>
    cases hstep
    exact .advanced duration
  | readClock worker =>
    obtain ⟨w,hw,hstep⟩ := Option.bind_eq_some_iff.mp hstep
    split at hstep
    · next hguard =>
      cases hstep
      refine .idled hw rfl ?_ ?_ rfl rfl
      · intro now hnow
        cases hnow
        exact le_rfl
      · intro _
        rw [hguard.1]
        exact Phase.noConfusion
    · cases hstep
  | tryAcquire worker fails => exact moved_of_tryAcquire hstep
  | settle worker jobs =>
    obtain ⟨w,hw,hstep⟩ := Option.bind_eq_some_iff.mp hstep
    split at hstep
    · next leader hphase =>
      cases hstep
      exact .settled hw hphase jobs
    · cases hstep
  | dispatch worker job =>
    obtain ⟨w,hw,hstep⟩ := Option.bind_eq_some_iff.mp hstep
    obtain ⟨entry,hdue,hstep⟩ := Option.bind_eq_some_iff.mp hstep
    split at hstep
    · next hin =>
      cases hstep
      exact .dispatched hw hin hdue
    · cases hstep
  | finishRun worker =>
    obtain ⟨w,hw,hstep⟩ := Option.bind_eq_some_iff.mp hstep
    split at hstep
    · next hguard =>
      cases hstep
      refine .idled hw rfl (by simp [Phase.readTime]) ?_ rfl rfl
      intro _
      rw [hguard.1]
      exact Phase.noConfusion
    · cases hstep
  | crash worker =>
    obtain ⟨w,hw,hstep⟩ := Option.bind_eq_some_iff.mp hstep
    split at hstep
    · cases hstep
      exact .idled hw rfl (by simp [Phase.readTime]) (fun h => absurd rfl h) rfl rfl
    · cases hstep
  | schedule worker job cron =>
    obtain ⟨w,hw,hstep⟩ := Option.bind_eq_some_iff.mp hstep
    cases hstep
    apply Moved.requeued hw
    intro e he
    exact mem_scheduleJob he
  | cancel worker job =>
    obtain ⟨w,hw,hstep⟩ := Option.bind_eq_some_iff.mp hstep
    cases hstep
    apply Moved.requeued hw
    intro e he
    exact .inl (mem_cancelQueued he)
  | start worker jobs =>
    obtain ⟨w,hw,hstep⟩ := Option.bind_eq_some_iff.mp hstep
    split at hstep
    · next hguard =>
      cases hstep
      exact .started hw rfl hguard.2.1
    · cases hstep
  | requestStop worker =>
    obtain ⟨w,hw,hstep⟩ := Option.bind_eq_some_iff.mp hstep
    cases hstep
    apply Moved.requeued hw
    intro e he
    exact .inl he
  | release worker fails => exact moved_of_release hstep

end Steps

end PicoSentry.Serve.SchedulerLease
