import PicoSentry.Serve.SchedulerJobs

namespace PicoSentry.Serve.Scheduler

open Foundation
open Foundation.Run

-- Other workers write the rows of scheduled_jobs between the steps of this one.
inductive SharedStep where
  | own (l : Step)
  | others (table : Dict Nat Job)

def sharedStep (cfg : Config) (s : State) : SharedStep → Option (State × List Nat)
  | .own l => step cfg s l
  | .others table => if table.keys.Nodup then some ({ s with table := table }, []) else none

structure Sound (s : State) : Prop where
  tracked : Tracked s.queue
  jobs : s.jobs.keys.Nodup
  table : s.table.keys.Nodup

section Sound

variable {cfg : Config} {s s' : State} {es : List Nat}

theorem loadJobs_nodup {jobs table : Dict Nat Job} (h : jobs.keys.Nodup) :
    (loadJobs jobs table).keys.Nodup := Dict.keys_setAll_nodup h table

theorem Sound.congr (h : Sound s) (hqueue : s'.queue = s.queue) (hjobs : s'.jobs = s.jobs)
    (htable : s'.table = s.table) : Sound s' := by
  refine ⟨?_, ?_, ?_⟩
  · rw [hqueue]
    exact h.tracked
  · rw [hjobs]
    exact h.jobs
  · rw [htable]
    exact h.table

theorem Sound.dispatch (h : Sound s) (thread : Thread) (job : Nat) :
    Sound (dispatchJob thread s job) := by
  rw [dispatchJob_eq]
  exact h.congr rfl rfl rfl

theorem Sound.unwind (h : Sound s) (ex : Execution) : Sound (s.unwind ex) := by
  rw [State.unwind]
  split <;> exact h.congr rfl rfl rfl

theorem Sound.rescheduleTail (h : Sound s) (lag : Nat → Nat) (job : Nat) :
    Sound (rescheduleTail cfg lag s job) := by
  rw [Scheduler.rescheduleTail]
  split
  · exact ⟨tracked_scheduleJob h.tracked job, h.jobs, h.table⟩
  · exact h

theorem Sound.reloadAndSchedule (h : Sound s) (lag : Nat → Nat) {table : Dict Nat Job}
    (htable : table.keys.Nodup) (job : Nat) : Sound (reloadAndSchedule cfg lag s table job) :=
  ⟨tracked_scheduleJob h.tracked job, loadJobs_nodup h.jobs, htable⟩

theorem Sound.beginTick (h : Sound s) (lag : Nat → Nat) (leader : Bool) :
    Sound (beginTick cfg lag s leader) := by
  rw [Scheduler.beginTick]
  split
  · exact h.congr rfl rfl rfl
  · split
    · exact ⟨(tracked_rescheduleAll h.tracked).1, loadJobs_nodup h.jobs, h.table⟩
    · exact ⟨(tracked_cancelAll h.tracked).1, h.jobs, h.table⟩

theorem Sound.endTick (h : Sound s) (lag : Nat → Nat) (reload : Bool) :
    Sound (endTick cfg lag s reload) := by
  rw [Scheduler.endTick]
  split
  · exact ⟨(keeps_convergeJobs h.tracked).tracked, loadJobs_nodup h.jobs, h.table⟩
  · exact h.congr rfl rfl rfl

theorem Sound.fire (h : Sound s) (hstep : step cfg s .fire = some (s', es)) : Sound s' := by
  obtain ⟨event,hdue,hstep⟩ := Option.bind_eq_some_iff.mp hstep
  split at hstep
  · cases hstep
    have hpopped : Sound { s with queue := { s.queue with heap := s.queue.heap.erase event } } :=
      ⟨tracked_pop h.tracked (List.mem_of_find?_eq_some hdue), h.jobs, h.table⟩
    exact hpopped.dispatch .scheduler event.job
  · cases hstep

theorem sound_step (l : Step) (h : Sound s) (hstep : step cfg s l = some (s', es)) : Sound s' := by
  cases l with
  | fire => exact h.fire hstep
  | advance duration =>
    cases hstep
    exact h.congr rfl rfl rfl
  | beginTick leader lag =>
    rw [step] at hstep
    split at hstep <;> cases hstep
    exact h.beginTick lag leader
  | endTick reload lag =>
    rw [step] at hstep
    split at hstep <;> cases hstep
    exact h.endTick lag reload
  | begin ex =>
    rw [step] at hstep
    split at hstep
    · split at hstep <;> cases hstep
      · exact h.congr rfl rfl rfl
      · exact h.unwind ex
    · cases hstep
  | finish ex outcome lag =>
    have htail : Sound ((Scheduler.rescheduleTail cfg lag s ex.job).unwind ex) :=
      (h.rescheduleTail lag ex.job).unwind ex
    cases outcome with
    | escaped =>
      simp only [step] at hstep
      split at hstep <;> cases hstep
      exact (h.unwind ex).congr rfl rfl rfl
    | returned =>
      simp only [step] at hstep
      split at hstep <;> cases hstep
      exact htail
    | caught =>
      simp only [step] at hstep
      split at hstep <;> cases hstep
      exact htail
  | leave ex =>
    rw [step] at hstep
    split at hstep <;> cases hstep
    exact h.congr rfl rfl rfl
  | triggerJob job =>
    rw [step] at hstep
    split at hstep <;> cases hstep
    · exact h.dispatch .caller job
    · exact h
  | addJob job config lag =>
    rw [step] at hstep
    split at hstep <;> cases hstep
    exact h.reloadAndSchedule lag (Dict.keys_set_nodup h.table job config) job
  | enableJob job lag =>
    rw [step] at hstep
    split at hstep <;> cases hstep
    · exact ⟨tracked_scheduleJob h.tracked job, keys_setEnabled_nodup h.jobs job true,
        keys_setEnabled_nodup h.table job true⟩
    · exact h
  | disableJob job =>
    rw [step] at hstep
    split at hstep <;> cases hstep
    · exact ⟨tracked_cancelQueued h.tracked job, keys_setEnabled_nodup h.jobs job false,
        keys_setEnabled_nodup h.table job false⟩
    · exact h
  | updateJob job cron lag =>
    rw [step] at hstep
    split at hstep <;> cases hstep
    · exact h.reloadAndSchedule lag (keys_setCron_nodup h.table job cron) job
    · exact h
  | removeJob job =>
    rw [step] at hstep
    split at hstep <;> cases hstep
    · exact ⟨tracked_cancelQueued h.tracked job, Dict.keys_erase_nodup h.jobs job,
        Dict.keys_erase_nodup h.table job⟩
    · exact h

theorem sound_boot (cfg : Config) (clock : Int) (lag : Nat → Nat) (rows : List (Nat × Job)) :
    Sound (boot cfg clock lag rows) :=
  ⟨(inv_boot cfg clock lag rows).tracked, loadJobs_nodup (by simp),
    (inv_boot cfg clock lag rows).nodup⟩

theorem sound_exec {clock : Int} {lag : Nat → Nat} {rows : List (Nat × Job)} {ls : List SharedStep}
    (hrun : exec (sharedStep cfg) (boot cfg clock lag rows) ls = some (s, es)) : Sound s := by
  have hstep : ∀ (_ : List Nat) s l s' es, Sound s → True → sharedStep cfg s l = some (s', es) →
      Sound s' := by
    intro _ s l s' es h _ hstep
    cases l with
    | own l => exact sound_step l h hstep
    | others table =>
      rw [sharedStep] at hstep
      split at hstep
      · next hnodup =>
        cases hstep
        exact ⟨h.tracked, h.jobs, hnodup⟩
      · cases hstep
  exact exec_invariant hstep [] (sound_boot cfg clock lag rows) (meets_true _ _) hrun

end Sound

section Fresh

variable {cfg : Config} {clock : Int} {lag : Nat → Nat} {jobs : Dict Nat Job} {q : Queue} {job k : Nat}

theorem get?_scheduleJob_of_ne (hne : job ≠ k) :
    (scheduleJob cfg clock lag jobs q job).queued.get? k = q.queued.get? k := by
  have hcancel : (cancelQueued q job).queued.get? k = q.queued.get? k := by
    rw [get?_cancelQueued, if_neg hne]
  rcases scheduleJob_cases cfg clock lag jobs q job with ⟨heq,_⟩ | ⟨_,_,_,_,_,⟨_,heq⟩ | ⟨_,heq⟩⟩
  · rw [heq]
  · rw [heq, enter, Dict.get?_set, if_neg hne, hcancel]
  · rw [heq, hcancel]

def NextRun (cfg : Config) (clock : Int) (lag : Nat → Nat) (jobs : Dict Nat Job) (k : Nat)
    (time : Int) : Prop :=
  ∃ config, jobs.get? k = some config ∧ config.enabled = true ∧
    cfg.nextRun config.cron clock = some time ∧ clock + lag k < time

structure Fresh (cfg : Config) (clock : Int) (lag : Nat → Nat) (jobs : Dict Nat Job) (k : Nat)
    (entries : List Event) : Prop where
  present : entries ≠ [] ↔ ∃ time, NextRun cfg clock lag jobs k time
  times : ∀ e ∈ entries, NextRun cfg clock lag jobs k e.time

theorem fresh_scheduleJob (h : Tracked q) (hnil : liveEntries q k = []) :
    Fresh cfg clock lag jobs k (liveEntries (scheduleJob cfg clock lag jobs q k) k) := by
  rcases scheduleJob_cases cfg clock lag jobs q k with
    ⟨heq,hnone⟩ | ⟨config,time,hget,hon,hnext,⟨hlag,heq⟩ | ⟨hlag,heq⟩⟩
  · rw [heq, hnil]
    refine ⟨iff_of_false (by simp) ?_, by simp⟩
    rintro ⟨time,config,hget,hon,hnext,-⟩
    rw [hnone config hget hon] at hnext
    cases hnext
  · rw [heq, live_enter (live_cancelQueued_self h k), if_pos rfl]
    have hrun : NextRun cfg clock lag jobs k time := ⟨config, hget, hon, hnext, hlag⟩
    exact ⟨iff_of_true (by simp) ⟨time, hrun⟩, by simpa using hrun⟩
  · rw [heq, live_cancelQueued_self h]
    refine ⟨iff_of_false (by simp) ?_, by simp⟩
    rintro ⟨time',config',hget',-,hnext',hlag'⟩
    cases hget.symm.trans hget'
    cases hnext.symm.trans hnext'
    exact hlag hlag'

structure Pass (f : Queue → Nat → Queue) : Prop where
  tracked : ∀ q job, Tracked q → Tracked (f q job)
  live : ∀ q job k, Tracked q → job ≠ k → liveEntries (f q job) k = liveEntries q k
  queued : ∀ q job k, job ≠ k → (f q job).queued.get? k = q.queued.get? k

theorem Pass.skip {f : Queue → Nat → Queue} (hf : Pass f) (h : Tracked q) {ids : List Nat}
    (hk : k ∉ ids) : liveEntries (ids.foldl f q) k = liveEntries q k := by
  induction ids generalizing q with
  | nil => rfl
  | cons id ids ih =>
    rw [List.mem_cons, not_or] at hk
    obtain ⟨hne,hk⟩ := hk
    rw [List.foldl_cons, ih (hf.tracked q id h) hk, hf.live q id k h (Ne.symm hne)]

theorem Pass.visit {f : Queue → Nat → Queue} (hf : Pass f) (h : Tracked q) {ids : List Nat}
    (hnodup : ids.Nodup) (hk : k ∈ ids) :
    ∃ q', Tracked q' ∧ liveEntries q' k = liveEntries q k ∧ q'.queued.get? k = q.queued.get? k ∧
      liveEntries (ids.foldl f q) k = liveEntries (f q' k) k := by
  induction ids generalizing q with
  | nil => cases hk
  | cons id ids ih =>
    obtain ⟨hid,hnodup⟩ := List.nodup_cons.mp hnodup
    by_cases heq : id = k
    · subst heq
      exact ⟨q, h, rfl, rfl, hf.skip (hf.tracked q id h) hid⟩
    · have hk' : k ∈ ids := (List.mem_cons.mp hk).resolve_left (Ne.symm heq)
      obtain ⟨q',htracked,hlive,hqueued,hend⟩ := ih (hf.tracked q id h) hnodup hk'
      exact ⟨q', htracked, hlive.trans (hf.live q id k h heq),
        hqueued.trans (hf.queued q id k heq), hend⟩

theorem pass_scheduleJob (cfg : Config) (clock : Int) (lag : Nat → Nat) (jobs : Dict Nat Job) :
    Pass (scheduleJob cfg clock lag jobs) where
  tracked _ job h := tracked_scheduleJob h job
  live _ _ _ h hne := live_scheduleJob_of_ne h hne
  queued _ _ _ hne := get?_scheduleJob_of_ne hne

theorem pass_scheduleMissing (cfg : Config) (clock : Int) (lag : Nat → Nat) (jobs : Dict Nat Job) :
    Pass (scheduleMissing cfg clock lag jobs) where
  tracked q job h := (keeps_scheduleMissing h job).tracked
  live q job k h hne := by
    rw [scheduleMissing]
    split
    · exact live_scheduleJob_of_ne h hne
    · rfl
  queued q job k hne := by
    rw [scheduleMissing]
    split
    · exact get?_scheduleJob_of_ne hne
    · rfl

theorem not_nextRun_of_disabled (hoff : enabledJob jobs k = false) (time : Int) :
    ¬ NextRun cfg clock lag jobs k time := by
  rintro ⟨config,hget,hon,-⟩
  rw [enabledJob_of_get? hget, hon] at hoff
  cases hoff

theorem fresh_of_disabled (hoff : enabledJob jobs k = false) {entries : List Event}
    (hnil : entries = []) : Fresh cfg clock lag jobs k entries := by
  subst hnil
  refine ⟨iff_of_false (by simp) ?_, by simp⟩
  rintro ⟨time,hrun⟩
  exact not_nextRun_of_disabled hoff time hrun

theorem mem_keys_of_enabled (hon : enabledJob jobs k = true) : k ∈ jobs.keys := by
  obtain ⟨config,hget,-⟩ := exists_get?_of_enabledJob hon
  exact Dict.mem_keys_of_get? hget

theorem fresh_rescheduleAll (h : Tracked q) (hjobs : jobs.keys.Nodup) (k : Nat) :
    Fresh cfg clock lag jobs k (liveEntries (rescheduleAll cfg clock lag jobs q) k) := by
  obtain ⟨htracked,hempty⟩ := tracked_cancelAll h
  cases hon : enabledJob jobs k with
  | false =>
    have hskip : k ∉ jobs.keys.filter (enabledJob jobs) := by simp [hon]
    have hlive := (pass_scheduleJob cfg clock lag jobs).skip htracked hskip
    exact fresh_of_disabled hon (hlive.trans (hempty k))
  | true =>
    have hmem : k ∈ jobs.keys.filter (enabledJob jobs) :=
      List.mem_filter.mpr ⟨mem_keys_of_enabled hon, hon⟩
    obtain ⟨q',htracked',hlive,-,hend⟩ :=
      (pass_scheduleJob cfg clock lag jobs).visit htracked
        (hjobs.filter _) hmem
    rw [rescheduleAll, hend]
    exact fresh_scheduleJob htracked' (hlive.trans (hempty k))

theorem cancelStale_foldl (h : Tracked q) (ids : List Nat) :
    Tracked (ids.foldl (fun q job => if enabledJob jobs job then q else cancelQueued q job) q) ∧
    (liveEntries (ids.foldl (fun q job => if enabledJob jobs job then q else cancelQueued q job) q) k =
      if enabledJob jobs k = false ∧ k ∈ ids then [] else liveEntries q k) ∧
    (enabledJob jobs k = true →
      (ids.foldl (fun q job => if enabledJob jobs job then q else cancelQueued q job) q).queued.get? k =
        q.queued.get? k) := by
  induction ids generalizing q with
  | nil => exact ⟨h, by simp, fun _ => rfl⟩
  | cons id ids ih =>
    rw [List.foldl_cons]
    cases hid : enabledJob jobs id with
    | true =>
      have hne : enabledJob jobs k = false → k ≠ id := by
        rintro hoff rfl
        rw [hid] at hoff
        cases hoff
      obtain ⟨htracked,hlive,hqueued⟩ := ih h
      refine ⟨htracked, ?_, hqueued⟩
      rw [if_pos rfl, hlive]
      by_cases hoff : enabledJob jobs k = false
      · simp [hoff, hne hoff]
      · simp [hoff]
    | false =>
      obtain ⟨htracked,hlive,hqueued⟩ := ih (tracked_cancelQueued h id)
      refine ⟨htracked, ?_, ?_⟩
      · rw [if_neg Bool.false_ne_true, hlive, live_cancelQueued h]
        by_cases heq : id = k
        · subst heq
          simp [hid]
        · simp [heq, Ne.symm heq]
      · intro hon
        have hne : id ≠ k := by
          rintro rfl
          rw [hid] at hon
          cases hon
        rw [if_neg Bool.false_ne_true, hqueued hon, get?_cancelQueued, if_neg hne]

theorem live_cancelStale (h : Tracked q) (k : Nat) :
    liveEntries (cancelStale jobs q) k = if enabledJob jobs k then liveEntries q k else [] := by
  rw [cancelStale, (cancelStale_foldl h q.queued.keys).2.1]
  cases hon : enabledJob jobs k with
  | true => simp
  | false =>
    by_cases hmem : k ∈ q.queued.keys
    · simp [hmem]
    · simp [hmem, h.live_eq_nil (Dict.not_mem_keys_iff.mp hmem)]

theorem live_convergeJobs_disabled (h : Tracked q) (hjobs : jobs.keys.Nodup)
    (hoff : enabledJob jobs k = false) :
    liveEntries (convergeJobs cfg clock lag jobs q) k = [] := by
  have hstale : Keeps jobs q (cancelStale jobs q) := keeps_cancelStale h
  have hnil : liveEntries (cancelStale jobs q) k = [] := by rw [live_cancelStale h, hoff]; rfl
  rw [convergeJobs]
  by_cases hmem : k ∈ jobs.keys
  · obtain ⟨q',-,hlive,-,hend⟩ := (pass_scheduleMissing cfg clock lag jobs).visit hstale.tracked hjobs hmem
    rw [hend, scheduleMissing, hoff]
    exact hlive.trans hnil
  · rw [(pass_scheduleMissing cfg clock lag jobs).skip hstale.tracked hmem, hnil]

theorem visit_convergeJobs (h : Tracked q) (hjobs : jobs.keys.Nodup)
    (hon : enabledJob jobs k = true) :
    ∃ q', Tracked q' ∧ liveEntries q' k = liveEntries q k ∧ q'.queued.get? k = q.queued.get? k ∧
      liveEntries (convergeJobs cfg clock lag jobs q) k =
        liveEntries (scheduleMissing cfg clock lag jobs q' k) k := by
  have hstale : Keeps jobs q (cancelStale jobs q) := keeps_cancelStale h
  obtain ⟨q',htracked,hlive,hqueued,hend⟩ :=
    (pass_scheduleMissing cfg clock lag jobs).visit hstale.tracked hjobs
      (mem_keys_of_enabled hon)
  refine ⟨q', htracked, ?_, ?_, hend⟩
  · rw [hlive, live_cancelStale h, if_pos hon]
  · rw [hqueued]
    exact (cancelStale_foldl h q.queued.keys).2.2 hon

theorem live_convergeJobs_queued (h : Tracked q) (hjobs : jobs.keys.Nodup)
    (hon : enabledJob jobs k = true) (hqueued : (q.queued.get? k).isSome) :
    liveEntries (convergeJobs cfg clock lag jobs q) k = liveEntries q k := by
  obtain ⟨q',-,hlive,hsame,hend⟩ := visit_convergeJobs h hjobs hon
  have hnot : (q'.queued.get? k).isNone = false := by
    rw [hsame, Option.isNone_eq_false_iff]
    exact hqueued
  rw [hend, scheduleMissing, hnot, Bool.and_false]
  exact hlive

theorem fresh_convergeJobs (h : Tracked q) (hjobs : jobs.keys.Nodup)
    (hqueued : q.queued.get? k = none) :
    Fresh cfg clock lag jobs k (liveEntries (convergeJobs cfg clock lag jobs q) k) := by
  cases hon : enabledJob jobs k with
  | false => exact fresh_of_disabled hon (live_convergeJobs_disabled h hjobs hon)
  | true =>
    obtain ⟨q',htracked,hlive,hsame,hend⟩ := visit_convergeJobs h hjobs hon
    rw [hend, scheduleMissing, hon, hsame, hqueued]
    exact fresh_scheduleJob htracked (hlive.trans (h.live_eq_nil hqueued))

end Fresh

def FromCron (cfg : Config) (clock : Int) (cron : String) (e : Event) : Prop :=
  ∃ moment ≤ clock, cfg.nextRun cron moment = some e.time

structure ConvergedAt (cfg : Config) (clock : Int) (table : Dict Nat Job) (k : Nat)
    (entries : List Event) : Prop where
  live : entries ≠ [] ↔ ∃ row, table.get? k = some row ∧ row.enabled = true ∧
    (cfg.nextRun row.cron clock).isSome
  cron : ∀ row, table.get? k = some row → ∀ e ∈ entries, FromCron cfg clock row.cron e

def Converged (cfg : Config) (s : State) : Prop :=
  ∀ k, ConvergedAt cfg s.clock s.table k (liveEntries s.queue k)

def rescheduled (cfg : Config) (lag : Nat → Nat) (s : State) : State :=
  { s with
    jobs := loadJobs s.jobs s.table
    queue := rescheduleAll cfg s.clock lag (loadJobs s.jobs s.table) s.queue }

def Enters (cfg : Config) (lag : Nat → Nat) (s : State) (k : Nat) : Prop :=
  match s.table.get? k with
  | none => ∀ time, ¬ NextRun cfg s.clock lag s.jobs k time
  | some row => row.enabled = true → ∀ time ∈ cfg.nextRun row.cron s.clock, s.clock + lag k < time

def Stays (cfg : Config) (s : State) (k : Nat) : Prop :=
  match s.table.get? k with
  | none => liveEntries s.queue k = []
  | some row => (liveEntries s.queue k ≠ [] ↔ (cfg.nextRun row.cron s.clock).isSome) ∧
      ∀ e ∈ liveEntries s.queue k, FromCron cfg s.clock row.cron e

def Converges (cfg : Config) (lag : Nat → Nat) (s : State) (k : Nat) : Prop :=
  match s.queue.queued.get? k with
  | none => Enters cfg lag s k
  | some _ => enabledJob (loadJobs s.jobs s.table) k = true → Stays cfg s k

section Convergence

variable {cfg : Config} {lag : Nat → Nat} {s : State} {k : Nat}

theorem get?_loaded (h : Sound s) {row : Job} (hrow : s.table.get? k = some row) :
    (loadJobs s.jobs s.table).get? k = some row := by
  rw [get?_loadJobs h.table, hrow, Option.some_or]

theorem get?_unlisted (h : Sound s) (hrow : s.table.get? k = none) :
    (loadJobs s.jobs s.table).get? k = s.jobs.get? k := by
  rw [get?_loadJobs h.table, hrow, Option.none_or]

theorem convergedAt_fresh_iff (h : Sound s) {entries : List Event}
    (hfresh : Fresh cfg s.clock lag (loadJobs s.jobs s.table) k entries) :
    ConvergedAt cfg s.clock s.table k entries ↔ Enters cfg lag s k := by
  rw [Enters]
  cases hrow : s.table.get? k with
  | none =>
    have hsame : ∀ time, NextRun cfg s.clock lag (loadJobs s.jobs s.table) k time ↔
        NextRun cfg s.clock lag s.jobs k time := by
      intro time
      rw [NextRun, NextRun, get?_unlisted h hrow]
    constructor
    · intro hconv time hrun
      have hsome := hconv.live.mp (hfresh.present.mpr ⟨time, (hsame time).mpr hrun⟩)
      simp [hrow] at hsome
    · intro hnone
      have hnil : ¬ entries ≠ [] := by
        rw [hfresh.present]
        rintro ⟨time,hrun⟩
        exact hnone time ((hsame time).mp hrun)
      exact ⟨iff_of_false hnil (by simp [hrow]), by simp [hrow]⟩
  | some row =>
    have hget := get?_loaded h hrow
    constructor
    · intro hconv hon time htime
      have hsome : (cfg.nextRun row.cron s.clock).isSome := by rw [Option.mem_def.mp htime]; rfl
      obtain ⟨time',config,hconfig,-,hnext,hlag⟩ :=
        hfresh.present.mp (hconv.live.mpr ⟨row, hrow, hon, hsome⟩)
      cases hget.symm.trans hconfig
      cases htime.symm.trans hnext
      exact hlag
    · intro hprompt
      refine ⟨?_, ?_⟩
      · rw [hfresh.present]
        constructor
        · rintro ⟨time,config,hconfig,hon,hnext,-⟩
          cases hget.symm.trans hconfig
          exact ⟨row, hrow, hon, by rw [hnext]; rfl⟩
        · rintro ⟨row',hrow',hon,hsome⟩
          cases hrow.symm.trans hrow'
          obtain ⟨time,htime⟩ := Option.isSome_iff_exists.mp hsome
          exact ⟨time, row, hget, hon, htime, hprompt hon time htime⟩
      · intro row' hrow' e he
        cases hrow.symm.trans hrow'
        obtain ⟨config,hconfig,-,hnext,-⟩ := hfresh.times e he
        cases hget.symm.trans hconfig
        exact ⟨s.clock, le_rfl, hnext⟩

theorem convergedAt_disabled (h : Sound s) (hoff : enabledJob (loadJobs s.jobs s.table) k = false) :
    ConvergedAt cfg s.clock s.table k [] := by
  refine ⟨iff_of_false (by simp) ?_, by simp⟩
  rintro ⟨row,hrow,hon,-⟩
  rw [enabledJob_of_get? (get?_loaded h hrow), hon] at hoff
  cases hoff

theorem convergedAt_kept_iff (h : Sound s) (hon : enabledJob (loadJobs s.jobs s.table) k = true) :
    ConvergedAt cfg s.clock s.table k (liveEntries s.queue k) ↔ Stays cfg s k := by
  rw [Stays]
  cases hrow : s.table.get? k with
  | none =>
    constructor
    · intro hconv
      by_contra hlive
      have hsome := hconv.live.mp hlive
      simp [hrow] at hsome
    · intro hnil
      exact ⟨iff_of_false (by simp [hnil]) (by simp [hrow]), by simp [hrow]⟩
  | some row =>
    have hrowOn : row.enabled = true := (enabledJob_of_get? (get?_loaded h hrow)).symm.trans hon
    constructor
    · rintro ⟨hlive,hcron⟩
      refine ⟨?_, hcron row hrow⟩
      rw [hlive]
      constructor
      · rintro ⟨row',hrow',-,hsome⟩
        cases hrow.symm.trans hrow'
        exact hsome
      · exact fun hsome => ⟨row, hrow, hrowOn, hsome⟩
    · rintro ⟨hlive,hcron⟩
      refine ⟨?_, ?_⟩
      · rw [hlive]
        constructor
        · exact fun hsome => ⟨row, hrow, hrowOn, hsome⟩
        · rintro ⟨row',hrow',-,hsome⟩
          cases hrow.symm.trans hrow'
          exact hsome
      · intro row' hrow' e he
        cases hrow.symm.trans hrow'
        exact hcron e he

theorem converged_endTick_iff (h : Sound s) :
    Converged cfg (endTick cfg lag s true) ↔ ∀ k, Converges cfg lag s k := by
  have hjobs : (loadJobs s.jobs s.table).keys.Nodup := loadJobs_nodup h.jobs
  refine forall_congr' fun k => ?_
  change ConvergedAt cfg s.clock s.table k
    (liveEntries (convergeJobs cfg s.clock lag (loadJobs s.jobs s.table) s.queue) k) ↔ _
  rw [Converges]
  cases hqueued : s.queue.queued.get? k with
  | none => exact convergedAt_fresh_iff h (fresh_convergeJobs h.tracked hjobs hqueued)
  | some events =>
    cases hon : enabledJob (loadJobs s.jobs s.table) k with
    | false =>
      rw [live_convergeJobs_disabled h.tracked hjobs hon]
      exact iff_of_true (convergedAt_disabled h hon) (fun htrue => by cases htrue)
    | true =>
      rw [live_convergeJobs_queued h.tracked hjobs hon (by rw [hqueued]; rfl),
        convergedAt_kept_iff h hon]
      exact ⟨fun hstays _ => hstays, fun hstays => hstays rfl⟩

theorem converged_rescheduled_iff (h : Sound s) :
    Converged cfg (rescheduled cfg lag s) ↔ ∀ k, Enters cfg lag s k := by
  have hjobs : (loadJobs s.jobs s.table).keys.Nodup := loadJobs_nodup h.jobs
  refine forall_congr' fun k => ?_
  exact convergedAt_fresh_iff h (fresh_rescheduleAll h.tracked hjobs k)

end Convergence

theorem leader_converges_iff (cfg : Config) (clock : Int) (lag : Nat → Nat) (rows : List (Nat × Job))
    (ls : List SharedStep) (s : State) (es : List Nat) (lag' : Nat → Nat)
    (hrun : exec (sharedStep cfg) (boot cfg clock lag rows) ls = some (s, es)) :
    (Converged cfg (endTick cfg lag' s true) ↔ ∀ k, Converges cfg lag' s k) ∧
      (Converged cfg (rescheduled cfg lag' s) ↔ ∀ k, Enters cfg lag' s k) :=
  ⟨converged_endTick_iff (sound_exec hrun), converged_rescheduled_iff (sound_exec hrun)⟩

def takeover : List SharedStep :=
  [.own (.beginTick true noLag), .others [(1, ⟨"* * * * *", .healthCheck, true⟩)]]

theorem not_converged_takeover {s : State} {es : List Nat}
    (h : exec (sharedStep everyMinute) (boot everyMinute 0 noLag healthRows) takeover = some (s, es)) :
    ¬ Converged everyMinute (endTick everyMinute noLag s true) ∧
      ¬ Converged everyMinute (rescheduled everyMinute noLag s) := by
  cases h
  constructor
  · intro hconverged
    obtain ⟨row,hrow,-⟩ := (hconverged 2).live.mp (by decide +kernel)
    cases hrow
  · intro hconverged
    obtain ⟨row,hrow,-⟩ := (hconverged 2).live.mp (by decide +kernel)
    cases hrow

theorem deleted_row_not_converging :
    ∃ s es, exec (sharedStep everyMinute) (boot everyMinute 0 noLag healthRows) takeover = some (s, es) ∧
      (¬∀ k, Converges everyMinute noLag s k) ∧ ¬∀ k, Enters everyMinute noLag s k := by
  have h := leader_converges_iff everyMinute 0 noLag healthRows takeover _ _ noLag rfl
  exact ⟨_, _, rfl, fun hall => (not_converged_takeover rfl).1 (h.1.mpr hall),
    fun hall => (not_converged_takeover rfl).2 (h.2.mpr hall)⟩

theorem deleted_row_keeps_firing :
    ∃ s es, exec (sharedStep everyMinute) (boot everyMinute 0 noLag healthRows) takeover = some (s, es) ∧
      s.leader = true ∧ s.table.get? 2 = none ∧
      ¬ Converged everyMinute (endTick everyMinute noLag s true) ∧
      ¬ Converged everyMinute (rescheduled everyMinute noLag s) :=
  ⟨_, _, rfl, rfl, rfl, not_converged_takeover rfl⟩

end PicoSentry.Serve.Scheduler
