import PicoSentry.Serve.SchedulerQueue

namespace PicoSentry.Serve.Scheduler

open Foundation
open Foundation.Run

def State.executing (s : State) (job : Nat) : Prop :=
  ∃ ex ∈ s.executions, ex.job = job ∧ ex.stage ≠ .leaving

instance (s : State) (job : Nat) : Decidable (s.executing job) :=
  inferInstanceAs (Decidable (∃ ex ∈ s.executions, ex.job = job ∧ ex.stage ≠ .leaving))

def Covered (s : State) (job : Nat) : Prop := s.executing job ∨ liveEntries s.queue job ≠ []

instance (s : State) (job : Nat) : Decidable (Covered s job) :=
  inferInstanceAs (Decidable (s.executing job ∨ liveEntries s.queue job ≠ []))

structure Settled (cfg : Config) (s : State) : Prop where
  kept : ∀ job config, s.jobs.get? job = some config → config.enabled = true →
    Computable cfg config.cron → s.executing job ∨ (liveEntries s.queue job).length = 1
  single : ∀ job, (liveEntries s.queue job).length ≤ 1
  silent : ∀ job, enabledJob s.jobs job = false → liveEntries s.queue job = []

def Steady (cfg : Config) (s : State) : Step → Prop
  | .beginTick true lag =>
    s.leader = false → ∀ job ∈ s.jobs.keys, enabledJob s.jobs job = true →
      Prompt cfg s.clock lag s.jobs job
  | .fire =>
    ∀ event ∈ due s.queue s.clock, event.job ∈ s.slowRunning → s.executing event.job
  | .finish execution .escaped _ =>
    s.leader = true → enabledJob s.jobs execution.job = true →
      Covered (s.drop execution) execution.job
  | .finish execution _ lag =>
    s.leader = true → Prompt cfg s.clock lag s.jobs execution.job
  | .addJob job config lag =>
    s.leader = true → Prompt cfg s.clock lag (s.jobs.set job config) job
  | .enableJob job lag => s.leader = true → Prompt cfg s.clock lag s.jobs job
  | .updateJob job cron lag =>
    s.leader = true → Prompt cfg s.clock lag (setCron s.jobs job cron) job
  | _ => True

instance decidableSteady (cfg : Config) (s : State) : ∀ l, Decidable (Steady cfg s l)
  | .beginTick true _ => inferInstanceAs (Decidable (s.leader = false → ∀ job ∈ s.jobs.keys, _))
  | .beginTick false _ => isTrue trivial
  | .fire => inferInstanceAs (Decidable (∀ event ∈ due s.queue s.clock, _))
  | .finish _ .escaped _ => inferInstanceAs (Decidable (s.leader = true → _))
  | .finish _ .returned _ => inferInstanceAs (Decidable (s.leader = true → _))
  | .finish _ .caught _ => inferInstanceAs (Decidable (s.leader = true → _))
  | .addJob _ _ _ => inferInstanceAs (Decidable (s.leader = true → _))
  | .enableJob _ _ => inferInstanceAs (Decidable (s.leader = true → _))
  | .updateJob _ _ _ => inferInstanceAs (Decidable (s.leader = true → _))
  | .advance _ => isTrue trivial
  | .endTick _ _ => isTrue trivial
  | .begin _ => isTrue trivial
  | .leave _ => isTrue trivial
  | .triggerJob _ => isTrue trivial
  | .disableJob _ => isTrue trivial
  | .removeJob _ => isTrue trivial

def boot (cfg : Config) (clock : Int) (lag : Nat → Nat) (rows : List (Nat × Job)) : State where
  clock := clock
  jobs := loadJobs [] (Dict.ofPairs rows)
  table := Dict.ofPairs rows
  queue := rescheduleAll cfg clock lag (loadJobs [] (Dict.ofPairs rows)) ⟨[], [], 0⟩
  slowRunning := []
  executions := []
  leader := false
  inTick := false
  alive := true

structure Inv (cfg : Config) (s : State) : Prop where
  tracked : Tracked s.queue
  enabledOnly : ∀ job, liveEntries s.queue job ≠ [] → enabledJob s.jobs job = true
  synced : ∀ job, s.table.get? job = s.jobs.get? job
  nodup : s.table.keys.Nodup
  leading : s.inTick = true → s.leader = true
  covered : s.leader = true → ∀ job config, s.jobs.get? job = some config →
    config.enabled = true → Computable cfg config.cron → Covered s job

section Executions

variable {s : State} {ex : Execution} {job k : Nat}

theorem executing_move {stage : Stage} (hstage : stage ≠ .leaving) (h : s.executing k) :
    (s.move ex stage).executing k := by
  obtain ⟨ex',hmem,hjob,hpending⟩ := h
  by_cases heq : ex' = ex
  · subst heq
    exact ⟨_, List.mem_cons_self, hjob, hstage⟩
  · exact ⟨ex', List.mem_cons_of_mem _ ((List.mem_erase_of_ne heq).mpr hmem), hjob, hpending⟩

theorem executing_drop (hne : ex.job = k → ex.stage = .leaving) (h : s.executing k) :
    (s.drop ex).executing k := by
  obtain ⟨ex',hmem,hjob,hpending⟩ := h
  refine ⟨ex', (List.mem_erase_of_ne ?_).mpr hmem, hjob, hpending⟩
  rintro rfl
  exact hpending (hne hjob)

theorem executing_unwind_of_drop (h : (s.drop ex).executing k) : (s.unwind ex).executing k := by
  rw [State.unwind]
  split
  · obtain ⟨ex',hmem,hrest⟩ := h
    exact ⟨ex', List.mem_cons_of_mem _ hmem, hrest⟩
  · exact h

theorem executing_unwind_of_ne (hne : ex.job ≠ k) (h : s.executing k) :
    (s.unwind ex).executing k :=
  executing_unwind_of_drop (executing_drop (fun heq => absurd heq hne) h)

theorem executing_dispatchJob (thread : Thread) (job : Nat) (h : s.executing k) :
    (dispatchJob thread s job).executing k := by
  obtain ⟨ex',hmem,hrest⟩ := h
  rw [dispatchJob]
  split
  · exact ⟨ex', hmem, hrest⟩
  · split
    · split
      · exact ⟨ex', hmem, hrest⟩
      · exact ⟨ex', List.mem_cons_of_mem _ hmem, hrest⟩
    · exact ⟨ex', List.mem_cons_of_mem _ hmem, hrest⟩

theorem executing_dispatchJob_self (thread : Thread) {config : Job}
    (hget : s.jobs.get? job = some config) (hskip : job ∈ s.slowRunning → s.executing job) :
    (dispatchJob thread s job).executing job := by
  rw [dispatchJob, hget]
  dsimp only
  split
  · split
    · next hrunning => exact hskip hrunning
    · exact ⟨_, List.mem_cons_self, rfl, Stage.noConfusion⟩
  · exact ⟨_, List.mem_cons_self, rfl, Stage.noConfusion⟩

end Executions

section Tables

variable {jobs jobs' table : Dict Nat Job} {job k : Nat}

theorem get?_loadJobs (hnodup : table.keys.Nodup) (k : Nat) :
    (loadJobs jobs table).get? k = (table.get? k).or (jobs.get? k) := by
  rw [loadJobs, Dict.get?_setAll, Dict.lastOf_of_nodup hnodup]

theorem enabledJob_congr (h : jobs.get? k = jobs'.get? k) : enabledJob jobs k = enabledJob jobs' k := by
  rw [enabledJob, enabledJob, h]

theorem exists_get?_of_enabledJob (h : enabledJob jobs k = true) :
    ∃ config, jobs.get? k = some config ∧ config.enabled = true := by
  cases hget : jobs.get? k with
  | none =>
    rw [enabledJob, hget] at h
    cases h
  | some config => exact ⟨config, rfl, (enabledJob_of_get? hget).symm.trans h⟩

theorem setEnabled_eq_modify (jobs : Dict Nat Job) (job : Nat) (enabled : Bool) :
    setEnabled jobs job enabled =
      jobs.modify job fun config => { config with enabled := enabled } := by
  rw [setEnabled, Dict.modify]
  cases jobs.get? job with
  | none => rfl
  | some config => rfl

theorem setCron_some_eq_modify (jobs : Dict Nat Job) (job : Nat) (cron : String) :
    setCron jobs job (some cron) = jobs.modify job fun config => { config with cron := cron } := by
  rw [setCron, Dict.modify]
  cases jobs.get? job with
  | none => rfl
  | some config => rfl

theorem get?_setEnabled (jobs : Dict Nat Job) (job : Nat) (enabled : Bool) (k : Nat) :
    (setEnabled jobs job enabled).get? k =
      if job = k then (jobs.get? k).map fun config => { config with enabled := enabled }
      else jobs.get? k := by
  rw [setEnabled_eq_modify, Dict.get?_modify]

theorem get?_setCron (jobs : Dict Nat Job) (job : Nat) (cron : Option String) (k : Nat) :
    (setCron jobs job cron).get? k =
      if job = k then (jobs.get? k).map fun config => { config with cron := cron.getD config.cron }
      else jobs.get? k := by
  cases cron with
  | none => simp [setCron]
  | some cron =>
    rw [setCron_some_eq_modify, Dict.get?_modify]
    rfl

theorem keys_setEnabled_nodup (h : jobs.keys.Nodup) (job : Nat) (enabled : Bool) :
    (setEnabled jobs job enabled).keys.Nodup := by
  rw [setEnabled_eq_modify]
  exact Dict.keys_modify_nodup h job _

theorem keys_setCron_nodup (h : jobs.keys.Nodup) (job : Nat) (cron : Option String) :
    (setCron jobs job cron).keys.Nodup := by
  cases cron with
  | none => exact h
  | some cron =>
    rw [setCron_some_eq_modify]
    exact Dict.keys_modify_nodup h job _

end Tables

section Preservation

variable {cfg : Config} {s : State} {lag : Nat → Nat} {jobs table : Dict Nat Job} {job : Nat}

theorem Inv.get?_reload (h : Inv cfg s) (k : Nat) :
    (loadJobs s.jobs s.table).get? k = s.jobs.get? k := by
  rw [get?_loadJobs h.nodup, h.synced, Option.or_self]

theorem Inv.reload (h : Inv cfg s) : Inv cfg { s with jobs := loadJobs s.jobs s.table } := by
  have hget := h.get?_reload
  refine ⟨h.tracked, ?_, ?_, h.nodup, h.leading, ?_⟩
  · intro k hlive
    exact (enabledJob_congr (hget k)).trans (h.enabledOnly k hlive)
  · intro k
    exact (h.synced k).trans (hget k).symm
  · intro hlead k config hk
    exact h.covered hlead k config ((hget k).symm.trans hk)

theorem Inv.reschedule (h : Inv cfg s)
    (hprompt : ∀ k, enabledJob s.jobs k = true → Prompt cfg s.clock lag s.jobs k) :
    Inv cfg { s with
      queue := rescheduleAll cfg s.clock lag s.jobs s.queue
      leader := true
      inTick := true } := by
  obtain ⟨htracked,henabled⟩ := tracked_rescheduleAll h.tracked
  refine ⟨htracked, henabled, h.synced, h.nodup, fun _ => rfl, ?_⟩
  intro _ k config hget hon hcomputable
  have honk := (enabledJob_of_get? hget).trans hon
  exact .inr (live_rescheduleAll h.tracked hget hon hcomputable (hprompt k honk))

theorem Inv.standDown (h : Inv cfg s) :
    Inv cfg { s with queue := cancelAll s.queue, leader := false, inTick := false } := by
  obtain ⟨htracked,hempty⟩ := tracked_cancelAll h.tracked
  refine ⟨htracked, ?_, h.synced, h.nodup, ?_, ?_⟩
  · intro k hlive
    exact absurd (hempty k) hlive
  · intro htick
    cases htick
  · intro hlead
    cases hlead

theorem Inv.converge (h : Inv cfg s) :
    Inv cfg { s with
      queue := convergeJobs cfg s.clock lag s.jobs s.queue
      inTick := false } := by
  have hkeeps : Keeps s.jobs s.queue (convergeJobs cfg s.clock lag s.jobs s.queue) :=
    keeps_convergeJobs h.tracked
  refine ⟨hkeeps.tracked, ?_, h.synced, h.nodup, ?_, ?_⟩
  · intro k hlive
    rcases hkeeps.source k hlive with hlive | henabled
    · exact h.enabledOnly k hlive
    · exact henabled
  · intro htick
    cases htick
  · intro hlead k config hget hon hcomputable
    rcases h.covered hlead k config hget hon hcomputable with hexec | hlive
    · exact .inl hexec
    · exact .inr (hkeeps.kept k ((enabledJob_of_get? hget).trans hon) hlive)

theorem Inv.replaceJob (h : Inv cfg s) {config : Job} (hget : jobs.get? job = some config)
    (hother : ∀ k, job ≠ k → jobs.get? k = s.jobs.get? k)
    (hsynced : ∀ k, table.get? k = jobs.get? k) (hnodup : table.keys.Nodup)
    (hlive : liveEntries s.queue job ≠ [] → config.enabled = true)
    (hprompt : s.leader = true → Prompt cfg s.clock lag jobs job) :
    Inv cfg { s with
      jobs := jobs
      table := table
      queue := scheduleJob cfg s.clock lag jobs s.queue job } := by
  refine ⟨tracked_scheduleJob h.tracked job, ?_, hsynced, hnodup, h.leading, ?_⟩
  · intro k hlivek
    rcases enabled_of_live_scheduleJob h.tracked hlivek with hlivek | henabled
    · by_cases hk : job = k
      · subst hk
        exact (enabledJob_of_get? hget).trans (hlive hlivek)
      · exact (enabledJob_congr (hother k hk)).trans (h.enabledOnly k hlivek)
    · exact henabled
  · intro hlead k config' hgetk hon hcomputable
    by_cases hk : job = k
    · subst hk
      exact .inr (live_scheduleJob_prompt h.tracked hgetk hon hcomputable (hprompt hlead))
    · rw [Covered]
      dsimp only
      rw [live_scheduleJob_of_ne h.tracked hk]
      exact h.covered hlead k config' ((hother k hk).symm.trans hgetk) hon hcomputable

theorem Inv.withdraw (h : Inv cfg s) (hgone : enabledJob jobs job = false)
    (hother : ∀ k, job ≠ k → jobs.get? k = s.jobs.get? k)
    (hsynced : ∀ k, table.get? k = jobs.get? k) (hnodup : table.keys.Nodup) :
    Inv cfg { s with jobs := jobs, table := table, queue := cancelQueued s.queue job } := by
  refine ⟨tracked_cancelQueued h.tracked job, ?_, hsynced, hnodup, h.leading, ?_⟩
  · intro k hlive
    dsimp only at hlive
    rw [live_cancelQueued h.tracked] at hlive
    split at hlive
    · exact absurd rfl hlive
    · next hk => exact (enabledJob_congr (hother k hk)).trans (h.enabledOnly k hlive)
  · intro hlead k config hget hon hcomputable
    by_cases hk : job = k
    · subst hk
      exact absurd (hgone.symm.trans ((enabledJob_of_get? hget).trans hon)) Bool.noConfusion
    · rw [Covered]
      dsimp only
      rw [live_cancelQueued h.tracked, if_neg hk]
      exact h.covered hlead k config ((hother k hk).symm.trans hget) hon hcomputable

theorem Inv.withExecutions (h : Inv cfg s) {executions : List Execution} {slowRunning : List Nat}
    {alive : Bool}
    (hcovered : s.leader = true → ∀ k config, s.jobs.get? k = some config → config.enabled = true →
      Computable cfg config.cron → Covered s k → Covered { s with executions := executions } k) :
    Inv cfg { s with executions := executions, slowRunning := slowRunning, alive := alive } := by
  refine ⟨h.tracked, h.enabledOnly, h.synced, h.nodup, h.leading, ?_⟩
  intro hlead k config hget hon hcomputable
  apply hcovered hlead k config hget hon hcomputable
  exact h.covered hlead k config hget hon hcomputable

theorem Inv.unwind (h : Inv cfg s) {ex : Execution} {alive : Bool}
    (hcovered : s.leader = true → ∀ config, s.jobs.get? ex.job = some config →
      config.enabled = true → Computable cfg config.cron → Covered (s.drop ex) ex.job) :
    Inv cfg { s.unwind ex with alive := alive } := by
  have hsame : { s.unwind ex with alive := alive } =
      { s with executions := (s.unwind ex).executions, alive := alive } := by
    rw [State.unwind]
    split <;> rfl
  rw [hsame]
  apply h.withExecutions
  intro hlead k config hget hon hcomputable hk
  by_cases heq : ex.job = k
  · subst heq
    rcases hcovered hlead config hget hon hcomputable with hexec | hlive
    · exact .inl (executing_unwind_of_drop hexec)
    · exact .inr hlive
  · rcases hk with hexec | hlive
    · exact .inl (executing_unwind_of_ne heq hexec)
    · exact .inr hlive

theorem Inv.keepExecuting (h : Inv cfg s) {executions : List Execution} {slowRunning : List Nat}
    (hexec : ∀ k, s.executing k → State.executing { s with executions := executions } k) :
    Inv cfg { s with executions := executions, slowRunning := slowRunning } := by
  apply h.withExecutions
  intro _ k _ _ _ _ hk
  rcases hk with hk | hlive
  · exact .inl (hexec k hk)
  · exact .inr hlive

theorem Inv.move (h : Inv cfg s) {ex : Execution} {stage : Stage} (hstage : stage ≠ .leaving) :
    Inv cfg (s.move ex stage) :=
  h.keepExecuting fun _ hexec => executing_move hstage hexec

theorem Inv.leave (h : Inv cfg s) {ex : Execution} {slowRunning : List Nat}
    (hstage : ex.stage = .leaving) : Inv cfg { s.drop ex with slowRunning := slowRunning } :=
  h.keepExecuting fun _ hexec => executing_drop (fun _ => hstage) hexec

theorem dispatchJob_eq (thread : Thread) (s : State) (job : Nat) :
    dispatchJob thread s job =
      { s with
        executions := (dispatchJob thread s job).executions
        slowRunning := (dispatchJob thread s job).slowRunning } := by
  rw [dispatchJob]
  split
  · rfl
  · split
    · split <;> rfl
    · rfl

theorem Inv.dispatch (h : Inv cfg s) (thread : Thread) (job : Nat) :
    Inv cfg (dispatchJob thread s job) := by
  rw [dispatchJob_eq]
  exact h.keepExecuting fun _ hexec => executing_dispatchJob thread job hexec

-- The popped entry was its job's only one, so the dispatch has to leave an execution behind.
theorem Inv.fire (h : Inv cfg s) {event : Event} (hmem : event ∈ s.queue.heap)
    (hskip : event.job ∈ s.slowRunning → s.executing event.job) :
    Inv cfg (dispatchJob .scheduler
      { s with queue := { s.queue with heap := s.queue.heap.erase event } } event.job) := by
  have hlive : ∀ k, liveEntries { s.queue with heap := s.queue.heap.erase event } k =
      if event.job = k then [] else liveEntries s.queue k := fun k =>
    (live_erase s.queue event k).trans (h.tracked.live_pop hmem k)
  rw [dispatchJob_eq]
  refine ⟨tracked_pop h.tracked hmem, ?_, h.synced, h.nodup, h.leading, ?_⟩
  · intro k hk
    dsimp only at hk
    rw [hlive] at hk
    split at hk
    · exact absurd rfl hk
    · exact h.enabledOnly k hk
  · intro hlead k config hget hon hcomputable
    by_cases heq : event.job = k
    · subst heq
      exact .inl (executing_dispatchJob_self .scheduler hget hskip)
    · rcases h.covered hlead k config hget hon hcomputable with hexec | hk
      · exact .inl (executing_dispatchJob .scheduler event.job hexec)
      · apply Or.inr
        dsimp only
        rw [hlive, if_neg heq]
        exact hk

theorem Inv.reloadAndSchedule (h : Inv cfg s) {config : Job} (hget : table.get? job = some config)
    (hother : ∀ k, job ≠ k → table.get? k = s.table.get? k) (hnodup : table.keys.Nodup)
    (hlive : liveEntries s.queue job ≠ [] → config.enabled = true)
    (hprompt : s.leader = true →
      ∀ time ∈ cfg.nextRun config.cron s.clock, s.clock + lag job < time) :
    Inv cfg (reloadAndSchedule cfg lag s table job) := by
  have hload : ∀ k, (loadJobs s.jobs table).get? k = table.get? k := by
    intro k
    rw [get?_loadJobs hnodup]
    by_cases hk : job = k
    · subst hk
      rw [hget]
      rfl
    · rw [hother k hk, h.synced, Option.or_self]
  apply h.replaceJob ((hload job).trans hget)
  · intro k hk
    rw [hload, hother k hk, h.synced]
  · intro k
    exact (hload k).symm
  · exact hnodup
  · exact hlive
  · intro hlead config' hconfig time htime
    have hconfig' : (loadJobs s.jobs table).get? job = some config' := hconfig
    rw [hload, hget] at hconfig'
    cases hconfig'
    exact hprompt hlead time htime

theorem Inv.rescheduleTail (h : Inv cfg s) (hprompt : s.leader = true →
      Prompt cfg s.clock lag s.jobs job) : Inv cfg (rescheduleTail cfg lag s job) := by
  rw [Scheduler.rescheduleTail]
  split
  · next henabled =>
    obtain ⟨config,hget,hon⟩ := exists_get?_of_enabledJob henabled
    exact h.replaceJob hget (fun _ _ => rfl) h.synced h.nodup (fun _ => hon) hprompt
  · exact h

theorem live_rescheduleTail (h : Inv cfg s) {config : Job} (hget : s.jobs.get? job = some config)
    (hon : config.enabled = true) (hcomputable : Computable cfg config.cron)
    (hprompt : Prompt cfg s.clock lag s.jobs job) :
    liveEntries (rescheduleTail cfg lag s job).queue job ≠ [] := by
  rw [rescheduleTail, if_pos ((enabledJob_of_get? hget).trans hon)]
  exact live_scheduleJob_prompt h.tracked hget hon hcomputable hprompt

theorem rescheduleTail_frame (cfg : Config) (lag : Nat → Nat) (s : State) (job : Nat) :
    (rescheduleTail cfg lag s job).jobs = s.jobs ∧
      (rescheduleTail cfg lag s job).leader = s.leader := by
  rw [rescheduleTail]
  split
  · exact ⟨rfl, rfl⟩
  · exact ⟨rfl, rfl⟩

theorem Inv.finish (h : Inv cfg s) {ex : Execution} (hprompt : s.leader = true →
      Prompt cfg s.clock lag s.jobs ex.job) :
    Inv cfg ((Scheduler.rescheduleTail cfg lag s ex.job).unwind ex) := by
  apply (h.rescheduleTail hprompt).unwind
  intro hlead config hget hon hcomputable
  obtain ⟨hjobs,hleader⟩ := rescheduleTail_frame cfg lag s ex.job
  rw [hjobs] at hget
  rw [hleader] at hlead
  exact .inr (live_rescheduleTail h hget hon hcomputable (hprompt hlead))

end Preservation

section Steps

variable {cfg : Config} {s s' : State} {es : List Nat}

theorem inv_beginTick {leader : Bool} {lag : Nat → Nat} (h : Inv cfg s)
    (hcond : Steady cfg s (.beginTick leader lag)) : Inv cfg (beginTick cfg lag s leader) := by
  rw [beginTick]
  split
  · next heq =>
    refine ⟨h.tracked, h.enabledOnly, h.synced, h.nodup, ?_, h.covered⟩
    intro htick
    exact heq.symm.trans htick
  · next hne =>
    cases leader with
    | true =>
      have hidle : s.leader = false := by
        cases hlead : s.leader with
        | true => exact absurd hlead.symm hne
        | false => rfl
      apply h.reload.reschedule
      intro k henabled
      have hget := h.get?_reload k
      obtain ⟨config,hconfig,hon⟩ := exists_get?_of_enabledJob henabled
      have hconfig' := hget.symm.trans hconfig
      have hprompt := hcond hidle k (Dict.mem_keys_of_get? hconfig')
        ((enabledJob_of_get? hconfig').trans hon)
      intro config' hc time htime
      exact hprompt config' (hget.symm.trans hc) time htime
    | false => exact h.standDown

theorem inv_endTick {reload : Bool} {lag : Nat → Nat} (h : Inv cfg s) :
    Inv cfg (endTick cfg lag s reload) := by
  rw [endTick]
  split
  · exact h.reload.converge
  · refine ⟨h.tracked, h.enabledOnly, h.synced, h.nodup, ?_, h.covered⟩
    intro htick
    cases htick

theorem inv_finish {ex : Execution} {outcome : Outcome} {lag : Nat → Nat} (h : Inv cfg s)
    (hcond : Steady cfg s (.finish ex outcome lag))
    (hstep : step cfg s (.finish ex outcome lag) = some (s', es)) : Inv cfg s' := by
  obtain ⟨_,hstep⟩ := Option.ite_none_right_eq_some.mp hstep
  cases outcome with
  | escaped =>
    cases hstep
    apply h.unwind
    intro hlead config hget hon _
    exact hcond hlead ((enabledJob_of_get? hget).trans hon)
  | returned =>
    cases hstep
    exact h.finish hcond
  | caught =>
    cases hstep
    exact h.finish hcond

theorem inv_begin {ex : Execution} (h : Inv cfg s)
    (hstep : step cfg s (.begin ex) = some (s', es)) : Inv cfg s' := by
  obtain ⟨_,hstep⟩ := Option.ite_none_right_eq_some.mp hstep
  rcases ite_eq_iff.mp hstep with ⟨_,hstep⟩ | ⟨hgone,hstep⟩
  · cases hstep
    exact h.move Stage.noConfusion
  · cases hstep
    apply h.unwind
    intro _ config hget
    rw [hget] at hgone
    exact absurd rfl hgone

theorem inv_addJob {job : Nat} {config : Job} {lag : Nat → Nat} (h : Inv cfg s)
    (hcond : Steady cfg s (.addJob job config lag))
    (hstep : step cfg s (.addJob job config lag) = some (s', es)) : Inv cfg s' := by
  obtain ⟨hguard,hstep⟩ := Option.ite_none_left_eq_some.mp hstep
  rw [Bool.or_eq_true, not_or] at hguard
  cases hstep
  apply h.reloadAndSchedule (Dict.get?_set_self s.table job config)
  · intro k hk
    rw [Dict.get?_set, if_neg hk]
  · exact Dict.keys_set_nodup h.nodup job config
  · intro hlive
    obtain ⟨old,hold,_⟩ := exists_get?_of_enabledJob (h.enabledOnly job hlive)
    rw [h.synced, hold] at hguard
    exact absurd rfl hguard.1
  · intro hlead time htime
    exact hcond hlead config (Dict.get?_set_self s.jobs job config) time htime

theorem inv_updateJob {job : Nat} {cron : Option String} {lag : Nat → Nat} (h : Inv cfg s)
    (hcond : Steady cfg s (.updateJob job cron lag))
    (hstep : step cfg s (.updateJob job cron lag) = some (s', es)) : Inv cfg s' := by
  rcases ite_eq_iff.mp hstep with ⟨hguard,hstep⟩ | ⟨_,hstep⟩
  · rw [Bool.and_eq_true] at hguard
    obtain ⟨config,hconfig⟩ := Option.isSome_iff_exists.mp hguard.1
    have hget : ∀ jobs : Dict Nat Job, jobs.get? job = some config →
        (setCron jobs job cron).get? job = some { config with cron := cron.getD config.cron } := by
      intro jobs hjobs
      rw [get?_setCron, if_pos rfl, hjobs]
      rfl
    cases hstep
    apply h.reloadAndSchedule (hget s.table ((h.synced job).trans hconfig))
    · intro k hk
      rw [get?_setCron, if_neg hk]
    · exact keys_setCron_nodup h.nodup job cron
    · intro hlive
      exact (enabledJob_of_get? hconfig).symm.trans (h.enabledOnly job hlive)
    · intro hlead time htime
      exact hcond hlead _ (hget s.jobs hconfig) time htime
  · cases hstep
    exact h

theorem inv_enableJob {job : Nat} {lag : Nat → Nat} (h : Inv cfg s)
    (hcond : Steady cfg s (.enableJob job lag))
    (hstep : step cfg s (.enableJob job lag) = some (s', es)) : Inv cfg s' := by
  rcases ite_eq_iff.mp hstep with ⟨hguard,hstep⟩ | ⟨_,hstep⟩
  · obtain ⟨config,hconfig⟩ := Option.isSome_iff_exists.mp hguard
    have hget : (setEnabled s.jobs job true).get? job = some { config with enabled := true } := by
      rw [get?_setEnabled, if_pos rfl, hconfig]
      rfl
    cases hstep
    apply h.replaceJob hget
    · intro k hk
      rw [get?_setEnabled, if_neg hk]
    · intro k
      rw [get?_setEnabled, get?_setEnabled, h.synced]
    · exact keys_setEnabled_nodup h.nodup job true
    · exact fun _ => rfl
    · intro hlead config' hc time htime
      have hc' : (setEnabled s.jobs job true).get? job = some config' := hc
      rw [hget] at hc'
      cases hc'
      exact hcond hlead config hconfig time htime
  · cases hstep
    exact h

theorem inv_disableJob {job : Nat} (h : Inv cfg s)
    (hstep : step cfg s (.disableJob job) = some (s', es)) : Inv cfg s' := by
  rcases ite_eq_iff.mp hstep with ⟨hguard,hstep⟩ | ⟨_,hstep⟩
  · obtain ⟨config,hconfig⟩ := Option.isSome_iff_exists.mp hguard
    cases hstep
    apply h.withdraw
    · rw [enabledJob, get?_setEnabled, if_pos rfl, hconfig]
      rfl
    · intro k hk
      rw [get?_setEnabled, if_neg hk]
    · intro k
      rw [get?_setEnabled, get?_setEnabled, h.synced]
    · exact keys_setEnabled_nodup h.nodup job false
  · cases hstep
    exact h

theorem inv_removeJob {job : Nat} (h : Inv cfg s)
    (hstep : step cfg s (.removeJob job) = some (s', es)) : Inv cfg s' := by
  rcases ite_eq_iff.mp hstep with ⟨_,hstep⟩ | ⟨_,hstep⟩
  · cases hstep
    apply h.withdraw
    · rw [enabledJob, Dict.get?_erase, if_pos rfl]
      rfl
    · intro k hk
      rw [Dict.get?_erase, if_neg hk]
    · intro k
      rw [Dict.get?_erase, Dict.get?_erase, h.synced]
    · exact Dict.keys_erase_nodup h.nodup job
  · cases hstep
    exact h

theorem inv_fire (h : Inv cfg s) (hcond : Steady cfg s .fire)
    (hstep : step cfg s .fire = some (s', es)) : Inv cfg s' := by
  obtain ⟨event,hdue,hstep⟩ := Option.bind_eq_some_iff.mp hstep
  split at hstep
  · cases hstep
    exact h.fire (List.mem_of_find?_eq_some hdue) (hcond event hdue)
  · cases hstep

theorem inv_step (l : Step) (h : Inv cfg s) (hcond : Steady cfg s l)
    (hstep : step cfg s l = some (s', es)) : Inv cfg s' := by
  cases l with
  | advance duration =>
    cases hstep
    exact ⟨h.tracked, h.enabledOnly, h.synced, h.nodup, h.leading, h.covered⟩
  | beginTick leader lag =>
    obtain ⟨_,hstep⟩ := Option.ite_none_right_eq_some.mp hstep
    cases hstep
    exact inv_beginTick h hcond
  | fire => exact inv_fire h hcond hstep
  | endTick reload lag =>
    obtain ⟨_,hstep⟩ := Option.ite_none_right_eq_some.mp hstep
    cases hstep
    exact inv_endTick h
  | begin ex => exact inv_begin h hstep
  | finish ex outcome lag => exact inv_finish h hcond hstep
  | leave ex =>
    obtain ⟨hguard,hstep⟩ := Option.ite_none_right_eq_some.mp hstep
    cases hstep
    exact h.leave hguard.2
  | triggerJob job =>
    rcases ite_eq_iff.mp hstep with ⟨_,hstep⟩ | ⟨_,hstep⟩
    · cases hstep
      exact h.dispatch .caller job
    · cases hstep
      exact h
  | addJob job config lag => exact inv_addJob h hcond hstep
  | enableJob job lag => exact inv_enableJob h hcond hstep
  | disableJob job => exact inv_disableJob h hstep
  | updateJob job cron lag => exact inv_updateJob h hcond hstep
  | removeJob job => exact inv_removeJob h hstep

theorem inv_boot (cfg : Config) (clock : Int) (lag : Nat → Nat) (rows : List (Nat × Job)) :
    Inv cfg (boot cfg clock lag rows) := by
  have hnodup : (Dict.ofPairs rows).keys.Nodup := Dict.keys_setAll_nodup (by simp) rows
  have hempty : Tracked ⟨[], [], 0⟩ := by
    constructor
    · intro job events hrec
      cases hrec
    · intro job
      exact .inl rfl
  obtain ⟨htracked,henabled⟩ := tracked_rescheduleAll hempty
  refine ⟨htracked, henabled, ?_, hnodup, ?_, ?_⟩
  · intro k
    change (Dict.ofPairs rows).get? k = (loadJobs [] (Dict.ofPairs rows)).get? k
    rw [get?_loadJobs hnodup]
    exact Option.or_none.symm
  · intro htick
    cases htick
  · intro hlead
    cases hlead

theorem Inv.settled (h : Inv cfg s) (hlead : s.leader = true) : Settled cfg s := by
  refine ⟨?_, h.tracked.live_length, ?_⟩
  · intro job config hget hon hcomputable
    rcases h.covered hlead job config hget hon hcomputable with hexec | hlive
    · exact .inl hexec
    · have hpos : 0 < (liveEntries s.queue job).length := List.length_pos_iff.mpr hlive
      exact .inr (le_antisymm (h.tracked.live_length job) hpos)
  · intro job hoff
    by_contra hlive
    exact absurd (hoff.symm.trans (h.enabledOnly job hlive)) Bool.noConfusion

theorem leader_endTick {reload : Bool} {lag : Nat → Nat}
    (hstep : step cfg s (.endTick reload lag) = some (s', es)) :
    s.inTick = true ∧ s'.leader = s.leader := by
  obtain ⟨hguard,hstep⟩ := Option.ite_none_right_eq_some.mp hstep
  cases hstep
  rw [Bool.and_eq_true] at hguard
  refine ⟨hguard.2, ?_⟩
  rw [endTick]
  split <;> rfl

end Steps

theorem no_job_lost_after_leader_tick (cfg : Config) (clock : Int) (lag : Nat → Nat)
    (rows : List (Nat × Job)) (ls : List Step) (reload : Bool) (lag' : Nat → Nat) (r : State)
    (es : List Nat)
    (hmeets : Meets (step cfg) (Steady cfg) (boot cfg clock lag rows) (ls ++ [.endTick reload lag']))
    (hrun : exec (step cfg) (boot cfg clock lag rows) (ls ++ [.endTick reload lag']) =
      some (r, es)) : Settled cfg r := by
  obtain ⟨t,es₁,es₂,hls,hlast,_⟩ := exec_concat hrun
  obtain ⟨hbefore,hafter⟩ := hmeets.append hls
  have hstep : ∀ (_ : List Nat) s l s' es, Inv cfg s → Steady cfg s l → step cfg s l = some (s', es) →
      Inv cfg s' := by
    intro _ s l s' es h hcond hstep
    exact inv_step l h hcond hstep
  have ht : Inv cfg t := exec_invariant hstep [] (inv_boot cfg clock lag rows) hbefore hls
  have hr : Inv cfg r := inv_step _ ht hafter.1 hlast
  obtain ⟨htick,hleader⟩ := leader_endTick hlast
  exact hr.settled (hleader.trans (ht.leading htick))

def everyMinute : Config where
  nextRun _ clock := some ((clock / 60 + 1) * 60)

def healthRows : List (Nat × Job) :=
  [(1, ⟨"* * * * *", .healthCheck, true⟩), (2, ⟨"* * * * *", .cleanup, true⟩)]

def noLag : Nat → Nat := fun _ => 0

def slowExecution (stage : Stage) : Execution := ⟨1, .slow, stage⟩

def orderlySteps : List Step :=
  [.beginTick true noLag, .endTick false noLag, .triggerJob 1, .advance 60,
    .begin (slowExecution .dispatched), .beginTick true noLag, .fire, .fire,
    .begin ⟨2, .scheduler, .dispatched⟩,
    .finish ⟨2, .scheduler, .executing⟩ .caught noLag, .endTick true noLag,
    .finish (slowExecution .executing) .returned noLag, .leave (slowExecution .leaving),
    .disableJob 2, .updateJob 1 (some "*/2 * * * *") noLag, .beginTick false noLag,
    .enableJob 2 noLag, .beginTick true noLag]

theorem no_job_lost_after_leader_tick_orderly :
    ∃ r es, exec (step everyMinute) (boot everyMinute 0 noLag healthRows)
        (orderlySteps ++ [.endTick false noLag]) = some (r, es) ∧
      r.queue.heap.map Event.job = [1, 2] ∧ Settled everyMinute r := by
  refine ⟨_, _, rfl, by decide +kernel, ?_⟩
  exact no_job_lost_after_leader_tick everyMinute 0 noLag healthRows orderlySteps false noLag _ _
    (by decide +kernel) rfl

def escapedSteps : List Step :=
  [.beginTick true noLag, .endTick false noLag, .advance 60, .beginTick true noLag, .fire, .fire,
    .begin ⟨2, .scheduler, .dispatched⟩, .finish ⟨2, .scheduler, .executing⟩ .returned noLag,
    .begin (slowExecution .dispatched), .finish (slowExecution .executing) .escaped noLag,
    .leave (slowExecution .leaving), .endTick false noLag, .advance 60, .beginTick true noLag, .fire,
    .begin ⟨2, .scheduler, .dispatched⟩, .finish ⟨2, .scheduler, .executing⟩ .returned noLag]

theorem escaped_exception_loses_job :
    ∃ r es, exec (step everyMinute) (boot everyMinute 0 noLag healthRows)
        (escapedSteps ++ [.endTick true noLag]) = some (r, es) ∧
      r.jobs.get? 1 = some ⟨"* * * * *", .healthCheck, true⟩ ∧
      Computable everyMinute "* * * * *" ∧ ¬r.executing 1 ∧ liveEntries r.queue 1 = [] :=
  ⟨_, _, rfl, by decide +kernel, fun _ => rfl, by decide +kernel, by decide +kernel⟩

end PicoSentry.Serve.Scheduler
