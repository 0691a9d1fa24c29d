import PicoSentry.Serve.Scheduler

namespace PicoSentry.Serve.Scheduler

open Foundation

def liveEntries (q : Queue) (job : Nat) : List Event := q.heap.filter fun e => e.job = job

structure Tracked (q : Queue) : Prop where
  recorded : ∀ job events, q.queued.get? job = some events → ∃ e : Event, events = [e] ∧ e.job = job
  single : ∀ job, liveEntries q job = [] ∨ ∃ e, q.queued.get? job = some [e] ∧ liveEntries q job = [e]

def Computable (cfg : Config) (cron : String) : Prop := ∀ clock, (cfg.nextRun cron clock).isSome

def Prompt (cfg : Config) (clock : Int) (lag : Nat → Nat) (jobs : Dict Nat Job) (job : Nat) : Prop :=
  ∀ config ∈ jobs.get? job, ∀ time ∈ cfg.nextRun config.cron clock, clock + lag job < time

instance (cfg : Config) (clock : Int) (lag : Nat → Nat) (jobs : Dict Nat Job) (job : Nat) :
    Decidable (Prompt cfg clock lag jobs job) :=
  inferInstanceAs (Decidable (∀ config ∈ jobs.get? job, ∀ time ∈ cfg.nextRun config.cron clock, _))

theorem enabledJob_of_get? {jobs : Dict Nat Job} {job : Nat} {config : Job}
    (h : jobs.get? job = some config) : enabledJob jobs job = config.enabled := by
  rw [enabledJob, h]
  rfl

section Cancel

variable {q : Queue} {job k : Nat}

theorem Tracked.live_length (h : Tracked q) (job : Nat) : (liveEntries q job).length ≤ 1 := by
  rcases h.single job with hnil | ⟨e,_,hlive⟩
  · rw [hnil]
    exact Nat.zero_le 1
  · rw [hlive]
    exact le_rfl

theorem Tracked.queued_of_live (h : Tracked q) (hlive : liveEntries q job ≠ []) :
    (q.queued.get? job).isSome := by
  rcases h.single job with hnil | ⟨e,hrec,_⟩
  · exact absurd hnil hlive
  · rw [hrec]
    rfl

theorem Tracked.live_eq_nil (h : Tracked q) (hrec : q.queued.get? job = none) :
    liveEntries q job = [] := by
  by_contra hlive
  have hsome := h.queued_of_live hlive
  rw [hrec] at hsome
  cases hsome

theorem Tracked.live_eq_nil_of_fired (h : Tracked q) {e : Event}
    (hrec : q.queued.get? job = some [e]) (hmem : e ∉ q.heap) : liveEntries q job = [] := by
  rcases h.single job with hnil | ⟨e',hrec',hlive⟩
  · exact hnil
  · rw [hrec] at hrec'
    cases hrec'
    have he : e ∈ liveEntries q job := by simp [hlive]
    exact absurd (List.mem_filter.mp he).1 hmem

theorem Tracked.live_eq_singleton (h : Tracked q) {e : Event} (hmem : e ∈ q.heap) :
    liveEntries q e.job = [e] := by
  have he : e ∈ liveEntries q e.job := List.mem_filter.mpr ⟨hmem, by simp⟩
  rcases h.single e.job with hnil | ⟨e',_,hlive⟩
  · rw [hnil] at he
    cases he
  · rw [hlive] at he ⊢
    rw [List.mem_singleton.mp he]

theorem live_erase (q : Queue) (e : Event) (k : Nat) :
    (q.heap.erase e).filter (fun e' => e'.job = k) = (liveEntries q k).erase e := by
  rw [liveEntries, List.erase_filter]

theorem Tracked.live_pop (h : Tracked q) {e : Event} (hmem : e ∈ q.heap) (k : Nat) :
    (liveEntries q k).erase e = if e.job = k then [] else liveEntries q k := by
  split
  · next hk =>
    subst hk
    rw [h.live_eq_singleton hmem]
    simp
  · next hk =>
    apply List.erase_of_not_mem
    intro hin
    have hjob := (List.mem_filter.mp hin).2
    exact hk (by simpa using hjob)

theorem live_cancelQueued (h : Tracked q) (job k : Nat) :
    liveEntries (cancelQueued q job) k = if job = k then [] else liveEntries q k := by
  cases hrec : q.queued.get? job with
  | none =>
    have hsame : (cancelQueued q job).heap = q.heap := by simp [cancelQueued, hrec, cancelEvents]
    rw [liveEntries, hsame, ← liveEntries]
    split
    · next hk =>
      subst hk
      exact h.live_eq_nil hrec
    · rfl
  | some events =>
    obtain ⟨e,rfl,hjob⟩ := h.recorded job events hrec
    by_cases hmem : e ∈ q.heap
    · have hheap : (cancelQueued q job).heap = q.heap.erase e := by
        simp [cancelQueued, hrec, cancelEvents, hmem]
      rw [liveEntries, hheap, live_erase, h.live_pop hmem, hjob]
    · have hheap : (cancelQueued q job).heap = q.heap := by
        simp [cancelQueued, hrec, cancelEvents, hmem]
      rw [liveEntries, hheap, ← liveEntries]
      split
      · next hk =>
        subst hk
        exact h.live_eq_nil_of_fired hrec hmem
      · rfl

theorem get?_cancelQueued (q : Queue) (job k : Nat) :
    (cancelQueued q job).queued.get? k = if job = k then none else q.queued.get? k :=
  Dict.get?_erase q.queued job k

theorem tracked_cancelQueued (h : Tracked q) (job : Nat) : Tracked (cancelQueued q job) := by
  constructor
  · intro k events hrec
    rw [get?_cancelQueued] at hrec
    split at hrec
    · cases hrec
    · exact h.recorded k events hrec
  · intro k
    rw [live_cancelQueued h, get?_cancelQueued]
    split
    · exact .inl rfl
    · exact h.single k

theorem tracked_pop (h : Tracked q) {e : Event} (hmem : e ∈ q.heap) :
    Tracked { q with heap := q.heap.erase e } := by
  refine ⟨h.recorded, ?_⟩
  intro k
  have hlive : liveEntries { q with heap := q.heap.erase e } k =
      if e.job = k then [] else liveEntries q k := (live_erase q e k).trans (h.live_pop hmem k)
  rw [hlive]
  split
  · exact .inl rfl
  · exact h.single k

theorem cancelQueued_foldl (h : Tracked q) (ids : List Nat) :
    Tracked (ids.foldl cancelQueued q) ∧
      ∀ k, liveEntries (ids.foldl cancelQueued q) k = if k ∈ ids then [] else liveEntries q k := by
  induction ids generalizing q with
  | nil => exact ⟨h, fun k => by simp⟩
  | cons id ids ih =>
    obtain ⟨htracked,hlive⟩ := ih (tracked_cancelQueued h id)
    refine ⟨htracked, ?_⟩
    intro k
    rw [List.foldl_cons, hlive, live_cancelQueued h]
    by_cases hk : id = k
    · simp [hk]
    · simp [hk, Ne.symm hk]

theorem tracked_cancelAll (h : Tracked q) :
    Tracked (cancelAll q) ∧ ∀ k, liveEntries (cancelAll q) k = [] := by
  obtain ⟨htracked,hlive⟩ := cancelQueued_foldl h q.queued.keys
  refine ⟨htracked, ?_⟩
  intro k
  rw [cancelAll, hlive]
  split
  · rfl
  · next hk =>
    apply h.live_eq_nil
    cases hget : q.queued.get? k with
    | none => rfl
    | some events => exact absurd (Dict.mem_keys_of_get? hget) hk

end Cancel

section Enter

variable {q : Queue} {job : Nat} {time : Int}

theorem live_enter (hnil : liveEntries q job = []) (k : Nat) :
    liveEntries (enter q time job) k = if job = k then [⟨time, q.nextSequence, job⟩] else liveEntries q k := by
  rw [liveEntries, enter]
  dsimp only
  rw [List.filter_append, ← liveEntries]
  split
  · next hk =>
    subst hk
    rw [hnil]
    simp
  · next hk => simp [hk]

theorem tracked_enter (h : Tracked q) (hnil : liveEntries q job = []) :
    Tracked (enter q time job) := by
  have hget : ∀ k, (enter q time job).queued.get? k =
      if job = k then some [⟨time, q.nextSequence, job⟩] else q.queued.get? k :=
    fun k => Dict.get?_set q.queued job k _
  constructor
  · intro k events hrec
    rw [hget] at hrec
    split at hrec
    · next hk =>
      cases hrec
      exact ⟨_, rfl, hk⟩
    · exact h.recorded k events hrec
  · intro k
    rw [live_enter hnil, hget]
    split
    · exact .inr ⟨_, rfl, rfl⟩
    · exact h.single k

end Enter

section Schedule

variable {cfg : Config} {clock : Int} {lag : Nat → Nat} {jobs : Dict Nat Job} {q : Queue}
  {job k : Nat}

theorem scheduleJob_cases (cfg : Config) (clock : Int) (lag : Nat → Nat) (jobs : Dict Nat Job)
    (q : Queue) (job : Nat) :
    (scheduleJob cfg clock lag jobs q job = q ∧
      ∀ config, jobs.get? job = some config → config.enabled = true →
        cfg.nextRun config.cron clock = none) ∨
    ∃ config time, jobs.get? job = some config ∧ config.enabled = true ∧
      cfg.nextRun config.cron clock = some time ∧
      ((clock + lag job < time ∧
          scheduleJob cfg clock lag jobs q job = enter (cancelQueued q job) time job) ∨
        (¬clock + lag job < time ∧
          scheduleJob cfg clock lag jobs q job = cancelQueued q job)) := by
  cases hget : jobs.get? job with
  | none => exact .inl ⟨by rw [scheduleJob, hget], fun config h => by cases h⟩
  | some config =>
    by_cases henabled : config.enabled = true
    · cases hnext : cfg.nextRun config.cron clock with
      | none =>
        refine .inl ⟨by simp [scheduleJob, hget, henabled, hnext], ?_⟩
        intro config' hconfig _
        cases hconfig
        exact hnext
      | some time =>
        refine .inr ⟨config, time, rfl, henabled, hnext, ?_⟩
        by_cases hlag : clock + lag job < time
        · have hpos : 0 < time - (clock + lag job) := by omega
          exact .inl ⟨hlag, by simp only [scheduleJob, hget, henabled, hnext, if_true, if_pos hpos]⟩
        · have hpos : ¬0 < time - (clock + lag job) := by omega
          exact .inr ⟨hlag, by simp only [scheduleJob, hget, henabled, hnext, if_true, if_neg hpos]⟩
    · refine .inl ⟨by simp [scheduleJob, hget, henabled], ?_⟩
      intro config' hconfig henabled'
      cases hconfig
      exact absurd henabled' henabled

theorem live_cancelQueued_self (h : Tracked q) (job : Nat) : liveEntries (cancelQueued q job) job = [] := by
  rw [live_cancelQueued h, if_pos rfl]

theorem tracked_scheduleJob (h : Tracked q) (job : Nat) :
    Tracked (scheduleJob cfg clock lag jobs q job) := by
  rcases scheduleJob_cases cfg clock lag jobs q job with
    ⟨heq,_⟩ | ⟨_,_,_,_,_,⟨_,heq⟩ | ⟨_,heq⟩⟩
  · rw [heq]
    exact h
  · rw [heq]
    exact tracked_enter (tracked_cancelQueued h job) (live_cancelQueued_self h job)
  · rw [heq]
    exact tracked_cancelQueued h job

theorem live_scheduleJob_of_ne (h : Tracked q) (hne : job ≠ k) :
    liveEntries (scheduleJob cfg clock lag jobs q job) k = liveEntries q k := by
  rcases scheduleJob_cases cfg clock lag jobs q job with
    ⟨heq,_⟩ | ⟨_,_,_,_,_,⟨_,heq⟩ | ⟨_,heq⟩⟩
  · rw [heq]
  · rw [heq, live_enter (live_cancelQueued_self h job), if_neg hne, live_cancelQueued h, if_neg hne]
  · rw [heq, live_cancelQueued h, if_neg hne]

theorem enabled_of_live_scheduleJob (h : Tracked q)
    (hlive : liveEntries (scheduleJob cfg clock lag jobs q job) k ≠ []) :
    liveEntries q k ≠ [] ∨ enabledJob jobs k = true := by
  by_cases hk : job = k
  · subst hk
    rcases scheduleJob_cases cfg clock lag jobs q job with
      ⟨heq,_⟩ | ⟨config,_,hget,henabled,_,_⟩
    · rw [heq] at hlive
      exact .inl hlive
    · exact .inr ((enabledJob_of_get? hget).trans henabled)
  · rw [live_scheduleJob_of_ne h hk] at hlive
    exact .inl hlive

theorem live_scheduleJob_prompt (h : Tracked q) {config : Job} (hget : jobs.get? job = some config)
    (henabled : config.enabled = true) (hcomputable : Computable cfg config.cron)
    (hprompt : Prompt cfg clock lag jobs job) :
    liveEntries (scheduleJob cfg clock lag jobs q job) job ≠ [] := by
  rcases scheduleJob_cases cfg clock lag jobs q job with
    ⟨_,hnone⟩ | ⟨config',time,hget',_,hnext,⟨_,heq⟩ | ⟨hlate,_⟩⟩
  · have hsome := hcomputable clock
    rw [hnone config hget henabled] at hsome
    cases hsome
  · rw [heq, live_enter (live_cancelQueued_self h job), if_pos rfl]
    exact List.cons_ne_nil _ _
  · exact absurd (hprompt config' hget' time hnext) hlate

theorem tracked_scheduleJobs (cfg : Config) (clock : Int) (lag : Nat → Nat) (jobs : Dict Nat Job)
    (h : Tracked q) (ids : List Nat) :
    Tracked (ids.foldl (scheduleJob cfg clock lag jobs) q) ∧
      ∀ k, liveEntries (ids.foldl (scheduleJob cfg clock lag jobs) q) k ≠ [] →
        liveEntries q k ≠ [] ∨ enabledJob jobs k = true := by
  induction ids generalizing q with
  | nil => exact ⟨h, fun k hlive => .inl hlive⟩
  | cons id ids ih =>
    obtain ⟨htracked,hsource⟩ := ih (tracked_scheduleJob h id)
    refine ⟨htracked, ?_⟩
    intro k hlive
    rcases hsource k hlive with hlive | henabled
    · exact enabled_of_live_scheduleJob h hlive
    · exact .inr henabled

theorem live_scheduleJobs (h : Tracked q) {config : Job} (hget : jobs.get? k = some config)
    (henabled : config.enabled = true) (hcomputable : Computable cfg config.cron)
    (hprompt : Prompt cfg clock lag jobs k) {ids : List Nat}
    (hsource : k ∈ ids ∨ liveEntries q k ≠ []) :
    liveEntries (ids.foldl (scheduleJob cfg clock lag jobs) q) k ≠ [] := by
  induction ids generalizing q with
  | nil =>
    rcases hsource with hmem | hlive
    · cases hmem
    · exact hlive
  | cons id ids ih =>
    apply ih (tracked_scheduleJob h id)
    by_cases hk : id = k
    · subst hk
      exact .inr (live_scheduleJob_prompt h hget henabled hcomputable hprompt)
    · rw [live_scheduleJob_of_ne h hk]
      rcases hsource with hmem | hlive
      · rcases List.mem_cons.mp hmem with rfl | hmem
        · exact absurd rfl hk
        · exact .inl hmem
      · exact .inr hlive

theorem tracked_rescheduleAll (h : Tracked q) :
    Tracked (rescheduleAll cfg clock lag jobs q) ∧
      ∀ k, liveEntries (rescheduleAll cfg clock lag jobs q) k ≠ [] →
        enabledJob jobs k = true := by
  obtain ⟨htracked,hempty⟩ := tracked_cancelAll h
  obtain ⟨hscheduled,hsource⟩ :=
    tracked_scheduleJobs cfg clock lag jobs htracked (jobs.keys.filter (enabledJob jobs))
  refine ⟨hscheduled, ?_⟩
  intro k hlive
  rcases hsource k hlive with hlive | henabled
  · exact absurd (hempty k) hlive
  · exact henabled

theorem live_rescheduleAll (h : Tracked q) {config : Job} (hget : jobs.get? k = some config)
    (henabled : config.enabled = true) (hcomputable : Computable cfg config.cron)
    (hprompt : Prompt cfg clock lag jobs k) :
    liveEntries (rescheduleAll cfg clock lag jobs q) k ≠ [] := by
  apply live_scheduleJobs (tracked_cancelAll h).1 hget henabled hcomputable hprompt
  apply Or.inl
  apply List.mem_filter.mpr
  exact ⟨Dict.mem_keys_of_get? hget, (enabledJob_of_get? hget).trans henabled⟩

end Schedule

section Converge

variable {cfg : Config} {clock : Int} {lag : Nat → Nat} {jobs : Dict Nat Job} {q : Queue}

structure Keeps (jobs : Dict Nat Job) (q q' : Queue) : Prop where
  tracked : Tracked q'
  source : ∀ k, liveEntries q' k ≠ [] → liveEntries q k ≠ [] ∨ enabledJob jobs k = true
  kept : ∀ k, enabledJob jobs k = true → liveEntries q k ≠ [] → liveEntries q' k ≠ []

theorem Keeps.refl (h : Tracked q) : Keeps jobs q q :=
  ⟨h, fun _ hlive => .inl hlive, fun _ _ hlive => hlive⟩

theorem Keeps.trans {q' q'' : Queue} (h : Keeps jobs q q') (h' : Keeps jobs q' q'') :
    Keeps jobs q q'' := by
  refine ⟨h'.tracked, ?_, ?_⟩
  · intro k hlive
    rcases h'.source k hlive with hlive | henabled
    · exact h.source k hlive
    · exact .inr henabled
  · intro k henabled hlive
    exact h'.kept k henabled (h.kept k henabled hlive)

theorem Keeps.foldl {f : Queue → Nat → Queue}
    (hf : ∀ q job, Tracked q → Keeps jobs q (f q job)) (h : Tracked q) (ids : List Nat) :
    Keeps jobs q (ids.foldl f q) := by
  induction ids generalizing q with
  | nil => exact Keeps.refl h
  | cons id ids ih => exact (hf q id h).trans (ih (hf q id h).tracked)

theorem keeps_cancelStale (h : Tracked q) : Keeps jobs q (cancelStale jobs q) := by
  apply Keeps.foldl _ h
  intro q job hq
  split
  · exact Keeps.refl hq
  · next hstale =>
    refine ⟨tracked_cancelQueued hq job, ?_, ?_⟩
    · intro k hlive
      rw [live_cancelQueued hq] at hlive
      split at hlive
      · exact absurd rfl hlive
      · exact .inl hlive
    · intro k henabled hlive
      rw [live_cancelQueued hq]
      split
      · next hk =>
        subst hk
        exact absurd henabled hstale
      · exact hlive

theorem keeps_scheduleMissing (h : Tracked q) (job : Nat) :
    Keeps jobs q (scheduleMissing cfg clock lag jobs q job) := by
  rw [scheduleMissing]
  split
  · next hmissing =>
    rw [Bool.and_eq_true, Option.isNone_iff_eq_none] at hmissing
    refine ⟨tracked_scheduleJob h job, fun k hlive => enabled_of_live_scheduleJob h hlive, ?_⟩
    intro k _ hlive
    have hne : job ≠ k := by
      rintro rfl
      exact hlive (h.live_eq_nil hmissing.2)
    rw [live_scheduleJob_of_ne h hne]
    exact hlive
  · exact Keeps.refl h

theorem keeps_convergeJobs (h : Tracked q) : Keeps jobs q (convergeJobs cfg clock lag jobs q) := by
  have hstale : Keeps jobs q (cancelStale jobs q) := keeps_cancelStale h
  apply hstale.trans
  apply Keeps.foldl _ hstale.tracked
  intro q job hq
  exact keeps_scheduleMissing hq job

end Converge

end PicoSentry.Serve.Scheduler
