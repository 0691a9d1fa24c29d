import PicoSentry.Serve.SchedulerLease

namespace PicoSentry.Serve.SchedulerLease

open Foundation.Run

def Worker.active (w : Worker) : Bool := w.phase.active

def Worker.leading (w : Worker) : Prop := w.leader = true ∨ w.phase = .inside

def Exclusive (s : State) : Step → Prop
  | .tryAcquire worker false =>
    ∀ w ∈ s.workers[worker]?, ∀ now ∈ w.phase.readTime, acquires s worker now = true →
      (∀ holder ∈ s.holder, ∀ v ∈ s.workers[holder]?, holder ≠ worker → v.active = false) ∧
      (w.leader = true → s.holder = some worker)
  | .release worker false =>
    s.holder = some worker → ∀ w ∈ s.workers[worker]?, w.active = false
  | _ => True

def Booted (s : State) : Prop := ∀ w ∈ s.workers, w.phase = .sleeping ∧ w.leader = false

instance (s : State) : Decidable (Booted s) := inferInstanceAs (Decidable (∀ w ∈ s.workers, _))

def Worker.claims (w : Worker) : Prop := w.active = true ∨ w.leader = true ∧ w.phase ≠ .dead

def Timely (cfg : Config) (s : State) : Step → Prop
  | .advance duration => ∀ w ∈ s.workers, w.claims → s.clock + duration ≤ s.expiresAt
  | .tryAcquire worker false =>
    ∀ w ∈ s.workers[worker]?, ∀ now ∈ w.phase.readTime, s.clock ≤ now + cfg.leaseTtl
  | .release worker false => ∀ w ∈ s.workers[worker]?, w.active = false
  | _ => True

instance decidableExclusive (s : State) : ∀ l, Decidable (Exclusive s l)
  | .tryAcquire worker false => inferInstanceAs (Decidable (∀ w ∈ s.workers[worker]?, _))
  | .release worker false => inferInstanceAs (Decidable (s.holder = some worker → _))
  | .tryAcquire _ true => isTrue trivial
  | .release _ true => isTrue trivial
  | .advance _ => isTrue trivial
  | .readClock _ => isTrue trivial
  | .settle _ _ => isTrue trivial
  | .dispatch _ _ => isTrue trivial
  | .finishRun _ => isTrue trivial
  | .crash _ => isTrue trivial
  | .schedule _ _ _ => isTrue trivial
  | .cancel _ _ => isTrue trivial
  | .start _ _ => isTrue trivial
  | .requestStop _ => isTrue trivial

section Invariant

variable {cfg : Config} {s : State} {es : List Dispatch} {worker : Nat} {w : Worker}

structure Led (es : List Dispatch) (s : State) : Prop where
  held : ∀ (i : Nat) (w : Worker), s.workers[i]? = some w → w.active = true → s.holder = some i
  past : ∀ d ∈ es, d.occurrence ≤ s.clock
  ahead : ∀ (i : Nat) (w : Worker), s.workers[i]? = some w → w.leading → s.holder = some i →
    ∀ e ∈ w.queue, ∀ d ∈ es, d.worker ≠ i → d.occurrence < e.time
  once : ∀ d ∈ es, ∀ d' ∈ es, d.job = d'.job → d.occurrence = d'.occurrence → d.worker = d'.worker

theorem getElem?_setWorker (hw : s.workers[worker]? = some w) (w' : Worker) (i : Nat) :
    (s.setWorker worker w').workers[i]? = if worker = i then some w' else s.workers[i]? :=
  getElem?_set_of_some hw w' i

theorem Led.setWorker (h : Led es s) (hw : s.workers[worker]? = some w) {w' : Worker}
    (hactive : w'.active = true → s.holder = some worker)
    (hqueue : w'.leading → s.holder = some worker →
      ∀ e ∈ w'.queue, (w.leading ∧ e ∈ w.queue) ∨ s.clock < e.time) :
    Led es (s.setWorker worker w') := by
  refine ⟨?_, h.past, ?_, h.once⟩
  · intro i v hv hact
    rw [getElem?_setWorker hw] at hv
    split at hv
    · next hi =>
      cases hv
      rw [← hi]
      exact hactive hact
    · exact h.held i v hv hact
  · intro i v hv hlead hhold e he d hd hne
    rw [getElem?_setWorker hw] at hv
    split at hv
    · next hi =>
      cases hv
      subst hi
      rcases hqueue hlead hhold e he with ⟨hold,hmem⟩ | hlt
      · exact h.ahead worker w hw hold hhold e hmem d hd hne
      · exact (h.past d hd).trans_lt hlt
    · exact h.ahead i v hv hlead hhold e he d hd hne

theorem Led.setIdle (h : Led es s) (hw : s.workers[worker]? = some w) {w' : Worker}
    (hphase : w'.phase.active = false) (hlead : w'.leader = w.leader) (hqueue : w'.queue = w.queue) :
    Led es (s.setWorker worker w') := by
  refine h.setWorker hw ?_ ?_
  · intro hact
    rw [Worker.active, hphase] at hact
    cases hact
  · intro hlead' _ e he
    rw [hqueue] at he
    rcases hlead' with hlead' | hin
    · exact .inl ⟨.inl (hlead.symm.trans hlead'), he⟩
    · rw [hin] at hphase
      cases hphase

theorem Led.setQueue (h : Led es s) (hw : s.workers[worker]? = some w) {queue : List Entry}
    {running : Bool} (hqueue : ∀ e ∈ queue, e ∈ w.queue ∨ s.clock < e.time) :
    Led es (s.setWorker worker { w with running := running, queue := queue }) := by
  refine h.setWorker hw (h.held worker w hw) ?_
  intro hlead _ e he
  rcases hqueue e he with he | he
  · exact .inl ⟨hlead, he⟩
  · exact .inr he

theorem Led.standDown (h : Led es s) (hw : s.workers[worker]? = some w) :
    Led es (s.setWorker worker { w with leader := false }) := by
  refine h.setWorker hw (h.held worker w hw) ?_
  intro hlead _ e he
  rcases hlead with hlead | hin
  · cases hlead
  · exact .inl ⟨.inr hin, he⟩

theorem Led.start (h : Led es s) (hw : s.workers[worker]? = some w) {w' : Worker}
    (hphase : w'.phase = .sleeping) (hlead : w'.leader = false) :
    Led es (s.setWorker worker w') := by
  apply h.setWorker hw
  · intro hact
    rw [Worker.active, hphase] at hact
    cases hact
  · intro hlead'
    rcases hlead' with hlead' | hin
    · exact absurd (hlead.symm.trans hlead') Bool.noConfusion
    · exact absurd (hphase.symm.trans hin) Phase.noConfusion

theorem Led.advance (h : Led es s) (duration : Nat) :
    Led es { s with clock := s.clock + duration } := by
  refine ⟨h.held, ?_, h.ahead, h.once⟩
  intro d hd
  have hle := h.past d hd
  have hnat : (0 : Int) ≤ duration := Int.natCast_nonneg duration
  change d.occurrence ≤ s.clock + duration
  omega

theorem Led.acquire (h : Led es s) (hw : s.workers[worker]? = some w)
    (hidle : ∀ holder ∈ s.holder, ∀ v ∈ s.workers[holder]?, holder ≠ worker → v.active = false)
    (hterm : w.leader = true → s.holder = some worker) (expiresAt : Int) :
    Led es { s.setWorker worker { w with phase := .decided true } with
      holder := some worker
      expiresAt := expiresAt } := by
  have hget : ∀ i, (s.workers.set worker { w with phase := .decided true })[i]? =
      if worker = i then some { w with phase := .decided true } else s.workers[i]? :=
    getElem?_setWorker hw _
  refine ⟨?_, h.past, ?_, h.once⟩
  · intro i v hv hact
    have hv' := (hget i).symm.trans hv
    split at hv'
    · next hi => rw [hi]
    · next hi =>
      have hhold := h.held i v hv' hact
      have hfalse := hidle i hhold v hv' (Ne.symm hi)
      rw [hact] at hfalse
      cases hfalse
  · intro i v hv hlead hhold e he d hd hne
    have hv' := (hget i).symm.trans hv
    cases hhold
    rw [if_pos rfl] at hv'
    cases hv'
    rcases hlead with hlead | hin
    · exact h.ahead worker w hw (.inl hlead) (hterm hlead) e he d hd hne
    · cases hin

theorem Led.settle (h : Led es s) (hw : s.workers[worker]? = some w) {leader : Bool}
    (hphase : w.phase = .decided leader) (jobs : List (Nat × String)) :
    Led es (s.setWorker worker (settleWorker cfg s.clock w leader jobs)) := by
  apply h.setWorker hw
  · intro hact
    apply h.held worker w hw
    rw [Worker.active, hphase]
    cases leader with
    | true => rfl
    | false => cases hact
  · intro hlead _ e he
    have hleader : leader = true := by
      rcases hlead with hlead | hin
      · exact hlead
      · cases leader with
        | true => rfl
        | false => cases hin
    subst hleader
    rw [settleWorker] at he
    dsimp only at he
    split at he
    · next heq => exact .inl ⟨.inl heq.symm, he⟩
    · exact .inr (mem_rescheduleAll he)

theorem Led.dispatch (h : Led es s) (hw : s.workers[worker]? = some w) (hin : w.phase = .inside)
    {job : Nat} {entry : Entry} (hdue : due s w job = some entry) :
    Led (es ++ [⟨worker, job, entry.time⟩])
      (s.setWorker worker { w with queue := w.queue.erase entry }) := by
  have hhold : s.holder = some worker := h.held worker w hw (by rw [Worker.active, hin]; rfl)
  have hmem := List.mem_of_find?_eq_some hdue
  have hcond := List.find?_some hdue
  have hpast : entry.time ≤ s.clock := by
    simp only [Bool.and_eq_true, decide_eq_true_eq] at hcond
    exact hcond.1.2
  have hset : Led es (s.setWorker worker { w with queue := w.queue.erase entry }) := by
    apply h.setQueue hw
    intro e he
    exact .inl (List.mem_of_mem_erase he)
  have hnew : ∀ d ∈ es, d.occurrence = entry.time → d.worker = worker := by
    intro d hd heq
    by_contra hne
    have hlt := h.ahead worker w hw (.inr hin) hhold entry hmem d hd hne
    omega
  refine ⟨hset.held, ?_, ?_, ?_⟩
  · intro d hd
    rcases List.mem_append.mp hd with hd | hd
    · exact h.past d hd
    · rw [List.mem_singleton.mp hd]
      exact hpast
  · intro i v hv hlead hholdv e he d hd hne
    rcases List.mem_append.mp hd with hd | hd
    · exact hset.ahead i v hv hlead hholdv e he d hd hne
    · have hi : i = worker := Option.some.inj (hholdv.symm.trans hhold)
      rw [List.mem_singleton.mp hd] at hne
      exact absurd hi.symm hne
  · intro d hd d' hd' hjob hocc
    rcases List.mem_append.mp hd with hd | hd <;> rcases List.mem_append.mp hd' with hd' | hd'
    · exact h.once d hd d' hd' hjob hocc
    · rw [List.mem_singleton.mp hd'] at hocc ⊢
      exact hnew d hd hocc
    · rw [List.mem_singleton.mp hd] at hocc ⊢
      exact (hnew d' hd' hocc.symm).symm
    · rw [List.mem_singleton.mp hd, List.mem_singleton.mp hd']

theorem Led.vacate (h : Led es s) (hidle : ∀ (i : Nat) (v : Worker), s.workers[i]? = some v →
      v.active = false) (expiresAt : Int) :
    Led es { s with holder := none, expiresAt := expiresAt } := by
  refine ⟨?_, h.past, ?_, h.once⟩
  · intro i v hv hact
    exact absurd (hact.symm.trans (hidle i v hv)) Bool.noConfusion
  · intro i v hv hlead hhold
    cases hhold

theorem Led.release (h : Led es s) (hw : s.workers[worker]? = some w) (hidle : w.active = false)
    (hhold : s.holder = some worker) (expiresAt : Int) :
    Led es { s.setWorker worker { w with leader := false } with
      holder := none
      expiresAt := expiresAt } := by
  apply (h.standDown hw).vacate
  intro i v hv
  rw [getElem?_setWorker hw] at hv
  split at hv
  · cases hv
    exact hidle
  · next hne =>
    cases hact : v.active with
    | false => rfl
    | true =>
      have hi := h.held i v hv hact
      rw [hhold] at hi
      exact absurd (Option.some.inj hi) hne

end Invariant

section Steps

variable {cfg : Config} {s s' : State} {es past : List Dispatch}

theorem led_step (l : Step) (h : Led past s) (hcond : Exclusive s l)
    (hstep : step cfg s l = some (s', es)) : Led (past ++ es) s' := by
  cases moved_of_step l hstep with
  | advanced duration =>
    rw [List.append_nil]
    exact h.advance duration
  | acquired hw hnow hacq =>
    obtain ⟨hidle,hterm⟩ := hcond _ hw _ hnow hacq
    rw [List.append_nil]
    exact h.acquire hw hidle hterm _
  | settled hw hphase jobs =>
    rw [List.append_nil]
    exact h.settle hw hphase jobs
  | dispatched hw hin hdue => exact h.dispatch hw hin hdue
  | released hw hhold =>
    rw [List.append_nil]
    exact h.release hw (hcond hhold _ hw) hhold _
  | stoodDown hw fails =>
    rw [List.append_nil]
    exact h.standDown hw
  | idled hw hphase _ _ hlead hqueue =>
    rw [List.append_nil]
    exact h.setIdle hw hphase hlead hqueue
  | requeued hw hqueue =>
    rw [List.append_nil]
    exact h.setQueue hw hqueue
  | started hw hphase hlead =>
    rw [List.append_nil]
    exact h.start hw hphase hlead

theorem Booted.led (h : Booted s) : Led [] s := by
  refine ⟨?_, by simp, ?_, by simp⟩
  · intro i w hw hact
    have hsleep := (h w (List.mem_of_getElem? hw)).1
    rw [Worker.active, hsleep] at hact
    cases hact
  · intro i w hw hlead hhold e he d hd
    cases hd

theorem Led.inside_unique (h : Led es s) {i j : Nat} {v w : Worker} (hv : s.workers[i]? = some v)
    (hw : s.workers[j]? = some w) (hvin : v.phase = .inside) (hwin : w.phase = .inside) : i = j := by
  have hi := h.held i v hv (by rw [Worker.active, hvin]; rfl)
  have hj := h.held j w hw (by rw [Worker.active, hwin]; rfl)
  exact Option.some.inj (hi.symm.trans hj)

end Steps

section Renewal

variable {cfg : Config} {s s' : State} {worker : Nat} {w w' : Worker}

structure Renewed (s : State) : Prop where
  read : ∀ (i : Nat) (w : Worker), s.workers[i]? = some w → ∀ now ∈ w.phase.readTime, now ≤ s.clock
  held : ∀ (i : Nat) (w : Worker), s.workers[i]? = some w → w.claims →
    s.holder = some i ∧ s.clock ≤ s.expiresAt

theorem Booted.renewed (h : Booted s) : Renewed s := by
  refine ⟨?_, ?_⟩
  · intro i w hw now hnow
    rw [(h w (List.mem_of_getElem? hw)).1] at hnow
    cases hnow
  · intro i w hw hclaims
    obtain ⟨hsleep,hlead⟩ := h w (List.mem_of_getElem? hw)
    rcases hclaims with hact | hlead'
    · rw [Worker.active, hsleep] at hact
      cases hact
    · exact absurd (hlead.symm.trans hlead'.1) Bool.noConfusion

theorem Renewed.setWorker (h : Renewed s) (hw : s.workers[worker]? = some w)
    (hread : ∀ now ∈ w'.phase.readTime, now ≤ s.clock) (hclaims : w'.claims → w.claims) :
    Renewed (s.setWorker worker w') := by
  refine ⟨?_, ?_⟩
  · intro i v hv
    rw [getElem?_setWorker hw] at hv
    split at hv
    · cases hv
      exact hread
    · exact h.read i v hv
  · intro i v hv hc
    rw [getElem?_setWorker hw] at hv
    split at hv
    · next hi =>
      cases hv
      rw [← hi]
      exact h.held worker w hw (hclaims hc)
    · exact h.held i v hv hc

theorem Renewed.standDown (h : Renewed s) (hw : s.workers[worker]? = some w) :
    Renewed (s.setWorker worker { w with leader := false }) := by
  refine h.setWorker hw (h.read worker w hw) ?_
  intro hclaims
  rcases hclaims with hact | hclaims
  · exact .inl hact
  · cases hclaims.1

theorem Renewed.vacate (h : Renewed (s.setWorker worker { w with leader := false }))
    (hw : s.workers[worker]? = some w) (hidle : w.active = false) (hhold : s.holder = some worker) :
    Renewed { s.setWorker worker { w with leader := false } with
      holder := none
      expiresAt := s.clock - 1 } := by
  refine ⟨h.read, ?_⟩
  intro i v hv hclaims
  have hi := (h.held i v hv hclaims).1
  have hv' : (s.setWorker worker { w with leader := false }).workers[i]? = some v := hv
  rw [getElem?_setWorker hw, if_pos (Option.some.inj (hhold.symm.trans hi))] at hv'
  cases hv'
  rcases hclaims with hact | hclaims
  · exact absurd (hact.symm.trans hidle) Bool.noConfusion
  · cases hclaims.1

theorem Renewed.advance (h : Renewed s) {duration : Nat}
    (hcond : ∀ w ∈ s.workers, w.claims → s.clock + duration ≤ s.expiresAt) :
    Renewed { s with clock := s.clock + duration } := by
  have hnat : (0 : Int) ≤ duration := Int.natCast_nonneg duration
  refine ⟨?_, ?_⟩
  · intro i w hw now hnow
    have hle := h.read i w hw now hnow
    change now ≤ s.clock + duration
    omega
  · intro i w hw hclaims
    exact ⟨(h.held i w hw hclaims).1, hcond w (List.mem_of_getElem? hw) hclaims⟩

-- The WHERE clause of the lease UPDATE lets nobody past a holder that renewed in time.
theorem Renewed.holder_of_acquires (h : Renewed s) (hw : s.workers[worker]? = some w) {now : Int}
    (hnow : now ∈ w.phase.readTime) (hacq : acquires s worker now = true) {i : Nat} {v : Worker}
    (hv : s.workers[i]? = some v) (hclaims : v.claims) : i = worker := by
  obtain ⟨hhold,hfresh⟩ := h.held i v hv hclaims
  have hread := h.read worker w hw now hnow
  rw [acquires, Bool.or_eq_true, decide_eq_true_eq, decide_eq_true_eq] at hacq
  rcases hacq with hacq | hacq
  · exact Option.some.inj (hhold.symm.trans hacq)
  · omega

theorem Renewed.acquire (h : Renewed s) (hw : s.workers[worker]? = some w) {now : Int}
    (hnow : now ∈ w.phase.readTime) (hacq : acquires s worker now = true)
    (htimely : s.clock ≤ now + cfg.leaseTtl) :
    Renewed { s.setWorker worker { w with phase := .decided true } with
      holder := some worker
      expiresAt := now + cfg.leaseTtl } := by
  have hget : ∀ i, (s.workers.set worker { w with phase := .decided true })[i]? =
      if worker = i then some { w with phase := .decided true } else s.workers[i]? :=
    getElem?_setWorker hw _
  refine ⟨?_, ?_⟩
  · intro i v hv
    have hv' := (hget i).symm.trans hv
    split at hv'
    · cases hv'
      intro now hnow
      cases hnow
    · exact h.read i v hv'
  · intro i v hv hclaims
    have hv' := (hget i).symm.trans hv
    split at hv'
    · next hi => exact ⟨by rw [hi], htimely⟩
    · next hi => exact absurd (h.holder_of_acquires hw hnow hacq hv' hclaims).symm hi

theorem Renewed.exclusive (h : Renewed s) {l : Step} (hcond : Timely cfg s l) : Exclusive s l := by
  cases l with
  | tryAcquire worker fails =>
    cases fails with
    | true => trivial
    | false =>
      intro w hw now hnow hacq
      refine ⟨?_, ?_⟩
      · intro i _ v hv hne
        cases hact : v.active with
        | false => rfl
        | true => exact absurd (h.holder_of_acquires hw hnow hacq hv (.inl hact)) hne
      · intro hlead
        have halive : w.phase ≠ .dead := by
          intro hdead
          rw [hdead] at hnow
          cases hnow
        exact (h.held worker w hw (.inr ⟨hlead, halive⟩)).1
  | release worker fails =>
    cases fails with
    | true => trivial
    | false =>
      intro _
      exact hcond
  | _ => trivial

theorem claims_settleWorker {leader : Bool} {jobs : List (Nat × String)} {now : Int}
    (hphase : w.phase = .decided leader) (h : (settleWorker cfg now w leader jobs).claims) :
    w.claims := by
  cases leader with
  | true => exact .inl (by rw [Worker.active, hphase]; rfl)
  | false =>
    rcases h with h | h
    · cases h
    · cases h.1

theorem renewed_step {es : List Dispatch} (l : Step) (h : Renewed s) (hcond : Timely cfg s l)
    (hstep : step cfg s l = some (s', es)) : Renewed s' := by
  cases moved_of_step l hstep with
  | advanced duration => exact h.advance hcond
  | acquired hw hnow hacq => exact h.acquire hw hnow hacq (hcond _ hw _ hnow)
  | settled hw hphase jobs =>
    apply h.setWorker hw
    · intro now hnow
      rw [settleWorker] at hnow
      dsimp only at hnow
      split at hnow <;> cases hnow
    · exact claims_settleWorker hphase
  | dispatched hw hin hdue => exact h.setWorker hw (fun now hnow => h.read _ _ hw now hnow) id
  | released hw hhold => exact (h.standDown hw).vacate hw (hcond _ hw) hhold
  | stoodDown hw fails => exact h.standDown hw
  | idled hw hphase hread halive hlead hqueue =>
    apply h.setWorker hw hread
    intro hclaims
    rcases hclaims with hact | hclaims
    · exact absurd (hact.symm.trans hphase) Bool.noConfusion
    · exact .inr ⟨hlead.symm.trans hclaims.1, halive hclaims.2⟩
  | requeued hw hqueue => exact h.setWorker hw (fun now hnow => h.read _ _ hw now hnow) id
  | started hw hphase hlead =>
    apply h.setWorker hw
    · intro now hnow
      rw [hphase] at hnow
      cases hnow
    · intro hclaims
      rcases hclaims with hact | hclaims
      · rw [Worker.active, hphase] at hact
        cases hact
      · exact absurd (hlead.symm.trans hclaims.1) Bool.noConfusion

theorem exclusive_of_timely {ls : List Step} (hboot : Booted s)
    (h : Meets (step cfg) (Timely cfg) s ls) : Meets (step cfg) Exclusive s ls :=
  Meets.of_invariant (fun _ l _ _ hinv hcond hstep => renewed_step l hinv hcond hstep)
    (fun _ _ hinv hcond => hinv.exclusive hcond) hboot.renewed h

end Renewal

theorem one_worker_inside_run (cfg : Config) {s r : State} {ls : List Step} {es : List Dispatch}
    (hboot : Booted s) (hmeets : Meets (step cfg) Exclusive s ls)
    (hrun : exec (step cfg) s ls = some (r, es)) :
    (∀ (i j : Nat) (v w : Worker), r.workers[i]? = some v → r.workers[j]? = some w →
      v.phase = .inside → w.phase = .inside → i = j) ∧
    ∀ d ∈ es, ∀ d' ∈ es, d.job = d'.job → d.occurrence = d'.occurrence → d.worker = d'.worker := by
  have hled : Led es r := exec_invariant
    (fun _ _ l _ _ h hcond hstep => led_step l h hcond hstep) [] hboot.led hmeets hrun
  refine ⟨?_, hled.once⟩
  intro i j v w hv hw hvin hwin
  exact hled.inside_unique hv hw hvin hwin

def minuteCrons : Config where
  leaseTtl := 15
  nextRun cron now :=
    if cron = "*/2 * * * *" then some ((now / 120 + 1) * 120) else some ((now / 60 + 1) * 60)

def twoWorkers : State := ⟨0, none, -1, [{}, {}]⟩

def everyMinute : Nat × String := (7, "* * * * *")

def everySecondMinute : Nat × String := (9, "*/2 * * * *")

def leaderTick (worker : Nat) (jobs : List (Nat × String)) : List Step :=
  [.readClock worker, .tryAcquire worker false, .settle worker jobs]

def handoverSteps : List Step :=
  leaderTick 0 [everyMinute, everySecondMinute] ++
    [.finishRun 0, .readClock 1, .tryAcquire 1 false, .settle 1 [], .advance 60] ++
    leaderTick 0 [] ++
    [.dispatch 0 7, .schedule 0 7 "* * * * *", .finishRun 0, .requestStop 0, .release 0 false,
      .advance 1] ++
    leaderTick 1 [everyMinute, everySecondMinute] ++ [.finishRun 1, .advance 59] ++
    leaderTick 1 [] ++ [.dispatch 1 7, .dispatch 1 9]

theorem one_worker_inside_run_handover :
    Booted twoWorkers ∧ Meets (step minuteCrons) Exclusive twoWorkers handoverSteps ∧
      ∃ r es, exec (step minuteCrons) twoWorkers handoverSteps = some (r, es) ∧
        es = [⟨0, 7, 60⟩, ⟨1, 7, 120⟩, ⟨1, 9, 120⟩] ∧
        (∀ (i j : Nat) (v w : Worker), r.workers[i]? = some v → r.workers[j]? = some w →
          v.phase = .inside → w.phase = .inside → i = j) ∧
        ∀ d ∈ es, ∀ d' ∈ es, d.job = d'.job → d.occurrence = d'.occurrence →
          d.worker = d'.worker := by
  have hboot : Booted twoWorkers := by decide
  have hmeets : Meets (step minuteCrons) Exclusive twoWorkers handoverSteps := by decide +kernel
  refine ⟨hboot, hmeets, _, _, rfl, by decide +kernel, ?_⟩
  exact one_worker_inside_run minuteCrons hboot hmeets rfl

def takeoverSteps : List Step :=
  leaderTick 0 [everyMinute, everySecondMinute] ++ [.finishRun 0, .advance 60] ++
    leaderTick 0 [] ++ [.dispatch 0 7, .advance 20] ++
    leaderTick 1 [everyMinute, everySecondMinute]

def afterTakeoverSteps : List Step :=
  [.finishRun 1, .advance 40] ++ leaderTick 1 [] ++
    [.dispatch 1 7, .dispatch 1 9, .schedule 0 7 "* * * * *", .dispatch 0 9]

theorem long_job_outlives_lease :
    Booted twoWorkers ∧
    (∃ r es, exec (step minuteCrons) twoWorkers takeoverSteps = some (r, es) ∧
      r.workers.map Worker.phase = [.inside, .inside]) ∧
    ∃ r es, exec (step minuteCrons) twoWorkers (takeoverSteps ++ afterTakeoverSteps) = some (r, es) ∧
      es = [⟨0, 7, 60⟩, ⟨1, 7, 120⟩, ⟨1, 9, 120⟩, ⟨0, 9, 120⟩] :=
  ⟨by decide, ⟨_, _, rfl, by decide +kernel⟩, ⟨_, _, rfl, by decide +kernel⟩⟩

end PicoSentry.Serve.SchedulerLease
