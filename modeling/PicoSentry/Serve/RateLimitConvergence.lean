import Mathlib.Tactic.Linarith
import PicoSentry.Serve.RateLimitMerge

namespace PicoSentry.Serve.RateLimit

open Foundation
open Foundation.Run

def madeIn (es : List Made) (k : Key) (t : ℚ) : Prop := ∃ m ∈ es, m.key = k ∧ m.time = t

def times (es : List Made) (k : Key) : List ℚ := (es.filter fun m => m.key = k).map Made.time

def inWindow (cfg : Config) (clock : ℚ) (ts : List ℚ) : List ℚ :=
  ts.filter fun t => clock - cfg.window < t

def Spares (cfg : Config) (clock now : ℚ) (w : Worker) : Prop :=
  ∀ type ∈ [BucketType.ip, .org], ∀ key ∈ (w.counters type).keys,
    inWindow cfg clock (bucket w.counters (type, key)) ≠ [] →
      (((evictIfNeeded cfg now w).counters type).get? key).isSome

def EndsLive (cfg : Config) (clock : ℚ) (w : Worker) : Prop :=
  ∀ type ∈ [BucketType.ip, .org], ∀ key ∈ (w.counters type).keys,
    inWindow cfg clock (bucket w.counters (type, key)) ≠ [] →
      clock - cfg.window < lastTime (bucket w.counters (type, key))

def Stage.batch : Stage → List (Key × List ℚ)
  | .snapped snap _ => snapRows snap
  | _ => []

def Lossless (cfg : Config) (s : State) : Step → Prop
  | .request worker k now =>
    (∀ w ∈ s.workers, now ∉ bucket w.counters k) ∧
      ∀ w ∈ s.workers[worker]?, Spares cfg s.clock now w
  | .snapshot worker =>
    ∀ w ∈ s.workers[worker]?, Spares cfg s.clock s.clock w ∧ EndsLive cfg s.clock w
  | .transact worker false => ∀ w ∈ s.workers[worker]?, w.stage.batch.length ≤ flushBatch
  | _ => True

instance (cfg : Config) (clock now : ℚ) (w : Worker) : Decidable (Spares cfg clock now w) :=
  inferInstanceAs (Decidable (∀ type ∈ [BucketType.ip, .org], ∀ key ∈ (w.counters type).keys, _))

instance (cfg : Config) (clock : ℚ) (w : Worker) : Decidable (EndsLive cfg clock w) :=
  inferInstanceAs (Decidable (∀ type ∈ [BucketType.ip, .org], ∀ key ∈ (w.counters type).keys, _))

instance decidableLossless (cfg : Config) (s : State) : ∀ l, Decidable (Lossless cfg s l)
  | .request _ _ _ => inferInstanceAs (Decidable (_ ∧ _))
  | .snapshot worker => inferInstanceAs (Decidable (∀ w ∈ s.workers[worker]?, _))
  | .transact worker false => inferInstanceAs (Decidable (∀ w ∈ s.workers[worker]?, _))
  | .transact _ true => isTrue trivial
  | .advance _ => isTrue trivial
  | .join => isTrue trivial
  | .readTable _ _ => isTrue trivial
  | .merge _ => isTrue trivial

section Inversion

variable {cfg : Config} {s s' : State} {es : List Made}

inductive Moved (cfg : Config) (s : State) : Step → State → List Made → Prop where
  | advanced (duration : ℚ≥0) :
    Moved cfg s (.advance duration) { s with clock := s.clock + duration } []
  | joined :
    Moved cfg s .join { s with
      workers := s.workers ++
        [⟨restoreRows (s.clock - cfg.window) (fun _ => []) s.table, s.clock, .idle⟩] } []
  | requested {worker : Nat} {w : Worker} {k : Key} {now : ℚ}
    (hw : s.workers[worker]? = some w) (hnow : now ≤ s.clock) :
    Moved cfg s (.request worker k now) (s.setWorker worker (recordAndCheck cfg k now w).1)
      [⟨worker, k, now⟩]
  | snapped {worker : Nat} {w : Worker} (hw : s.workers[worker]? = some w)
    (hstage : w.stage = .idle) :
    Moved cfg s (.snapshot worker) (s.setWorker worker { evictIfNeeded cfg s.clock w with
      stage := .snapped (liveBuckets cfg s.clock (evictIfNeeded cfg s.clock w).counters) s.clock }) []
  | transacted {worker : Nat} {w : Worker} {snap : Counters} {now : ℚ} (fails : Bool)
    (hw : s.workers[worker]? = some w) (hstage : w.stage = .snapped snap now) :
    Moved cfg s (.transact worker fails) { s.setWorker worker { w with stage := .flushed now } with
      table := if fails then s.table
        else flushRows (now - cfg.window) 0 s.table (snapRows snap) } []
  | tableRead {worker : Nat} {w : Worker} {now : ℚ} (fails : Bool)
    (hw : s.workers[worker]? = some w) (hstage : w.stage = .flushed now) :
    Moved cfg s (.readTable worker fails)
      (s.setWorker worker { w with stage := if fails then .idle else .read s.table now }) []
  | merged {worker : Nat} {w : Worker} {rows : Table} {now : ℚ}
    (hw : s.workers[worker]? = some w) (hstage : w.stage = .read rows now) :
    Moved cfg s (.merge worker) (s.setWorker worker
      { w with counters := syncRows (now - cfg.window) w.counters rows, stage := .idle }) []

theorem moved_of_step (l : Step) (hstep : step cfg s l = some (s', es)) : Moved cfg s l s' es := by
  cases l with
  | advance duration =>
    cases hstep
    exact .advanced duration
  | join =>
    cases hstep
    exact .joined
  | request worker k now =>
    obtain ⟨w,hw,hstep⟩ := Option.bind_eq_some_iff.mp hstep
    split at hstep
    · next hnow =>
      cases hstep
      exact .requested hw hnow
    · cases hstep
  | snapshot worker =>
    obtain ⟨w,hw,hstep⟩ := Option.bind_eq_some_iff.mp hstep
    split at hstep
    · next hstage =>
      cases hstep
      exact .snapped hw hstage
    · cases hstep
  | transact worker fails =>
    obtain ⟨w,hw,hstep⟩ := Option.bind_eq_some_iff.mp hstep
    split at hstep
    · next hstage =>
      cases hstep
      exact .transacted fails hw hstage
    · cases hstep
  | readTable worker fails =>
    obtain ⟨w,hw,hstep⟩ := Option.bind_eq_some_iff.mp hstep
    split at hstep
    · next hstage =>
      cases hstep
      exact .tableRead fails hw hstage
    · cases hstep
  | merge worker =>
    obtain ⟨w,hw,hstep⟩ := Option.bind_eq_some_iff.mp hstep
    split at hstep
    · next hstage =>
      cases hstep
      exact .merged hw hstage
    · cases hstep

theorem getElem?_setWorker {worker : Nat} {w : Worker} (hw : s.workers[worker]? = some w)
    (w' : Worker) (i : Nat) :
    (s.setWorker worker w').workers[i]? = if worker = i then some w' else s.workers[i]? :=
  getElem?_set_of_some hw w' i

theorem getElem?_joined {workers : List Worker} {v w : Worker} {i : Nat}
    (h : (workers ++ [v])[i]? = some w) : workers[i]? = some w ∨ w = v := by
  by_cases hi : i < workers.length
  · rw [List.getElem?_append_left hi] at h
    exact .inl h
  · rw [List.getElem?_append_right (Nat.le_of_not_lt hi)] at h
    obtain ⟨_,heq⟩ := List.getElem?_eq_some_iff.mp h
    simp only [List.getElem_singleton] at heq
    exact .inr heq.symm

theorem mem_setWorker {worker : Nat} {w v : Worker} (h : v ∈ (s.setWorker worker w).workers) :
    v ∈ s.workers ∨ v = w :=
  List.mem_or_eq_of_mem_set h

end Inversion

section Holding

variable {cfg : Config} {s s' : State} {es : List Made} {i : Nat} {k : Key} {t : ℚ}

def Holds (cfg : Config) (i : Nat) (k : Key) (t : ℚ) (s : State) : Prop :=
  s.clock - cfg.window < t → ∃ w, s.workers[i]? = some w ∧ t ∈ bucket w.counters k

theorem mem_inWindow {clock : ℚ} {ts : List ℚ} :
    t ∈ inWindow cfg clock ts ↔ t ∈ ts ∧ clock - cfg.window < t := by
  rw [inWindow, List.mem_filter, decide_eq_true_iff]

theorem mem_types (type : BucketType) : type ∈ [BucketType.ip, .org] := by
  cases type with
  | ip => exact List.mem_cons_self
  | org => exact List.mem_cons_of_mem _ List.mem_cons_self

theorem Spares.keeps {clock now : ℚ} {w : Worker} (h : Spares cfg clock now w)
    (ht : clock - cfg.window < t) (hmem : t ∈ bucket w.counters k) :
    bucket (evictIfNeeded cfg now w).counters k = bucket w.counters k := by
  obtain ⟨v,hget,_,_⟩ := exists_get?_of_mem_bucket hmem
  apply bucket_evictIfNeeded
  apply h k.1 (mem_types k.1) k.2 (Dict.mem_keys_of_get? hget)
  exact List.ne_nil_of_mem (mem_inWindow.mpr ⟨hmem, ht⟩)

theorem bucket_recordAndCheck (cfg : Config) (k k' : Key) (now : ℚ) (w : Worker) :
    bucket (recordAndCheck cfg k now w).1.counters k' =
      if k = k' then cleaned cfg now (bucket (evictIfNeeded cfg now w).counters k) ++ [now]
      else bucket (evictIfNeeded cfg now w).counters k' := by
  rw [recordAndCheck]
  split
  · exact bucket_setBucket _ k k' _
  · exact bucket_setBucket _ k k' _

theorem stage_recordAndCheck (cfg : Config) (k : Key) (now : ℚ) (w : Worker) :
    (recordAndCheck cfg k now w).1.stage = w.stage := by
  have hevict : (evictIfNeeded cfg now w).stage = w.stage := by
    rw [evictIfNeeded]
    split <;> rfl
  rw [recordAndCheck]
  split
  · exact hevict
  · exact hevict

theorem mem_recordAndCheck {clock now : ℚ} {w : Worker} {k' : Key} (h : Spares cfg clock now w)
    (hnow : now ≤ clock) (ht : clock - cfg.window < t) (hmem : t ∈ bucket w.counters k) :
    t ∈ bucket (recordAndCheck cfg k' now w).1.counters k := by
  have hkept : t ∈ bucket (evictIfNeeded cfg now w).counters k := by
    rw [h.keeps ht hmem]
    exact hmem
  rw [bucket_recordAndCheck]
  split
  · next hk =>
    subst hk
    apply List.mem_append_left
    refine List.mem_filter.mpr ⟨hkept, ?_⟩
    rw [decide_eq_true_iff]
    linarith
  · exact hkept

theorem lt_of_advanced {duration : ℚ≥0} (ht : s.clock + duration - cfg.window < t) :
    s.clock - cfg.window < t := by
  have hduration : 0 ≤ (duration : ℚ) := duration.coe_nonneg
  linarith

theorem lt_of_le_clock {now : ℚ} (hnow : now ≤ s.clock) (ht : s.clock - cfg.window < t) :
    now - cfg.window < t :=
  (sub_le_sub_right hnow _).trans_lt ht

theorem Holds.setWorker (h : Holds cfg i k t s) {worker : Nat} {w w' : Worker}
    (hw : s.workers[worker]? = some w)
    (hkeep : s.clock - cfg.window < t → t ∈ bucket w.counters k → t ∈ bucket w'.counters k) :
    Holds cfg i k t (s.setWorker worker w') := by
  intro ht
  obtain ⟨v,hv,hmem⟩ := h ht
  rw [getElem?_setWorker hw]
  split
  · next hi =>
    subst hi
    rw [hw] at hv
    cases hv
    exact ⟨w', rfl, hkeep ht hmem⟩
  · exact ⟨v, hv, hmem⟩

theorem holds_step {l : Step} (hcond : Lossless cfg s l) (hmoved : Moved cfg s l s' es)
    (h : Holds cfg i k t s) : Holds cfg i k t s' := by
  cases hmoved with
  | advanced duration =>
    intro ht
    exact h (lt_of_advanced ht)
  | joined =>
    intro ht
    obtain ⟨w,hw,hmem⟩ := h ht
    exact ⟨w, List.getElem?_append_left (List.getElem?_eq_some_iff.mp hw).1 ▸ hw, hmem⟩
  | requested hw hnow =>
    apply h.setWorker hw
    intro ht hmem
    exact mem_recordAndCheck (hcond.2 _ hw) hnow ht hmem
  | snapped hw hstage =>
    apply h.setWorker hw
    intro ht hmem
    dsimp only
    rw [(hcond _ hw).1.keeps ht hmem]
    exact hmem
  | transacted fails hw hstage => exact h.setWorker hw fun _ hmem => hmem
  | tableRead fails hw hstage => exact h.setWorker hw fun _ hmem => hmem
  | merged hw hstage =>
    apply h.setWorker hw
    intro _ hmem
    exact syncRows_keeps hmem

end Holding

section Recording

variable {cfg : Config} {s s' : State} {es past : List Made} {made : Key → ℚ → Prop}

def StageSound (made : Key → ℚ → Prop) (clock : ℚ) : Stage → Prop
  | .idle => True
  | .snapped snap now => CountersSound made snap ∧ now ≤ clock
  | .flushed now => now ≤ clock
  | .read rows now => RowsSound made rows ∧ now ≤ clock

structure WorkerSound (made : Key → ℚ → Prop) (clock : ℚ) (w : Worker) : Prop where
  counters : CountersSound made w.counters
  stage : StageSound made clock w.stage

structure Recorded (cfg : Config) (es : List Made) (s : State) : Prop where
  kept : ∀ m ∈ es, Holds cfg m.worker m.key m.time s
  workers : ∀ w ∈ s.workers, WorkerSound (madeIn es) s.clock w
  table : RowsSound (madeIn es) s.table
  once : ∀ k, (inWindow cfg s.clock (times es k)).Nodup

theorem WorkerSound.mono {made' : Key → ℚ → Prop} {clock clock' : ℚ} {w : Worker}
    (h : WorkerSound made clock w) (himp : ∀ k t, made k t → made' k t) (hle : clock ≤ clock') :
    WorkerSound made' clock' w := by
  have hcounters : ∀ c, CountersSound made c → CountersSound made' c := by
    intro c hc type p hp
    exact (hc type p hp).mono himp
  refine ⟨hcounters _ h.counters, ?_⟩
  have hstage := h.stage
  cases hs : w.stage with
  | idle => trivial
  | snapped snap now =>
    rw [hs] at hstage
    exact ⟨hcounters _ hstage.1, hstage.2.trans hle⟩
  | flushed now =>
    rw [hs] at hstage
    exact le_trans hstage hle
  | read rows now =>
    rw [hs] at hstage
    exact ⟨fun p hp => (hstage.1 p hp).mono himp, hstage.2.trans hle⟩

theorem madeIn_append {k : Key} {t : ℚ} (es' : List Made) (h : madeIn es k t) :
    madeIn (es ++ es') k t := by
  obtain ⟨m,hm,hrest⟩ := h
  exact ⟨m, List.mem_append_left _ hm, hrest⟩

theorem mem_times {k : Key} {t : ℚ} : t ∈ times es k ↔ madeIn es k t := by
  rw [times, List.mem_map]
  constructor
  · rintro ⟨m,hm,rfl⟩
    obtain ⟨hmem,hkey⟩ := List.mem_filter.mp hm
    exact ⟨m, hmem, by simpa using hkey, rfl⟩
  · rintro ⟨m,hm,hkey,rfl⟩
    exact ⟨m, List.mem_filter.mpr ⟨hm, by simpa using hkey⟩, rfl⟩

theorem Recorded.workerSound (h : Recorded cfg es s) {i : Nat} {w : Worker}
    (hw : s.workers[i]? = some w) : WorkerSound (madeIn es) s.clock w :=
  h.workers w (List.mem_of_getElem? hw)

theorem Recorded.advance (h : Recorded cfg es s) (duration : ℚ≥0)
    (hkept : ∀ m ∈ es, Holds cfg m.worker m.key m.time { s with clock := s.clock + duration }) :
    Recorded cfg es { s with clock := s.clock + duration } := by
  have hle : s.clock ≤ s.clock + duration := le_add_of_nonneg_right duration.coe_nonneg
  refine ⟨hkept, ?_, h.table, ?_⟩
  · intro w hw
    exact (h.workers w hw).mono (fun _ _ hm => hm) hle
  · intro k
    apply List.Nodup.sublist _ (h.once k)
    apply List.monotone_filter_right
    intro t ht
    rw [decide_eq_true_iff] at ht ⊢
    exact lt_of_advanced ht

theorem Recorded.setWorker (h : Recorded cfg es s) {i : Nat} {w : Worker}
    (hkept : ∀ m ∈ es, Holds cfg m.worker m.key m.time (s.setWorker i w))
    (hsound : WorkerSound (madeIn es) s.clock w) : Recorded cfg es (s.setWorker i w) := by
  refine ⟨hkept, ?_, h.table, h.once⟩
  intro v hv
  rcases mem_setWorker hv with hv | rfl
  · exact h.workers v hv
  · exact hsound

theorem Recorded.join (h : Recorded cfg es s) {cutoff : ℚ}
    (hkept : ∀ m ∈ es, Holds cfg m.worker m.key m.time { s with
      workers := s.workers ++ [⟨restoreRows cutoff (fun _ => []) s.table, s.clock, .idle⟩] }) :
    Recorded cfg es { s with
      workers := s.workers ++ [⟨restoreRows cutoff (fun _ => []) s.table, s.clock, .idle⟩] } := by
  refine ⟨hkept, ?_, h.table, h.once⟩
  intro v hv
  rcases List.mem_append.mp hv with hv | hv
  · exact h.workers v hv
  · rw [List.mem_singleton.mp hv]
    refine ⟨CountersSound.restore ?_ h.table, trivial⟩
    intro type p hp
    cases hp

-- The fresh timestamp is what keeps the union of sets from collapsing two requests.
theorem Recorded.once_request (h : Recorded cfg es s) {i : Nat} {k : Key} {now : ℚ}
    (hfresh : ∀ w ∈ s.workers, now ∉ bucket w.counters k) (k' : Key) :
    (inWindow cfg s.clock (times (es ++ [⟨i, k, now⟩]) k')).Nodup := by
  have hsplit : times (es ++ [⟨i, k, now⟩]) k' = times es k' ++ times [⟨i, k, now⟩] k' := by
    rw [times, List.filter_append, List.map_append, times, times]
  rw [hsplit, inWindow, List.filter_append]
  refine List.nodup_append.mpr ⟨h.once k', ?_, ?_⟩
  · apply List.Nodup.filter
    rw [times, List.filter_cons]
    split
    · exact List.nodup_singleton now
    · exact List.nodup_nil
  · intro t ht t' ht' heq
    subst heq
    obtain ⟨hold,hwin⟩ := mem_inWindow.mp ht
    obtain ⟨m,hm,hkey,htime⟩ := mem_times.mp hold
    obtain ⟨m',hm',hkey',htime'⟩ := mem_times.mp (List.mem_filter.mp ht').1
    rw [List.mem_singleton.mp hm'] at hkey' htime'
    dsimp only at hkey' htime'
    obtain ⟨w,hw,hmem⟩ := h.kept m hm (by rw [htime]; exact hwin)
    apply hfresh w (List.mem_of_getElem? hw)
    rw [hkey', htime', ← hkey, ← htime]
    exact hmem

theorem mem_bucket_of_evicted {now : ℚ} {w : Worker} {k : Key} {t : ℚ}
    (h : t ∈ bucket (evictIfNeeded cfg now w).counters k) : t ∈ bucket w.counters k := by
  obtain ⟨v,hget,_,_⟩ := exists_get?_of_mem_bucket h
  rw [bucket_evictIfNeeded (by rw [hget]; rfl)] at h
  exact h

theorem countersSound_recordAndCheck {w : Worker} {k : Key} {now : ℚ}
    (h : CountersSound made w.counters) (hmade : made k now) (hfresh : now ∉ bucket w.counters k) :
    CountersSound made (recordAndCheck cfg k now w).1.counters := by
  have hevict : CountersSound made (evictIfNeeded cfg now w).counters := h.evict
  have hold := (hevict.bucket k).filter fun t => now - t < cfg.window
  have hsound : Sound made k (cleaned cfg now (bucket (evictIfNeeded cfg now w).counters k) ++ [now]) := by
    constructor
    · refine List.nodup_append.mpr ⟨hold.nodup, List.nodup_singleton now, ?_⟩
      intro t ht t' ht' heq
      rw [List.mem_singleton.mp ht'] at heq
      rw [heq] at ht
      exact hfresh (mem_bucket_of_evicted (List.mem_filter.mp ht).1)
    · intro t ht
      rcases List.mem_append.mp ht with ht | ht
      · exact hold.made t ht
      · rw [List.mem_singleton.mp ht]
        exact hmade
  rw [recordAndCheck]
  split
  · exact hevict.setBucket hsound
  · exact hevict.setBucket hsound

theorem Recorded.request (h : Recorded cfg es s) {i : Nat} {w : Worker} {k : Key} {now : ℚ}
    (hw : s.workers[i]? = some w) (hfresh : ∀ w ∈ s.workers, now ∉ bucket w.counters k)
    (hkept : ∀ m ∈ es, Holds cfg m.worker m.key m.time
      (s.setWorker i (recordAndCheck cfg k now w).1)) :
    Recorded cfg (es ++ [⟨i, k, now⟩]) (s.setWorker i (recordAndCheck cfg k now w).1) := by
  have hmono : ∀ k' t, madeIn es k' t → madeIn (es ++ [⟨i, k, now⟩]) k' t :=
    fun _ _ hm => madeIn_append _ hm
  have hws := (h.workerSound hw).mono hmono le_rfl
  have hnew : madeIn (es ++ [⟨i, k, now⟩]) k now := ⟨⟨i, k, now⟩, by simp, rfl, rfl⟩
  refine ⟨?_, ?_, ?_, h.once_request hfresh⟩
  · intro m hm
    rcases List.mem_append.mp hm with hm | hm
    · exact hkept m hm
    · rw [List.mem_singleton.mp hm]
      intro _
      refine ⟨_, (getElem?_setWorker hw _ i).trans (if_pos rfl), ?_⟩
      rw [bucket_recordAndCheck, if_pos rfl]
      simp
  · intro v hv
    rcases mem_setWorker hv with hv | rfl
    · exact (h.workers v hv).mono hmono le_rfl
    · refine ⟨countersSound_recordAndCheck hws.counters hnew ?_, ?_⟩
      · exact hfresh w (List.mem_of_getElem? hw)
      · rw [stage_recordAndCheck]
        exact hws.stage
  · intro p hp
    exact (h.table p hp).mono hmono

theorem Recorded.transact (h : Recorded cfg es s) {i : Nat} {w : Worker} {snap : Counters} {now : ℚ}
    (hw : s.workers[i]? = some w) (hstage : w.stage = .snapped snap now) (fails : Bool)
    (hkept : ∀ m ∈ es, Holds cfg m.worker m.key m.time
      (s.setWorker i { w with stage := .flushed now })) :
    Recorded cfg es { s.setWorker i { w with stage := .flushed now } with
      table := if fails then s.table
        else flushRows (now - cfg.window) 0 s.table (snapRows snap) } := by
  have hws := h.workerSound hw
  have hsnap := hws.stage
  rw [hstage] at hsnap
  have hset := h.setWorker hkept ⟨hws.counters, hsnap.2⟩
  refine ⟨hset.kept, hset.workers, ?_, hset.once⟩
  dsimp only
  split
  · exact h.table
  · exact h.table.flush (RowsSound.snap hsnap.1)

theorem recorded_step (past : List Made) (s : State) (l : Step) (s' : State) (es : List Made)
    (h : Recorded cfg past s) (hcond : Lossless cfg s l) (hstep : step cfg s l = some (s', es)) :
    Recorded cfg (past ++ es) s' := by
  have hmoved := moved_of_step l hstep
  have hkept : ∀ m ∈ past, Holds cfg m.worker m.key m.time s' := by
    intro m hm
    exact holds_step hcond hmoved (h.kept m hm)
  cases hmoved with
  | advanced duration =>
    rw [List.append_nil]
    exact h.advance duration hkept
  | joined =>
    rw [List.append_nil]
    exact h.join hkept
  | requested hw hnow => exact h.request hw hcond.1 hkept
  | snapped hw hstage =>
    rw [List.append_nil]
    have hws := (h.workerSound hw).counters
    exact h.setWorker hkept ⟨hws.evict, CountersSound.live hws.evict, le_rfl⟩
  | transacted fails hw hstage =>
    rw [List.append_nil]
    exact h.transact hw hstage fails hkept
  | tableRead fails hw hstage =>
    rw [List.append_nil]
    have hws := h.workerSound hw
    have hnow := hws.stage
    rw [hstage] at hnow
    apply h.setWorker hkept
    refine ⟨hws.counters, ?_⟩
    dsimp only
    split
    · trivial
    · exact ⟨h.table, hnow⟩
  | merged hw hstage =>
    rw [List.append_nil]
    have hws := h.workerSound hw
    have hrows := hws.stage
    rw [hstage] at hrows
    exact h.setWorker hkept ⟨hws.counters.sync hrows.1, trivial⟩

end Recording

section Phases

variable {cfg : Config} {s s' : State} {es past : List Made} {m : Made} {i : Nat} {l : Step}

def Stored (cfg : Config) (m : Made) (s : State) : Prop :=
  s.clock - cfg.window < m.time → m.time ∈ row s.table m.key

def SnapHolds (cfg : Config) (m : Made) (snap : Counters) (now : ℚ) : Prop :=
  ∃ v, (snap m.key.1).get? m.key.2 = some v ∧ m.time ∈ v ∧ now - cfg.window < lastTime v

def Flushable (cfg : Config) (m : Made) (s : State) : Prop :=
  s.clock - cfg.window < m.time → m.time ∈ row s.table m.key ∨
    ∀ (w : Worker) snap now, s.workers[m.worker]? = some w → w.stage = .snapped snap now →
      SnapHolds cfg m snap now

def RowsHold (m : Made) (rows : Table) : Prop := ∃ v, (m.key, v) ∈ rows ∧ m.time ∈ v

def Readable (cfg : Config) (m : Made) (i : Nat) (s : State) : Prop :=
  s.clock - cfg.window < m.time → ∀ (w : Worker) rows now, s.workers[i]? = some w →
    w.stage = .read rows now → RowsHold m rows

theorem stored_step (h : Recorded cfg past s) (hmoved : Moved cfg s l s' es)
    (hstored : Stored cfg m s) : Stored cfg m s' := by
  cases hmoved with
  | advanced duration =>
    intro ht
    exact hstored (lt_of_advanced ht)
  | joined => exact hstored
  | requested hw hnow => exact hstored
  | snapped hw hstage => exact hstored
  | transacted fails hw hstage =>
    intro ht
    have hsound := (h.workerSound hw).stage
    rw [hstage] at hsound
    have hclock : s.clock - cfg.window < m.time := ht
    dsimp only
    split
    · exact hstored ht
    · exact flushRows_keeps (hstored ht) (lt_of_le_clock hsound.2 hclock)
  | tableRead fails hw hstage => exact hstored
  | merged hw hstage => exact hstored

theorem stored_transact (h : Recorded cfg past s) (hcond : Lossless cfg s (.transact m.worker false))
    (hmoved : Moved cfg s (.transact m.worker false) s' es) (hflushable : Flushable cfg m s) :
    Stored cfg m s' := by
  cases hmoved with
  | transacted fails hw hstage =>
    intro ht
    have hsound := (h.workerSound hw).stage
    rw [hstage] at hsound
    have hclock : s.clock - cfg.window < m.time := ht
    have hcutoff : _ - cfg.window < m.time := (sub_le_sub_right hsound.2 cfg.window).trans_lt hclock
    rcases hflushable ht with hrow | hsnap
    · exact flushRows_keeps hrow hcutoff
    · obtain ⟨v,hget,hmem,hlast⟩ := hsnap _ _ _ hw hstage
      have hbatch := hcond _ hw
      rw [hstage] at hbatch
      apply flushRows_adds (mem_snapRows hget) hmem hcutoff hlast
      rw [Nat.zero_add]
      exact hbatch

theorem Flushable.setWorker (h : Flushable cfg m s) {j : Nat} {w w' : Worker}
    (hw : s.workers[j]? = some w)
    (hsnap : s.clock - cfg.window < m.time → j = m.worker → ∀ snap now, w'.stage = .snapped snap now →
      w.stage = .snapped snap now ∨ SnapHolds cfg m snap now) :
    Flushable cfg m (s.setWorker j w') := by
  intro ht
  rcases h ht with hrow | hold
  · exact .inl hrow
  · refine .inr ?_
    intro v snap now hv hstage
    rw [getElem?_setWorker hw] at hv
    split at hv
    · next hj =>
      cases hv
      rcases hsnap ht hj snap now hstage with hsame | hnew
      · exact hold w snap now (hj ▸ hw) hsame
      · exact hnew
    · exact hold v snap now hv hstage

theorem snapHolds_live {w : Worker} (hspares : Spares cfg s.clock s.clock w)
    (hends : EndsLive cfg s.clock w) (ht : s.clock - cfg.window < m.time)
    (hmem : m.time ∈ bucket w.counters m.key) :
    SnapHolds cfg m (liveBuckets cfg s.clock (evictIfNeeded cfg s.clock w).counters) s.clock := by
  have heq := hspares.keeps ht hmem
  obtain ⟨v,hget,_,_⟩ := exists_get?_of_mem_bucket hmem
  have hlast := hends m.key.1 (mem_types m.key.1) m.key.2 (Dict.mem_keys_of_get? hget)
    (List.ne_nil_of_mem (mem_inWindow.mpr ⟨hmem, ht⟩))
  refine ⟨bucket w.counters m.key, ?_, hmem, hlast⟩
  rw [← heq]
  apply bucket_liveBuckets
  · rw [heq]
    exact hmem
  · rw [heq]
    exact hlast

theorem Recorded.snapHolds (h : Recorded cfg past s) (hm : m ∈ past) {w : Worker}
    (hw : s.workers[m.worker]? = some w) (hcond : Lossless cfg s (.snapshot m.worker))
    (ht : s.clock - cfg.window < m.time) :
    SnapHolds cfg m (liveBuckets cfg s.clock (evictIfNeeded cfg s.clock w).counters) s.clock := by
  obtain ⟨v,hv,hmem⟩ := h.kept m hm ht
  rw [hw] at hv
  cases hv
  exact snapHolds_live (hcond w hw).1 (hcond w hw).2 ht hmem

theorem flushable_snapshot (h : Recorded cfg past s) (hm : m ∈ past)
    (hcond : Lossless cfg s (.snapshot m.worker)) (hmoved : Moved cfg s (.snapshot m.worker) s' es) :
    Flushable cfg m s' := by
  cases hmoved with
  | snapped hw hstage =>
    intro ht
    refine .inr ?_
    intro v snap now hv hsnap
    rw [getElem?_setWorker hw, if_pos rfl] at hv
    cases hv
    cases hsnap
    exact h.snapHolds hm hw hcond ht

theorem flushable_step (h : Recorded cfg past s) (hm : m ∈ past) (hcond : Lossless cfg s l)
    (hmoved : Moved cfg s l s' es) (hflushable : Flushable cfg m s) : Flushable cfg m s' := by
  cases hmoved with
  | advanced duration =>
    intro ht
    exact hflushable (lt_of_advanced ht)
  | joined =>
    intro ht
    rcases hflushable ht with hrow | hold
    · exact .inl hrow
    · refine .inr ?_
      intro v snap now hv hstage
      rcases getElem?_joined hv with hv | rfl
      · exact hold v snap now hv hstage
      · cases hstage
  | requested hw hnow =>
    apply hflushable.setWorker hw
    intro _ _ snap now hstage
    rw [stage_recordAndCheck] at hstage
    exact .inl hstage
  | snapped hw hidle =>
    apply hflushable.setWorker hw
    intro ht hj snap now hstage
    subst hj
    cases hstage
    exact .inr (h.snapHolds hm hw hcond ht)
  | @transacted worker w snap now fails hw hstage =>
    have hset : Flushable cfg m (s.setWorker worker { w with stage := .flushed now }) := by
      apply hflushable.setWorker hw
      intro _ _ snap now hsnap
      cases hsnap
    intro ht
    have hsound := (h.workerSound hw).stage
    rw [hstage] at hsound
    have hclock : s.clock - cfg.window < m.time := ht
    rcases hset ht with hrow | hold
    · apply Or.inl
      dsimp only
      split
      · exact hrow
      · exact flushRows_keeps hrow (lt_of_le_clock hsound.2 hclock)
    · exact .inr hold
  | tableRead fails hw hstage =>
    apply hflushable.setWorker hw
    intro _ _ snap now hsnap
    dsimp only at hsnap
    split at hsnap <;> cases hsnap
  | merged hw hstage =>
    apply hflushable.setWorker hw
    intro _ _ snap now hsnap
    cases hsnap

theorem Readable.setWorker (h : Readable cfg m i s) {j : Nat} {w w' : Worker}
    (hw : s.workers[j]? = some w)
    (hread : s.clock - cfg.window < m.time → ∀ rows now, w'.stage = .read rows now →
      w.stage = .read rows now ∨ RowsHold m rows) : Readable cfg m i (s.setWorker j w') := by
  intro ht v rows now hv hstage
  rw [getElem?_setWorker hw] at hv
  split at hv
  · next hj =>
    cases hv
    rcases hread ht rows now hstage with hsame | hnew
    · exact h ht w rows now (hj ▸ hw) hsame
    · exact hnew
  · exact h ht v rows now hv hstage

theorem Stored.rowsHold (h : Stored cfg m s) (ht : s.clock - cfg.window < m.time) :
    RowsHold m s.table := by
  obtain ⟨v,hget,hmem⟩ := exists_get?_of_mem_row (h ht)
  exact ⟨v, Dict.mem_of_get? hget, hmem⟩

theorem readable_readTable (hstored : Stored cfg m s)
    (hmoved : Moved cfg s (.readTable i false) s' es) : Readable cfg m i s' := by
  cases hmoved with
  | tableRead fails hw hstage =>
    intro ht v rows now hv hread
    rw [getElem?_setWorker hw, if_pos rfl] at hv
    cases hv
    cases hread
    exact hstored.rowsHold ht

theorem readable_step (hstored : Stored cfg m s) (hmoved : Moved cfg s l s' es)
    (hreadable : Readable cfg m i s) : Readable cfg m i s' := by
  cases hmoved with
  | advanced duration =>
    intro ht
    exact hreadable (lt_of_advanced ht)
  | joined =>
    intro ht v rows now hv hstage
    rcases getElem?_joined hv with hv | rfl
    · exact hreadable ht v rows now hv hstage
    · cases hstage
  | requested hw hnow =>
    apply hreadable.setWorker hw
    intro _ rows now hstage
    rw [stage_recordAndCheck] at hstage
    exact .inl hstage
  | snapped hw hidle =>
    apply hreadable.setWorker hw
    intro _ rows now hread
    cases hread
  | transacted fails hw hstage =>
    exact hreadable.setWorker hw fun _ rows now hread => by cases hread
  | tableRead fails hw hstage =>
    apply hreadable.setWorker hw
    intro ht rows now hread
    dsimp only at hread
    split at hread
    · cases hread
    · cases hread
      exact .inr (hstored.rowsHold ht)
  | merged hw hstage =>
    apply hreadable.setWorker hw
    intro _ rows now hread
    cases hread

theorem holds_merge (h : Recorded cfg past s) (hreadable : Readable cfg m i s)
    (hmoved : Moved cfg s (.merge i) s' es) : Holds cfg i m.key m.time s' := by
  cases hmoved with
  | merged hw hstage =>
    intro ht
    have hsound := (h.workerSound hw).stage
    rw [hstage] at hsound
    have hclock : s.clock - cfg.window < m.time := ht
    obtain ⟨v,hmem,htime⟩ := hreadable ht _ _ _ hw hstage
    refine ⟨_, (getElem?_setWorker hw _ i).trans (if_pos rfl), ?_⟩
    exact syncRows_adds hmem htime (lt_of_le_clock hsound.2 hclock)

end Phases

section Runs

variable {cfg : Config} {s r : State} {es past : List Made} {m : Made} {ls : List Step}

def start (clock : ℚ) : State := ⟨clock, [], []⟩

def Step.isRequest : Step → Bool
  | .request _ _ _ => true
  | _ => false

theorem recorded_start (cfg : Config) (clock : ℚ) : Recorded cfg [] (start clock) := by
  refine ⟨?_, ?_, ?_, ?_⟩
  · intro m hm
    cases hm
  · intro w hw
    cases hw
  · intro p hp
    cases hp
  · intro k
    exact List.nodup_nil

theorem made_nil_of_quiet (hquiet : ∀ l ∈ ls, l.isRequest = false)
    (hrun : exec (step cfg) s ls = some (r, es)) : es = [] := by
  induction ls generalizing s es with
  | nil =>
    cases hrun
    rfl
  | cons l ls ih =>
    obtain ⟨t,es₁,es₂,hstep,hrest,rfl⟩ := exec_cons.mp hrun
    have htail : es₂ = [] := ih (fun l hl => hquiet l (List.mem_cons_of_mem _ hl)) hrest
    have hhead : es₁ = [] := by
      have hl := hquiet l List.mem_cons_self
      cases moved_of_step l hstep with
      | requested hw hnow => cases hl
      | _ => rfl
    rw [hhead, htail, List.append_nil]

def Known (cfg : Config) (m : Made) (past : List Made) (s : State) : Prop :=
  Recorded cfg past s ∧ m ∈ past

theorem known_step (m : Made) : Preserves (step cfg) (Lossless cfg) (Known cfg m) := by
  intro past s l s' es h hcond hstep
  exact ⟨recorded_step past s l s' es h.1 hcond hstep, List.mem_append_left _ h.2⟩

theorem known_stored_step (m : Made) :
    Preserves (step cfg) (Lossless cfg) fun past s => Known cfg m past s ∧ Stored cfg m s := by
  intro past s l s' es h hcond hstep
  refine ⟨known_step m past s l s' es h.1 hcond hstep, ?_⟩
  exact stored_step h.1.1 (moved_of_step l hstep) h.2

theorem stored_after_flush (h : Known cfg m past s) (hmeets : Meets (step cfg) (Lossless cfg) s ls)
    (hrun : exec (step cfg) s ls = some (r, es))
    (hflush : [Step.snapshot m.worker, .transact m.worker false].Sublist ls) :
    Known cfg m (past ++ es) r ∧ Stored cfg m r := by
  have hflushable : Preserves (step cfg) (Lossless cfg)
      fun past s => Known cfg m past s ∧ Flushable cfg m s := by
    intro past s l s' es h hcond hstep
    refine ⟨known_step m past s l s' es h.1 hcond hstep, ?_⟩
    exact flushable_step h.1.1 h.1.2 hcond (moved_of_step l hstep) h.2
  refine exec_through_two (known_step m) hflushable (known_stored_step m) ?_ ?_ past hflush h hmeets hrun
  · intro past s s' es h hcond hstep
    refine ⟨known_step m past s _ s' es h hcond hstep, ?_⟩
    exact flushable_snapshot h.1 h.2 hcond (moved_of_step _ hstep)
  · intro past s s' es h hcond hstep
    refine ⟨known_step m past s _ s' es h.1 hcond hstep, ?_⟩
    exact stored_transact h.1.1 hcond (moved_of_step _ hstep) h.2

theorem holds_after_sync (h : Known cfg m past s ∧ Stored cfg m s)
    (hmeets : Meets (step cfg) (Lossless cfg) s ls) (hrun : exec (step cfg) s ls = some (r, es))
    {i : Nat} (hsync : [Step.readTable i false, .merge i].Sublist ls) :
    Holds cfg i m.key m.time r := by
  have hreadable : Preserves (step cfg) (Lossless cfg)
      fun past s => (Known cfg m past s ∧ Stored cfg m s) ∧ Readable cfg m i s := by
    intro past s l s' es h hcond hstep
    refine ⟨known_stored_step m past s l s' es h.1 hcond hstep, ?_⟩
    exact readable_step h.1.2 (moved_of_step l hstep) h.2
  have hholds : Preserves (step cfg) (Lossless cfg)
      fun (_ : List Made) s => Holds cfg i m.key m.time s := by
    intro past s l s' es h hcond hstep
    exact holds_step hcond (moved_of_step l hstep) h
  refine exec_through_two (known_stored_step m) hreadable hholds ?_ ?_ past hsync h hmeets hrun
  · intro past s s' es h hcond hstep
    refine ⟨known_stored_step m past s _ s' es h hcond hstep, ?_⟩
    exact readable_readTable h.2 (moved_of_step _ hstep)
  · intro past s s' es h _ hstep
    exact holds_merge h.1.1.1 h.2 (moved_of_step _ hstep)

theorem perm_inWindow (h : Recorded cfg es r) {i : Nat} {w : Worker} (hw : r.workers[i]? = some w)
    (hheld : ∀ m ∈ es, Holds cfg i m.key m.time r) (k : Key) :
    (inWindow cfg r.clock (bucket w.counters k)).Perm (inWindow cfg r.clock (times es k)) := by
  have hsound := (h.workerSound hw).counters.bucket k
  have hnodup : (inWindow cfg r.clock (bucket w.counters k)).Nodup := hsound.nodup.filter _
  rw [List.perm_ext_iff_of_nodup hnodup (h.once k)]
  intro t
  rw [mem_inWindow, mem_inWindow, mem_times]
  constructor
  · rintro ⟨hmem,ht⟩
    exact ⟨hsound.made t hmem, ht⟩
  · rintro ⟨⟨m,hm,rfl,rfl⟩,ht⟩
    obtain ⟨v,hv,hmem⟩ := hheld m hm ht
    rw [hw] at hv
    cases hv
    exact ⟨hmem, ht⟩

end Runs

theorem every_request_counted_once (cfg : Config) (clock : ℚ) (ls fs ss : List Step) (r : State)
    (es : List Made)
    (hmeets : Meets (step cfg) (Lossless cfg) (start clock) (ls ++ (fs ++ ss)))
    (hrun : exec (step cfg) (start clock) (ls ++ (fs ++ ss)) = some (r, es))
    (hquiet : ∀ l ∈ fs ++ ss, l.isRequest = false)
    (hflush : ∀ i < r.workers.length, [Step.snapshot i, .transact i false].Sublist fs)
    (hsync : ∀ i < r.workers.length, [Step.readTable i false, .merge i].Sublist ss)
    (i : Nat) (w : Worker) (hw : r.workers[i]? = some w) (k : Key) :
    (inWindow cfg r.clock (bucket w.counters k)).Perm (inWindow cfg r.clock (times es k)) := by
  have hend : Recorded cfg es r :=
    exec_invariant recorded_step [] (recorded_start cfg clock) hmeets hrun
  obtain ⟨s₁,es₁,es₂,hls,hrest,rfl⟩ := exec_append hrun
  obtain ⟨hmeets₁,hmeets₂⟩ := hmeets.append hls
  obtain ⟨s₂,es₃,es₄,hfs,hss,rfl⟩ := exec_append hrest
  obtain ⟨hmeets₃,hmeets₄⟩ := hmeets₂.append hfs
  have hnone : es₃ ++ es₄ = [] := made_nil_of_quiet hquiet hrest
  have hmid : Recorded cfg es₁ s₁ :=
    exec_invariant recorded_step [] (recorded_start cfg clock) hmeets₁ hls
  apply perm_inWindow hend hw
  intro m hm ht
  rw [hnone, List.append_nil] at hm
  obtain ⟨v,hv,_⟩ := hend.kept m (List.mem_append_left _ hm) ht
  have hknown := stored_after_flush ⟨hmid, hm⟩ hmeets₃ hfs
    (hflush m.worker (List.getElem?_eq_some_iff.mp hv).1)
  exact holds_after_sync hknown hmeets₄ hss (hsync i (List.getElem?_eq_some_iff.mp hw).1) ht

def minuteWindow : Config := ⟨60, 100000, fun _ => 100⟩

def clientIp : Key := (.ip, "10.0.0.1".toList)

def flushSteps : List Step :=
  [.snapshot 0, .snapshot 1, .transact 0 false, .advance (1 / 2), .transact 1 false]

def syncSteps : List Step :=
  [.readTable 0 false, .readTable 1 false, .merge 1, .advance 1, .merge 0]

def distinctSteps : List Step :=
  [.join, .join, .request 0 clientIp 0, .advance 5, .request 1 clientIp 5, .snapshot 0,
    .request 0 clientIp 4, .transact 0 false, .readTable 0 true]

theorem every_request_counted_once_distinct :
    ∃ r es, exec (step minuteWindow) (start 0) (distinctSteps ++ (flushSteps ++ syncSteps)) =
        some (r, es) ∧ times es clientIp = [0, 5, 4] ∧ r.workers.length = 2 ∧
      ∀ (i : Nat) (w : Worker), r.workers[i]? = some w → ∀ k,
        (inWindow minuteWindow r.clock (bucket w.counters k)).Perm
          (inWindow minuteWindow r.clock (times es k)) := by
  have hresult : (exec (step minuteWindow) (start 0) (distinctSteps ++ (flushSteps ++ syncSteps))).map
      (fun p => (times p.2 clientIp, p.1.workers.length)) = some ([0, 5, 4], 2) := by decide +kernel
  obtain ⟨⟨r,es⟩,hrun,heq⟩ := Option.map_eq_some_iff.mp hresult
  obtain ⟨htimes,hlength⟩ := Prod.mk.inj heq
  have hflush : ∀ i < 2, [Step.snapshot i, .transact i false].Sublist flushSteps := by decide
  have hsync : ∀ i < 2, [Step.readTable i false, .merge i].Sublist syncSteps := by decide
  refine ⟨r, es, hrun, htimes, hlength, ?_⟩
  intro i w hw k
  apply every_request_counted_once minuteWindow 0 distinctSteps flushSteps syncSteps r es
    (by decide +kernel) hrun (by decide) _ _ i w hw k
  · rw [hlength]
    exact hflush
  · rw [hlength]
    exact hsync

def sameInstantSteps : List Step :=
  [.join, .join, .request 0 clientIp 0, .request 1 clientIp 0]

theorem equal_timestamps_collapse :
    ∃ r es, exec (step minuteWindow) (start 0) (sameInstantSteps ++ (flushSteps ++ syncSteps)) =
        some (r, es) ∧
      inWindow minuteWindow r.clock (times es clientIp) = [0, 0] ∧
      r.workers.map (fun w => inWindow minuteWindow r.clock (bucket w.counters clientIp)) =
        [[0], [0]] := by
  have hresult : (exec (step minuteWindow) (start 0) (sameInstantSteps ++ (flushSteps ++ syncSteps))).map
      (fun p => (inWindow minuteWindow p.1.clock (times p.2 clientIp),
        p.1.workers.map fun w => inWindow minuteWindow p.1.clock (bucket w.counters clientIp))) =
      some ([0, 0], [[0], [0]]) := by decide +kernel
  obtain ⟨⟨r,es⟩,hrun,heq⟩ := Option.map_eq_some_iff.mp hresult
  exact ⟨r, es, hrun, Prod.mk.inj heq⟩

end PicoSentry.Serve.RateLimit
