import PicoSentry.Foundation.StatusCells
import PicoSentry.Sandbox.JobQueue

namespace PicoSentry.Sandbox.Queue

open Foundation

section Accounting

variable {H : Heapq QueuedJob.lt} {s : JobQueue} {job : QueuedJob}
  {heap heap' rest all delivered : List QueuedJob} {turnedAway : Nat}

-- The accepted jobs, those handed out and the number of refused requests. The heap is an argument
-- of its own: between two statements of an operation it is not the queue's.
structure Accounted (s : JobQueue) (heap all delivered : List QueuedJob) (turnedAway : Nat) : Prop where
  owns : Owns QueuedJob.cell all s.statuses
  queued : Lists QueuedJob.cell all s.statuses .queued heap
  handedOut : Lists QueuedJob.cell all s.statuses .processing delivered
  ids : (all.map QueuedJob.jobId).Nodup
  table : s.jobs = all.map fun job => (job.jobId, job)
  enqueuedCount : s.stats.enqueued = all.length
  dequeuedCount : s.stats.dequeued = delivered.length
  expiredCount : s.stats.expired = s.statuses.count .expired
  droppedCount : s.stats.dropped = s.statuses.count .dropped + turnedAway

theorem Accounted.perm (h : Accounted s heap all delivered turnedAway) (hperm : heap.Perm heap') :
    Accounted s heap' all delivered turnedAway :=
  { h with queued := h.queued.perm hperm }

theorem Accounted.withHeap (h : Accounted s heap all delivered turnedAway) (stored : List QueuedJob) :
    Accounted { s with heap := stored } heap all delivered turnedAway :=
  ⟨h.owns, h.queued, h.handedOut, h.ids, h.table, h.enqueuedCount, h.dequeuedCount, h.expiredCount,
    h.droppedCount⟩

theorem Accounted.keys_jobs (h : Accounted s heap all delivered turnedAway) :
    s.jobs.keys = all.map QueuedJob.jobId := by
  rw [h.table, Dict.keys, List.map_map]
  rfl

theorem Accounted.get?_jobs (h : Accounted s heap all delivered turnedAway) (hjob : job ∈ all) :
    s.jobs.get? job.jobId = some job := by
  refine Dict.get?_of_mem (h.keys_jobs ▸ h.ids) ?_
  rw [h.table]
  exact List.mem_map_of_mem hjob

theorem Accounted.eq_of_jobId {other : QueuedJob} (h : Accounted s heap all delivered turnedAway)
    (hjob : job ∈ all) (hother : other ∈ all) (heq : job.jobId = other.jobId) : job = other :=
  List.inj_on_of_nodup_map h.ids hjob hother heq

theorem Accounted.drop (h : Accounted s (job :: rest) all delivered turnedAway) :
    Accounted { s.setStatus job .dropped with stats.dropped := s.stats.dropped + 1 } rest all delivered
      turnedAway where
  owns := h.owns.set _ _
  queued := h.queued.leave h.owns (by decide)
  handedOut := h.handedOut.stay h.owns (h.queued.mem List.mem_cons_self)
    (by rw [h.queued.status List.mem_cons_self]; decide) (by decide)
  ids := h.ids
  table := h.table
  enqueuedCount := h.enqueuedCount
  dequeuedCount := h.dequeuedCount
  expiredCount := h.expiredCount.trans
    (count_set_stay (h.queued.status List.mem_cons_self) (by decide) (by decide)).symm
  droppedCount := by
    have hcount : (s.statuses.set job.cell .dropped).count .dropped = s.statuses.count .dropped + 1 :=
      count_set_enter (h.queued.status List.mem_cons_self) (by decide)
    show s.stats.dropped + 1 = (s.statuses.set job.cell .dropped).count .dropped + turnedAway
    rw [hcount, h.droppedCount, Nat.add_right_comm]

theorem Accounted.expire (h : Accounted s (job :: rest) all delivered turnedAway) :
    Accounted (s.expire job.jobId) rest all delivered turnedAway := by
  have hjob := h.queued.status List.mem_cons_self
  have hcount : (s.statuses.set job.cell .expired).count .expired = s.statuses.count .expired + 1 :=
    count_set_enter hjob (by decide)
  have hget := h.get?_jobs (h.queued.mem List.mem_cons_self)
  rw [JobQueue.expire, hget]
  exact {
    owns := h.owns.set _ _
    queued := h.queued.leave h.owns (by decide)
    handedOut := h.handedOut.stay h.owns (h.queued.mem List.mem_cons_self) (by rw [hjob]; decide) (by decide)
    ids := h.ids
    table := h.table
    enqueuedCount := h.enqueuedCount
    dequeuedCount := h.dequeuedCount
    expiredCount := by
      show s.stats.expired + 1 = (s.statuses.set job.cell .expired).count .expired
      rw [hcount, h.expiredCount]
    droppedCount := by
      show s.stats.dropped = (s.statuses.set job.cell .expired).count .dropped + turnedAway
      rw [count_set_stay hjob (by decide) (by decide), h.droppedCount] }

theorem Accounted.deliver (h : Accounted s (job :: rest) all delivered turnedAway) :
    Accounted { s.setStatus job .processing with stats.dequeued := s.stats.dequeued + 1 } rest all
      (delivered ++ [job]) turnedAway where
  owns := h.owns.set _ _
  queued := h.queued.leave h.owns (by decide)
  handedOut := h.handedOut.enter h.owns (h.queued.mem List.mem_cons_self)
    (by rw [h.queued.status List.mem_cons_self]; decide)
  ids := h.ids
  table := h.table
  enqueuedCount := h.enqueuedCount
  dequeuedCount := by
    show s.stats.dequeued + 1 = (delivered ++ [job]).length
    rw [List.length_append, List.length_singleton, h.dequeuedCount]
  expiredCount := h.expiredCount.trans
    (count_set_stay (h.queued.status List.mem_cons_self) (by decide) (by decide)).symm
  droppedCount := by
    show s.stats.dropped = (s.statuses.set job.cell .processing).count .dropped + turnedAway
    rw [count_set_stay (h.queued.status List.mem_cons_self) (by decide) (by decide), h.droppedCount]

theorem Accounted.refuse (h : Accounted s heap all delivered turnedAway) :
    Accounted s.refuse heap all delivered (turnedAway + 1) :=
  ⟨h.owns, h.queued, h.handedOut, h.ids, h.table, h.enqueuedCount, h.dequeuedCount, h.expiredCount,
    congrArg (· + 1) h.droppedCount⟩

theorem Accounted.add (h : Accounted s s.heap all delivered turnedAway) (r : Request)
    (hid : r.jobId ∉ s.jobs.keys) :
    Accounted (s.add H r).2 (s.add H r).2.heap (all ++ [(s.add H r).1]) delivered turnedAway := by
  have hcell : (s.add H r).1.cell = s.statuses.length := rfl
  have hfresh : r.jobId ∉ all.map QueuedJob.jobId := h.keys_jobs ▸ hid
  exact {
    owns := h.owns.append hcell
    queued := (h.queued.new h.owns hcell).perm (H.push_perm _ _).symm
    handedOut := h.handedOut.new_other h.owns hcell (by decide)
    ids := by
      rw [List.map_append, List.map_singleton]
      exact List.nodup_append_comm.mp (List.nodup_cons.mpr ⟨hfresh, h.ids⟩)
    table := by
      show s.jobs.set r.jobId _ = _
      rw [Dict.set_of_not_mem hid, h.table, List.map_append]
      rfl
    enqueuedCount := by
      show s.stats.enqueued + 1 = _
      rw [List.length_append, List.length_singleton, h.enqueuedCount]
    dequeuedCount := h.dequeuedCount
    expiredCount := by
      show s.stats.expired = (s.statuses ++ [Status.queued]).count Status.expired
      rw [List.count_append, h.expiredCount]
      rfl
    droppedCount := by
      show s.stats.dropped = (s.statuses ++ [Status.queued]).count Status.dropped + turnedAway
      rw [List.count_append, h.droppedCount]
      rfl }

theorem Accounted.dropAt (h : Accounted s s.heap all delivered turnedAway) (i : Nat) :
    Accounted (s.dropAt H i) (s.dropAt H i).heap all delivered turnedAway := by
  rw [JobQueue.dropAt]
  split
  · exact h
  · next job hjob =>
    obtain ⟨hi,rfl⟩ := List.getElem?_eq_some_iff.mp hjob
    have hperm : s.heap.Perm (s.heap[i] :: s.heap.eraseIdx i) := (List.getElem_cons_eraseIdx_perm hi).symm
    exact ((h.perm hperm).drop.withHeap _).perm (H.heapify_perm _).symm

theorem Accounted.evictLowest (h : Accounted s s.heap all delivered turnedAway) :
    Accounted (s.evictLowest H) (s.evictLowest H).heap all delivered turnedAway := by
  rw [JobQueue.evictLowest]
  split_ifs
  · exact h
  · exact h.dropAt _
  · exact h

theorem jobs_evictLowest (s : JobQueue) : (s.evictLowest H).jobs = s.jobs := by
  simp only [JobQueue.evictLowest, JobQueue.dropAt]
  split_ifs
  · rfl
  · split <;> rfl
  · rfl

theorem Accounted.expireAll {marked : List QueuedJob}
    (h : Accounted s (marked ++ rest) all delivered turnedAway) :
    Accounted ((marked.map QueuedJob.jobId).foldl JobQueue.expire s) rest all delivered turnedAway := by
  induction marked generalizing s with
  | nil => exact h
  | cons job marked ih => exact ih h.expire

theorem heap_expireAll (ids : List Str) (s : JobQueue) : (ids.foldl JobQueue.expire s).heap = s.heap := by
  induction ids generalizing s with
  | nil => rfl
  | cons id ids ih =>
    rw [List.foldl_cons, ih, JobQueue.expire]
    split <;> rfl

theorem Accounted.purgeExpired (h : Accounted s s.heap all delivered turnedAway) (now maxAge : ℚ) :
    Accounted (s.purgeExpired H now maxAge).2 (s.purgeExpired H now maxAge).2.heap all delivered
      turnedAway := by
  let old : QueuedJob → Bool := fun job =>
    job.createdAt < now - maxAge ∧ s.status job = some .queued
  have hids : s.expiredIds (now - maxAge) = (s.heap.filter old).map QueuedJob.jobId := rfl
  have hkept : (s.heap.filter fun job => job.jobId ∉ s.expiredIds (now - maxAge)) =
      s.heap.filter fun job => !old job := by
    refine List.filter_congr fun job hjob => ?_
    have hmem : job.jobId ∈ (s.heap.filter old).map QueuedJob.jobId ↔ old job = true := by
      refine ⟨fun hin => ?_, fun hold => List.mem_map_of_mem (List.mem_filter.mpr ⟨hjob, hold⟩)⟩
      obtain ⟨other,hother,heq⟩ := List.mem_map.mp hin
      obtain ⟨hheap,hold⟩ := List.mem_filter.mp hother
      rwa [← h.eq_of_jobId (h.queued.mem hheap) (h.queued.mem hjob) heq]
    rw [hids, Bool.eq_iff_iff, decide_eq_true_iff, hmem, Bool.not_eq_true', Bool.not_eq_true]
  have hsplit : s.heap.Perm (s.heap.filter old ++ s.heap.filter fun job => !old job) :=
    (List.filter_append_perm old s.heap).symm
  have hmarked := (h.perm hsplit).expireAll
  rw [JobQueue.purgeExpired]
  simp only [heap_expireAll, hkept]
  exact (hmarked.withHeap _).perm (H.heapify_perm _).symm

theorem Accounted.enqueue (h : Accounted s s.heap all delivered turnedAway) (r : Request)
    (hid : r.jobId ∉ s.jobs.keys) :
    (∃ job s', s.enqueue H r = (some job, s') ∧ job.jobId = r.jobId ∧
      Accounted s' s'.heap (all ++ [job]) delivered turnedAway) ∨
    ∃ s', s.enqueue H r = (none, s') ∧ Accounted s' s'.heap all delivered (turnedAway + 1) := by
  rw [JobQueue.enqueue]
  split_ifs
  · exact .inr ⟨_, rfl, h.refuse⟩
  · dsimp only
    split_ifs
    · exact .inr ⟨_, rfl, h.evictLowest.refuse⟩
    · exact .inl ⟨_, _, rfl, rfl, h.evictLowest.add r (jobs_evictLowest s ▸ hid)⟩
  · exact .inl ⟨_, _, rfl, rfl, h.add r hid⟩

theorem Accounted.dequeue (h : Accounted s s.heap all delivered turnedAway) :
    (∃ job s', s.dequeue H = (some job, s') ∧ Accounted s' s'.heap all (delivered ++ [job]) turnedAway) ∨
    s.dequeue H = (none, s) := by
  rw [JobQueue.dequeue]
  cases hheap : s.heap with
  | nil => exact .inr (by rw [H.pop_nil])
  | cons job rest =>
    obtain ⟨popped,hpop,hperm,_⟩ := H.pop_cons job rest
    rw [hpop]
    rw [hheap] at h
    exact .inl ⟨job, _, rfl, (h.deliver.withHeap popped).perm hperm.symm⟩

end Accounting

section Run

variable {H : Heapq QueuedJob.lt} {s s' : JobQueue} {outs outs' : List Out}

def JobQueue.accounted (s : JobQueue) (outs : List Out) : Prop :=
  Accounted s s.heap (accepted outs) (dequeued outs) (refused outs)

theorem accounted_append (s : JobQueue) (outs : List Out) (out : Out) : s.accounted (outs ++ [out]) ↔
    Accounted s s.heap (accepted outs ++ out.accepted?.toList) (dequeued outs ++ out.dequeued?.toList)
      (refused outs + out.isRefused.toNat) := by
  have hlist : ∀ f : Out → Option QueuedJob, [out].filterMap f = (f out).toList := by
    intro f
    cases hf : f out with
    | none => rw [List.filterMap_cons_none hf]; rfl
    | some job => rw [List.filterMap_cons_some hf]; rfl
  have hcount : [out].countP Out.isRefused = out.isRefused.toNat := by
    rw [List.countP_singleton]
    cases out.isRefused <;> rfl
  rw [JobQueue.accounted, accepted, dequeued, refused, List.filterMap_append, List.filterMap_append,
    List.countP_append, hlist, hlist, hcount]
  rfl

theorem accounted_step {op : Op} (h : s.accounted outs) (hid : ∀ id ∈ op.jobId?, id ∉ s.jobs.keys)
    (hstep : step H s op = some (s', outs')) : s'.accounted (outs ++ outs') := by
  cases op with
  | enqueue r =>
    rcases Accounted.enqueue (H := H) h r (hid r.jobId rfl) with ⟨job,t,heq,_,ht⟩ | ⟨t,heq,ht⟩
    · rw [step, heq] at hstep
      cases hstep
      exact (accounted_append _ _ _).mpr (by simpa [Out.accepted?, Out.dequeued?, Out.isRefused] using ht)
    · rw [step, heq] at hstep
      cases hstep
      exact (accounted_append _ _ _).mpr (by simpa [Out.accepted?, Out.dequeued?, Out.isRefused] using ht)
  | dequeue =>
    rcases Accounted.dequeue (H := H) h with ⟨job,t,heq,ht⟩ | heq
    · rw [step, heq] at hstep
      cases hstep
      exact (accounted_append _ _ _).mpr (by simpa [Out.accepted?, Out.dequeued?, Out.isRefused] using ht)
    · rw [step, heq] at hstep
      cases hstep
      exact (accounted_append _ _ _).mpr
        (by simpa [Out.accepted?, Out.dequeued?, Out.isRefused, JobQueue.accounted] using h)
  | purgeExpired now maxAge =>
    have hpurged : (s.purgeExpired H now maxAge).2.accounted outs := Accounted.purgeExpired h now maxAge
    generalize hp : s.purgeExpired H now maxAge = purged at hpurged
    rw [step, hp] at hstep
    cases hstep
    exact (accounted_append _ _ _).mpr
      (by simpa [Out.accepted?, Out.dequeued?, Out.isRefused, JobQueue.accounted] using hpurged)

theorem accepted_step {op : Op} (hstep : step H s op = some (s', outs')) :
    ∀ job ∈ accepted outs', job.jobId ∈ op.jobId? := by
  intro job hjob
  cases op with
  | enqueue r =>
    generalize hp : s.enqueue H r = added at hstep
    have hid : ∀ job ∈ added.1, job.jobId = r.jobId := by
      rw [← hp, JobQueue.enqueue]
      dsimp only
      split_ifs <;> rintro _ ⟨⟩ <;> rfl
    obtain ⟨job?,t⟩ := added
    rw [step, hp] at hstep
    cases job? with
    | none => cases hstep; cases hjob
    | some added =>
      cases hstep
      rw [List.mem_singleton.mp hjob]
      exact congrArg some (hid added rfl).symm
  | dequeue =>
    rw [step] at hstep
    split at hstep <;> cases hstep <;> cases hjob
  | purgeExpired => cases hstep; cases hjob

theorem keys_step {op : Op} (h : s.accounted outs) (hid : ∀ id ∈ op.jobId?, id ∉ s.jobs.keys)
    (hstep : step H s op = some (s', outs')) :
    ∀ id ∈ s'.jobs.keys, id ∈ s.jobs.keys ∨ id ∈ op.jobId? := by
  have hsplit : accepted (outs ++ outs') = accepted outs ++ accepted outs' := List.filterMap_append
  intro id hkey
  rw [(accounted_step h hid hstep).keys_jobs, hsplit, List.map_append, List.mem_append,
    ← Accounted.keys_jobs h] at hkey
  refine hkey.imp_right fun hnew => ?_
  obtain ⟨job,hjob,rfl⟩ := List.mem_map.mp hnew
  exact accepted_step hstep job hjob

theorem isHeap_evictLowest (h : IsHeap QueuedJob.lt s.heap) :
    IsHeap QueuedJob.lt (s.evictLowest H).heap := by
  simp only [JobQueue.evictLowest, JobQueue.dropAt]
  split_ifs
  · exact h
  · split
    · exact h
    · exact H.heapify_isHeap _
  · exact h

theorem isHeap_enqueue (h : IsHeap QueuedJob.lt s.heap) (r : Request) :
    IsHeap QueuedJob.lt (s.enqueue H r).2.heap := by
  rw [JobQueue.enqueue]
  dsimp only
  split_ifs
  · exact h
  · exact isHeap_evictLowest h
  · exact H.push_isHeap _ _ (isHeap_evictLowest h)
  · exact H.push_isHeap _ _ h

theorem isHeap_dequeue (h : IsHeap QueuedJob.lt s.heap) : IsHeap QueuedJob.lt (s.dequeue H).2.heap := by
  rw [JobQueue.dequeue]
  cases hheap : s.heap with
  | nil => rwa [H.pop_nil]
  | cons job rest =>
    obtain ⟨popped,hpop,_,hkeeps⟩ := H.pop_cons job rest
    rw [hpop]
    exact hkeeps (hheap ▸ h)

theorem isHeap_step {op : Op} (h : IsHeap QueuedJob.lt s.heap) (hstep : step H s op = some (s', outs')) :
    IsHeap QueuedJob.lt s'.heap := by
  cases op with
  | enqueue r =>
    have hadded := isHeap_enqueue (H := H) h r
    generalize hp : s.enqueue H r = added at hadded
    obtain ⟨job?,t⟩ := added
    rw [step, hp] at hstep
    cases job? with
    | none => cases hstep; exact hadded
    | some job => cases hstep; exact hadded
  | dequeue =>
    have hpopped := isHeap_dequeue (H := H) h
    generalize hp : s.dequeue H = popped at hpopped
    obtain ⟨job?,t⟩ := popped
    rw [step, hp] at hstep
    cases job? with
    | none => cases hstep; exact hpopped
    | some job => cases hstep; exact hpopped
  | purgeExpired now maxAge =>
    cases hstep
    exact H.heapify_isHeap _

theorem accounted_run {ops : List Op} (h : s.accounted outs) (hids : (ops.filterMap Op.jobId?).Nodup)
    (hnew : ∀ id ∈ ops.filterMap Op.jobId?, id ∉ s.jobs.keys)
    (hrun : Run.exec (step H) s ops = some (s', outs')) : s'.accounted (outs ++ outs') := by
  induction ops generalizing s outs outs' with
  | nil => cases hrun; rwa [List.append_nil]
  | cons op ops ih =>
    obtain ⟨t,es,es',hstep,hrest,rfl⟩ := Run.exec_cons.mp hrun
    have hop : ∀ id ∈ op.jobId?, id ∉ s.jobs.keys := by
      intro id hid
      exact hnew id (List.mem_filterMap.mpr ⟨op, List.mem_cons_self, hid⟩)
    have hsplit : ((op :: ops).filterMap Op.jobId?) = op.jobId?.toList ++ ops.filterMap Op.jobId? := by
      cases hid : op.jobId? with
      | none => rw [List.filterMap_cons_none hid]; rfl
      | some id => rw [List.filterMap_cons_some hid]; rfl
    rw [hsplit] at hids hnew
    obtain ⟨_,hrestIds,hdisjoint⟩ := List.nodup_append.mp hids
    rw [← List.append_assoc]
    refine ih (accounted_step h hop hstep) hrestIds ?_ hrest
    intro id hid hkey
    rcases keys_step h hop hstep id hkey with hold | hadded
    · exact hnew id (List.mem_append_right _ hid) hold
    · exact hdisjoint id (Option.mem_toList.mpr hadded) id hid rfl

theorem isHeap_run {ops : List Op} (h : IsHeap QueuedJob.lt s.heap)
    (hrun : Run.exec (step H) s ops = some (s', outs)) : IsHeap QueuedJob.lt s'.heap := by
  have hkept : ∀ (_ : List Out) (t : JobQueue) (op : Op) (t' : JobQueue) (outs : List Out),
      IsHeap QueuedJob.lt t.heap → True → step H t op = some (t', outs) → IsHeap QueuedJob.lt t'.heap :=
    fun _ _ _ _ _ h _ hstep => isHeap_step h hstep
  exact Run.exec_invariant hkept [] h (Run.meets_true s ops) hrun

end Run

section Conservation

variable {H : Heapq QueuedJob.lt} {s : JobQueue} {outs : List Out}

def inStatus (s : JobQueue) (outs : List Out) (status : Status) : List QueuedJob :=
  (accepted outs).filter fun job => s.status job = some status

structure Conserved (s : JobQueue) (outs : List Out) : Prop where
  distinct : (accepted outs).Nodup
  placed : ∀ job ∈ accepted outs, ∃! status, s.status job = some status
  queued : s.heap.Perm (inStatus s outs .queued)
  dequeued : (dequeued outs).Perm (inStatus s outs .processing)
  totalEnqueued : s.stats.enqueued = (accepted outs).length
  totalDequeued : s.stats.dequeued = (inStatus s outs .processing).length
  totalExpired : s.stats.expired = (inStatus s outs .expired).length
  totalDropped : s.stats.dropped = (inStatus s outs .dropped).length + refused outs
  byPriority : ∀ priority,
    s.byPriority priority = (inStatus s outs .queued).countP fun job => job.priority = priority

theorem conserved_of_accounted (h : s.accounted outs) : Conserved s outs where
  distinct := h.owns.nodup
  placed job hjob := by
    have hlt := h.owns.cell_lt hjob
    exact ⟨s.statuses[job.cell], List.getElem?_eq_getElem hlt, fun status hstatus =>
      Option.some.inj (hstatus.symm.trans (List.getElem?_eq_getElem hlt))⟩
  queued := h.queued.perm_filter h.owns
  dequeued := h.handedOut.perm_filter h.owns
  totalEnqueued := h.enqueuedCount
  totalDequeued := h.dequeuedCount.trans (h.handedOut.perm_filter h.owns).length_eq
  totalExpired := h.expiredCount.trans (h.owns.length_filter _).symm
  totalDropped := by
    rw [h.droppedCount]
    exact congrArg (· + refused outs) (h.owns.length_filter _).symm
  byPriority priority := by
    rw [JobQueue.byPriority, h.table, List.countP_map, inStatus, List.countP_filter]
    exact List.countP_congr fun job _ => by simp

theorem dequeue_least {job : QueuedJob} {s' : JobQueue} (h : IsHeap QueuedJob.lt s.heap)
    (hdequeue : s.dequeue H = (some job, s')) :
    job ∈ s.heap ∧ ∀ other ∈ s.heap, QueuedJob.lt other job = false := by
  cases hheap : s.heap with
  | nil =>
    rw [JobQueue.dequeue, hheap, H.pop_nil] at hdequeue
    cases hdequeue
  | cons first rest =>
    obtain ⟨popped,hpop,_⟩ := H.pop_cons first rest
    rw [JobQueue.dequeue, hheap, hpop] at hdequeue
    cases hdequeue
    exact ⟨List.mem_cons_self, IsHeap.root_least weakOrder_lt (hheap ▸ h)⟩

-- Any run from the empty queue: the last state is any moment of a longer run.
theorem jobs_conserved (H : Heapq QueuedJob.lt) (maxSize : Int) (ops : List Op)
    (hids : (ops.filterMap Op.jobId?).Nodup) (s : JobQueue) (outs : List Out)
    (hrun : Run.exec (step H) { maxSize := maxSize } ops = some (s, outs)) :
    Conserved s outs ∧ ∀ job s', s.dequeue H = (some job, s') →
      job ∈ inStatus s outs .queued ∧ ∀ other ∈ inStatus s outs .queued, QueuedJob.lt other job = false := by
  have hempty : JobQueue.accounted { maxSize := maxSize } [] :=
    ⟨owns_nil, lists_nil, lists_nil, List.nodup_nil, rfl, rfl, rfl, rfl, rfl⟩
  have haccounted : s.accounted ([] ++ outs) := accounted_run hempty hids (fun _ _ => List.not_mem_nil) hrun
  have hconserved := conserved_of_accounted haccounted
  refine ⟨hconserved, fun job s' hdequeue => ?_⟩
  obtain ⟨hjob,hleast⟩ := dequeue_least (isHeap_run isHeap_nil hrun) hdequeue
  exact ⟨hconserved.queued.mem_iff.mp hjob, fun other hother =>
    hleast other (hconserved.queued.mem_iff.mpr hother)⟩

def request (id : String) (priority : JobPriority) (now : ℚ) : Request :=
  { jobId := id.toList, command := ["ls".toList], actor := "ci".toList, priority := priority, now := now }

def urgentLater : List Op :=
  [.enqueue (request "1a2b3c4d" .normal 1), .enqueue (request "5e6f7a8b" .critical 2), .dequeue]

theorem jobs_conserved_urgent : ∃ s outs,
    Run.exec (step sortedQueue) { maxSize := 2 } urgentLater = some (s, outs) ∧
      Conserved s outs ∧ ∀ job s', s.dequeue sortedQueue = (some job, s') →
        job ∈ inStatus s outs .queued ∧
          ∀ other ∈ inStatus s outs .queued, QueuedJob.lt other job = false :=
  ⟨_, _, rfl, jobs_conserved sortedQueue 2 urgentLater (by decide) _ _ rfl⟩

def lowWhenFull : List Op :=
  [.enqueue (request "1a2b3c4d" .normal 1), .enqueue (request "5e6f7a8b" .low 2)]

-- A refused request counts as dropped, and no accepted job was.
theorem refused_counted_as_dropped : ∃ s outs,
    Run.exec (step sortedQueue) { maxSize := 1 } lowWhenFull = some (s, outs) ∧
      s.stats.dropped = 1 ∧ inStatus s outs .dropped = [] :=
  ⟨_, _, rfl, rfl, rfl⟩

end Conservation

end PicoSentry.Sandbox.Queue
