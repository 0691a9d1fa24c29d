import PicoSentry.Sandbox.JobQueue

namespace PicoSentry.Sandbox.Queue

open Foundation JobQueue

section Worst

def worstOf (entry : QueuedJob × Nat) : Worst :=
  ⟨entry.2, entry.1.priority.value, entry.1.createdAt⟩

theorem see_cases (w : Worst) (entry : QueuedJob × Nat) :
    (w.see entry = w ∧ (entry.1.priority.value : Int) ≤ w.priority) ∨
      (w.see entry = worstOf entry ∧ w.priority ≤ entry.1.priority.value) := by
  rw [Worst.see]
  split
  · next h =>
    refine .inr ⟨rfl, ?_⟩
    rcases h with hgt | ⟨heq,_⟩
    · exact hgt.le
    · exact heq.ge
  · next h =>
    rw [not_or, not_lt] at h
    exact .inl ⟨rfl, h.1⟩

theorem foldl_see (entries : List (QueuedJob × Nat)) (w : Worst) :
    (entries.foldl Worst.see w = w ∨ ∃ entry ∈ entries, entries.foldl Worst.see w = worstOf entry) ∧
      w.priority ≤ (entries.foldl Worst.see w).priority ∧
      ∀ entry ∈ entries, (entry.1.priority.value : Int) ≤ (entries.foldl Worst.see w).priority := by
  induction entries generalizing w with
  | nil => exact ⟨.inl rfl, le_rfl, fun _ h => absurd h List.not_mem_nil⟩
  | cons first entries ih =>
    obtain ⟨hfrom,hle,hall⟩ := ih (w.see first)
    rw [List.foldl_cons]
    rcases see_cases w first with ⟨heq,hfirst⟩ | ⟨heq,hfirst⟩
    · rw [heq] at hfrom hle hall ⊢
      refine ⟨?_, hle, List.forall_mem_cons.mpr ⟨hfirst.trans hle, hall⟩⟩
      rcases hfrom with hsame | ⟨entry,hentry,hworst⟩
      · exact .inl hsame
      · exact .inr ⟨entry, List.mem_cons_of_mem _ hentry, hworst⟩
    · rw [heq] at hfrom hle hall ⊢
      refine ⟨.inr ?_, hfirst.trans hle, List.forall_mem_cons.mpr ⟨hle, hall⟩⟩
      rcases hfrom with hsame | ⟨entry,hentry,hworst⟩
      · exact ⟨first, List.mem_cons_self, hsame⟩
      · exact ⟨entry, List.mem_cons_of_mem _ hentry, hworst⟩

theorem worst_spec {heap : List QueuedJob} (h : heap ≠ []) :
    ∃ (i : Nat) (job : QueuedJob), heap[i]? = some job ∧ (worst heap).idx = i ∧
      ∀ other ∈ heap, other.priority.value ≤ job.priority.value := by
  obtain ⟨hfrom,_,hall⟩ := foldl_see heap.zipIdx {}
  have hin : ∀ other ∈ heap, (other.priority.value : Int) ≤ (worst heap).priority := by
    intro other hother
    obtain ⟨i,hi,rfl⟩ := List.mem_iff_getElem.mp hother
    exact hall (heap[i], i) (List.mem_zipIdx_iff_getElem?.mpr (List.getElem?_eq_getElem hi))
  rcases hfrom with hnone | ⟨⟨job,i⟩,hentry,hworst⟩
  · obtain ⟨job,hjob⟩ := List.exists_mem_of_ne_nil heap h
    have hbelow := hin job hjob
    rw [worst, hnone] at hbelow
    have hnegative : ((job.priority.value : Nat) : Int) ≤ -1 := hbelow
    omega
  · refine ⟨i, job, List.mem_zipIdx_iff_getElem?.mp hentry, congrArg Worst.idx hworst, ?_⟩
    intro other hother
    have hbelow := hin other hother
    rw [worst, hworst] at hbelow
    exact Int.ofNat_le.mp hbelow

end Worst

section Eviction

variable {H : Heapq QueuedJob.lt} {s : JobQueue} {r : Request}

theorem evictLowest_drops (h : s.heap ≠ []) : ∃ job kept, s.heap.Perm (job :: kept) ∧
    (s.evictLowest H).heap.Perm kept ∧
      ∀ other ∈ s.heap, other.priority.value ≤ job.priority.value := by
  obtain ⟨i,job,hjob,hidx,hlowest⟩ := worst_spec h
  obtain ⟨hi,rfl⟩ := List.getElem?_eq_some_iff.mp hjob
  refine ⟨s.heap[i], s.heap.eraseIdx i, (List.getElem_cons_eraseIdx_perm hi).symm, ?_, hlowest⟩
  rw [JobQueue.evictLowest, if_neg h, hidx, if_pos (Int.natCast_nonneg i), Int.toNat_natCast,
    JobQueue.dropAt, hjob]
  exact H.heapify_perm _

theorem evictLowest_of_empty (h : s.heap = []) : s.evictLowest H = s := by
  rw [JobQueue.evictLowest, if_pos h]

theorem enqueue_full (hfull : s.full) (hlow : r.priority ≠ .low) :
    (s.enqueue H r).2.heap.Perm ((s.enqueue H r).1.toList ++ (s.evictLowest H).heap) := by
  have hvalue : ¬JobPriority.low.value ≤ r.priority.value := by
    cases hp : r.priority with
    | low => exact absurd hp hlow
    | critical | high | normal => decide
  rw [JobQueue.enqueue, if_pos hfull, if_neg hvalue]
  dsimp only
  split
  · exact List.Perm.refl _
  · exact H.push_perm _ _

theorem enqueue_keeps (h : ¬s.full ∨ r.priority = .low) :
    (s.enqueue H r).2.heap.Perm ((s.enqueue H r).1.toList ++ s.heap) := by
  rw [JobQueue.enqueue]
  split
  · next hfull =>
    rw [h.resolve_left (not_not.mpr hfull), if_pos le_rfl]
    exact List.Perm.refl _
  · exact H.push_perm _ _

variable (H s r) in
def Drops (job : QueuedJob) : Prop :=
  ∃ kept, s.heap.Perm (job :: kept) ∧ (s.enqueue H r).2.heap.Perm ((s.enqueue H r).1.toList ++ kept)

theorem not_drops (h : (s.enqueue H r).2.heap.Perm ((s.enqueue H r).1.toList ++ s.heap))
    (job : QueuedJob) : ¬Drops H s r job := by
  rintro ⟨kept,hheap,hafter⟩
  have hkept : kept.Perm s.heap := (List.perm_append_left_iff _).mp (hafter.symm.trans h)
  have hlength := (hkept.trans hheap).length_eq
  rw [List.length_cons] at hlength
  omega

theorem drops_unique {job other : QueuedJob} (h : Drops H s r job) (h' : Drops H s r other) :
    job = other := by
  obtain ⟨kept,hheap,hafter⟩ := h
  obtain ⟨kept',hheap',hafter'⟩ := h'
  have hkept : kept.Perm kept' := (List.perm_append_left_iff _).mp (hafter.symm.trans hafter')
  have hsingle : (job :: kept).Perm (other :: kept) :=
    (hheap.symm.trans hheap').trans (hkept.symm.cons other)
  exact List.singleton_perm_singleton.mp
    ((List.perm_append_right_iff kept).mp (by simpa using hsingle))

variable (H s r) in
def NoInversion : Prop :=
  ∀ job, Drops H s r job → ¬job.priority.value < r.priority.value ∧
    ∀ other ∈ s.heap, other.priority.value ≤ job.priority.value

theorem no_priority_inversion_iff (H : Heapq QueuedJob.lt) (s : JobQueue) (r : Request) :
    NoInversion H s r ↔ (s.full → r.priority = .low ∨ s.heap = [] ∨
      ∃ job ∈ s.heap, r.priority.value ≤ job.priority.value) := by
  by_cases hkeeps : ¬s.full ∨ r.priority = .low
  · refine iff_of_true (fun job hdrops => absurd hdrops (not_drops (enqueue_keeps hkeeps) job)) ?_
    exact fun hfull => .inl (hkeeps.resolve_left (not_not.mpr hfull))
  · obtain ⟨hfull,hlow⟩ := not_or.mp hkeeps
    have hafter := enqueue_full (H := H) (not_not.mp hfull) hlow
    by_cases hempty : s.heap = []
    · rw [evictLowest_of_empty hempty] at hafter
      exact iff_of_true (fun job hdrops => absurd hdrops (not_drops hafter job)) fun _ => .inr (.inl hempty)
    · obtain ⟨job,kept,hheap,hevicted,hlowest⟩ := evictLowest_drops (H := H) hempty
      have hdrops : Drops H s r job := ⟨kept, hheap, hafter.trans (hevicted.append_left _)⟩
      have hjob : job ∈ s.heap := hheap.mem_iff.mpr List.mem_cons_self
      constructor
      · exact fun h _ => .inr (.inr ⟨job, hjob, not_lt.mp (h job hdrops).1⟩)
      · intro h other hother
        obtain rfl := drops_unique hother hdrops
        obtain ⟨outranked,hmem,hrank⟩ := ((h (not_not.mp hfull)).resolve_left hlow).resolve_left hempty
        exact ⟨not_lt.mpr (hrank.trans (hlowest outranked hmem)), hlowest⟩

end Eviction

section Inversion

def oneCritical : JobQueue :=
  (JobQueue.enqueue sortedQueue { maxSize := 1 }
    { jobId := "1a2b3c4d".toList, command := ["ls".toList], actor := "ci".toList,
      priority := .critical, now := 1 }).2

def highRequest : Request :=
  { jobId := "5e6f7a8b".toList, command := ["ls".toList], actor := "ci".toList, priority := .high, now := 2 }

theorem critical_job_dropped_for_high :
    oneCritical.full ∧ ¬NoInversion sortedQueue oneCritical highRequest := by
  refine ⟨by decide, fun h => ?_⟩
  have hdrops : Drops sortedQueue oneCritical highRequest
      ⟨0, "1a2b3c4d".toList, ["ls".toList], "ci".toList, .critical, 1, []⟩ :=
    ⟨[], List.Perm.refl _, List.Perm.refl _⟩
  exact absurd (h _ hdrops).1 (by decide)

end Inversion

end PicoSentry.Sandbox.Queue
