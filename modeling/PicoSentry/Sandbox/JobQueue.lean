import Mathlib.Data.Prod.Lex
import Mathlib.Data.List.Range
import PicoSentry.Foundation.Dict
import PicoSentry.Foundation.SortedBy
import PicoSentry.Foundation.Json
import PicoSentry.Foundation.Run

namespace PicoSentry.Sandbox.Queue

open Foundation

inductive JobPriority where
  | critical | high | normal | low
  deriving DecidableEq

def JobPriority.value : JobPriority → Nat
  | .critical => 0
  | .high => 1
  | .normal => 2
  | .low => 3

inductive Status where
  | queued | processing | expired | dropped
  deriving DecidableEq

-- The fields of a job that no operation changes; its status is the cell of this number.
structure QueuedJob where
  cell : Nat
  jobId : Str
  command : List Str
  actor : Str
  priority : JobPriority := .normal
  createdAt : ℚ
  metadata : Dict Str Json := []

def QueuedJob.lt (job other : QueuedJob) : Bool :=
  if job.priority ≠ other.priority then job.priority.value < other.priority.value
  else job.createdAt < other.createdAt

structure Stats where
  enqueued : Nat := 0
  dequeued : Nat := 0
  dropped : Nat := 0
  expired : Nat := 0
  deriving DecidableEq

structure JobQueue where
  heap : List QueuedJob := []
  jobs : Dict Str QueuedJob := []
  statuses : List Status := []
  maxSize : Int := 1000
  stats : Stats := {}

structure Request where
  jobId : Str
  command : List Str
  actor : Str
  priority : JobPriority := .normal
  metadata : Option (Dict Str Json) := none
  now : ℚ

namespace JobQueue

def status (s : JobQueue) (job : QueuedJob) : Option Status := s.statuses[job.cell]?

def setStatus (s : JobQueue) (job : QueuedJob) (status : Status) : JobQueue :=
  { s with statuses := s.statuses.set job.cell status }

structure Worst where
  idx : Int := -1
  priority : Int := -1
  time : ℚ := -1

def Worst.see (worst : Worst) (entry : QueuedJob × Nat) : Worst :=
  if entry.1.priority.value > worst.priority ∨
      (entry.1.priority.value = worst.priority ∧ entry.1.createdAt > worst.time) then
    ⟨entry.2, entry.1.priority.value, entry.1.createdAt⟩
  else worst

def worst (heap : List QueuedJob) : Worst := heap.zipIdx.foldl Worst.see {}

section Operations

variable (H : Heapq QueuedJob.lt)

def dropAt (s : JobQueue) (i : Nat) : JobQueue :=
  match s.heap[i]? with
  | none => s
  | some evicted =>
    { s.setStatus evicted .dropped with
      heap := H.heapify (s.heap.eraseIdx i), stats.dropped := s.stats.dropped + 1 }

def evictLowest (s : JobQueue) : JobQueue :=
  if s.heap = [] then s
  else if 0 ≤ (worst s.heap).idx then s.dropAt H (worst s.heap).idx.toNat
  else s

def refuse (s : JobQueue) : JobQueue := { s with stats.dropped := s.stats.dropped + 1 }

def full (s : JobQueue) : Prop := s.maxSize ≤ s.heap.length

instance (s : JobQueue) : Decidable s.full := inferInstanceAs (Decidable (s.maxSize ≤ s.heap.length))

def add (s : JobQueue) (r : Request) : QueuedJob × JobQueue :=
  let job : QueuedJob :=
    ⟨s.statuses.length, r.jobId, r.command, r.actor, r.priority, r.now, r.metadata.getD []⟩
  (job, { s with
    heap := H.heappush s.heap job, jobs := s.jobs.set r.jobId job
    statuses := s.statuses ++ [.queued], stats.enqueued := s.stats.enqueued + 1 })

def enqueue (s : JobQueue) (r : Request) : Option QueuedJob × JobQueue :=
  if s.full then
    if JobPriority.low.value ≤ r.priority.value then (none, s.refuse)
    else
      let s := s.evictLowest H
      if s.full then (none, s.refuse)
      else
        let (job, s) := s.add H r
        (some job, s)
  else
    let (job, s) := s.add H r
    (some job, s)

-- No job is there before the timeout; a call without one waits on.
def dequeue (s : JobQueue) : Option QueuedJob × JobQueue :=
  match H.heappop s.heap with
  | none => (none, s)
  | some (job, heap) =>
    (some job, { s.setStatus job .processing with
      heap := heap, stats.dequeued := s.stats.dequeued + 1 })

def expire (s : JobQueue) (jobId : Str) : JobQueue :=
  match s.jobs.get? jobId with
  | none => s
  | some job => { s.setStatus job .expired with stats.expired := s.stats.expired + 1 }

def expiredIds (s : JobQueue) (cutoff : ℚ) : List Str :=
  (s.heap.filter fun job => job.createdAt < cutoff ∧ s.status job = some .queued).map QueuedJob.jobId

def purgeExpired (s : JobQueue) (now maxAgeSeconds : ℚ) : Nat × JobQueue :=
  let ids := s.expiredIds (now - maxAgeSeconds)
  let marked := ids.foldl expire s
  (ids.length, { marked with heap := H.heapify (marked.heap.filter fun job => job.jobId ∉ ids) })

def byPriority (s : JobQueue) (priority : JobPriority) : Nat :=
  s.jobs.countP fun entry => entry.2.priority = priority ∧ s.status entry.2 = some .queued

end Operations

end JobQueue

inductive Op where
  | enqueue (request : Request)
  | dequeue
  | purgeExpired (now maxAgeSeconds : ℚ)

inductive Out where
  | accepted (job : QueuedJob)
  | refused
  | dequeued (job : QueuedJob)
  | timedOut
  | purged (count : Nat)

def Op.jobId? : Op → Option Str
  | .enqueue request => some request.jobId
  | _ => none

def Out.accepted? : Out → Option QueuedJob
  | .accepted job => some job
  | _ => none

def Out.dequeued? : Out → Option QueuedJob
  | .dequeued job => some job
  | _ => none

def Out.isRefused : Out → Bool
  | .refused => true
  | _ => false

def accepted (outs : List Out) : List QueuedJob := outs.filterMap Out.accepted?

def dequeued (outs : List Out) : List QueuedJob := outs.filterMap Out.dequeued?

def refused (outs : List Out) : Nat := outs.countP Out.isRefused

def step (H : Heapq QueuedJob.lt) (s : JobQueue) : Op → Option (JobQueue × List Out)
  | .enqueue request =>
    match s.enqueue H request with
    | (some job, s') => some (s', [.accepted job])
    | (none, s') => some (s', [.refused])
  | .dequeue =>
    match s.dequeue H with
    | (some job, s') => some (s', [.dequeued job])
    | (none, s') => some (s', [.timedOut])
  | .purgeExpired now maxAgeSeconds =>
    let (count, s') := s.purgeExpired H now maxAgeSeconds
    some (s', [.purged count])

def sortKey (job : QueuedJob) : ℕ ×ₗ ℚ := toLex (job.priority.value, job.createdAt)

theorem value_injective : Function.Injective JobPriority.value := by
  intro p q h
  cases p <;> cases q <;> first | rfl | cases h

theorem lt_eq_keyLt (job other : QueuedJob) : job.lt other = keyLt sortKey job other := by
  rw [QueuedJob.lt, keyLt, Bool.eq_iff_iff, decide_eq_true_iff, sortKey, sortKey, Prod.Lex.toLex_lt_toLex]
  by_cases h : job.priority = other.priority
  · simp [h]
  · have hvalue : job.priority.value ≠ other.priority.value := fun heq => h (value_injective heq)
    simp [h, hvalue]

theorem lt_eq : QueuedJob.lt = keyLt sortKey := funext fun job => funext fun other => lt_eq_keyLt job other

theorem weakOrder_lt : WeakOrder QueuedJob.lt := lt_eq ▸ weakOrder_keyLt sortKey

def sortedQueue : Heapq QueuedJob.lt := (sortedHeapq sortKey).of lt_eq.symm

end PicoSentry.Sandbox.Queue
