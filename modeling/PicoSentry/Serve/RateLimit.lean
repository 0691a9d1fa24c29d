import Mathlib.Data.List.Dedup
import Mathlib.Data.List.Sort
import Mathlib.Data.NNRat.Defs
import Mathlib.Data.Rat.Floor
import PicoSentry.Foundation.Dict
import PicoSentry.Foundation.Run
import PicoSentry.Foundation.Text

namespace PicoSentry.Serve.RateLimit

open Foundation

inductive BucketType where
  | ip
  | org
  deriving DecidableEq, Repr

abbrev Key := BucketType × Str

abbrev Counters := BucketType → Dict Str (List ℚ)

abbrev Table := Dict Key (List ℚ)

structure Config where
  window : Int
  maxBuckets : Nat
  maxRequests : BucketType → Nat

def flushBatch : Nat := 1000

def evictionInterval : ℚ := 60

inductive Stage where
  | idle
  | snapped (snap : Counters) (now : ℚ)
  | flushed (now : ℚ)
  | read (rows : Table) (now : ℚ)

structure Worker where
  counters : Counters
  lastEviction : ℚ
  stage : Stage

structure State where
  clock : ℚ
  table : Table
  workers : List Worker

structure Made where
  worker : Nat
  key : Key
  time : ℚ
  deriving DecidableEq

inductive Step where
  | advance (duration : ℚ≥0)
  | join
  | request (worker : Nat) (key : Key) (now : ℚ)
  | snapshot (worker : Nat)
  | transact (worker : Nat) (fails : Bool)
  | readTable (worker : Nat) (fails : Bool)
  | merge (worker : Nat)
  deriving DecidableEq

def bucket (c : Counters) (k : Key) : List ℚ := ((c k.1).get? k.2).getD []

def row (table : Table) (k : Key) : List ℚ := (table.get? k).getD []

def setBucket (c : Counters) (k : Key) (v : List ℚ) : Counters :=
  fun type => if type = k.1 then (c type).set k.2 v else c type

def lastTime (v : List ℚ) : ℚ := v.getLast?.getD 0

section Eviction

def removeKeys (d : Dict Str (List ℚ)) (ks : List Str) : Dict Str (List ℚ) := ks.foldl Dict.erase d

def staleKeys (cutoff : ℚ) (d : Dict Str (List ℚ)) : List Str :=
  (d.filter fun p => p.2.isEmpty || lastTime p.2 < cutoff).map Prod.fst

def overflowKeys (maxBuckets : Nat) (d : Dict Str (List ℚ)) : List Str :=
  if maxBuckets < d.length then
    ((d.insertionSort fun p q => lastTime p.2 ≤ lastTime q.2).take (d.length - maxBuckets)).map Prod.fst
  else []

def evictBuckets (cfg : Config) (now : ℚ) (d : Dict Str (List ℚ)) : Dict Str (List ℚ) :=
  let live := removeKeys d (staleKeys (now - cfg.window) d)
  removeKeys live (overflowKeys cfg.maxBuckets live)

def evictIfNeeded (cfg : Config) (now : ℚ) (w : Worker) : Worker :=
  if now - w.lastEviction < evictionInterval then w
  else { w with
    lastEviction := now
    counters := fun type => evictBuckets cfg now (w.counters type) }

end Eviction

def cleaned (cfg : Config) (now : ℚ) (v : List ℚ) : List ℚ :=
  v.filter fun t => now - t < cfg.window

-- int() cuts the fraction off, towards zero.
def truncate (x : ℚ) : Int := if 0 ≤ x then ⌊x⌋ else ⌈x⌉

def retryAfter (cfg : Config) (now : ℚ) (v : List ℚ) : Int :=
  max (truncate (cfg.window - (now - v.head?.getD (now - cfg.window)) + 1)) 1

def recordAndCheck (cfg : Config) (k : Key) (now : ℚ) (w : Worker) : Worker × Bool × Int :=
  let w := evictIfNeeded cfg now w
  let kept := cleaned cfg now (bucket w.counters k)
  let recorded := { w with counters := setBucket w.counters k (kept ++ [now]) }
  if cfg.maxRequests k.1 < kept.length + 1 then (recorded, true, retryAfter cfg now (kept ++ [now]))
  else (recorded, false, 0)

def liveBuckets (cfg : Config) (now : ℚ) (c : Counters) : Counters :=
  fun type => (c type).filter fun p => !p.2.isEmpty && now - cfg.window < lastTime p.2

-- sorted(set(..))
def sortedSet (xs : List ℚ) : List ℚ := xs.dedup.insertionSort (· ≤ ·)

def snapRows (snap : Counters) : List (Key × List ℚ) :=
  (snap .ip).map (fun p => ((.ip, p.1), p.2)) ++ (snap .org).map fun p => ((.org, p.1), p.2)

def mergeRow (cutoff : ℚ) (table : Table) (k : Key) (timestamps : List ℚ) : List ℚ :=
  sortedSet (timestamps ++ (row table k).filter fun t => cutoff < t)

def flushRows (cutoff : ℚ) : Nat → Table → List (Key × List ℚ) → Table
  | _, table, [] => table
  | flushed, table, (k, timestamps) :: rest =>
    if timestamps.isEmpty || lastTime timestamps ≤ cutoff then flushRows cutoff flushed table rest
    else
      let table := table.set k (mergeRow cutoff table k timestamps)
      if flushBatch ≤ flushed + 1 then table else flushRows cutoff (flushed + 1) table rest

def syncRows (cutoff : ℚ) (c : Counters) : List (Key × List ℚ) → Counters
  | [] => c
  | (k, timestamps) :: rest =>
    let foreign := timestamps.filter fun t => cutoff < t
    if foreign.isEmpty then syncRows cutoff c rest
    else syncRows cutoff (setBucket c k (sortedSet (bucket c k ++ foreign))) rest

def restoreRows (cutoff : ℚ) (c : Counters) : List (Key × List ℚ) → Counters
  | [] => c
  | (k, timestamps) :: rest =>
    let valid := timestamps.filter fun t => cutoff < t
    if valid.isEmpty then restoreRows cutoff c rest
    else restoreRows cutoff (setBucket c k valid) rest

def State.setWorker (s : State) (worker : Nat) (w : Worker) : State :=
  { s with workers := s.workers.set worker w }

def step (cfg : Config) (s : State) : Step → Option (State × List Made)
  | .advance duration => some ({ s with clock := s.clock + duration }, [])
  | .join =>
    let counters := restoreRows (s.clock - cfg.window) (fun _ => []) s.table
    some ({ s with workers := s.workers ++ [⟨counters, s.clock, .idle⟩] }, [])
  -- now was read when the request came in, before it waited for a thread and the lock.
  | .request worker k now => do
      let w ← s.workers[worker]?
      if now ≤ s.clock then
        return (s.setWorker worker (recordAndCheck cfg k now w).1, [⟨worker, k, now⟩])
      else none
  | .snapshot worker => do
      let w ← s.workers[worker]?
      match w.stage with
      | .idle =>
        let w := evictIfNeeded cfg s.clock w
        return (s.setWorker worker
          { w with stage := .snapped (liveBuckets cfg s.clock w.counters) s.clock }, [])
      | _ => none
  | .transact worker fails => do
      let w ← s.workers[worker]?
      match w.stage with
      | .snapped snap now =>
        let table := if fails then s.table
          else flushRows (now - cfg.window) 0 s.table (snapRows snap)
        return ({ s.setWorker worker { w with stage := .flushed now } with table := table }, [])
      | _ => none
  | .readTable worker fails => do
      let w ← s.workers[worker]?
      match w.stage with
      | .flushed now =>
        return (s.setWorker worker { w with stage := if fails then .idle else .read s.table now }, [])
      | _ => none
  | .merge worker => do
      let w ← s.workers[worker]?
      match w.stage with
      | .read rows now =>
        return (s.setWorker worker
          { w with counters := syncRows (now - cfg.window) w.counters rows, stage := .idle }, [])
      | _ => none

end PicoSentry.Serve.RateLimit
