import Mathlib.Data.Rat.Defs
import Mathlib.Algebra.Order.Ring.Unbundled.Rat
import PicoSentry.Foundation.FlatJson
import PicoSentry.Foundation.Run

namespace PicoSentry.Serve.Metrics

open Foundation

inductive MetricType where
  | gauge | counter | histogram
deriving DecidableEq

structure Labels where
  items : Dict Str Str
  nodup : items.keys.Nodup

structure Metric where
  name : Str
  value : ℚ
  labels : Labels
  timestamp : ℚ
  metricType : MetricType

structure MetricsCollector where
  metrics : Dict Str (List Metric)
  counters : Dict Str ℚ
  globalGauges : Dict Str ℚ
  startTime : ℚ
  counterTimestamps : Dict Str ℚ

def MetricsCollector.init (startTime : ℚ) : MetricsCollector :=
  { metrics := [], counters := [], globalGauges := [], startTime, counterTimestamps := [] }

def maxCounterKeys : Nat := 1000

def labelUnsafe : List Char := ['\\', '"', ',', '\n', '\r', '\x7b', '\x7d']

def sanitize (s : Str) : Str := s.map fun c => if c ∈ labelUnsafe then '_' else c

-- metrics[name][-500:] once there are more than 1000 samples.
def trim (xs : List Metric) : List Metric :=
  if xs.length > 1000 then xs.drop (xs.length - 500) else xs

def trimmedOff (xs : List Metric) : List Metric :=
  if xs.length > 1000 then xs.take (xs.length - 500) else []

theorem trimmedOff_append (xs : List Metric) : trimmedOff xs ++ trim xs = xs := by
  rw [trimmedOff, trim]
  split
  · exact List.take_append_drop _ xs
  · rfl

def counterKey (name : Str) (labels : Labels) : Str :=
  name ++ ':' :: Json.dumps (Json.flat labels.items)

def oldestKeys (counters timestamps : Dict Str ℚ) : List Str :=
  (ascending (fun k => (timestamps.get? k).getD 0) timestamps.keys).take (counters.length / 4)

namespace MetricsCollector

def held (m : MetricsCollector) (name : Str) : List Metric := (m.metrics.get? name).getD []

def append (m : MetricsCollector) (x : Metric) : MetricsCollector :=
  { m with metrics := m.metrics.set x.name (trim (m.held x.name ++ [x])) }

def setGlobalGauge (m : MetricsCollector) (name : Str) (value : ℚ) : MetricsCollector :=
  { m with globalGauges := m.globalGauges.set name value }

def gauge (m : MetricsCollector) (now : ℚ) (name : Str) (value : ℚ) (labels : Labels) :
    MetricsCollector :=
  m.append { name, value, labels, timestamp := now, metricType := .gauge }

def histogram (m : MetricsCollector) (now : ℚ) (name : Str) (value : ℚ) (labels : Labels) :
    MetricsCollector :=
  m.append { name, value, labels, timestamp := now, metricType := .histogram }

def bump (m : MetricsCollector) (now : ℚ) (key : Str) (increment : ℚ) : MetricsCollector :=
  { m with
    counters := m.counters.set key ((m.counters.get? key).getD 0 + increment)
    counterTimestamps := m.counterTimestamps.set key now }

def evicted (m : MetricsCollector) : List Str :=
  if m.counters.length > maxCounterKeys then oldestKeys m.counters m.counterTimestamps else []

def evict (m : MetricsCollector) : MetricsCollector :=
  { m with
    counters := m.evicted.foldl Dict.erase m.counters
    counterTimestamps := m.evicted.foldl Dict.erase m.counterTimestamps }

-- Reading the counter back makes it 0 again where this very call has evicted it.
def counter (m : MetricsCollector) (now : ℚ) (name : Str) (increment : ℚ) (labels : Labels) :
    MetricsCollector :=
  let key := counterKey name labels
  let m := (m.bump now key increment).evict
  let value := (m.counters.get? key).getD 0
  { m with counters := m.counters.set key value }.append
    { name, value, labels, timestamp := now, metricType := .counter }

end MetricsCollector

section Calls

inductive Entry where
  | sample (kind : MetricType) (name : Str) (amount : ℚ) (labels : Labels)
  | globalGauge (name : Str) (value : ℚ)

def MetricsCollector.record (m : MetricsCollector) (now : ℚ) : Entry → MetricsCollector
  | .sample .gauge name value labels => m.gauge now name value labels
  | .sample .counter name increment labels => m.counter now name increment labels
  | .sample .histogram name value labels => m.histogram now name value labels
  | .globalGauge name value => m.setGlobalGauge name value

def Labels.empty : Labels := ⟨[], by simp⟩

theorem nodup_keys_pair {k k' : Str} (v v' : Str) (h : k ≠ k') :
    (Dict.keys [(k, v), (k', v')]).Nodup := by simpa using h

def projectLabels (projectId : Str) : Option Int → Labels
  | none => ⟨[("project".toList, projectId)], by simp⟩
  | some orgId =>
    ⟨[("project".toList, projectId), ("org_id".toList, intText orgId)],
      nodup_keys_pair _ _ (by decide)⟩

def projectRun (projectId : Str) (duration : ℚ) (status : Str) (orgId : Option Int) : List Entry :=
  let labels := projectLabels projectId orgId
  [.sample .counter "project_runs_total".toList 1 labels,
   .sample .histogram "project_duration_seconds".toList duration labels] ++
  if status = "completed".toList then [.sample .counter "project_success_total".toList 1 labels]
  else if status = "failed".toList then [.sample .counter "project_failures_total".toList 1 labels]
  else []

def apiLabels (method endpoint : Str) (statusCode : Int) : Labels :=
  ⟨[("method".toList, method), ("endpoint".toList, endpoint), ("status".toList, intText statusCode),
    ("status_class".toList, intText (statusCode / 100) ++ "xx".toList)], by simp⟩

def apiRequest (method endpoint : Str) (statusCode : Int) (duration : ℚ) : List Entry :=
  let endpoint := sanitize endpoint
  [.sample .counter "api_requests_total".toList 1 (apiLabels method endpoint statusCode),
   .sample .histogram "api_request_duration_seconds".toList duration
     ⟨[("method".toList, method), ("endpoint".toList, endpoint)], nodup_keys_pair _ _ (by decide)⟩]

def threatLevel (score : ℚ) : Option Int → List Entry
  | none => [.sample .gauge "threat_score".toList score .empty]
  | some orgId =>
    [.sample .gauge "threat_score".toList score ⟨[("org_id".toList, intText orgId)], by simp⟩]

inductive Call where
  | entry (e : Entry)
  | projectRun (projectId : Str) (duration : ℚ) (status : Str) (orgId : Option Int)
  | apiRequest (method endpoint : Str) (statusCode : Int) (duration : ℚ)
  | threatLevel (score : ℚ) (orgId : Option Int)

def Call.entries : Call → List Entry
  | .entry e => [e]
  | .projectRun projectId duration status orgId => Metrics.projectRun projectId duration status orgId
  | .apiRequest method endpoint statusCode duration =>
    Metrics.apiRequest method endpoint statusCode duration
  | .threatLevel score orgId => Metrics.threatLevel score orgId

end Calls

section Recording

open MetricsCollector

variable {m : MetricsCollector} {now : ℚ} {name : Str} {amount : ℚ} {labels : Labels}

def counterValue (m : MetricsCollector) (now : ℚ) (name : Str) (increment : ℚ) (labels : Labels) :
    ℚ :=
  ((m.bump now (counterKey name labels) increment).evict.counters.get?
    (counterKey name labels)).getD 0

def written (m : MetricsCollector) (now : ℚ) (kind : MetricType) (name : Str) (amount : ℚ)
    (labels : Labels) : Metric :=
  { name, labels, timestamp := now, metricType := kind
    value := if kind = .counter then counterValue m now name amount labels else amount }

theorem metrics_record (m : MetricsCollector) (now : ℚ) (kind : MetricType) (name : Str)
    (amount : ℚ) (labels : Labels) :
    (m.record now (.sample kind name amount labels)).metrics =
      m.metrics.set name (trim (m.held name ++ [written m now kind name amount labels])) := by
  cases kind with
  | gauge => rfl
  | counter => rfl
  | histogram => rfl

theorem held_record (m : MetricsCollector) (now : ℚ) (kind : MetricType) (name : Str) (amount : ℚ)
    (labels : Labels) (n : Str) :
    (m.record now (.sample kind name amount labels)).held n =
      if name = n then trim (m.held n ++ [written m now kind name amount labels])
      else m.held n := by
  rw [held, metrics_record, Dict.get?_set]
  split
  · next h => rw [← h, Option.getD_some]
  · rfl

def Entry.increment? (key : Str) : Entry → Option ℚ
  | .sample .counter name increment labels =>
    if counterKey name labels = key then some increment else none
  | _ => none

def increments (key : Str) (past : List (ℚ × Entry)) : List ℚ :=
  past.filterMap fun e => e.2.increment? key

theorem increments_concat (key : Str) (past : List (ℚ × Entry)) (e : ℚ × Entry) :
    increments key (past ++ [e]) = increments key past ++ (e.2.increment? key).toList := by
  rw [increments, List.filterMap_append, ← increments]
  cases h : e.2.increment? key <;> simp [h]

theorem evict_get? (m : MetricsCollector) (key : Str) :
    m.evict.counters.get? key = if key ∈ m.evicted then none else m.counters.get? key := by
  have herase := Dict.get?_eraseAll m.counters m.evicted key
  split at herase
  · next h => rw [if_pos h]; exact herase
  · next h => rw [if_neg h]; exact herase

theorem counterValue_eq (h : counterKey name labels ∉ (m.bump now (counterKey name labels) amount).evicted) :
    counterValue m now name amount labels =
      (m.counters.get? (counterKey name labels)).getD 0 + amount := by
  rw [counterValue, evict_get?, if_neg h, bump, Dict.get?_set_self, Option.getD_some]

theorem counter_counters (m : MetricsCollector) (now : ℚ) (name : Str) (amount : ℚ)
    (labels : Labels) (key : Str) :
    (m.counter now name amount labels).counters.get? key =
      if counterKey name labels = key then some (counterValue m now name amount labels)
      else if key ∈ (m.bump now (counterKey name labels) amount).evicted then none
      else m.counters.get? key := by
  have hcounters : (m.counter now name amount labels).counters =
    (m.bump now (counterKey name labels) amount).evict.counters.set (counterKey name labels)
      (counterValue m now name amount labels) := rfl
  rw [hcounters, Dict.get?_set]
  split
  · rfl
  · next hne => rw [evict_get?, bump, Dict.get?_set, if_neg hne]

end Recording

section Totals

variable {P : Str → Prop} {past : List (ℚ × Entry)} {m : MetricsCollector}

def Tracked (P : Str → Prop) (past : List (ℚ × Entry)) (m : MetricsCollector) : Prop :=
  ∀ key v, P key → m.counters.get? key = some v → v = (increments key past).sum

def CounterKept (m : MetricsCollector) (now : ℚ) (name : Str) (increment : ℚ) (labels : Labels)
    (known : Prop) : Prop :=
  (known → counterKey name labels ∈ m.counters.keys) ∧
    counterKey name labels ∉ (m.bump now (counterKey name labels) increment).evicted

instance decidableCounterKept (m : MetricsCollector) (now : ℚ) (name : Str) (increment : ℚ)
    (labels : Labels) (known : Prop) [Decidable known] :
    Decidable (CounterKept m now name increment labels known) :=
  inferInstanceAs (Decidable (_ ∧ _))

theorem tracked_value {now : ℚ} {name : Str} {amount : ℚ} {labels : Labels} {known : Prop}
    (h : Tracked P past m) (hP : P (counterKey name labels))
    (hkept : CounterKept m now name amount labels known)
    (hknown : increments (counterKey name labels) past ≠ [] → known) :
    counterValue m now name amount labels =
      (increments (counterKey name labels) past).sum + amount := by
  rw [counterValue_eq hkept.2]
  cases hget : m.counters.get? (counterKey name labels) with
  | some v => rw [Option.getD_some, h _ v hP hget]
  | none =>
    have hnone : increments (counterKey name labels) past = [] := by
      by_contra hne
      exact Dict.not_mem_keys_iff.mpr hget (hkept.1 (hknown hne))
    rw [Option.getD_none, hnone, List.sum_nil]

theorem tracked_record (h : Tracked P past m) {now : ℚ} {e : Entry}
    (hvalue : ∀ name increment labels, e = .sample .counter name increment labels →
      P (counterKey name labels) → counterValue m now name increment labels =
        (increments (counterKey name labels) past).sum + increment) :
    Tracked P (past ++ [(now, e)]) (m.record now e) := by
  intro key v hP hget
  rw [increments_concat]
  match e with
  | .sample .gauge name value labels => simpa [Entry.increment?] using h key v hP hget
  | .sample .histogram name value labels => simpa [Entry.increment?] using h key v hP hget
  | .globalGauge name value => simpa [Entry.increment?] using h key v hP hget
  | .sample .counter name increment labels =>
    rw [MetricsCollector.record, counter_counters] at hget
    rw [Entry.increment?]
    split at hget
    · next hkey =>
      subst hkey
      rw [if_pos rfl, Option.toList_some, List.sum_append, List.sum_singleton,
        ← hvalue name increment labels rfl hP]
      exact (Option.some.inj hget).symm
    · next hne =>
      split at hget
      · cases hget
      · rw [if_neg hne, Option.toList_none, List.append_nil]
        exact h key v hP hget

end Totals

section Runs

def step (m : MetricsCollector) (e : ℚ × Entry) :
    Option (MetricsCollector × List (ℚ × Entry)) := some (m.record e.1 e.2, [e])

def recorded (calls : List (ℚ × Call)) : List (ℚ × Entry) :=
  calls.flatMap fun c => c.2.entries.map fun e => (c.1, e)

def MetricsCollector.run (m : MetricsCollector) (es : List (ℚ × Entry)) : MetricsCollector :=
  es.foldl (fun m e => m.record e.1 e.2) m

theorem exec_eq_run (m : MetricsCollector) (es : List (ℚ × Entry)) :
    Run.exec step m es = some (m.run es, es) := by
  induction es generalizing m with
  | nil => rfl
  | cons e es ih =>
    rw [Run.exec, step, Option.bind_eq_bind, Option.bind_some]
    simp only [ih, Option.bind_some]
    rfl

theorem run_invariant {cond : MetricsCollector → ℚ × Entry → Prop}
    (Inv : List (ℚ × Entry) → MetricsCollector → Prop)
    (hstep : ∀ past m e, Inv past m → cond m e → Inv (past ++ [e]) (m.record e.1 e.2))
    {m : MetricsCollector} {es : List (ℚ × Entry)} (hinit : Inv [] m)
    (hmeets : Run.Meets step cond m es) : Inv es (m.run es) := by
  have hpreserved : ∀ past s l s' ev, Inv past s → cond s l → step s l = some (s', ev) →
      Inv (past ++ ev) s' := by
    rintro past s l s' ev h hc hs
    cases hs
    exact hstep past s l h hc
  exact Run.exec_invariant hpreserved [] hinit hmeets (exec_eq_run m es)

end Runs

end PicoSentry.Serve.Metrics
