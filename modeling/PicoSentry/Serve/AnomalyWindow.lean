import PicoSentry.Foundation.Cumulative
import PicoSentry.Serve.Metrics
import Mathlib.Algebra.Field.Rat

namespace PicoSentry.Serve.AnomalyWindow

open Foundation Metrics

structure AnomalyRule where
  metricName : Str
  labels : Dict Str Str
  durationSeconds : ℚ

namespace AnomalyRule

def covers (rule : AnomalyRule) (labels : Labels) : Bool :=
  rule.labels.all fun p => labels.items.get? p.1 = some p.2

def samples (rule : AnomalyRule) (m : MetricsCollector) : List Metric :=
  let metricList := (m.metrics.get? rule.metricName).getD []
  if rule.labels ≠ [] then metricList.filter fun x => rule.covers x.labels else metricList

-- The value and whether it is windowed; health is what the health check rows give.
def evaluate (rule : AnomalyRule) (health : ℚ) (m : MetricsCollector) (now : ℚ) :
    Option ℚ × Bool :=
  if rule.metricName = "health_status".toList then (some health, false)
  else
    match (rule.samples m).getLast? with
    | none => (none, false)
    | some newest =>
      if newest.metricType = .counter ∧ rule.durationSeconds > 0 then
        let cutoff := now - rule.durationSeconds
        match latest (fun x => decide (x.timestamp ≥ cutoff)) (rule.samples m) with
        | none => (some 0, true)
        | some lastInWindow =>
          match latest (fun x => decide (x.timestamp < cutoff)) (rule.samples m) with
          | none => (some lastInWindow.value, true)
          | some lastBefore => (some (lastInWindow.value - lastBefore.value), true)
      else (some newest.value, false)

theorem samples_eq (rule : AnomalyRule) (m : MetricsCollector) :
    rule.samples m = (m.held rule.metricName).filter fun x => rule.covers x.labels := by
  rw [samples]
  split
  · rfl
  · next h =>
    rw [Decidable.not_not] at h
    refine (List.filter_eq_self.mpr fun x _ => ?_).symm
    rw [covers, h]
    rfl

def reading (x : Metric) : ℚ × ℚ := (x.timestamp, x.value)

theorem evaluate_counter {rule : AnomalyRule} {m : MetricsCollector} (health now : ℚ)
    (hname : rule.metricName ≠ "health_status".toList) (hduration : 0 < rule.durationSeconds)
    (hcounter : ∀ x ∈ rule.samples m, x.metricType = .counter) (hne : rule.samples m ≠ []) :
    rule.evaluate health m now =
      (some (windowDelta (now - rule.durationSeconds) ((rule.samples m).map reading)), true) := by
  rw [evaluate, if_neg hname, List.getLast?_eq_some_getLast hne]
  dsimp only
  rw [if_pos ⟨hcounter _ (List.getLast_mem hne), hduration⟩, windowDelta, latest_map, latest_map]
  have hinside : latest (fun x => decide (now - rule.durationSeconds ≤ (reading x).1))
      (rule.samples m) =
    latest (fun x => decide (x.timestamp ≥ now - rule.durationSeconds)) (rule.samples m) :=
    congrArg (latest · _) (funext fun _ => decide_eq_decide.mpr Iff.rfl)
  have hbefore : latest (fun x => decide ((reading x).1 < now - rule.durationSeconds))
      (rule.samples m) =
    latest (fun x => decide (x.timestamp < now - rule.durationSeconds)) (rule.samples m) :=
    congrArg (latest · _) (funext fun _ => decide_eq_decide.mpr Iff.rfl)
  rw [hinside, hbefore]
  cases latest (fun x => decide (x.timestamp ≥ now - rule.durationSeconds)) (rule.samples m) with
  | none => rfl
  | some last =>
    cases latest (fun x => decide (x.timestamp < now - rule.durationSeconds)) (rule.samples m) with
    | none => rfl
    | some before => rfl

end AnomalyRule

section Window

variable {rule : AnomalyRule} {cutoff : ℚ} {past : List (ℚ × Entry)} {m : MetricsCollector}

def increment? (rule : AnomalyRule) : Entry → Option ℚ
  | .sample .counter name increment labels =>
    if name = rule.metricName ∧ rule.covers labels = true then some increment else none
  | _ => none

def counted (rule : AnomalyRule) (past : List (ℚ × Entry)) : List (ℚ × ℚ) :=
  past.filterMap fun e => (increment? rule e.2).map fun increment => (e.1, increment)

def windowSum (rule : AnomalyRule) (now : ℚ) (past : List (ℚ × Entry)) : ℚ :=
  totalOf ((counted rule past).filter fun e => now - rule.durationSeconds ≤ e.1 ∧ e.1 ≤ now)

-- Only counter calls record under the metric of a counter rule.
def counterOnly (rule : AnomalyRule) : Entry → Bool
  | .sample kind name _ _ => decide (name = rule.metricName → kind = .counter)
  | .globalGauge _ _ => true

def CounterRule (rule : AnomalyRule) (past : List (ℚ × Entry)) : Prop :=
  rule.metricName ≠ "health_status".toList ∧ ∀ e ∈ past, counterOnly rule e.2 = true

instance decidableCounterRule (rule : AnomalyRule) (past : List (ℚ × Entry)) :
    Decidable (CounterRule rule past) := inferInstanceAs (Decidable (_ ∧ _))

-- One series at a time matches the rule; its counter is not evicted; and what a trim drops of
-- it leaves a sample behind, from before the window where a dropped one was.
def WindowKept (rule : AnomalyRule) (cutoff : ℚ) (m : MetricsCollector) : ℚ × Entry → Prop
  | (now, .sample kind name amount labels) =>
    name = rule.metricName →
      (rule.covers labels = true →
        (∀ x ∈ rule.samples m, counterKey x.name x.labels = counterKey name labels) ∧
        CounterKept m now name amount labels (rule.samples m ≠ [])) ∧
      ∀ x ∈ trimmedOff (m.held name ++ [written m now kind name amount labels]),
        rule.covers x.labels = true →
        ∃ y ∈ trim (m.held name ++ [written m now kind name amount labels]),
          rule.covers y.labels = true ∧ (x.timestamp < cutoff → y.timestamp < cutoff)
  | (_, .globalGauge _ _) => True

instance decidableWindowKept (rule : AnomalyRule) (cutoff : ℚ) (m : MetricsCollector) :
    ∀ e, Decidable (WindowKept rule cutoff m e)
  | (_, .sample _ _ _ _) => inferInstanceAs (Decidable (_ → _))
  | (_, .globalGauge _ _) => isTrue trivial

structure Measured (rule : AnomalyRule) (cutoff : ℚ) (past : List (ℚ × Entry))
    (m : MetricsCollector) : Prop where
  tracked : Tracked (fun key => ∃ labels, rule.covers labels = true ∧
    key = counterKey rule.metricName labels) past m
  counters : ∀ x ∈ rule.samples m, x.metricType = .counter ∧ x.name = rule.metricName
  series : ∀ x ∈ rule.samples m,
    increments (counterKey x.name x.labels) past = (counted rule past).map Prod.snd
  readings : ∃ lost, partialSums 0 (counted rule past) =
      lost ++ (rule.samples m).map AnomalyRule.reading ∧
    ∀ s ∈ lost, ∃ x ∈ rule.samples m, s.1 < cutoff → x.timestamp < cutoff

theorem covers_of_key (rule : AnomalyRule) {name name' : Str} {labels labels' : Labels}
    (h : counterKey name labels = counterKey name' labels') :
    name = name' ∧ rule.covers labels = rule.covers labels' := by
  obtain ⟨hname,hperm⟩ := (Json.prefixed_dumps_eq_iff labels.nodup).mp h
  refine ⟨hname, ?_⟩
  rw [AnomalyRule.covers, AnomalyRule.covers]
  exact congrArg rule.labels.all (funext fun p => by rw [Dict.get?_perm labels.nodup hperm])

theorem counted_concat (rule : AnomalyRule) (past : List (ℚ × Entry)) (e : ℚ × Entry) :
    counted rule (past ++ [e]) =
      counted rule past ++ ((increment? rule e.2).map fun increment => (e.1, increment)).toList := by
  rw [counted, List.filterMap_append, ← counted]
  cases h : increment? rule e.2 <;> simp [h]

theorem increments_eq_nil {labels : Labels} (hcovers : rule.covers labels = true)
    (h : counted rule past = []) : increments (counterKey rule.metricName labels) past = [] := by
  rw [increments, List.filterMap_eq_nil_iff]
  intro e he
  rw [counted, List.filterMap_eq_nil_iff] at h
  have hnone := h e he
  cases hentry : e.2 with
  | sample kind name increment labels' =>
    cases kind with
    | counter =>
      rw [hentry] at hnone
      rw [Entry.increment?]
      split
      · next hkey =>
        obtain ⟨hname,hlabels⟩ := covers_of_key rule hkey
        rw [increment?, if_pos ⟨hname, hlabels.trans hcovers⟩] at hnone
        cases hnone
      · rfl
    | gauge => rfl
    | histogram => rfl
  | globalGauge name value => rfl

theorem samples_record (rule : AnomalyRule) (m : MetricsCollector) (now : ℚ) (kind : MetricType)
    (amount : ℚ) (labels : Labels) :
    (trimmedOff (m.held rule.metricName ++
        [written m now kind rule.metricName amount labels])).filter (fun x => rule.covers x.labels) ++
      rule.samples (m.record now (.sample kind rule.metricName amount labels)) =
    rule.samples m ++ if rule.covers labels = true then
      [written m now kind rule.metricName amount labels] else [] := by
  rw [AnomalyRule.samples_eq, held_record, if_pos rfl, ← List.filter_append, trimmedOff_append,
    List.filter_append, ← AnomalyRule.samples_eq, List.filter_singleton, Bool.cond_eq_ite]
  rfl

theorem samples_record_of_ne {e : Entry} (now : ℚ)
    (h : ∀ kind amount labels, e ≠ .sample kind rule.metricName amount labels) :
    rule.samples (m.record now e) = rule.samples m := by
  match e with
  | .sample kind name amount labels =>
    rw [AnomalyRule.samples_eq, AnomalyRule.samples_eq, held_record, if_neg]
    rintro rfl
    exact h kind amount labels rfl
  | .globalGauge name value => rfl

theorem Measured.counted_nil (h : Measured rule cutoff past m) (hnil : rule.samples m = []) :
    counted rule past = [] := by
  obtain ⟨lost,hsplit,hlost⟩ := h.readings
  rw [hnil] at hsplit hlost
  cases lost with
  | cons s lost =>
    obtain ⟨x,hx,-⟩ := hlost s List.mem_cons_self
    cases hx
  | nil =>
    have hlen := congrArg List.length (times_partialSums 0 (counted rule past))
    rw [hsplit] at hlen
    exact List.map_eq_nil_iff.mp (List.length_eq_zero_iff.mp hlen.symm)

theorem Measured.known (h : Measured rule cutoff past m) {labels : Labels}
    (hcovers : rule.covers labels = true)
    (hone : ∀ x ∈ rule.samples m,
      counterKey x.name x.labels = counterKey rule.metricName labels) :
    increments (counterKey rule.metricName labels) past = (counted rule past).map Prod.snd := by
  cases hsamples : rule.samples m with
  | nil =>
    have hnil := h.counted_nil hsamples
    rw [increments_eq_nil hcovers hnil, hnil]
    rfl
  | cons x xs =>
    have hx : x ∈ rule.samples m := by
      rw [hsamples]
      exact List.mem_cons_self
    rw [← hone x hx, h.series x hx]

theorem Measured.value (h : Measured rule cutoff past m) {now amount : ℚ} {labels : Labels}
    (hcovers : rule.covers labels = true)
    (hone : ∀ x ∈ rule.samples m,
      counterKey x.name x.labels = counterKey rule.metricName labels)
    (hkept : CounterKept m now rule.metricName amount labels (rule.samples m ≠ [])) :
    counterValue m now rule.metricName amount labels = totalOf (counted rule past) + amount := by
  have hknown := h.known hcovers hone
  rw [tracked_value h.tracked ⟨labels, hcovers, rfl⟩ hkept, hknown]
  · rfl
  · rw [hknown]
    exact fun hne hnil => hne (by rw [h.counted_nil hnil]; rfl)

theorem measured_other (h : Measured rule cutoff past m) {e : ℚ × Entry}
    (hother : ∀ kind amount labels, e.2 ≠ .sample kind rule.metricName amount labels) :
    Measured rule cutoff (past ++ [e]) (m.record e.1 e.2) := by
  have hsamples := samples_record_of_ne (m := m) e.1 hother
  have hcounted : counted rule (past ++ [e]) = counted rule past := by
    have hnone : increment? rule e.2 = none := by
      match he : e.2 with
      | .sample .counter name amount labels =>
        refine if_neg ?_
        rintro ⟨rfl,-⟩
        exact hother _ amount labels he
      | .sample .gauge _ _ _ => rfl
      | .sample .histogram _ _ _ => rfl
      | .globalGauge _ _ => rfl
    rw [counted_concat, hnone]
    exact List.append_nil _
  refine ⟨tracked_record h.tracked ?_, ?_, ?_, ?_⟩
  · rintro name increment labels he ⟨labels',-,hkey⟩
    obtain ⟨rfl,-⟩ := covers_of_key rule hkey
    exact absurd he (hother _ increment labels)
  · rw [hsamples]
    exact h.counters
  · intro x hx
    rw [hsamples] at hx
    rw [hcounted, increments_concat, ← h.series x hx]
    have hnone : e.2.increment? (counterKey x.name x.labels) = none := by
      match he : e.2 with
      | .sample .counter name amount labels =>
        refine if_neg fun hkey => ?_
        obtain ⟨rfl,-⟩ := covers_of_key rule hkey
        rw [(h.counters x hx).2] at he
        exact hother _ amount labels he
      | .sample .gauge _ _ _ => rfl
      | .sample .histogram _ _ _ => rfl
      | .globalGauge _ _ => rfl
    rw [hnone]
    exact List.append_nil _
  · rw [hsamples, hcounted]
    exact h.readings

theorem mem_samples {x : Metric} (h : x ∈ rule.samples m) : rule.covers x.labels = true := by
  rw [AnomalyRule.samples_eq] at h
  exact (List.mem_filter.mp h).2

theorem mem_samples_record {x : Metric} {now amount : ℚ} {kind : MetricType} {labels : Labels}
    (h : x ∈ rule.samples (m.record now (.sample kind rule.metricName amount labels))) :
    x ∈ rule.samples m ∨
      rule.covers labels = true ∧ x = written m now kind rule.metricName amount labels := by
  have hx := samples_record rule m now kind amount labels ▸ List.mem_append_right _ h
  rw [List.mem_append] at hx
  refine hx.imp id fun hx => ?_
  split at hx
  · next hcovers => exact ⟨hcovers, List.mem_singleton.mp hx⟩
  · cases hx

theorem counted_counter (past : List (ℚ × Entry)) (now amount : ℚ) (labels : Labels) :
    counted rule (past ++ [(now, .sample .counter rule.metricName amount labels)]) =
      counted rule past ++ if rule.covers labels = true then [(now, amount)] else [] := by
  rw [counted_concat, increment?]
  by_cases hcovers : rule.covers labels = true
  · rw [if_pos ⟨rfl, hcovers⟩, if_pos hcovers]
    rfl
  · rw [if_neg fun hand => hcovers hand.2, if_neg hcovers]
    rfl

theorem Measured.series_record (h : Measured rule cutoff past m) {now amount : ℚ} {labels : Labels}
    (hone : rule.covers labels = true → ∀ x ∈ rule.samples m,
      counterKey x.name x.labels = counterKey rule.metricName labels)
    {x : Metric} (hx : x ∈ rule.samples
      (m.record now (.sample .counter rule.metricName amount labels))) :
    increments (counterKey x.name x.labels)
        (past ++ [(now, .sample .counter rule.metricName amount labels)]) =
      (counted rule (past ++ [(now, .sample .counter rule.metricName amount labels)])).map
        Prod.snd := by
  rw [counted_counter, increments_concat, List.map_append, Entry.increment?]
  rcases mem_samples_record hx with hx | ⟨hcovers,rfl⟩
  · rw [h.series x hx]
    by_cases hcovers : rule.covers labels = true
    · rw [if_pos (hone hcovers x hx).symm, if_pos hcovers]
      rfl
    · rw [if_neg hcovers, if_neg fun hkey => ?_]
      · rfl
      · exact hcovers ((covers_of_key rule hkey).2.trans (mem_samples hx))
  · have hkey : counterKey rule.metricName labels =
        counterKey (written m now .counter rule.metricName amount labels).name
          (written m now .counter rule.metricName amount labels).labels := rfl
    rw [← hkey, h.known hcovers (hone hcovers), if_pos rfl, if_pos hcovers]
    rfl

theorem Measured.lost_record (h : Measured rule cutoff past m) {now amount : ℚ} {labels : Labels}
    (hvalue : rule.covers labels = true → counterValue m now rule.metricName amount labels =
      totalOf (counted rule past) + amount)
    (htrim : ∀ x ∈ trimmedOff
        (m.held rule.metricName ++ [written m now .counter rule.metricName amount labels]),
      rule.covers x.labels = true →
      ∃ y ∈ trim (m.held rule.metricName ++ [written m now .counter rule.metricName amount labels]),
        rule.covers y.labels = true ∧ (x.timestamp < cutoff → y.timestamp < cutoff)) :
    ∃ lost, partialSums 0
        (counted rule (past ++ [(now, .sample .counter rule.metricName amount labels)])) =
      lost ++ (rule.samples (m.record now
        (.sample .counter rule.metricName amount labels))).map AnomalyRule.reading ∧
    ∀ s ∈ lost, ∃ x ∈ rule.samples (m.record now
      (.sample .counter rule.metricName amount labels)), s.1 < cutoff → x.timestamp < cutoff := by
  obtain ⟨lost,hreadings,hlost⟩ := h.readings
  have hsplit := samples_record rule m now .counter amount labels
  set new := written m now .counter rule.metricName amount labels with hnew
  set gone := (trimmedOff (m.held rule.metricName ++ [new])).filter fun x => rule.covers x.labels
  have hgone : ∀ x ∈ gone, ∃ y ∈ rule.samples (m.record now
      (.sample .counter rule.metricName amount labels)),
      x.timestamp < cutoff → y.timestamp < cutoff := by
    intro x hx
    obtain ⟨hx,hcovers⟩ := List.mem_filter.mp hx
    obtain ⟨y,hy,hcovers',himp⟩ := htrim x hx hcovers
    refine ⟨y, ?_, himp⟩
    rw [AnomalyRule.samples_eq, held_record, if_pos rfl]
    exact List.mem_filter.mpr ⟨hy, hcovers'⟩
  refine ⟨lost ++ gone.map AnomalyRule.reading, ?_, ?_⟩
  · rw [counted_counter, List.append_assoc, ← List.map_append, hsplit, List.map_append,
      ← List.append_assoc, ← hreadings]
    split
    · next hcovers =>
      rw [partialSums_concat, ← hvalue hcovers]
      rfl
    · rw [List.append_nil, List.map_nil, List.append_nil]
  · intro s hs
    rcases List.mem_append.mp hs with hs | hs
    · obtain ⟨x,hx,himp⟩ := hlost s hs
      have hx' := hsplit ▸ List.mem_append_left _ hx
      rcases List.mem_append.mp hx' with hx' | hx'
      · obtain ⟨y,hy,himp'⟩ := hgone x hx'
        exact ⟨y, hy, fun hlt => himp' (himp hlt)⟩
      · exact ⟨x, hx', himp⟩
    · obtain ⟨x,hx,rfl⟩ := List.mem_map.mp hs
      exact hgone x hx

theorem measured_counter (h : Measured rule cutoff past m) {now amount : ℚ} {labels : Labels}
    (hkept : WindowKept rule cutoff m (now, .sample .counter rule.metricName amount labels)) :
    Measured rule cutoff (past ++ [(now, .sample .counter rule.metricName amount labels)])
      (m.record now (.sample .counter rule.metricName amount labels)) := by
  obtain ⟨hcall,htrim⟩ := hkept rfl
  refine ⟨tracked_record h.tracked ?_, ?_, ?_, ?_⟩
  · rintro name increment labels' he ⟨labels'',hcovers,hkey⟩
    cases he
    have hcovers' := (covers_of_key rule hkey).2.trans hcovers
    obtain ⟨hone,hkept⟩ := hcall hcovers'
    rw [h.value hcovers' hone hkept, h.known hcovers' hone]
    rfl
  · intro x hx
    rcases mem_samples_record hx with hx | ⟨-,rfl⟩
    · exact h.counters x hx
    · exact ⟨rfl, rfl⟩
  · exact fun x hx => h.series_record (fun hcovers => (hcall hcovers).1) hx
  · exact h.lost_record (fun hcovers => h.value hcovers (hcall hcovers).1 (hcall hcovers).2) htrim

theorem measured_record (h : Measured rule cutoff past m) {e : ℚ × Entry}
    (hcounter : counterOnly rule e.2 = true) (hkept : WindowKept rule cutoff m e) :
    Measured rule cutoff (past ++ [e]) (m.record e.1 e.2) := by
  by_cases hunder : ∃ kind amount labels, e.2 = .sample kind rule.metricName amount labels
  · obtain ⟨kind,amount,labels,he⟩ := hunder
    obtain ⟨now,_⟩ := e
    cases he
    cases of_decide_eq_true hcounter rfl
    exact measured_counter h hkept
  · exact measured_other h fun kind amount labels he => hunder ⟨kind, amount, labels, he⟩

theorem measured_run {es : List (ℚ × Entry)} (startTime : ℚ)
    (hcounter : ∀ e ∈ es, counterOnly rule e.2 = true)
    (hmeets : Run.Meets step (WindowKept rule cutoff) (.init startTime) es) :
    Measured rule cutoff es (MetricsCollector.run (.init startTime) es) := by
  refine run_invariant (fun past m => (∀ e ∈ past, counterOnly rule e.2 = true) →
    Measured rule cutoff past m) ?_ ?_ hmeets hcounter
  · intro past m e h hkept hcounter
    exact measured_record (h fun e he => hcounter e (List.mem_append_left _ he))
      (hcounter e (by simp)) hkept
  · intro _
    have hnil : rule.samples (.init startTime) = [] := by
      rw [AnomalyRule.samples_eq]
      rfl
    refine ⟨?_, ?_, ?_, [], ?_, ?_⟩
    · intro key v _ hget
      cases hget
    · simp [hnil]
    · simp [hnil]
    · rw [hnil]
      rfl
    · simp

end Window

theorem counted_times {rule : AnomalyRule} {es : List (ℚ × Entry)}
    (h : es.Pairwise fun a b => a.1 ≤ b.1) :
    (counted rule es).Pairwise fun a b => a.1 ≤ b.1 := by
  rw [counted, List.pairwise_filterMap]
  refine h.imp ?_
  rintro e e' hle b hb b' hb'
  obtain ⟨-,-,rfl⟩ := Option.map_eq_some_iff.mp hb
  obtain ⟨-,-,rfl⟩ := Option.map_eq_some_iff.mp hb'
  exact hle

theorem recorded_times {calls : List (ℚ × Call)} (h : (calls.map Prod.fst).Pairwise (· ≤ ·)) :
    (recorded calls).Pairwise fun a b => a.1 ≤ b.1 := by
  rw [recorded, List.pairwise_flatMap]
  refine ⟨fun c _ => ?_, ?_⟩
  · rw [List.pairwise_map]
    exact List.pairwise_of_forall fun _ _ => le_refl c.1
  · refine (List.pairwise_map.mp h).imp fun hle e he e' he' => ?_
    obtain ⟨-,-,rfl⟩ := List.mem_map.mp he
    obtain ⟨-,-,rfl⟩ := List.mem_map.mp he'
    exact hle

theorem recorded_le {calls : List (ℚ × Call)} {now : ℚ} (h : ∀ c ∈ calls, c.1 ≤ now)
    {e : ℚ × Entry} (he : e ∈ recorded calls) : e.1 ≤ now := by
  obtain ⟨c,hc,he⟩ := List.mem_flatMap.mp he
  obtain ⟨-,-,rfl⟩ := List.mem_map.mp he
  exact h c hc

theorem windowSum_eq (rule : AnomalyRule) {now : ℚ} {es : List (ℚ × Entry)}
    (h : ∀ e ∈ es, e.1 ≤ now) :
    windowSum rule now es =
      totalOf ((counted rule es).filter fun e => decide (now - rule.durationSeconds ≤ e.1)) := by
  rw [windowSum]
  refine congrArg totalOf (List.filter_congr fun e he => ?_)
  obtain ⟨e',he',hmap⟩ := List.mem_filterMap.mp he
  obtain ⟨-,-,rfl⟩ := Option.map_eq_some_iff.mp hmap
  exact decide_eq_decide.mpr (and_iff_left (h e' he'))

theorem windowed_value_counts (rule : AnomalyRule) (health startTime now : ℚ)
    (calls : List (ℚ × Call)) (hduration : 0 < rule.durationSeconds)
    (hcounter : CounterRule rule (recorded calls))
    (htimes : (calls.map Prod.fst).Pairwise (· ≤ ·)) (hnow : ∀ c ∈ calls, c.1 ≤ now)
    (hmeets : Run.Meets step (WindowKept rule (now - rule.durationSeconds)) (.init startTime)
      (recorded calls)) :
    (rule.evaluate health (MetricsCollector.run (.init startTime) (recorded calls)) now).1 =
      if counted rule (recorded calls) = [] then none
      else some (windowSum rule now (recorded calls)) := by
  have hmeasured := measured_run startTime hcounter.2 hmeets
  set m := MetricsCollector.run (.init startTime) (recorded calls)
  obtain ⟨lost,hsplit,hlost⟩ := hmeasured.readings
  by_cases hnil : rule.samples m = []
  · rw [if_pos (hmeasured.counted_nil hnil), AnomalyRule.evaluate, if_neg hcounter.1, hnil]
    rfl
  · have hne : counted rule (recorded calls) ≠ [] := by
      intro hempty
      rw [hempty] at hsplit
      exact hnil (List.map_eq_nil_iff.mp (List.append_eq_nil_iff.mp hsplit.symm).2)
    rw [if_neg hne, AnomalyRule.evaluate_counter health now hcounter.1 hduration
      (fun x hx => (hmeasured.counters x hx).1) hnil, windowSum_eq rule fun e => recorded_le hnow]
    refine congrArg some (windowDelta_eq (counted_times (recorded_times htimes)) hsplit ?_)
    intro s hs
    obtain ⟨x,hx,himp⟩ := hlost s hs
    exact ⟨AnomalyRule.reading x, List.mem_map_of_mem hx, himp⟩

section Runs

def errorRate : AnomalyRule :=
  { metricName := "api_requests_total".toList
    labels := [("status_class".toList, "5xx".toList)]
    durationSeconds := 300 }

def failures (first second : Str) : List (ℚ × Call) :=
  [(0, .apiRequest "GET".toList first 500 1), (10, .apiRequest "GET".toList second 500 1),
   (20, .apiRequest "GET".toList first 200 1)]

theorem windowed_value_counts_one_endpoint :
    (errorRate.evaluate 0 (MetricsCollector.run (.init 0)
      (recorded (failures "/a".toList "/a".toList))) 305).1 = some 1 := by
  have hmeets : Run.Meets step (WindowKept errorRate (305 - errorRate.durationSeconds)) (.init 0)
      (recorded (failures "/a".toList "/a".toList)) := by decide +kernel
  rw [windowed_value_counts errorRate 0 0 305 _ (by decide +kernel)
    (by decide +kernel) (by decide +kernel) (by decide +kernel) hmeets]
  decide +kernel

-- Failures of two endpoints: the newest sample is the second endpoint's own count.
theorem two_endpoints_count_as_one :
    CounterRule errorRate (recorded (failures "/a".toList "/b".toList)) ∧
      (errorRate.evaluate 0 (MetricsCollector.run (.init 0)
        (recorded (failures "/a".toList "/b".toList))) 30).1 = some 1 ∧
      windowSum errorRate 30 (recorded (failures "/a".toList "/b".toList)) = 2 :=
  ⟨by decide +kernel, by decide +kernel, by decide +kernel⟩

end Runs

end PicoSentry.Serve.AnomalyWindow
