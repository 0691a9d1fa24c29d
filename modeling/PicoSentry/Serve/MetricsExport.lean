import Mathlib.Data.Prod.Lex
import Mathlib.Algebra.Field.Rat
import PicoSentry.Serve.Metrics

namespace PicoSentry.Serve.MetricsExport

open Foundation Metrics

abbrev Series := Str × List (Str × Str)

def labelItems (labels : Labels) : List (Str × Str) := ascending toLex labels.items

def seriesOf (x : Metric) : Series := (x.name, labelItems x.labels)

def typeName : MetricType → Str
  | .gauge => "gauge".toList
  | .counter => "counter".toList
  | .histogram => "histogram".toList

def orgUnstampedFamilies : List Str :=
  ["api_requests_total".toList, "api_request_duration_seconds".toList]

def formatLabels (labels : List (Str × Str)) : Str :=
  [','].intercalate ((ascending toLex labels).map fun p => p.1 ++ '=' :: '"' :: sanitize p.2 ++ ['"'])

def metricText (name : Str) : Str := "picoshogun_".toList ++ name

def seriesText (series : Series) : Str :=
  let labelStr := formatLabels series.2
  if labelStr ≠ [] then metricText series.1 ++ '\x7b' :: labelStr ++ ['\x7d']
  else metricText series.1

inductive Line where
  | comment (text : Str)
  | sample (series : Str) (value : ℚ)

def helpLine (name text : Str) : Line :=
  .comment ("# HELP ".toList ++ metricText name ++ ' ' :: text)

def typeLine (name kind : Str) : Line :=
  .comment ("# TYPE ".toList ++ metricText name ++ ' ' :: kind)

def aggregate (aggregated : Dict Series ℚ) (x : Metric) : Dict Series ℚ :=
  if x.metricType = .histogram then
    aggregated.set (seriesOf x) ((aggregated.get? (seriesOf x)).getD 0 + x.value)
  else aggregated.set (seriesOf x) x.value

def visible (orgId : Option Int) (x : Metric) : Bool :=
  match orgId with
  | none => true
  | some orgId => orgUnstampedFamilies.contains x.name ||
      x.labels.items.get? "org_id".toList = some (intText orgId)

def seriesLines (types : Dict Str MetricType) : Option Str → List (Series × ℚ) → List Line
  | _, [] => []
  | currentName, (series, value) :: rest =>
    let metricType := typeName ((types.get? series.1).getD .gauge)
    (if currentName ≠ some series.1 then
      [helpLine series.1 (metricType ++ " metric".toList), typeLine series.1 metricType] else []) ++
    .sample (seriesText series) value :: seriesLines types (some series.1) rest

def seriesOrder (p : Series × ℚ) : Lex (Str × List (Lex (Str × Str))) :=
  toLex (p.1.1, p.1.2.map toLex)

def samples (m : MetricsCollector) : List Metric := m.metrics.flatMap Prod.snd

def toPrometheus (m : MetricsCollector) (now : ℚ) (orgId : Option Int) : List Line :=
  let shown := (samples m).filter (visible orgId)
  let aggregated := shown.foldl aggregate []
  let types := shown.foldl (fun types x => Dict.setDefault types x.name x.metricType) []
  [helpLine "uptime_seconds".toList "Total uptime in seconds".toList,
   typeLine "uptime_seconds".toList "gauge".toList,
   .sample (metricText "uptime_seconds".toList) (now - m.startTime)] ++
  (ascending Prod.fst m.globalGauges).flatMap (fun p =>
    [helpLine p.1 "global gauge".toList, typeLine p.1 "gauge".toList,
     .sample (metricText p.1) p.2]) ++
  seriesLines types none (ascending seriesOrder aggregated)

def sampleLines (lines : List Line) : List (Str × ℚ) :=
  lines.filterMap fun
    | .comment _ => none
    | .sample series value => some (series, value)

section Lines

theorem sampleLines_append (xs ys : List Line) :
    sampleLines (xs ++ ys) = sampleLines xs ++ sampleLines ys := List.filterMap_append

theorem sampleLines_seriesLines (types : Dict Str MetricType) (currentName : Option Str)
    (xs : List (Series × ℚ)) :
    sampleLines (seriesLines types currentName xs) = xs.map fun p => (seriesText p.1, p.2) := by
  induction xs generalizing currentName with
  | nil => rfl
  | cons p xs ih =>
    obtain ⟨series,value⟩ := p
    rw [seriesLines, sampleLines_append, List.map_cons, ← ih (some series.1)]
    split <;> rfl

theorem sampleLines_gauges (gauges : Dict Str ℚ) :
    sampleLines (gauges.flatMap fun p => [helpLine p.1 "global gauge".toList,
      typeLine p.1 "gauge".toList, .sample (metricText p.1) p.2]) =
      gauges.map fun p => (metricText p.1, p.2) := by
  induction gauges with
  | nil => rfl
  | cons p gauges ih => rw [List.flatMap_cons, sampleLines_append, ih]; rfl

def aggregated (m : MetricsCollector) : Dict Series ℚ := (samples m).foldl aggregate []

theorem sampleLines_toPrometheus (m : MetricsCollector) (now : ℚ) :
    sampleLines (toPrometheus m now none) =
      (metricText "uptime_seconds".toList, now - m.startTime) ::
        ((ascending Prod.fst m.globalGauges).map fun p => (metricText p.1, p.2)) ++
        (ascending seriesOrder (aggregated m)).map fun p => (seriesText p.1, p.2) := by
  have hall : (samples m).filter (visible none) = samples m := List.filter_true _
  rw [toPrometheus, hall, sampleLines_append, sampleLines_append, sampleLines_gauges,
    sampleLines_seriesLines]
  rfl

end Lines

section Aggregate

def combine (value : Option ℚ) (x : Metric) : Option ℚ :=
  if x.metricType = .histogram then some (value.getD 0 + x.value) else some x.value

theorem get?_aggregate (agg : Dict Series ℚ) (x : Metric) (series : Series) :
    (aggregate agg x).get? series =
      if seriesOf x = series then combine (agg.get? series) x else agg.get? series := by
  rw [aggregate, combine]
  split
  · rw [Dict.get?_set]
    split
    · next h => rw [h]
    · rfl
  · rw [Dict.get?_set]

theorem get?_foldl_aggregate (agg : Dict Series ℚ) (xs : List Metric) (series : Series) :
    (xs.foldl aggregate agg).get? series =
      (xs.filter fun x => seriesOf x = series).foldl combine (agg.get? series) := by
  induction xs generalizing agg with
  | nil => rfl
  | cons x xs ih =>
    rw [List.foldl_cons, ih, get?_aggregate, List.filter_cons]
    by_cases h : seriesOf x = series
    · rw [if_pos h, if_pos (decide_eq_true h), List.foldl_cons]
    · rw [if_neg h, if_neg (by simpa using h)]

theorem combine_histograms {xs : List Metric} (h : ∀ x ∈ xs, x.metricType = .histogram) (a : ℚ) :
    xs.foldl combine (some a) = some (a + (xs.map Metric.value).sum) := by
  induction xs generalizing a with
  | nil => simp
  | cons x xs ih =>
    rw [List.foldl_cons, combine, if_pos (h x List.mem_cons_self), Option.getD_some,
      ih fun y hy => h y (List.mem_cons_of_mem x hy), List.map_cons, List.sum_cons, add_assoc]

theorem combine_histograms_none {xs : List Metric} (h : ∀ x ∈ xs, x.metricType = .histogram)
    (hne : xs ≠ []) : xs.foldl combine none = some (xs.map Metric.value).sum := by
  cases xs with
  | nil => exact absurd rfl hne
  | cons x xs =>
    rw [List.foldl_cons, combine, if_pos (h x List.mem_cons_self), Option.getD_none, zero_add,
      combine_histograms fun y hy => h y (List.mem_cons_of_mem x hy), List.map_cons, List.sum_cons]

theorem combine_latest (xs : List Metric) {x : Metric} (h : x.metricType ≠ .histogram)
    (value : Option ℚ) : (xs ++ [x]).foldl combine value = some x.value := by
  rw [List.foldl_append, List.foldl_cons, List.foldl_nil, combine, if_neg h]

theorem keys_foldl_aggregate {agg : Dict Series ℚ} (h : agg.keys.Nodup) (xs : List Metric) :
    (xs.foldl aggregate agg).keys.Nodup ∧
      ∀ series ∈ (xs.foldl aggregate agg).keys,
        series ∈ agg.keys ∨ ∃ x ∈ xs, seriesOf x = series := by
  induction xs generalizing agg with
  | nil => exact ⟨h, fun series hs => .inl hs⟩
  | cons x xs ih =>
    have hset : ∃ v, aggregate agg x = agg.set (seriesOf x) v := by
      rw [aggregate]
      split
      · exact ⟨_, rfl⟩
      · exact ⟨_, rfl⟩
    obtain ⟨v,hset⟩ := hset
    rw [List.foldl_cons, hset]
    obtain ⟨hnodup,hkeys⟩ := ih (Dict.keys_set_nodup h (seriesOf x) v)
    refine ⟨hnodup, fun series hs => ?_⟩
    rcases hkeys series hs with hs | ⟨y,hy,rfl⟩
    · rcases (Dict.mem_keys_set agg (seriesOf x) series v).mp hs with hs | rfl
      · exact .inl hs
      · exact .inr ⟨x, List.mem_cons_self, rfl⟩
    · exact .inr ⟨y, List.mem_cons_of_mem x hy, rfl⟩

end Aggregate

section Exactness

variable {past : List (ℚ × Entry)} {m : MetricsCollector}

def heldOf (m : MetricsCollector) (series : Series) : List Metric :=
  (m.held series.1).filter fun x => seriesOf x = series

def Entry.observation? (series : Series) : Entry → Option ℚ
  | .sample .histogram name value labels =>
    if (name, labelItems labels) = series then some value else none
  | _ => none

def observations (series : Series) (past : List (ℚ × Entry)) : List ℚ :=
  past.filterMap fun e => Entry.observation? series e.2

def uptimeText : Str := metricText "uptime_seconds".toList

def WritesApart (m : MetricsCollector) (kind : MetricType) (series : Series) : Prop :=
  (∀ x ∈ samples m, seriesText (seriesOf x) = seriesText series →
    seriesOf x = series ∧ x.metricType = kind) ∧
  seriesText series ≠ uptimeText ∧
  ∀ gauge ∈ m.globalGauges.keys, seriesText series ≠ metricText gauge

-- A trim drops no observation, and of a counter's samples never the last.
def TrimKeeps (xs : List Metric) : Prop :=
  ∀ x ∈ trimmedOff xs, x.metricType ≠ .histogram ∧
    (x.metricType = .counter → ∃ y ∈ trim xs, seriesOf y = seriesOf x)

def ExportKept (m : MetricsCollector) : ℚ × Entry → Prop
  | (now, .sample kind name amount labels) =>
    WritesApart m kind (name, labelItems labels) ∧
    (kind = .counter → CounterKept m now name amount labels
      (∃ x ∈ samples m, seriesOf x = (name, labelItems labels))) ∧
    TrimKeeps (m.held name ++ [written m now kind name amount labels])
  | (_, .globalGauge name _) =>
    metricText name ≠ uptimeText ∧ ∀ x ∈ samples m, seriesText (seriesOf x) ≠ metricText name

instance decidableWritesApart (m : MetricsCollector) (kind : MetricType) (series : Series) :
    Decidable (WritesApart m kind series) := inferInstanceAs (Decidable (_ ∧ _ ∧ _))

instance decidableTrimKeeps (xs : List Metric) : Decidable (TrimKeeps xs) :=
  inferInstanceAs (Decidable (∀ x ∈ trimmedOff xs, x.metricType ≠ .histogram ∧
    (x.metricType = .counter → ∃ y ∈ trim xs, seriesOf y = seriesOf x)))

instance decidableExportKept (m : MetricsCollector) : ∀ e, Decidable (ExportKept m e)
  | (now, .sample kind name amount labels) =>
    inferInstanceAs (Decidable (WritesApart m kind (name, labelItems labels) ∧
      (kind = .counter → CounterKept m now name amount labels
        (∃ x ∈ samples m, seriesOf x = (name, labelItems labels))) ∧
      TrimKeeps (m.held name ++ [written m now kind name amount labels])))
  | (_, .globalGauge name _) =>
    inferInstanceAs (Decidable (metricText name ≠ uptimeText ∧
      ∀ x ∈ samples m, seriesText (seriesOf x) ≠ metricText name))

structure Exported (past : List (ℚ × Entry)) (m : MetricsCollector) : Prop where
  names : m.metrics.keys.Nodup ∧ ∀ p ∈ m.metrics, ∀ x ∈ p.2, x.name = p.1
  gauges : m.globalGauges.keys.Nodup ∧ ∀ gauge ∈ m.globalGauges.keys, metricText gauge ≠ uptimeText
  texts : ∀ x ∈ samples m, ∀ y ∈ samples m, seriesText (seriesOf x) = seriesText (seriesOf y) →
    seriesOf x = seriesOf y ∧ x.metricType = y.metricType
  apart : ∀ x ∈ samples m, seriesText (seriesOf x) ≠ uptimeText ∧
    ∀ gauge ∈ m.globalGauges.keys, seriesText (seriesOf x) ≠ metricText gauge
  tracked : Tracked (fun _ => True) past m
  latest : ∀ name labels, increments (counterKey name labels) past ≠ [] →
    ∃ front x, heldOf m (name, labelItems labels) = front ++ [x] ∧ x.metricType = .counter ∧
      x.value = (increments (counterKey name labels) past).sum
  observed : ∀ series, ((heldOf m series).filter fun x => x.metricType = .histogram).map
    Metric.value = observations series past

theorem samples_filter (h : Exported past m) (series : Series) :
    (samples m).filter (fun x => seriesOf x = series) = heldOf m series := by
  have hnames := Dict.filter_flatMap_key (g := Metric.name) h.names.1 h.names.2 series.1
  rw [heldOf, MetricsCollector.held, ← hnames, List.filter_filter, samples]
  refine List.filter_congr fun x _ => ?_
  by_cases hseries : seriesOf x = series
  · subst hseries
    simp [seriesOf]
  · simp [hseries]

theorem mem_heldOf (h : Exported past m) {x : Metric} {series : Series} :
    x ∈ heldOf m series ↔ x ∈ samples m ∧ seriesOf x = series := by
  rw [← samples_filter h, List.mem_filter, decide_eq_true_eq]

theorem exported_counter (h : Exported past m) {name : Str} {labels : Labels}
    (hne : increments (counterKey name labels) past ≠ []) :
    (aggregated m).get? (name, labelItems labels) =
      some (increments (counterKey name labels) past).sum := by
  obtain ⟨front,x,hheld,hkind,hvalue⟩ := h.latest name labels hne
  have hkind' : x.metricType ≠ .histogram := by
    rw [hkind]
    decide
  rw [aggregated, get?_foldl_aggregate, samples_filter h, hheld, combine_latest front hkind', hvalue]

theorem exported_histogram (h : Exported past m) {series : Series}
    (hne : observations series past ≠ []) :
    (aggregated m).get? series = some (observations series past).sum := by
  rw [← h.observed series] at hne
  obtain ⟨x,hx⟩ := List.exists_mem_of_ne_nil _ fun hnil => hne (List.map_eq_nil_iff.mpr hnil)
  obtain ⟨hx,hkind⟩ := List.mem_filter.mp hx
  have hall : ∀ y ∈ heldOf m series, y.metricType = .histogram := by
    intro y hy
    obtain ⟨hxm,hxs⟩ := (mem_heldOf h).mp hx
    obtain ⟨hym,hys⟩ := (mem_heldOf h).mp hy
    have hsame := (h.texts y hym x hxm (by rw [hxs, hys])).2
    exact hsame.trans (of_decide_eq_true hkind)
  have hfilter : (heldOf m series).filter (fun x => x.metricType = .histogram) = heldOf m series :=
    List.filter_eq_self.mpr fun y hy => decide_eq_true (hall y hy)
  rw [aggregated, get?_foldl_aggregate, samples_filter h, ← h.observed series, hfilter]
  exact combine_histograms_none hall (List.ne_nil_of_mem hx)

theorem metricText_inj {name name' : Str} (h : metricText name = metricText name') : name = name' :=
  List.append_cancel_left h

theorem series_nodup (h : Exported past m) (now : ℚ) :
    ((sampleLines (toPrometheus m now none)).map Prod.fst).Nodup := by
  obtain ⟨hkeys,hmem⟩ := keys_foldl_aggregate (by simp : (Dict.keys ([] : Dict Series ℚ)).Nodup) (samples m)
  have hseries : ∀ series ∈ (aggregated m).keys, ∃ x ∈ samples m, seriesOf x = series :=
    fun series hs => (hmem series hs).resolve_left (by simp)
  have hgauges : ((ascending Prod.fst m.globalGauges).map fun p => metricText p.1).Perm
      (m.globalGauges.keys.map metricText) := by
    rw [Dict.keys, List.map_map]
    exact (perm_ascending Prod.fst m.globalGauges).map _
  have hlines : ((ascending seriesOrder (aggregated m)).map fun p => seriesText p.1).Perm
      ((aggregated m).keys.map seriesText) := by
    rw [Dict.keys, List.map_map]
    exact (perm_ascending seriesOrder (aggregated m)).map _
  rw [sampleLines_toPrometheus, List.map_append, List.map_cons, List.map_map, List.map_map]
  refine List.Perm.nodup_iff ((hgauges.cons _).append hlines) |>.mpr ?_
  rw [List.nodup_append, List.nodup_cons]
  refine ⟨⟨?_, h.gauges.1.map fun _ _ => metricText_inj⟩, ?_, ?_⟩
  · rintro hup
    obtain ⟨gauge,hg,heq⟩ := List.mem_map.mp hup
    exact h.gauges.2 gauge hg heq
  · refine hkeys.map_on fun series hs series' hs' heq => ?_
    obtain ⟨x,hx,rfl⟩ := hseries series hs
    obtain ⟨y,hy,rfl⟩ := hseries series' hs'
    exact (h.texts x hx y hy heq).1
  · rintro text htext text' htext' rfl
    obtain ⟨series,hs,rfl⟩ := List.mem_map.mp htext'
    obtain ⟨x,hx,rfl⟩ := hseries series hs
    rcases List.mem_cons.mp htext with heq | htext
    · exact (h.apart x hx).1 heq
    · obtain ⟨gauge,hg,heq⟩ := List.mem_map.mp htext
      exact (h.apart x hx).2 gauge hg heq.symm

theorem counterKey_eq_iff {name name' : Str} {labels labels' : Labels} :
    counterKey name labels = counterKey name' labels' ↔
      (name, labelItems labels) = (name', labelItems labels') := by
  rw [counterKey, counterKey, Json.prefixed_dumps_eq_iff labels.nodup, Prod.mk.injEq]
  refine and_congr_right fun _ => ⟨fun h => ?_, fun h => perm_of_ascending_eq toLex h⟩
  exact ascending_eq_of_perm toLex h fun _ _ _ _ heq => toLex.injective heq

theorem sampled_mem {now amount : ℚ} {kind : MetricType} {name : Str} {labels : Labels} {x : Metric}
    (hx : x ∈ samples (m.record now (.sample kind name amount labels))) :
    x ∈ samples m ∨ x = written m now kind name amount labels := by
  rw [samples, metrics_record] at hx
  obtain ⟨p,hp,hx⟩ := List.mem_flatMap.mp hx
  rcases Dict.mem_set hp with hp | rfl
  · exact .inl (List.mem_flatMap.mpr ⟨p, hp, hx⟩)
  · have hx' : x ∈ m.held name ++ [written m now kind name amount labels] :=
      trimmedOff_append (m.held name ++ _) ▸ List.mem_append_right _ hx
    rcases List.mem_append.mp hx' with hx' | hx'
    · rw [MetricsCollector.held] at hx'
      cases hget : m.metrics.get? name with
      | none =>
        rw [hget] at hx'
        cases hx'
      | some xs =>
        rw [hget] at hx'
        exact .inl (List.mem_flatMap.mpr ⟨(name, xs), Dict.mem_of_get? hget, hx'⟩)
    · exact .inr (List.mem_singleton.mp hx')

theorem heldOf_record (m : MetricsCollector) (now : ℚ) (kind : MetricType) (name : Str)
    (amount : ℚ) (labels : Labels) (series : Series) :
    ∃ gone, gone ++ heldOf (m.record now (.sample kind name amount labels)) series =
        heldOf m series ++ (if (name, labelItems labels) = series then
          [written m now kind name amount labels] else []) ∧
      ∀ x ∈ gone, x ∈ trimmedOff (m.held name ++ [written m now kind name amount labels]) ∧
        seriesOf x = series ∧ name = series.1 := by
  rw [heldOf, held_record]
  split
  · next hname =>
    subst hname
    refine ⟨(trimmedOff (m.held series.1 ++ [written m now kind series.1 amount labels])).filter
      fun x => seriesOf x = series, ?_, fun x hx => ?_⟩
    · rw [← List.filter_append, trimmedOff_append, List.filter_append, ← heldOf,
        List.filter_singleton, Bool.cond_eq_ite]
      exact congrArg _ (if_congr decide_eq_true_iff rfl rfl)
    · obtain ⟨hx,hseries⟩ := List.mem_filter.mp hx
      exact ⟨hx, of_decide_eq_true hseries, rfl⟩
  · next hname =>
    refine ⟨[], ?_, by simp⟩
    rw [if_neg fun h => hname (by rw [← h]), List.append_nil]
    rfl

theorem last_of_suffix {α : Type} {gone front xs : List α} {x : α} (h : gone ++ xs = front ++ [x])
    (hne : xs ≠ []) : ∃ front', xs = front' ++ [x] := by
  rcases List.eq_nil_or_concat xs with rfl | ⟨front',y,rfl⟩
  · exact absurd rfl hne
  · rw [List.concat_eq_append, ← List.append_assoc] at h
    refine ⟨front', ?_⟩
    rw [List.concat_eq_append, (List.cons.inj (List.append_inj_right' h rfl)).1]

theorem written_kept (m : MetricsCollector) (now : ℚ) (kind : MetricType) (name : Str) (amount : ℚ)
    (labels : Labels) :
    written m now kind name amount labels ∈
      trim (m.held name ++ [written m now kind name amount labels]) := by
  rw [trim]
  split
  · rw [List.drop_append_of_le_length (by rw [List.length_append, List.length_singleton]; omega)]
    simp
  · simp

section Step

variable {now amount : ℚ} {kind : MetricType} {name : Str} {labels : Labels}

theorem latest_record (h : Exported past m)
    (hkept : ExportKept m (now, .sample kind name amount labels)) (name' : Str) (labels' : Labels)
    (hne : increments (counterKey name' labels')
      (past ++ [(now, .sample kind name amount labels)]) ≠ []) :
    ∃ front x, heldOf (m.record now (.sample kind name amount labels)) (name', labelItems labels') =
        front ++ [x] ∧ x.metricType = .counter ∧
      x.value = (increments (counterKey name' labels')
        (past ++ [(now, .sample kind name amount labels)])).sum := by
  obtain ⟨⟨htexts,-,-⟩,hcounter,htrim⟩ := hkept
  obtain ⟨gone,hsplit,hgone⟩ := heldOf_record m now kind name amount labels
    (name', labelItems labels')
  rw [increments_concat] at hne ⊢
  by_cases hthis : kind = .counter ∧ (name, labelItems labels) = (name', labelItems labels')
  · obtain ⟨rfl,hseries⟩ := hthis
    have hkey := counterKey_eq_iff.mpr hseries
    have hvalue := tracked_value h.tracked trivial (hcounter rfl) fun hinc => by
      obtain ⟨front,x,hheld,-,-⟩ := h.latest name labels hinc
      have hx : x ∈ heldOf m (name, labelItems labels) := by simp [hheld]
      exact ⟨x, (mem_heldOf h).mp hx⟩
    rw [if_pos hseries] at hsplit
    have hnew : written m now .counter name amount labels ∈
        heldOf (m.record now (.sample .counter name amount labels))
          (name', labelItems labels') := by
      rw [heldOf, held_record, if_pos (congrArg Prod.fst hseries), ← congrArg Prod.fst hseries]
      exact List.mem_filter.mpr ⟨written_kept m now .counter name amount labels,
        decide_eq_true hseries⟩
    obtain ⟨front,hfront⟩ := last_of_suffix hsplit (List.ne_nil_of_mem hnew)
    refine ⟨front, _, hfront, rfl, ?_⟩
    rw [Entry.increment?, if_pos hkey, Option.toList_some, List.sum_append, List.sum_singleton,
      ← hkey]
    exact hvalue
  · have hnone : (Entry.sample kind name amount labels).increment? (counterKey name' labels') =
        none := by
      cases kind with
      | counter => exact if_neg fun hkey => hthis ⟨rfl, counterKey_eq_iff.mp hkey⟩
      | gauge => rfl
      | histogram => rfl
    rw [hnone, Option.toList_none, List.append_nil] at hne ⊢
    obtain ⟨front,x,hheld,hxkind,hxvalue⟩ := h.latest name' labels' hne
    have hx : x ∈ heldOf m (name', labelItems labels') := by simp [hheld]
    obtain ⟨hxm,hxs⟩ := (mem_heldOf h).mp hx
    have hother : (name, labelItems labels) ≠ (name', labelItems labels') := by
      intro hseries
      have hsame := (htexts x hxm (by rw [hxs, hseries])).2
      exact hthis ⟨hsame.symm.trans hxkind, hseries⟩
    rw [if_neg hother, List.append_nil, hheld] at hsplit
    have hne' : heldOf (m.record now (.sample kind name amount labels))
        (name', labelItems labels') ≠ [] := by
      intro hnil
      rw [hnil, List.append_nil] at hsplit
      obtain ⟨hlost,hls,hname⟩ := hgone x (by simp [hsplit])
      obtain ⟨y,hy,hys⟩ := (htrim x hlost).2 hxkind
      have hmem : y ∈ heldOf (m.record now (.sample kind name amount labels))
          (name', labelItems labels') := by
        rw [heldOf, held_record, if_pos hname, ← hname]
        exact List.mem_filter.mpr ⟨hy, decide_eq_true (hys.trans hls)⟩
      rw [hnil] at hmem
      cases hmem
    obtain ⟨front',hfront⟩ := last_of_suffix hsplit hne'
    exact ⟨front', x, hfront, hxkind, hxvalue⟩

theorem observed_record (h : Exported past m)
    (hkept : ExportKept m (now, .sample kind name amount labels)) (series : Series) :
    ((heldOf (m.record now (.sample kind name amount labels)) series).filter
        fun x => x.metricType = .histogram).map Metric.value =
      observations series (past ++ [(now, .sample kind name amount labels)]) := by
  obtain ⟨-,-,htrim⟩ := hkept
  obtain ⟨gone,hsplit,hgone⟩ := heldOf_record m now kind name amount labels series
  have hnone : gone.filter (fun x => x.metricType = .histogram) = [] :=
    List.filter_eq_nil_iff.mpr fun x hx hkind =>
      (htrim x (hgone x hx).1).1 (of_decide_eq_true hkind)
  have hfilter := congrArg (List.filter fun x => decide (x.metricType = .histogram)) hsplit
  rw [List.filter_append, hnone, List.nil_append, List.filter_append] at hfilter
  rw [hfilter, List.map_append, h.observed series, observations, observations,
    List.filterMap_append]
  refine congrArg _ ?_
  by_cases hseries : (name, labelItems labels) = series
  · rw [if_pos hseries]
    cases kind with
    | gauge => rfl
    | counter => rfl
    | histogram => simp [Entry.observation?, hseries, written]
  · rw [if_neg hseries]
    cases kind with
    | gauge => rfl
    | counter => rfl
    | histogram => simp [Entry.observation?, hseries]

theorem tracked_sample (h : Exported past m)
    (hkept : ExportKept m (now, .sample kind name amount labels)) :
    Tracked (fun _ => True) (past ++ [(now, .sample kind name amount labels)])
      (m.record now (.sample kind name amount labels)) := by
  refine tracked_record h.tracked ?_
  rintro name' increment labels' he -
  cases he
  refine tracked_value h.tracked trivial (hkept.2.1 rfl) fun hinc => ?_
  obtain ⟨front,x,hheld,-,-⟩ := h.latest name labels hinc
  have hx : x ∈ heldOf m (name, labelItems labels) := by simp [hheld]
  exact ⟨x, (mem_heldOf h).mp hx⟩

theorem globalGauges_record (m : MetricsCollector) (now : ℚ) (kind : MetricType) (name : Str)
    (amount : ℚ) (labels : Labels) :
    (m.record now (.sample kind name amount labels)).globalGauges = m.globalGauges := by
  cases kind with
  | gauge => rfl
  | counter => rfl
  | histogram => rfl

theorem mem_held_name (h : Exported past m) {n : Str} {x : Metric} (hx : x ∈ m.held n) :
    x.name = n := by
  rw [MetricsCollector.held] at hx
  cases hget : m.metrics.get? n with
  | none =>
    rw [hget] at hx
    cases hx
  | some xs =>
    rw [hget] at hx
    exact h.names.2 (n, xs) (Dict.mem_of_get? hget) x hx

theorem exported_sample (h : Exported past m)
    (hkept : ExportKept m (now, .sample kind name amount labels)) :
    Exported (past ++ [(now, .sample kind name amount labels)])
      (m.record now (.sample kind name amount labels)) := by
  have hkept' := hkept
  obtain ⟨⟨htexts,huptime,hgauge⟩,-,-⟩ := hkept
  refine ⟨⟨?_, ?_⟩, ?_, ?_, ?_, tracked_sample h hkept', latest_record h hkept',
    observed_record h hkept'⟩
  · rw [metrics_record]
    exact Dict.keys_set_nodup h.names.1 name _
  · intro p hp x hx
    rw [metrics_record] at hp
    rcases Dict.mem_set hp with hp | rfl
    · exact h.names.2 p hp x hx
    · have hx' : x ∈ m.held name ++ [written m now kind name amount labels] :=
        trimmedOff_append (m.held name ++ _) ▸ List.mem_append_right _ hx
      rcases List.mem_append.mp hx' with hx' | hx'
      · exact mem_held_name h hx'
      · rw [List.mem_singleton.mp hx']
        rfl
  · rw [globalGauges_record]
    exact h.gauges
  · intro x hx y hy heq
    rcases sampled_mem hx with hx | rfl
    · rcases sampled_mem hy with hy | rfl
      · exact h.texts x hx y hy heq
      · exact htexts x hx heq
    · rcases sampled_mem hy with hy | rfl
      · obtain ⟨hseries,hkind⟩ := htexts y hy heq.symm
        exact ⟨hseries.symm, hkind.symm⟩
      · exact ⟨rfl, rfl⟩
  · intro x hx
    rw [globalGauges_record]
    rcases sampled_mem hx with hx | rfl
    · exact h.apart x hx
    · exact ⟨huptime, hgauge⟩

theorem exported_gauge (h : Exported past m) {value : ℚ}
    (hkept : ExportKept m (now, .globalGauge name value)) :
    Exported (past ++ [(now, .globalGauge name value)])
      (m.record now (.globalGauge name value)) := by
  have hincrements (key : Str) :
      increments key (past ++ [(now, .globalGauge name value)]) = increments key past := by
    rw [increments_concat]
    exact List.append_nil _
  have hmem : ∀ gauge ∈ (m.globalGauges.set name value).keys,
      gauge ∈ m.globalGauges.keys ∨ gauge = name := fun gauge =>
    (Dict.mem_keys_set m.globalGauges name gauge value).mp
  refine ⟨h.names, ⟨Dict.keys_set_nodup h.gauges.1 name value, ?_⟩, h.texts, ?_, ?_, ?_, ?_⟩
  · intro gauge hg
    rcases hmem gauge hg with hg | rfl
    · exact h.gauges.2 gauge hg
    · exact hkept.1
  · intro x hx
    refine ⟨(h.apart x hx).1, fun gauge hg => ?_⟩
    rcases hmem gauge hg with hg | rfl
    · exact (h.apart x hx).2 gauge hg
    · exact hkept.2 x hx
  · refine tracked_record h.tracked ?_
    rintro name' increment labels' he -
    cases he
  · intro name' labels' hne
    rw [hincrements] at hne ⊢
    exact h.latest name' labels' hne
  · intro series
    rw [observations, List.filterMap_append, ← observations]
    exact (h.observed series).trans (List.append_nil _).symm

end Step

theorem exported_run {es : List (ℚ × Entry)} (startTime : ℚ)
    (hmeets : Run.Meets step ExportKept (.init startTime) es) :
    Exported es (MetricsCollector.run (.init startTime) es) := by
  refine run_invariant Exported ?_ ?_ hmeets
  · rintro past m ⟨now,e⟩ h hkept
    match e with
    | .sample kind name amount labels => exact exported_sample h hkept
    | .globalGauge name value => exact exported_gauge h hkept
  · refine ⟨⟨by simp [MetricsCollector.init], ?_⟩, ⟨by simp [MetricsCollector.init], ?_⟩,
      ?_, ?_, ?_, ?_, fun series => rfl⟩
    · intro p hp
      cases hp
    · intro gauge hg
      cases hg
    · intro x hx
      cases hx
    · intro x hx
      cases hx
    · intro key v _ hget
      cases hget
    · exact fun name labels hne => absurd rfl hne

structure ExportExact (past : List (ℚ × Entry)) (lines : List (Str × ℚ)) : Prop where
  unique : (lines.map Prod.fst).Nodup
  counters : ∀ e ∈ past, ∀ name increment labels, e.2 = .sample .counter name increment labels →
    (seriesText (name, labelItems labels), (increments (counterKey name labels) past).sum) ∈ lines
  histograms : ∀ e ∈ past, ∀ name value labels, e.2 = .sample .histogram name value labels →
    (seriesText (name, labelItems labels),
      (observations (name, labelItems labels) past).sum) ∈ lines

theorem export_exact (startTime now : ℚ) (calls : List (ℚ × Call))
    (hmeets : Run.Meets step ExportKept (.init startTime) (recorded calls)) :
    ExportExact (recorded calls) (sampleLines
      (toPrometheus (MetricsCollector.run (.init startTime) (recorded calls)) now none)) := by
  have h := exported_run startTime hmeets
  set m := MetricsCollector.run (.init startTime) (recorded calls)
  have hline : ∀ series value, (aggregated m).get? series = some value →
      (seriesText series, value) ∈ sampleLines (toPrometheus m now none) := by
    intro series value hget
    rw [sampleLines_toPrometheus]
    refine List.mem_append_right _ (List.mem_map.mpr ⟨(series, value), ?_, rfl⟩)
    exact (perm_ascending seriesOrder (aggregated m)).mem_iff.mpr (Dict.mem_of_get? hget)
  refine ⟨series_nodup h now, ?_, ?_⟩
  · intro e he name increment labels hentry
    have hne : increments (counterKey name labels) (recorded calls) ≠ [] := by
      refine List.ne_nil_of_mem (a := increment) (List.mem_filterMap.mpr ⟨e, he, ?_⟩)
      rw [hentry]
      exact if_pos rfl
    exact hline _ _ (exported_counter h hne)
  · intro e he name value labels hentry
    have hne : observations (name, labelItems labels) (recorded calls) ≠ [] := by
      refine List.ne_nil_of_mem (a := value) (List.mem_filterMap.mpr ⟨e, he, ?_⟩)
      rw [hentry]
      exact if_pos rfl
    exact hline _ _ (exported_histogram h hne)

end Exactness

section Runs

def twoProjects (first second : Str) : List (ℚ × Call) :=
  [(0, .projectRun first 3 "completed".toList none), (5, .projectRun second 4 "failed".toList none),
   (7, .projectRun first 2 "failed".toList none)]

theorem export_exact_two_projects :
    ExportExact (recorded (twoProjects "a".toList "b".toList)) (sampleLines
      (toPrometheus (MetricsCollector.run (.init 0)
        (recorded (twoProjects "a".toList "b".toList))) 9 none)) :=
  export_exact 0 9 (twoProjects "a".toList "b".toList) (by decide +kernel)

-- The two project names are written alike.
theorem rewritten_labels_share_a_series :
    ¬ ExportExact (recorded (twoProjects "a\"b".toList "a_b".toList)) (sampleLines
      (toPrometheus (MetricsCollector.run (.init 0)
        (recorded (twoProjects "a\"b".toList "a_b".toList))) 9 none)) :=
  fun h => absurd h.unique (by decide +kernel)

end Runs

end PicoSentry.Serve.MetricsExport
