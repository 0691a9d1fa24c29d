import Mathlib.Algebra.Order.BigOperators.Group.List
import Mathlib.Algebra.Order.Field.Basic
import Mathlib.Tactic.Linarith
import Mathlib.Tactic.NormNum
import Mathlib.Tactic.Positivity
import PicoSentry.Serve.CorrelationStore

namespace PicoSentry.Serve.Correlation

open Foundation

section Average

theorem average_add_iff {num den weight value : ℚ} (hden : 0 < den) (hweight : 0 < weight) :
    num / den ≤ (num + value * weight) / (den + weight) ↔ num / den ≤ value := by
  rw [div_le_div_iff₀ hden (by positivity), div_le_iff₀ hden, mul_add, add_mul, mul_right_comm value]
  constructor
  · intro h
    exact le_of_mul_le_mul_right (by linarith) hweight
  · intro h
    have := mul_le_mul_of_nonneg_right h hweight.le
    linarith

theorem le_average_add {num den weight value bound : ℚ} (hden : 0 < den) (hweight : 0 < weight)
    (hnum : bound ≤ num / den) (hvalue : bound ≤ value) :
    bound ≤ (num + value * weight) / (den + weight) := by
  rw [le_div_iff₀ (by positivity), mul_add]
  rw [le_div_iff₀ hden] at hnum
  exact add_le_add hnum (mul_le_mul_of_nonneg_right hvalue hweight.le)

end Average

def phaseSeverity (events : List CorrelatedEvent) (phase : KillChainPhase) : ℚ :=
  maxSeverityWeight id (events.filter fun event => phaseForEvent event = phase)

def weightedOver (events : List CorrelatedEvent) (phases : List KillChainPhase) : ℚ :=
  (phases.map fun phase => phaseSeverity events phase * phaseWeight phase).sum

def weightOver (phases : List KillChainPhase) : ℚ := (phases.map phaseWeight).sum

def chainScore (events : List CorrelatedEvent) : ℚ := exactChainScore (phasesOf events)

theorem phaseWeight_pos (phase : KillChainPhase) : 0 < phaseWeight phase := by
  cases phase <;> norm_num [phaseWeight]

theorem severityWeight_nonneg (severity : Severity) : 0 ≤ severityWeight severity := by
  cases severity <;> norm_num [severityWeight]

theorem weightOver_pos {phases : List KillChainPhase} (h : phases ≠ []) : 0 < weightOver phases := by
  cases phases with
  | nil => exact absurd rfl h
  | cons phase phases =>
    have hrest : 0 ≤ (phases.map phaseWeight).sum :=
      List.sum_nonneg (by simpa using fun p _ => (phaseWeight_pos p).le)
    simpa [weightOver] using add_pos_of_pos_of_nonneg (phaseWeight_pos phase) hrest

theorem chainScore_eq (events : List CorrelatedEvent) :
    chainScore events =
      weightedOver events (phasesOf events).keys / weightOver (phasesOf events).keys := by
  have hweighted := map_phasesOf events fun phase xs => maxSeverityWeight id xs * phaseWeight phase
  have hweight := map_phasesOf events fun phase _ => phaseWeight phase
  simp only [chainScore, exactChainScore, scoreOf, foldl_addPhase, zero_add, hweighted, hweight]
  split
  · next h => simp [weightOver, h]
  · rfl

theorem maxSeverityWeight_concat (events : List CorrelatedEvent) (event : CorrelatedEvent) :
    maxSeverityWeight id (events ++ [event]) =
      max (maxSeverityWeight id events) (severityWeight event.severity) := by
  simp [maxSeverityWeight]

theorem phaseSeverity_mono (events : List CorrelatedEvent) (event : CorrelatedEvent)
    (phase : KillChainPhase) : phaseSeverity events phase ≤ phaseSeverity (events ++ [event]) phase := by
  by_cases h : phaseForEvent event = phase
  · simp [phaseSeverity, h, maxSeverityWeight_concat]
  · simp [phaseSeverity, h]

theorem phaseSeverity_of_ne {events : List CorrelatedEvent} {event : CorrelatedEvent}
    {phase : KillChainPhase} (h : phaseForEvent event ≠ phase) :
    phaseSeverity (events ++ [event]) phase = phaseSeverity events phase := by
  simp [phaseSeverity, h]

theorem phaseSeverity_fresh {events : List CorrelatedEvent} {event : CorrelatedEvent}
    (h : phaseForEvent event ∉ (phasesOf events).keys) :
    phaseSeverity (events ++ [event]) (phaseForEvent event) = severityWeight event.severity := by
  have hnone : events.filter (fun old => phaseForEvent old = phaseForEvent event) = [] := by
    simpa [mem_keys_phasesOf] using h
  have hzero := severityWeight_nonneg event.severity
  simp [phaseSeverity, hnone, maxSeverityWeight, hzero]

theorem weightedOver_mono (events : List CorrelatedEvent) (event : CorrelatedEvent)
    (phases : List KillChainPhase) :
    weightedOver events phases ≤ weightedOver (events ++ [event]) phases := by
  refine List.sum_le_sum ?_
  intro phase _
  exact mul_le_mul_of_nonneg_right (phaseSeverity_mono events event phase) (phaseWeight_pos phase).le

theorem keys_concat_seen {events : List CorrelatedEvent} {event : CorrelatedEvent}
    (h : phaseForEvent event ∈ (phasesOf events).keys) :
    (phasesOf (events ++ [event])).keys = (phasesOf events).keys := by
  simp [phasesOf_concat, addToPhase, Dict.keys_set, h]

theorem keys_concat_fresh {events : List CorrelatedEvent} {event : CorrelatedEvent}
    (h : phaseForEvent event ∉ (phasesOf events).keys) :
    (phasesOf (events ++ [event])).keys = (phasesOf events).keys ++ [phaseForEvent event] := by
  simp [phasesOf_concat, addToPhase, Dict.keys_set, h]

theorem weightOver_concat (phases : List KillChainPhase) (phase : KillChainPhase) :
    weightOver (phases ++ [phase]) = weightOver phases + phaseWeight phase := by
  simp [weightOver]

theorem weightedOver_fresh {events : List CorrelatedEvent} {event : CorrelatedEvent}
    (h : phaseForEvent event ∉ (phasesOf events).keys) :
    weightedOver (events ++ [event]) (phasesOf (events ++ [event])).keys =
      weightedOver events (phasesOf events).keys +
        severityWeight event.severity * phaseWeight (phaseForEvent event) := by
  have hold : ∀ phase ∈ (phasesOf events).keys,
      phaseSeverity (events ++ [event]) phase * phaseWeight phase =
        phaseSeverity events phase * phaseWeight phase := by
    intro phase hphase
    rw [phaseSeverity_of_ne fun heq => h (heq ▸ hphase)]
  simp [weightedOver, keys_concat_fresh h, phaseSeverity_fresh h, List.map_congr_left hold]

theorem chainScore_le_seen {events : List CorrelatedEvent} {event : CorrelatedEvent}
    (h : phaseForEvent event ∈ (phasesOf events).keys) :
    chainScore events ≤ chainScore (events ++ [event]) := by
  rw [chainScore_eq, chainScore_eq, keys_concat_seen h]
  exact div_le_div_of_nonneg_right (weightedOver_mono events event _)
    (weightOver_pos (List.ne_nil_of_mem h)).le

theorem chainScore_fresh {events : List CorrelatedEvent} {event : CorrelatedEvent}
    (h : phaseForEvent event ∉ (phasesOf events).keys) :
    chainScore (events ++ [event]) =
      (weightedOver events (phasesOf events).keys +
        severityWeight event.severity * phaseWeight (phaseForEvent event)) /
      (weightOver (phasesOf events).keys + phaseWeight (phaseForEvent event)) := by
  rw [chainScore_eq, weightedOver_fresh h, keys_concat_fresh h, weightOver_concat]

theorem weightOver_seen_pos {events : List CorrelatedEvent} (h : events ≠ []) :
    0 < weightOver (phasesOf events).keys := by
  obtain ⟨event,hevent⟩ := List.exists_mem_of_ne_nil events h
  refine weightOver_pos (List.ne_nil_of_mem (a := phaseForEvent event) ?_)
  exact mem_keys_phasesOf.mpr ⟨event, hevent, rfl⟩

theorem chainScore_le_fresh_iff {events : List CorrelatedEvent} {event : CorrelatedEvent}
    (h : phaseForEvent event ∉ (phasesOf events).keys) :
    chainScore events ≤ chainScore (events ++ [event]) ↔
      chainScore events ≤ severityWeight event.severity := by
  rw [chainScore_fresh h]
  by_cases hnil : events = []
  · subst hnil
    have hw := phaseWeight_pos (phaseForEvent event)
    have hs := severityWeight_nonneg event.severity
    have hzero : chainScore [] = 0 := by simp [chainScore, exactChainScore, scoreOf, phasesOf]
    simp [hzero, weightedOver, weightOver, phasesOf, hs, div_nonneg, mul_nonneg, hw.le]
  · rw [chainScore_eq]
    exact average_add_iff (weightOver_seen_pos hnil) (phaseWeight_pos _)

def escalationThreshold : ℚ := 7 / 10

def escalates (events : List CorrelatedEvent) : Bool := escalationThreshold ≤ chainScore events

theorem escalates_fresh {events : List CorrelatedEvent} {event : CorrelatedEvent}
    (hfresh : phaseForEvent event ∉ (phasesOf events).keys) (hold : escalates events)
    (hsev : escalationThreshold ≤ severityWeight event.severity) :
    escalates (events ++ [event]) := by
  have hne : events ≠ [] := by
    rintro rfl
    simp [escalates, escalationThreshold, chainScore, exactChainScore, scoreOf, phasesOf] at hold
    norm_num at hold
  simp only [escalates, decide_eq_true_eq, chainScore_fresh hfresh] at hold ⊢
  rw [chainScore_eq] at hold
  exact le_average_add (weightOver_seen_pos hne) (phaseWeight_pos _) hold hsev

theorem chainScore_grows_iff (events : List CorrelatedEvent) (event : CorrelatedEvent) :
    (chainScore events ≤ chainScore (events ++ [event]) ↔
      (∃ old ∈ events, phaseForEvent old = phaseForEvent event) ∨
        chainScore events ≤ severityWeight event.severity) ∧
    (escalates events ∧ ¬ escalates (events ++ [event]) →
      (∀ old ∈ events, phaseForEvent old ≠ phaseForEvent event) ∧
        severityWeight event.severity < escalationThreshold) := by
  by_cases hseen : phaseForEvent event ∈ (phasesOf events).keys
  · have hle := chainScore_le_seen hseen
    refine ⟨iff_of_true hle (.inl (mem_keys_phasesOf.mp hseen)), ?_⟩
    rintro ⟨hold,hnew⟩
    simp only [escalates, decide_eq_true_eq] at hold hnew
    exact absurd (hold.trans hle) hnew
  · have hnone : ¬ ∃ old ∈ events, phaseForEvent old = phaseForEvent event := by
      rwa [← mem_keys_phasesOf]
    refine ⟨?_, ?_⟩
    · rw [chainScore_le_fresh_iff hseen, or_iff_right hnone]
    · rintro ⟨hold,hnew⟩
      refine ⟨by simpa using hnone, ?_⟩
      by_contra hsev
      exact hnew (escalates_fresh hseen hold (le_of_not_gt hsev))

def criticalSpawn : CorrelatedEvent where
  artifactId := "pkg@1.0.0".toList
  layer := "sandbox_l3".toList
  ruleId := "L3-PROC-001".toList
  severity := .critical
  confidence := .high
  target := "project".toList
  title := "Process spawned".toList
  detail := "curl | sh".toList
  timestamp := "2026-06-03T12:00:00Z".toList
  orgId := none
  runId := none

def quietPrompt : CorrelatedEvent :=
  { criticalSpawn with
    layer := "watch".toList, ruleId := "L5-PROMPT-002".toList, severity := .info }

theorem info_event_lowers_score :
    chainScore [criticalSpawn] = 1 ∧ chainScore ([criticalSpawn] ++ [quietPrompt]) = 13 / 32 ∧
      ¬ chainScore [criticalSpawn] ≤ chainScore ([criticalSpawn] ++ [quietPrompt]) ∧
      escalates [criticalSpawn] ∧ ¬ escalates ([criticalSpawn] ++ [quietPrompt]) := by
  decide +kernel

end PicoSentry.Serve.Correlation
