import Mathlib.Algebra.BigOperators.Group.List.Basic
import PicoSentry.Serve.CorrelationTenants

namespace PicoSentry.Serve.Correlation

open Foundation
open Foundation.Run

def Severity.value : Severity → Str
  | .critical => "CRITICAL".toList
  | .high => "HIGH".toList
  | .medium => "MEDIUM".toList
  | .low => "LOW".toList
  | .info => "INFO".toList

def Confidence.value : Confidence → Str
  | .exact => "EXACT".toList
  | .high => "HIGH".toList
  | .medium => "MEDIUM".toList
  | .low => "LOW".toList

def severities : List Severity := [.critical, .high, .medium, .low, .info]

def confidences : List Confidence := [.exact, .high, .medium, .low]

inductive ConfidenceInput where
  | number (value : ℚ)
  | text (value : Str)

def severityFromStr (U : Unicode) (value : Str) : Severity :=
  (severities.find? fun s => s.value = U.upperStr value).getD .info

def confidenceFromStr (U : Unicode) : ConfidenceInput → Confidence
  | .number value =>
    if 9 / 10 ≤ value then .exact
    else if 7 / 10 ≤ value then .high
    else if 4 / 10 ≤ value then .medium
    else .low
  | .text value => (confidences.find? fun c => c.value = U.upperStr value).getD .low

structure EventRow where
  dedupKey : Str
  artifactId : Str
  layer : Str
  ruleId : Str
  severity : Str
  confidence : Str
  target : Str
  title : Str
  detail : Str
  timestamp : Str
  runId : Option Str
  orgId : Option Str
  deriving DecidableEq, Repr

section Persistence

variable (sha256 : Str → Str)

def dedupText (event : CorrelatedEvent) : Str :=
  event.orgId.getD [] ++ '|' :: event.artifactId ++ '|' :: event.layer ++ '|' :: event.ruleId ++
    '|' :: event.timestamp

def dedupKey (event : CorrelatedEvent) : Str := (sha256 (dedupText event)).take 16

def eventRow (event : CorrelatedEvent) : EventRow where
  dedupKey := dedupKey sha256 event
  artifactId := event.artifactId
  layer := event.layer
  ruleId := event.ruleId
  severity := event.severity.value
  confidence := event.confidence.value
  target := event.target
  title := event.title
  detail := event.detail
  timestamp := event.timestamp
  runId := event.runId
  orgId := event.orgId

def persistEvent (state : Nat × List EventRow) (event : CorrelatedEvent) : Nat × List EventRow :=
  if state.2.any fun row => row.dedupKey = dedupKey sha256 event then state
  else (state.1 + 1, state.2 ++ [eventRow sha256 event])

def Engine.allEvents (e : Engine) : List CorrelatedEvent := e.events.flatMap Prod.snd

def persistEvents (e : Engine) (table : List EventRow) : Nat × List EventRow :=
  e.allEvents.foldl (persistEvent sha256) (0, table)

end Persistence

def rowEvent (U : Unicode) (row : EventRow) : CorrelatedEvent where
  artifactId := row.artifactId
  layer := row.layer
  ruleId := row.ruleId
  severity := severityFromStr U row.severity
  confidence := confidenceFromStr U (.text row.confidence)
  target := row.target
  title := row.title
  detail := row.detail
  timestamp := row.timestamp
  orgId := row.orgId
  runId := row.runId

structure OrderedByTimestamp (table rows : List EventRow) : Prop where
  perm : rows.Perm table
  ordered : rows.Pairwise fun row row' => row.timestamp ≤ row'.timestamp

def reload (U : Unicode) (rows : List EventRow) : Engine :=
  ({} : Engine).loadEvents (rows.map (rowEvent U))

def firstPerKey {α κ : Type} [DecidableEq κ] (key : α → κ) : List κ → List α → List α
  | _, [] => []
  | seen, x :: xs =>
    if key x ∈ seen then firstPerKey key seen xs else x :: firstPerKey key (seen ++ [key x]) xs

theorem firstPerKey_of_nodup {α κ : Type} [DecidableEq κ] {key : α → κ} {seen : List κ}
    {xs : List α} (h : (xs.map key).Nodup) (hseen : ∀ x ∈ xs, key x ∉ seen) :
    firstPerKey key seen xs = xs := by
  induction xs generalizing seen with
  | nil => rfl
  | cons x xs ih =>
    rw [List.map_cons, List.nodup_cons] at h
    rw [firstPerKey, if_neg (hseen x (by simp)), ih h.2]
    intro y hy
    rw [List.mem_append, List.mem_singleton, not_or]
    refine ⟨hseen y (by simp [hy]), ?_⟩
    intro heq
    exact h.1 (heq ▸ List.mem_map_of_mem hy)

section RoundTrip

variable {U : Unicode} {sha256 : Str → Str}

theorem persist_fold (events : List CorrelatedEvent) (count : Nat) (table : List EventRow) :
    (events.foldl (persistEvent sha256) (count, table)).2 =
      table ++ (firstPerKey (dedupKey sha256) (table.map EventRow.dedupKey) events).map
        (eventRow sha256) := by
  induction events generalizing count table with
  | nil => simp [firstPerKey]
  | cons event events ih =>
    have hseen : (table.any fun row => row.dedupKey = dedupKey sha256 event) = true ↔
        dedupKey sha256 event ∈ table.map EventRow.dedupKey := by
      simp [List.mem_map]
    rw [List.foldl_cons, persistEvent, firstPerKey]
    by_cases h : dedupKey sha256 event ∈ table.map EventRow.dedupKey
    · rw [if_pos h, if_pos (hseen.mpr h)]
      exact ih count table
    · rw [if_neg h, if_neg (fun hany => h (hseen.mp hany)), ih]
      simp [eventRow]

theorem upperStr_ascii (hupper : ∀ c, c.toNat < 128 → U.upper c = [c.toUpper]) {s : Str}
    (h : s.all (·.toNat < 128) = true) : U.upperStr s = s.map Char.toUpper := by
  induction s with
  | nil => rfl
  | cons c s ih =>
    rw [List.all_cons, Bool.and_eq_true, decide_eq_true_eq] at h
    rw [Unicode.upperStr, List.flatMap_cons, hupper c h.1, ← Unicode.upperStr, ih h.2]
    rfl

theorem upper_basic_ascii (c : Char) (h : c.toNat < 128) :
    Unicode.basic.upper c = [c.toUpper] := by
  have hdotless : c ≠ Unicode.dotlessI := Unicode.ne_of_ascii h (by decide)
  have hlong : c ≠ Unicode.longS := Unicode.ne_of_ascii h (by decide)
  simp only [Unicode.basic, if_neg hdotless, if_neg hlong]

theorem severityFromStr_value (hupper : ∀ c, c.toNat < 128 → U.upper c = [c.toUpper])
    (s : Severity) : severityFromStr U s.value = s := by
  have hvalue : U.upperStr s.value = s.value := by
    rw [upperStr_ascii hupper (by cases s <;> rfl)]
    cases s <;> rfl
  rw [severityFromStr, hvalue]
  cases s <;> rfl

theorem confidenceFromStr_value (hupper : ∀ c, c.toNat < 128 → U.upper c = [c.toUpper])
    (c : Confidence) : confidenceFromStr U (.text c.value) = c := by
  have hvalue : U.upperStr c.value = c.value := by
    rw [upperStr_ascii hupper (by cases c <;> rfl)]
    cases c <;> rfl
  rw [confidenceFromStr, hvalue]
  cases c <;> rfl

theorem rowEvent_eventRow (hupper : ∀ c, c.toNat < 128 → U.upper c = [c.toUpper])
    (event : CorrelatedEvent) : rowEvent U (eventRow sha256 event) = event := by
  rw [rowEvent, eventRow, severityFromStr_value hupper, confidenceFromStr_value hupper]

theorem stored_loadAll (e : Engine) (events : List CorrelatedEvent) (artifact : Str) :
    (events.foldl Engine.loadEvent e).stored artifact =
      e.stored artifact ++ events.filter fun event => event.artifactId = artifact := by
  induction events generalizing e with
  | nil => simp
  | cons event events ih =>
    rw [List.foldl_cons, ih, Engine.loadEvent, Engine.stored, Dict.get?_set]
    by_cases h : event.artifactId = artifact
    · subst h
      simp [Engine.stored]
    · rw [if_neg h, List.filter_cons_of_neg (by simpa using h), Engine.stored]

end RoundTrip

section Score

theorem phasesOf_concat (events : List CorrelatedEvent) (event : CorrelatedEvent) :
    phasesOf (events ++ [event]) = addToPhase (phasesOf events) event := by
  rw [phasesOf, List.foldl_concat, ← phasesOf]

theorem keys_phasesOf (events : List CorrelatedEvent) : (phasesOf events).keys.Nodup := by
  induction events using List.reverseRecOn with
  | nil => exact List.nodup_nil
  | append_singleton events event ih =>
    rw [phasesOf_concat]
    exact Dict.keys_set_nodup ih _ _

theorem getD_phasesOf (events : List CorrelatedEvent) (phase : KillChainPhase) :
    ((phasesOf events).get? phase).getD [] =
      events.filter fun event => phaseForEvent event = phase := by
  induction events using List.reverseRecOn with
  | nil => rfl
  | append_singleton events event ih =>
    rw [phasesOf_concat, addToPhase, Dict.get?_set, List.filter_append]
    split
    · next h =>
      subst h
      rw [Option.getD_some, ih]
      simp
    · next h =>
      rw [ih, List.filter_cons_of_neg (by simpa using h), List.filter_nil, List.append_nil]

theorem mem_keys_phasesOf {events : List CorrelatedEvent} {phase : KillChainPhase} :
    phase ∈ (phasesOf events).keys ↔ ∃ event ∈ events, phaseForEvent event = phase := by
  induction events using List.reverseRecOn generalizing phase with
  | nil => simp [phasesOf, Dict.keys]
  | append_singleton events event ih =>
    rw [phasesOf_concat, addToPhase, Dict.keys_set]
    split
    · next h =>
      rw [ih] at h ⊢
      simp only [List.mem_append, List.mem_singleton]
      constructor
      · rintro ⟨old,hold,rfl⟩
        exact ⟨old, .inl hold, rfl⟩
      · rintro ⟨old,hold | rfl,rfl⟩
        · exact ⟨old, hold, rfl⟩
        · exact h
    · simp only [List.mem_append, List.mem_singleton, ih]
      constructor
      · rintro (⟨old,hold,rfl⟩ | rfl)
        · exact ⟨old, .inl hold, rfl⟩
        · exact ⟨event, .inr rfl, rfl⟩
      · rintro ⟨old,hold | rfl,rfl⟩
        · exact .inl ⟨old, hold, rfl⟩
        · exact .inr rfl

theorem maxSeverityWeight_perm (rnd : ℚ → ℚ) {events events' : List CorrelatedEvent}
    (h : events.Perm events') : maxSeverityWeight rnd events = maxSeverityWeight rnd events' := by
  rw [maxSeverityWeight, maxSeverityWeight]
  refine h.foldl_eq' ?_ 0
  intro event _ event' _ weight
  exact max_right_comm _ _ _

theorem worst_comm (worst s t : Severity) :
    (if severityIndex t < severityIndex (if severityIndex s < severityIndex worst then s else worst)
      then t else if severityIndex s < severityIndex worst then s else worst) =
    if severityIndex s < severityIndex (if severityIndex t < severityIndex worst then t else worst)
      then s else if severityIndex t < severityIndex worst then t else worst := by
  cases worst <;> cases s <;> cases t <;> rfl

theorem worseSeverity_comm (worst : Severity) (event event' : CorrelatedEvent) :
    worseSeverity (worseSeverity worst event) event' =
      worseSeverity (worseSeverity worst event') event :=
  worst_comm worst event.severity event'.severity

theorem maxSeverity_perm {events events' : List CorrelatedEvent} (h : events.Perm events') :
    maxSeverity events = maxSeverity events' :=
  h.foldl_eq' (fun _ _ _ _ _ => worseSeverity_comm _ _ _) .info

theorem foldl_addPhase (phases : PhaseEvents) (totals : ℚ × ℚ) :
    phases.foldl (addPhase id) totals =
      (totals.1 + (phases.map fun p => maxSeverityWeight id p.2 * phaseWeight p.1).sum,
       totals.2 + (phases.map fun p => phaseWeight p.1).sum) := by
  induction phases generalizing totals with
  | nil => simp
  | cons p phases ih => simp [ih, addPhase, add_assoc]

theorem map_phasesOf {β : Type} (events : List CorrelatedEvent)
    (f : KillChainPhase → List CorrelatedEvent → β) :
    ((phasesOf events).map fun p => f p.1 p.2) =
      (phasesOf events).keys.map fun phase =>
        f phase (events.filter fun event => phaseForEvent event = phase) := by
  rw [Dict.keys, List.map_map]
  refine List.map_congr_left ?_
  rintro ⟨phase,value⟩ hmem
  have hget := Dict.get?_of_mem (keys_phasesOf events) hmem
  have hvalue := getD_phasesOf events phase
  rw [hget, Option.getD_some] at hvalue
  rw [Function.comp_apply, hvalue]

theorem keys_phasesOf_perm {events events' : List CorrelatedEvent} (h : events.Perm events') :
    (phasesOf events).keys.Perm (phasesOf events').keys := by
  rw [List.perm_ext_iff_of_nodup (keys_phasesOf _) (keys_phasesOf _)]
  intro phase
  rw [mem_keys_phasesOf, mem_keys_phasesOf]
  simp only [h.mem_iff]

theorem exactChainScore_perm {events events' : List CorrelatedEvent} (h : events.Perm events') :
    exactChainScore (phasesOf events) = exactChainScore (phasesOf events') := by
  have hsum : ∀ f : KillChainPhase → List CorrelatedEvent → ℚ,
      (∀ phase xs ys, xs.Perm ys → f phase xs = f phase ys) →
      ((phasesOf events).map fun p => f p.1 p.2).sum =
        ((phasesOf events').map fun p => f p.1 p.2).sum := by
    intro f hf
    rw [map_phasesOf, map_phasesOf, ((keys_phasesOf_perm h).map _).sum_eq]
    congr 1
    refine List.map_congr_left ?_
    intro phase _
    exact hf phase _ _ (h.filter _)
  have hweighted := hsum (fun phase xs => maxSeverityWeight id xs * phaseWeight phase)
    fun phase xs ys hp => by rw [maxSeverityWeight_perm id hp]
  have hweight := hsum (fun phase _ => phaseWeight phase) fun _ _ _ _ => rfl
  simp only [exactChainScore, scoreOf, foldl_addPhase, hweighted, hweight]

theorem foldl_addPhase_heads (rnd : ℚ → ℚ) (phases : PhaseEvents) (totals : ℚ × ℚ) :
    phases.foldl (addPhase rnd) totals =
      (phases.map fun p => (p.1, maxSeverityWeight rnd p.2)).foldl
        (fun totals head => (rnd (totals.1 + rnd (head.2 * rnd (phaseWeight head.1))),
          rnd (totals.2 + rnd (phaseWeight head.1)))) totals := by
  rw [List.foldl_map]
  rfl

theorem computeChainScore_perm {events events' : List CorrelatedEvent} (h : events.Perm events')
    (hkeys : (phasesOf events).keys = (phasesOf events').keys) :
    computeChainScore (phasesOf events) = computeChainScore (phasesOf events') := by
  have hheads : ((phasesOf events).map fun p => (p.1, maxSeverityWeight Double.round p.2)) =
      (phasesOf events').map fun p => (p.1, maxSeverityWeight Double.round p.2) := by
    rw [map_phasesOf events fun phase xs => (phase, maxSeverityWeight Double.round xs),
      map_phasesOf events' fun phase xs => (phase, maxSeverityWeight Double.round xs), hkeys]
    refine List.map_congr_left ?_
    intro phase _
    rw [maxSeverityWeight_perm Double.round (h.filter _)]
  simp only [computeChainScore, scoreOf, foldl_addPhase_heads, hheads]

def SameScore (t t' : KillChainTimeline) : Prop :=
  t.severity = t'.severity ∧ exactChainScore t.phases = exactChainScore t'.phases ∧
    (t.phases.keys = t'.phases.keys → t.chainScore = t'.chainScore)

theorem scopedTimeline_perm {narrate : Narrator} {org : Option Str} {artifact : Str}
    {events events' : List CorrelatedEvent} (h : events.Perm events') :
    Option.Rel SameScore (Engine.scopedTimeline narrate org artifact events)
      (Engine.scopedTimeline narrate org artifact events') := by
  have hscoped : (scopedEvents org events).Perm (scopedEvents org events') := h.filter _
  rw [Engine.scopedTimeline, Engine.scopedTimeline]
  cases hx : scopedEvents org events with
  | nil =>
    rw [hx] at hscoped
    rw [← hscoped.nil_eq]
    exact .none
  | cons x xs =>
    cases hy : scopedEvents org events' with
    | nil =>
      rw [hx, hy] at hscoped
      exact absurd hscoped.eq_nil (by simp)
    | cons y ys =>
      rw [hx, hy] at hscoped
      exact .some ⟨maxSeverity_perm hscoped, exactChainScore_perm hscoped, computeChainScore_perm hscoped⟩

end Score

section Filed

variable {e : Engine}

structure Filed (e : Engine) : Prop where
  artifacts : e.events.keys.Nodup
  filed : ∀ artifact, ∀ event ∈ e.stored artifact, event.artifactId = artifact
  uncached : e.chains = []

theorem filed_append (h : Filed e) (event : CorrelatedEvent) : Filed (e.append event) := by
  refine ⟨Dict.keys_set_nodup h.artifacts _ _, ?_, h.uncached⟩
  intro artifact old hold
  rw [Engine.stored_append] at hold
  split at hold
  · next hart =>
    rcases List.mem_append.mp (List.mem_of_mem_drop hold) with hold | hold
    · exact h.filed artifact old hold
    · rw [List.mem_singleton.mp hold]
      exact hart
  · exact h.filed artifact old hold

theorem filed_popChain (h : Filed e) (key : ChainKey) : Filed (e.popChain key) := by
  refine ⟨h.artifacts, h.filed, ?_⟩
  rw [Engine.popChain, h.uncached]
  rfl

theorem filed_appendPop (e : Engine) (event : CorrelatedEvent) (h : Filed e) :
    Filed (e.appendPop event) :=
  filed_popChain (filed_append h event) _

theorem filed_evict (h : Filed e) (artifact : Str) : Filed (e.evict artifact) := by
  refine ⟨Dict.keys_erase_nodup h.artifacts _, ?_, ?_⟩
  · intro artifact' old hold
    rw [Engine.stored_evict] at hold
    split at hold
    · cases hold
    · exact h.filed artifact' old hold
  · rw [Engine.evict, h.uncached]
    rfl

theorem filed_foldl {α : Type} {f : Engine → α → Engine} (hf : ∀ e x, Filed e → Filed (f e x))
    (h : Filed e) (xs : List α) : Filed (xs.foldl f e) := by
  induction xs generalizing e with
  | nil => exact h
  | cons x xs ih => exact ih (hf e x h)

theorem filed_evictOldest (h : Filed e) : Filed e.evictOldest :=
  filed_foldl (fun _ artifact hd => filed_evict hd artifact) h e.evicted

theorem filed_allowed (h : Filed e) (now : Int) (count : Nat) :
    Filed (e.allowedByBackpressure now count).2 := by
  refine ⟨by simpa using h.artifacts, ?_, by simpa using h.uncached⟩
  intro artifact old hold
  rw [Engine.stored_allowed] at hold
  exact h.filed artifact old hold

theorem filed_step (_past : List CorrelatedEvent) (e : Engine) (call : Ingestion) (e' : Engine)
    (es : List CorrelatedEvent) (h : Filed e) (_hcond : True)
    (hstep : ingestStep e call = some (e', es)) : Filed e' := by
  cases call with
  | ingest now event =>
    cases hstep
    have hallowed := filed_allowed h now 1
    rw [Engine.ingest]
    split
    · exact ⟨hallowed.artifacts, hallowed.filed, hallowed.uncached⟩
    · exact filed_popChain (filed_evictOldest (filed_append hallowed event)) _
  | ingestMany now events =>
    cases hstep
    have hallowed := filed_allowed h now es.length
    rw [Engine.ingestMany]
    split
    · exact ⟨hallowed.artifacts, hallowed.filed, hallowed.uncached⟩
    · have hend := filed_evictOldest (filed_foldl filed_appendPop hallowed
        (es.take (e.allowedByBackpressure now es.length).1))
      exact ⟨hend.artifacts, hend.filed, hend.uncached⟩

theorem filed_exec {calls : List Ingestion} {es : List CorrelatedEvent}
    (hrun : exec ingestStep {} calls = some (e, es)) : Filed e := by
  have hinit : Filed ({} : Engine) := by
    refine ⟨List.nodup_nil, ?_, rfl⟩
    intro artifact event hmem
    cases hmem
  exact exec_invariant filed_step [] hinit (meets_true _ _) hrun

theorem allEvents_filter (h : Filed e) (artifact : Str) :
    (e.allEvents.filter fun event => event.artifactId = artifact) = e.stored artifact := by
  refine Dict.filter_flatMap_key h.artifacts ?_ artifact
  intro entry hentry event hevent
  have hget := Dict.get?_of_mem h.artifacts hentry
  refine h.filed entry.1 event ?_
  rw [Engine.stored, hget, Option.getD_some]
  exact hevent

end Filed

theorem eq_of_increasing {events events' : List CorrelatedEvent} (h : events.Perm events')
    (hordered : events.Pairwise fun event later => event.timestamp ≤ later.timestamp)
    (hincreasing : events'.Pairwise fun event later => event.timestamp < later.timestamp) :
    events = events' := by
  have hordered' : events'.Pairwise fun event later => event.timestamp ≤ later.timestamp :=
    hincreasing.imp le_of_lt
  refine List.Perm.eq_of_pairwise ?_ hordered hordered' h
  intro event later hevent hlater hle hge
  have hnodup : (events'.map CorrelatedEvent.timestamp).Nodup :=
    List.pairwise_map.mpr (hincreasing.imp ne_of_lt)
  exact List.inj_on_of_nodup_map hnodup (h.mem_iff.mp hevent) hlater (le_antisymm hle hge)

theorem reloaded_events_deduplicated (U : Unicode)
    (hupper : ∀ c, c.toNat < 128 → U.upper c = [c.toUpper]) (sha256 : Str → Str)
    (calls : List Ingestion) (e : Engine) (es : List CorrelatedEvent)
    (hrun : exec ingestStep {} calls = some (e, es)) (rows : List EventRow)
    (hrows : OrderedByTimestamp (persistEvents sha256 e []).2 rows) :
    (∀ artifact, ((reload U rows).stored artifact).Perm
      ((firstPerKey (dedupKey sha256) [] e.allEvents).filter
        fun event => event.artifactId = artifact)) ∧
    ((e.allEvents.map (dedupKey sha256)).Nodup → ∀ artifact,
      ((reload U rows).stored artifact).Perm (e.stored artifact) ∧
      ∀ narrate org,
        Option.Rel SameScore ((reload U rows).killChain narrate artifact org).1
          (e.killChain narrate artifact org).1 ∧
        ((e.stored artifact).Pairwise (fun event later => event.timestamp < later.timestamp) →
          ((reload U rows).killChain narrate artifact org).1 =
            (e.killChain narrate artifact org).1)) := by
  have hfiled := filed_exec hrun
  have hloaded : (rows.map (rowEvent U)).Perm (firstPerKey (dedupKey sha256) [] e.allEvents) := by
    have hperm := hrows.perm.map (rowEvent U)
    rw [persistEvents, persist_fold, List.nil_append, List.map_map] at hperm
    have hid : rowEvent U ∘ eventRow sha256 = id := funext (rowEvent_eventRow hupper)
    rwa [hid, List.map_id] at hperm
  have hload : ∀ artifact, (reload U rows).stored artifact =
      (rows.map (rowEvent U)).filter fun event => event.artifactId = artifact :=
    stored_loadAll {} (rows.map (rowEvent U))
  have hstored : ∀ artifact, ((reload U rows).stored artifact).Perm
      ((firstPerKey (dedupKey sha256) [] e.allEvents).filter
        fun event => event.artifactId = artifact) := by
    intro artifact
    rw [hload]
    exact hloaded.filter _
  refine ⟨hstored, ?_⟩
  intro hkeys artifact
  have hsame := hstored artifact
  rw [firstPerKey_of_nodup hkeys (by simp), allEvents_filter hfiled artifact] at hsame
  refine ⟨hsame, ?_⟩
  intro narrate org
  rw [killChain_of_uncached hfiled.uncached, killChain_of_uncached (e := reload U rows) rfl]
  refine ⟨scopedTimeline_perm hsame, ?_⟩
  intro hincreasing
  have hordered : ((reload U rows).stored artifact).Pairwise
      fun event later => event.timestamp ≤ later.timestamp := by
    rw [hload]
    exact (hrows.ordered.map (rowEvent U) fun _ _ hle => hle).filter _
  rw [eq_of_increasing hsame hordered hincreasing]

def secondRule : CorrelatedEvent :=
  { finding tenantOne lodash .critical with ruleId := "L3-NET-001".toList }

def lookup : CorrelatedEvent :=
  { finding tenantOne lodash .high with layer := "sandbox_l4".toList, ruleId := "L4-DNS-001".toList }

def fileRead : CorrelatedEvent :=
  { lookup with ruleId := "L4-FILE-001".toList, timestamp := "2026-06-03T12:00:02+00:00".toList }

def similarName : CorrelatedEvent :=
  { finding tenantOne lodash .high with
    ruleId := "L2-TYPO-001".toList, timestamp := "2026-06-03T12:00:01+00:00".toList }

def digests : Dict Str String :=
  [(dedupText secondRule, "db3e2f747f00b7665b21cd858619899abb7c14022fa6c82b29b3a6c790b3a3bf"),
   (dedupText lookup, "36b478ee8692cb25f48ea0e56d7d787b76cde5f19acdb0383ef58510c4346cad"),
   (dedupText fileRead, "677486ce2aceaedc7746b76037c4c0070a8b7936bf1f1ae9ece20a793bac6019"),
   (dedupText similarName, "d73eec7db9dc97abbc076b48cf586d8af98cdd577dfde572cd24a09916a15eca"),
   (dedupText (finding tenantOne lodash .low),
    "51208678d447fc257d1c34c1a3eaa78c914ee59d642b24b4f9a2ed505685b7a3")]

-- The digests of the texts that the runs below hash.
def recordedSha256 (text : Str) : Str := ((digests.get? text).getD "").toList

def persistedRows (e : Engine) : List EventRow := (persistEvents recordedSha256 e []).2

def distinctCalls : List Ingestion :=
  [.ingest 100 (finding tenantOne lodash .low), .ingest 200 secondRule]

theorem reloaded_events_deduplicated_two_rules :
    ∃ e es, exec ingestStep {} distinctCalls = some (e, es) ∧
      ((reload .basic (persistedRows e)).stored lodash).Perm (e.stored lodash) ∧
      Option.Rel SameScore ((reload .basic (persistedRows e)).killChain silent lodash tenantOne).1
        (e.killChain silent lodash tenantOne).1 := by
  refine ⟨_, _, rfl, ?_⟩
  have hkeys := (reloaded_events_deduplicated .basic upper_basic_ascii recordedSha256
    distinctCalls _ _ rfl _ ⟨List.Perm.refl _, by decide +kernel⟩).2 (by decide +kernel) lodash
  exact ⟨hkeys.1, (hkeys.2 silent tenantOne).1⟩

def sameKeyCalls : List Ingestion :=
  [.ingest 100 (finding tenantOne lodash .low), .ingest 200 (finding tenantOne lodash .critical)]

-- The last two are ingested against the order of their timestamps.
def lateCalls : List Ingestion := [.ingest 100 lookup, .ingest 200 fileRead, .ingest 300 similarName]

def byTimestamp (table : List EventRow) : List EventRow :=
  table.insertionSort fun row row' => row.timestamp ≤ row'.timestamp

theorem reload_changes_events_and_score :
    (∃ e es, exec ingestStep {} sameKeyCalls = some (e, es) ∧
      OrderedByTimestamp (persistedRows e) (persistedRows e) ∧
      (e.stored lodash).length = 2 ∧
      ((reload .basic (persistedRows e)).stored lodash).length = 1 ∧
      (e.killChain silent lodash tenantOne).1.map (·.severity) = some .critical ∧
      ((reload .basic (persistedRows e)).killChain silent lodash tenantOne).1.map
        (·.severity) = some .low) ∧
    ∃ e es, exec ingestStep {} lateCalls = some (e, es) ∧
      (e.allEvents.map (dedupKey recordedSha256)).Nodup ∧
      OrderedByTimestamp (persistedRows e) (byTimestamp (persistedRows e)) ∧
      (e.killChain silent lodash tenantOne).1.map (·.chainScore) = some (Double.round (7 / 10)) ∧
      ((reload .basic (byTimestamp (persistedRows e))).killChain silent lodash tenantOne).1.map
        (·.chainScore) = some (Double.round (6999999999999998 / 10000000000000000)) := by
  refine ⟨⟨_, _, rfl, ⟨List.Perm.refl _, by decide +kernel⟩, by decide +kernel, by decide +kernel,
    by decide +kernel, by decide +kernel⟩, _, _, rfl, by decide +kernel, ⟨List.perm_insertionSort _ _,
    by decide +kernel⟩, by decide +kernel, by decide +kernel⟩

end PicoSentry.Serve.Correlation
