import PicoSentry.Serve.CorrelationCache

namespace PicoSentry.Serve.Correlation

open Foundation
open Foundation.Run

inductive Ingestion where
  | ingest (now : Int) (event : CorrelatedEvent)
  | ingestMany (now : Int) (events : List CorrelatedEvent)

namespace Ingestion

def events : Ingestion → List CorrelatedEvent
  | .ingest _ event => [event]
  | .ingestMany _ events => events

def without (org : Str) : Ingestion → List Ingestion
  | .ingest now event => if event.orgId = some org then [] else [.ingest now event]
  | .ingestMany now events => [.ingestMany now (events.filter fun event => event.orgId ≠ some org)]

end Ingestion

def ingestStep (e : Engine) : Ingestion → Option (Engine × List CorrelatedEvent)
  | .ingest now event => some (e.ingest now event, [event])
  | .ingestMany now events => some (e.ingestMany now events, events)

namespace Engine

def AppendKeeps (org : Option Str) (e : Engine) (event : CorrelatedEvent) : Prop :=
  ∀ old ∈ e.trimmed event.artifactId, visibleTo org old = false

def AppendsKeep (org : Option Str) : Engine → List CorrelatedEvent → Prop
  | _, [] => True
  | e, event :: events => e.AppendKeeps org event ∧ AppendsKeep org (e.appendPop event) events

def EvictionKeeps (org : Option Str) (e : Engine) : Prop :=
  ∀ artifact ∈ e.evicted, ∀ old ∈ e.stored artifact, visibleTo org old = false

instance (org : Option Str) (e : Engine) (event : CorrelatedEvent) :
    Decidable (e.AppendKeeps org event) :=
  inferInstanceAs (Decidable (∀ old ∈ e.trimmed event.artifactId, _))

instance decidableAppendsKeep (org : Option Str) : ∀ (e : Engine) (events : List CorrelatedEvent),
    Decidable (e.AppendsKeep org events)
  | _, [] => isTrue trivial
  | e, event :: events =>
    have := decidableAppendsKeep org (e.appendPop event) events
    inferInstanceAs (Decidable (_ ∧ _))

instance (org : Option Str) (e : Engine) : Decidable (e.EvictionKeeps org) :=
  inferInstanceAs (Decidable (∀ artifact ∈ e.evicted, _))

end Engine

def Keeps (org : Option Str) (e : Engine) : Ingestion → Prop
  | .ingest now event =>
    let r := e.allowedByBackpressure now 1
    r.1 = 1 ∧ r.2.AppendKeeps org event ∧ (r.2.append event).EvictionKeeps org
  | .ingestMany now events =>
    let r := e.allowedByBackpressure now events.length
    r.1 = events.length ∧ (events ≠ [] → r.2.AppendsKeep org events ∧
      (events.foldl Engine.appendPop r.2).EvictionKeeps org)

instance decidableKeeps (org : Option Str) (e : Engine) : ∀ call, Decidable (Keeps org e call)
  | .ingest _ _ => inferInstanceAs (Decidable (_ ∧ _ ∧ _))
  | .ingestMany _ _ => inferInstanceAs (Decidable (_ ∧ (_ → _ ∧ _)))

section Retention

variable {org : Option Str} {e : Engine} {past : List CorrelatedEvent}

structure Retains (org : Option Str) (past : List CorrelatedEvent) (e : Engine) : Prop where
  visible : ∀ artifact, scopedEvents org (e.stored artifact) =
    scopedEvents org (past.filter fun event => event.artifactId = artifact)
  uncached : e.chains = []

theorem scopedEvents_append (events events' : List CorrelatedEvent) :
    scopedEvents org (events ++ events') = scopedEvents org events ++ scopedEvents org events' :=
  List.filter_append ..

theorem scopedEvents_eq_nil {events : List CorrelatedEvent} :
    scopedEvents org events = [] ↔ ∀ old ∈ events, visibleTo org old = false := by
  rw [scopedEvents, List.filter_eq_nil_iff]
  simp

theorem scopedEvents_drop {n : Nat} {events : List CorrelatedEvent}
    (h : ∀ old ∈ events.take n, visibleTo org old = false) :
    scopedEvents org (events.drop n) = scopedEvents org events := by
  have hsplit := congrArg (scopedEvents org) (List.take_append_drop n events)
  rw [scopedEvents_append, scopedEvents_eq_nil.mpr h, List.nil_append] at hsplit
  exact hsplit

theorem retains_allowed (hr : Retains org past e) (now : Int) (count : Nat) :
    Retains org past (e.allowedByBackpressure now count).2 := by
  refine ⟨?_, by simpa using hr.uncached⟩
  intro artifact
  rw [Engine.stored_allowed]
  exact hr.visible artifact

theorem retains_append (hr : Retains org past e) {event : CorrelatedEvent}
    (h : e.AppendKeeps org event) : Retains org (past ++ [event]) (e.append event) := by
  refine ⟨?_, hr.uncached⟩
  intro artifact
  rw [Engine.stored_append, List.filter_append, scopedEvents_append, ← hr.visible artifact]
  split
  · next hart =>
    subst hart
    rw [lastEvents_concat, scopedEvents_append, scopedEvents_drop h]
    simp
  · next hart => simp [hart, scopedEvents]

theorem retains_popChain (hr : Retains org past e) (key : ChainKey) :
    Retains org past (e.popChain key) := by
  refine ⟨hr.visible, ?_⟩
  rw [Engine.popChain, hr.uncached]
  rfl

theorem retains_appends (hr : Retains org past e) {events : List CorrelatedEvent}
    (h : e.AppendsKeep org events) :
    Retains org (past ++ events) (events.foldl Engine.appendPop e) := by
  induction events generalizing e past with
  | nil => simpa using hr
  | cons event events ih =>
    have hnext := ih (retains_popChain (retains_append hr h.1) _) h.2
    rwa [List.append_assoc] at hnext

theorem retains_evictAll {artifacts : List Str} (hr : Retains org past e)
    (h : ∀ artifact ∈ artifacts, ∀ old ∈ e.stored artifact, visibleTo org old = false) :
    Retains org past (artifacts.foldl Engine.evict e) := by
  induction artifacts generalizing e with
  | nil => exact hr
  | cons artifact artifacts ih =>
    refine ih ⟨?_, ?_⟩ ?_
    · intro artifact'
      rw [Engine.stored_evict, ← hr.visible artifact']
      split
      · next hsame =>
        subst hsame
        exact (scopedEvents_eq_nil.mpr (h artifact (by simp))).symm
      · rfl
    · rw [Engine.evict, hr.uncached]
      rfl
    · intro artifact' hmem old hold
      rw [Engine.stored_evict] at hold
      split at hold
      · cases hold
      · exact h artifact' (by simp [hmem]) old hold

theorem retains_step (past : List CorrelatedEvent) (e : Engine) (call : Ingestion) (e' : Engine)
    (es : List CorrelatedEvent) (hr : Retains org past e) (h : Keeps org e call)
    (hstep : ingestStep e call = some (e', es)) : Retains org (past ++ es) e' := by
  cases call with
  | ingest now event =>
    cases hstep
    obtain ⟨hall,happend,hevict⟩ := h
    rw [Engine.ingest, if_neg (by rw [hall]; decide)]
    exact retains_popChain
      (retains_evictAll (retains_append (retains_allowed hr now 1) happend) hevict) _
  | ingestMany now events =>
    cases hstep
    obtain ⟨hall,hkeeps⟩ := h
    have hr' := retains_allowed hr now es.length
    rw [Engine.ingestMany]
    split
    · next hzero =>
      have hnil : es = [] := List.length_eq_zero_iff.mp (hall.symm.trans hzero)
      subst hnil
      rw [List.append_nil]
      exact ⟨hr'.visible, hr'.uncached⟩
    · next hzero =>
      have hne : es ≠ [] := by
        rintro rfl
        exact hzero hall
      obtain ⟨happend,hevict⟩ := hkeeps hne
      rw [hall, List.take_length]
      have hend := retains_evictAll (retains_appends hr' happend) hevict
      exact ⟨hend.visible, hend.uncached⟩

theorem killChain_of_uncached {narrate : Narrator} (h : e.chains = []) {artifact : Str} :
    (e.killChain narrate artifact org).1 =
      Engine.scopedTimeline narrate org artifact (e.stored artifact) := by
  rw [Engine.killChain, h]
  dsimp only [Dict.get?]
  split
  · next hnone => exact hnone.symm
  · next hsome => exact hsome.symm

theorem ingested_events {e e' : Engine} {calls : List Ingestion} {es : List CorrelatedEvent}
    (h : exec ingestStep e calls = some (e', es)) : es = calls.flatMap Ingestion.events := by
  induction calls generalizing e es with
  | nil => cases h; rfl
  | cons call calls ih =>
    obtain ⟨s',es₁,es₂,hs,hr,rfl⟩ := exec_cons.mp h
    rw [List.flatMap_cons, ih hr]
    cases call with
    | ingest now event => cases hs; rfl
    | ingestMany now events => cases hs; rfl

theorem events_without (other : Str) (calls : List Ingestion) :
    (calls.flatMap (Ingestion.without other)).flatMap Ingestion.events =
      (calls.flatMap Ingestion.events).filter fun event => event.orgId ≠ some other := by
  induction calls with
  | nil => rfl
  | cons call calls ih =>
    rw [List.flatMap_cons, List.flatMap_append, ih, List.flatMap_cons, List.filter_append]
    congr 1
    cases call with
    | ingest now event =>
      rw [Ingestion.without, Ingestion.events]
      split
      · next h => simp [h]
      · next h => simp [h, Ingestion.events]
    | ingestMany now events => simp [Ingestion.without, Ingestion.events]

theorem scopedEvents_without {other : Str} (hne : org ≠ some other)
    (events : List CorrelatedEvent) :
    scopedEvents org (events.filter fun event => event.orgId ≠ some other) =
      scopedEvents org events := by
  rw [scopedEvents, scopedEvents, List.filter_filter]
  refine List.filter_congr ?_
  intro event _
  by_cases h : event.orgId = some other
  · simp [visibleTo, h, Ne.symm hne]
  · simp [h]

end Retention

theorem tenant_chain_unaffected (narrate : Narrator) (calls : List Ingestion) (other : Str)
    (org : Option Str) (hne : org ≠ some other) (e e' : Engine) (es es' : List CorrelatedEvent)
    (hrun : exec ingestStep {} calls = some (e, es))
    (hrun' : exec ingestStep {} (calls.flatMap (Ingestion.without other)) = some (e', es'))
    (hkeeps : Meets ingestStep (Keeps org) {} calls)
    (hkeeps' : Meets ingestStep (Keeps org) {} (calls.flatMap (Ingestion.without other)))
    (artifact : Str) :
    (e.killChain narrate artifact org).1 = (e'.killChain narrate artifact org).1 := by
  have hinit : Retains org [] ({} : Engine) := ⟨fun _ => rfl, rfl⟩
  have hr := exec_invariant retains_step [] hinit hkeeps hrun
  have hr' := exec_invariant retains_step [] hinit hkeeps' hrun'
  have hsame : scopedEvents org (e.stored artifact) = scopedEvents org (e'.stored artifact) := by
    rw [hr.visible, hr'.visible, ingested_events hrun, ingested_events hrun', events_without,
      List.nil_append, List.nil_append, List.filter_comm]
    exact (scopedEvents_without hne _).symm
  rw [killChain_of_uncached hr.uncached, killChain_of_uncached hr'.uncached,
    scopedTimeline_congr hsame]

def sharedArtifactCalls : List Ingestion :=
  [.ingest 100 (finding tenantOne lodash .low),
   .ingestMany 200 [finding tenantTwo lodash .critical, finding none lodash .high]]

theorem tenant_chain_unaffected_shared_artifact :
    ∃ e e' es es', exec ingestStep {} sharedArtifactCalls = some (e, es) ∧
      exec ingestStep {} (sharedArtifactCalls.flatMap (Ingestion.without "2".toList)) =
        some (e', es') ∧
      (e.killChain silent lodash tenantOne).1.isSome ∧
      (e.killChain silent lodash tenantOne).1 = (e'.killChain silent lodash tenantOne).1 := by
  refine ⟨_, _, _, _, rfl, rfl, by decide +kernel, ?_⟩
  exact tenant_chain_unaffected silent sharedArtifactCalls "2".toList tenantOne (by decide)
    _ _ _ _ rfl rfl (by decide +kernel) (by decide +kernel) lodash

section Flood

theorem length_lastEvents (events : List CorrelatedEvent) :
    (Engine.lastEvents events).length ≤ maxEventsPerArtifact := by
  rw [Engine.lastEvents, List.length_drop]
  omega

theorem lastEvents_of_le {events : List CorrelatedEvent}
    (h : events.length ≤ maxEventsPerArtifact) : Engine.lastEvents events = events := by
  rw [Engine.lastEvents, Nat.sub_eq_zero_of_le h, List.drop_zero]

theorem lastEvents_lastEvents_append (events events' : List CorrelatedEvent) :
    Engine.lastEvents (Engine.lastEvents events ++ events') =
      Engine.lastEvents (events ++ events') := by
  rcases le_total events.length maxEventsPerArtifact with h | h
  · rw [lastEvents_of_le h]
  · have hdrop : Engine.lastEvents events ++ events' =
        (events ++ events').drop (events.length - maxEventsPerArtifact) := by
      rw [Engine.lastEvents, List.drop_append_of_le_length (by omega)]
    have hcount : events.length - maxEventsPerArtifact + ((events ++ events').length -
        (events.length - maxEventsPerArtifact) - maxEventsPerArtifact) =
        (events ++ events').length - maxEventsPerArtifact := by
      rw [List.length_append]
      omega
    rw [hdrop, Engine.lastEvents, Engine.lastEvents, List.drop_drop, List.length_drop, hcount]

variable {e : Engine} {artifact : Str} {events : List CorrelatedEvent}

theorem stored_appendPops (hlen : (e.stored artifact).length ≤ maxEventsPerArtifact)
    (h : ∀ event ∈ events, event.artifactId = artifact) :
    (events.foldl Engine.appendPop e).stored artifact =
      Engine.lastEvents (e.stored artifact ++ events) := by
  induction events generalizing e with
  | nil => rw [List.append_nil, lastEvents_of_le hlen, List.foldl_nil]
  | cons event events ih =>
    have hstored : (e.appendPop event).stored artifact =
        Engine.lastEvents (e.stored artifact ++ [event]) := by
      rw [Engine.appendPop, Engine.stored_popChain, Engine.stored_append,
        if_pos (h event (by simp))]
    have hnext := ih (e := e.appendPop event) (by rw [hstored]; exact length_lastEvents _)
      fun event' hmem => h event' (by simp [hmem])
    rw [List.foldl_cons, hnext, hstored, lastEvents_lastEvents_append, List.append_assoc,
      List.singleton_append]

theorem keys_appendPops (h : ∀ event ∈ events, event.artifactId ∈ e.events.keys) :
    (events.foldl Engine.appendPop e).events.keys = e.events.keys := by
  induction events generalizing e with
  | nil => rfl
  | cons event events ih =>
    have hkeys : (e.appendPop event).events.keys = e.events.keys := by
      rw [Engine.appendPop, Engine.popChain, Engine.append, Dict.keys_set, if_pos (h event (by simp))]
    rw [List.foldl_cons, ih ?_, hkeys]
    intro event' hmem
    rw [hkeys]
    exact h event' (by simp [hmem])

theorem evictOldest_of_le (h : e.events.keys.length ≤ maxArtifacts) : e.evictOldest = e := by
  rw [Dict.keys, List.length_map] at h
  rw [Engine.evictOldest, Engine.evicted, if_neg (not_lt.mpr h), List.foldl_nil]

theorem stored_ingestMany {now : Int}
    (hall : (e.allowedByBackpressure now events.length).1 = events.length) (hne : events ≠ [])
    (hkeys : e.events.keys.length ≤ maxArtifacts) (hmem : artifact ∈ e.events.keys)
    (hlen : (e.stored artifact).length ≤ maxEventsPerArtifact)
    (hart : ∀ event ∈ events, event.artifactId = artifact) :
    (e.ingestMany now events).stored artifact =
      Engine.lastEvents (e.stored artifact ++ events) := by
  have hin : ∀ event ∈ events,
      event.artifactId ∈ (e.allowedByBackpressure now events.length).2.events.keys := by
    intro event hevent
    rw [Engine.events_allowed, hart event hevent]
    exact hmem
  have hlen' : ((e.allowedByBackpressure now events.length).2.stored artifact).length ≤
      maxEventsPerArtifact := by
    rw [Engine.stored_allowed]
    exact hlen
  have hstored := stored_appendPops hlen' hart
  rw [Engine.stored_allowed] at hstored
  have hsame := keys_appendPops hin
  rw [Engine.events_allowed] at hsame
  have hzero : events.length ≠ 0 := by simpa using hne
  rw [Engine.ingestMany, hall, if_neg hzero, List.take_length,
    evictOldest_of_le (by rw [hsame]; exact hkeys)]
  exact hstored

end Flood

def critical : CorrelatedEvent := finding tenantOne lodash .critical

def flood : List CorrelatedEvent := List.replicate 1000 (finding tenantTwo lodash .info)

def floodingCalls : List Ingestion := [.ingest 100 critical, .ingestMany 200 flood]

theorem stored_after_flood :
    ((({} : Engine).ingest 100 critical).ingestMany 200 flood).stored lodash = flood := by
  have hstored : (({} : Engine).ingest 100 critical).stored lodash = [critical] := by
    decide +kernel
  have hart : ∀ event ∈ flood, event.artifactId = lodash := by
    intro event hmem
    rw [List.eq_of_mem_replicate hmem]
    rfl
  have hlength : flood.length = 1000 := List.length_replicate
  have hne : flood ≠ [] := List.ne_nil_of_length_pos (by rw [hlength]; decide)
  rw [stored_ingestMany (by decide +kernel) hne (by decide +kernel) (by decide +kernel)
    (by decide +kernel) hart, hstored, Engine.lastEvents, List.length_append, hlength]
  rfl

theorem flood_of_another_tenant_hides_chain :
    ∃ e e' es es', exec ingestStep {} floodingCalls = some (e, es) ∧
      exec ingestStep {} (floodingCalls.flatMap (Ingestion.without "2".toList)) =
        some (e', es') ∧
      (e.killChain silent lodash tenantOne).1 = none ∧
      (e'.killChain silent lodash tenantOne).1.map (·.severity) = some .critical := by
  refine ⟨_, _, _, _, rfl, rfl, ?_, by decide +kernel⟩
  have hchains : ((({} : Engine).ingest 100 critical).ingestMany 200 flood).chains = [] := by
    decide +kernel
  have hhidden : scopedEvents tenantOne flood = [] := by
    rw [scopedEvents_eq_nil]
    intro event hmem
    rw [List.eq_of_mem_replicate hmem]
    decide
  rw [killChain_of_uncached hchains, stored_after_flood, Engine.scopedTimeline, hhidden]

end PicoSentry.Serve.Correlation
