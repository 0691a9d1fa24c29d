import PicoSentry.Foundation.Run
import PicoSentry.Serve.Correlation

namespace PicoSentry.Serve.Correlation

open Foundation
open Foundation.Run

namespace Engine

section Stored

variable (e : Engine)

theorem stored_append (event : CorrelatedEvent) (artifact : Str) :
    (e.append event).stored artifact = if event.artifactId = artifact then
      lastEvents (e.stored artifact ++ [event]) else e.stored artifact := by
  simp only [append, stored, Dict.get?_set]
  split
  · next h => rw [h, Option.getD_some]
  · rfl

theorem stored_evict (artifact artifact' : Str) :
    (e.evict artifact).stored artifact' =
      if artifact = artifact' then [] else e.stored artifact' := by
  simp only [evict, stored, Dict.get?_erase]
  split
  · rfl
  · rfl

@[simp] theorem stored_popChain (key : ChainKey) (artifact : Str) :
    (e.popChain key).stored artifact = e.stored artifact := rfl

@[simp] theorem stored_allowed (now : Int) (count : Nat) (artifact : Str) :
    (e.allowedByBackpressure now count).2.stored artifact = e.stored artifact := by
  rw [allowedByBackpressure]
  split <;> rfl

@[simp] theorem events_allowed (now : Int) (count : Nat) :
    (e.allowedByBackpressure now count).2.events = e.events := by
  rw [allowedByBackpressure]
  split <;> rfl

@[simp] theorem chains_allowed (now : Int) (count : Nat) :
    (e.allowedByBackpressure now count).2.chains = e.chains := by
  rw [allowedByBackpressure]
  split <;> rfl

end Stored

def firstOrg (e : Engine) (artifact : Str) : Option Str :=
  (e.stored artifact).head?.bind CorrelatedEvent.orgId

def trimmed (e : Engine) (artifact : Str) : List CorrelatedEvent :=
  (e.stored artifact).take ((e.stored artifact).length + 1 - maxEventsPerArtifact)

def AppendInvalidates (e : Engine) (event : CorrelatedEvent) : Prop :=
  ∀ key ∈ e.chains.keys, key.2 = event.artifactId → key.1 ≠ event.orgId →
    event.orgId ≠ none ∧ ∀ old ∈ e.trimmed event.artifactId, visibleTo key.1 old = false

def EvictionInvalidates (e : Engine) (popped : Option ChainKey) : Prop :=
  ∀ artifact ∈ e.evicted, ∀ key ∈ e.chains.keys, key.2 = artifact → popped ≠ some key →
    key.1 = e.firstOrg artifact

def AppendsInvalidate : Engine → List CorrelatedEvent → Prop
  | _, [] => True
  | e, event :: events => e.AppendInvalidates event ∧ AppendsInvalidate (e.appendPop event) events

instance (e : Engine) (event : CorrelatedEvent) : Decidable (e.AppendInvalidates event) :=
  inferInstanceAs (Decidable (∀ key ∈ e.chains.keys, _))

instance (e : Engine) (popped : Option ChainKey) : Decidable (e.EvictionInvalidates popped) :=
  inferInstanceAs (Decidable (∀ artifact ∈ e.evicted, _))

instance decidableAppends : ∀ (e : Engine) (events : List CorrelatedEvent),
    Decidable (e.AppendsInvalidate events)
  | _, [] => isTrue trivial
  | e, event :: events =>
    have := decidableAppends (e.appendPop event) events
    inferInstanceAs (Decidable (_ ∧ _))

end Engine

inductive Op where
  | ingest (now : Int) (event : CorrelatedEvent)
  | ingestMany (now : Int) (events : List CorrelatedEvent)
  | killChain (artifact : Str) (org : Option Str)
  | allChains (org : Option Str)
  | clear
  | loadEvents (events : List CorrelatedEvent)

inductive Answer where
  | chain (artifact : Str) (org : Option Str) (timeline : Option KillChainTimeline)
  | chains (org : Option Str) (timelines : List KillChainTimeline)

def step (narrate : Narrator) (e : Engine) : Op → Option (Engine × List Answer)
  | .ingest now event => some (e.ingest now event, [])
  | .ingestMany now events => some (e.ingestMany now events, [])
  | .killChain artifact org =>
    let r := e.killChain narrate artifact org
    some (r.2, [.chain artifact org r.1])
  | .allChains org =>
    let r := e.allChains narrate org
    some (r.2, [.chains org r.1])
  | .clear => some (e.clear, [])
  | .loadEvents events => some (e.loadEvents events, [])

def Invalidates (e : Engine) : Op → Prop
  | .ingest now event =>
    let r := e.allowedByBackpressure now 1
    r.1 ≠ 0 → r.2.AppendInvalidates event ∧
      (r.2.append event).EvictionInvalidates (some (event.orgId, event.artifactId))
  | .ingestMany now events =>
    let r := e.allowedByBackpressure now events.length
    r.1 ≠ 0 → r.2.AppendsInvalidate (events.take r.1) ∧
      ((events.take r.1).foldl Engine.appendPop r.2).EvictionInvalidates none
  | _ => True

instance decidableInvalidates (e : Engine) : ∀ op, Decidable (Invalidates e op)
  | .ingest _ _ => inferInstanceAs (Decidable (_ ≠ _ → _ ∧ _))
  | .ingestMany _ _ => inferInstanceAs (Decidable (_ ≠ _ → _ ∧ _))
  | .killChain _ _ => isTrue trivial
  | .allChains _ => isTrue trivial
  | .clear => isTrue trivial
  | .loadEvents _ => isTrue trivial

section Coherence

variable {narrate : Narrator} {e e' : Engine} {popped : Option ChainKey}

structure Coherent (narrate : Narrator) (popped : Option ChainKey) (e : Engine) : Prop where
  artifacts : e.events.keys.Nodup
  chains : ∀ org artifact timeline, popped ≠ some (org, artifact) →
    e.chains.get? (org, artifact) = some timeline →
    Engine.scopedTimeline narrate org artifact (e.stored artifact) = some timeline

theorem scopedTimeline_congr {org : Option Str} {artifact : Str}
    {events events' : List CorrelatedEvent}
    (h : scopedEvents org events = scopedEvents org events') :
    Engine.scopedTimeline narrate org artifact events =
      Engine.scopedTimeline narrate org artifact events' := by
  rw [Engine.scopedTimeline, Engine.scopedTimeline, h]

theorem scopedTimeline_artifactId {org : Option Str} {artifact : Str}
    {events : List CorrelatedEvent} {timeline : KillChainTimeline}
    (h : Engine.scopedTimeline narrate org artifact events = some timeline) :
    timeline.artifactId = artifact := by
  rw [Engine.scopedTimeline] at h
  split at h
  · cases h
  · cases h
    rfl

theorem Coherent.congr {popped' : Option ChainKey} (hc : Coherent narrate popped e)
    (hkeys : e'.events.keys.Nodup)
    (hsub : ∀ key timeline, popped' ≠ some key → e'.chains.get? key = some timeline →
      popped ≠ some key ∧ e.chains.get? key = some timeline ∧
        scopedEvents key.1 (e'.stored key.2) = scopedEvents key.1 (e.stored key.2)) :
    Coherent narrate popped' e' := by
  refine ⟨hkeys, ?_⟩
  intro org artifact timeline hne hget
  obtain ⟨hne',hget',hsame⟩ := hsub (org, artifact) timeline hne hget
  rw [scopedTimeline_congr hsame]
  exact hc.chains org artifact timeline hne' hget'

theorem lastEvents_concat (events : List CorrelatedEvent) (event : CorrelatedEvent) :
    Engine.lastEvents (events ++ [event]) =
      events.drop (events.length + 1 - maxEventsPerArtifact) ++ [event] := by
  rw [Engine.lastEvents, List.length_append, List.length_singleton, List.drop_append_of_le_length]
  rw [maxEventsPerArtifact]
  omega

theorem scopedEvents_lastEvents {org : Option Str} {events : List CorrelatedEvent}
    {event : CorrelatedEvent} (hnew : visibleTo org event = false)
    (hold : ∀ old ∈ events.take (events.length + 1 - maxEventsPerArtifact),
      visibleTo org old = false) :
    scopedEvents org (Engine.lastEvents (events ++ [event])) = scopedEvents org events := by
  have hsplit := List.take_append_drop (events.length + 1 - maxEventsPerArtifact) events
  have htake : scopedEvents org (events.take (events.length + 1 - maxEventsPerArtifact)) = [] := by
    rw [scopedEvents, List.filter_eq_nil_iff]
    intro old hmem
    simp [hold old hmem]
  have hsame := congrArg (scopedEvents org) hsplit
  simp only [scopedEvents] at htake hsame ⊢
  rw [List.filter_append, htake, List.nil_append] at hsame
  rw [lastEvents_concat, List.filter_append, hsame,
    List.filter_cons_of_neg (by simp [hnew]), List.filter_nil, List.append_nil]

theorem coherent_append (hc : Coherent narrate none e) {event : CorrelatedEvent}
    (h : e.AppendInvalidates event) :
    Coherent narrate (some (event.orgId, event.artifactId)) (e.append event) := by
  refine hc.congr (Dict.keys_set_nodup hc.artifacts _ _) ?_
  rintro ⟨org,artifact⟩ timeline hne hget
  refine ⟨by simp, hget, ?_⟩
  rw [Engine.stored_append]
  split
  · next hart =>
    subst hart
    have horg : org ≠ event.orgId := by
      rintro rfl
      exact hne rfl
    obtain ⟨hglobal,hold⟩ := h (org, event.artifactId) (Dict.mem_keys_of_get? hget) rfl horg
    have hnew : visibleTo org event = false := by
      simp [visibleTo, hglobal, Ne.symm horg]
    exact scopedEvents_lastEvents hnew hold
  · rfl

theorem coherent_popChain {key : ChainKey} (hc : Coherent narrate (some key) e) :
    Coherent narrate none (e.popChain key) := by
  refine hc.congr hc.artifacts ?_
  intro key' timeline _ hget
  rw [Engine.popChain, Dict.get?_erase] at hget
  split at hget
  · cases hget
  · next hne =>
    refine ⟨?_, hget, rfl⟩
    rintro heq
    exact hne (Option.some.inj heq)

theorem coherent_appendPop (hc : Coherent narrate none e) {event : CorrelatedEvent}
    (h : e.AppendInvalidates event) : Coherent narrate none (e.appendPop event) :=
  coherent_popChain (coherent_append hc h)

theorem coherent_appends (hc : Coherent narrate none e) {events : List CorrelatedEvent}
    (h : e.AppendsInvalidate events) : Coherent narrate none (events.foldl Engine.appendPop e) := by
  induction events generalizing e with
  | nil => exact hc
  | cons event events ih =>
    rw [List.foldl_cons]
    exact ih (coherent_appendPop hc h.1) h.2

theorem coherent_evict (hc : Coherent narrate popped e) {artifact : Str}
    (h : ∀ key ∈ e.chains.keys, key.2 = artifact → popped ≠ some key →
      key.1 = e.firstOrg artifact) : Coherent narrate popped (e.evict artifact) := by
  refine hc.congr (Dict.keys_erase_nodup hc.artifacts _) ?_
  intro key timeline hne hget
  rw [Engine.evict, Dict.get?_erase] at hget
  split at hget
  · cases hget
  · next hkey =>
    refine ⟨hne, hget, ?_⟩
    rw [Engine.stored_evict]
    split
    · next hart =>
      have horg := h key (Dict.mem_keys_of_get? hget) hart.symm hne
      refine absurd ?_ hkey
      rw [← Engine.firstOrg, ← horg, hart]
    · rfl

theorem coherent_evictAll {artifacts : List Str} (hc : Coherent narrate popped e)
    (h : ∀ artifact ∈ artifacts, ∀ key ∈ e.chains.keys, key.2 = artifact → popped ≠ some key →
      key.1 = e.firstOrg artifact) :
    Coherent narrate popped (artifacts.foldl Engine.evict e) := by
  induction artifacts generalizing e with
  | nil => exact hc
  | cons artifact artifacts ih =>
    rw [List.foldl_cons]
    refine ih (coherent_evict hc (h artifact (by simp))) ?_
    intro artifact' hmem key hkey hart hne
    have hkey' : key ∈ e.chains.keys := (List.filter_sublist.map Prod.fst).subset hkey
    have horg := h artifact' (by simp [hmem]) key hkey' hart hne
    by_cases hsame : artifact = artifact'
    · subst hsame
      obtain ⟨entry,hentry,rfl⟩ := List.mem_map.mp hkey
      have hgone := (List.mem_filter.mp hentry).2
      rw [← Engine.firstOrg, ← horg, ← hart] at hgone
      simp at hgone
    · rw [horg, Engine.firstOrg, Engine.firstOrg, Engine.stored_evict, if_neg hsame]

theorem coherent_evictOldest (hc : Coherent narrate popped e) (h : e.EvictionInvalidates popped) :
    Coherent narrate popped e.evictOldest :=
  coherent_evictAll hc h

theorem coherent_allowed (hc : Coherent narrate none e) (now : Int) (count : Nat) :
    Coherent narrate none (e.allowedByBackpressure now count).2 := by
  refine hc.congr (by simpa using hc.artifacts) ?_
  intro key timeline _ hget
  rw [Engine.chains_allowed] at hget
  exact ⟨by simp, hget, by simp⟩

theorem coherent_killChain (hc : Coherent narrate none e) (artifact : Str) (org : Option Str) :
    (e.killChain narrate artifact org).1 =
        Engine.scopedTimeline narrate org artifact (e.stored artifact) ∧
      Coherent narrate none (e.killChain narrate artifact org).2 := by
  rw [Engine.killChain]
  split
  · next timeline hget =>
    exact ⟨(hc.chains org artifact timeline (by simp) hget).symm, hc⟩
  · split
    · next hnone => exact ⟨hnone.symm, hc⟩
    · next timeline hsome =>
      refine ⟨hsome.symm, hc.artifacts, ?_⟩
      intro org' artifact' timeline' _ hget
      rw [Dict.get?_set] at hget
      split at hget
      · next heq =>
        cases heq
        cases hget
        exact hsome
      · exact hc.chains org' artifact' timeline' (by simp) hget

theorem coherent_visitArtifact (hc : Coherent narrate none e) (org : Option Str)
    (acc : List KillChainTimeline) {entry : Str × List CorrelatedEvent}
    (hentry : e.stored entry.1 = entry.2) :
    (Engine.visitArtifact narrate org (acc, e) entry).1 =
        acc ++ (Engine.scopedTimeline narrate org entry.1 entry.2).toList ∧
      (Engine.visitArtifact narrate org (acc, e) entry).2.events = e.events ∧
      Coherent narrate none (Engine.visitArtifact narrate org (acc, e) entry).2 := by
  have hkill := coherent_killChain hc entry.1 org
  rw [Engine.killChain, hentry] at hkill
  rw [Engine.visitArtifact]
  cases hget : e.chains.get? (org, entry.1) with
  | some timeline =>
    rw [hget] at hkill
    exact ⟨by rw [← hkill.1]; rfl, rfl, hkill.2⟩
  | none =>
    rw [hget] at hkill
    cases hsome : Engine.scopedTimeline narrate org entry.1 entry.2 with
    | none => exact ⟨by simp, rfl, hc⟩
    | some timeline =>
      rw [hsome] at hkill
      exact ⟨rfl, rfl, hkill.2⟩

theorem coherent_visits (hc : Coherent narrate none e) (org : Option Str)
    (acc : List KillChainTimeline) {entries : List (Str × List CorrelatedEvent)}
    (hentries : ∀ entry ∈ entries, e.stored entry.1 = entry.2) :
    (entries.foldl (Engine.visitArtifact narrate org) (acc, e)).1 =
        acc ++ entries.filterMap (fun p => Engine.scopedTimeline narrate org p.1 p.2) ∧
      Coherent narrate none (entries.foldl (Engine.visitArtifact narrate org) (acc, e)).2 := by
  induction entries generalizing acc e with
  | nil => exact ⟨by simp, hc⟩
  | cons entry entries ih =>
    obtain ⟨hacc,hevents,hc'⟩ := coherent_visitArtifact hc org acc (hentries entry (by simp))
    have hrest : ∀ entry' ∈ entries,
        (Engine.visitArtifact narrate org (acc, e) entry).2.stored entry'.1 = entry'.2 := by
      intro entry' hmem
      rw [Engine.stored, hevents]
      exact hentries entry' (by simp [hmem])
    obtain ⟨hlist,hend⟩ := ih hc' (Engine.visitArtifact narrate org (acc, e) entry).1 hrest
    rw [List.foldl_cons]
    refine ⟨?_, hend⟩
    rw [hlist, hacc, List.filterMap_cons, List.append_assoc]
    cases Engine.scopedTimeline narrate org entry.1 entry.2 <;> rfl

theorem coherent_allChains (hc : Coherent narrate none e) (org : Option Str) (artifact : Str) :
    (e.allChains narrate org).1.filter (fun t => t.artifactId = artifact) =
        (Engine.scopedTimeline narrate org artifact (e.stored artifact)).toList ∧
      Coherent narrate none (e.allChains narrate org).2 := by
  have hentries : ∀ entry ∈ e.events, e.stored entry.1 = entry.2 := by
    intro entry hmem
    rw [Engine.stored, Dict.get?_of_mem hc.artifacts hmem, Option.getD_some]
  obtain ⟨hlist,hend⟩ := coherent_visits hc org [] hentries
  refine ⟨?_, hend⟩
  have hperm := (List.perm_insertionSort (fun a b : KillChainTimeline =>
    b.chainScore ≤ a.chainScore)
    (e.events.foldl (Engine.visitArtifact narrate org) ([], e)).1).filter
      (fun t => t.artifactId = artifact)
  have hfilter := Dict.filter_filterMap_key
    (f := fun k v => Engine.scopedTimeline narrate org k v) (g := KillChainTimeline.artifactId)
    (fun k v b h => scopedTimeline_artifactId h) hc.artifacts artifact
  rw [hlist, List.nil_append, hfilter] at hperm
  rw [Engine.allChains, hlist, List.nil_append]
  have hvalue : (e.events.get? artifact).bind (Engine.scopedTimeline narrate org artifact) =
      Engine.scopedTimeline narrate org artifact (e.stored artifact) := by
    rw [Engine.stored]
    cases e.events.get? artifact <;> rfl
  rw [hvalue] at hperm
  cases htl : Engine.scopedTimeline narrate org artifact (e.stored artifact) with
  | none =>
    rw [htl] at hperm
    exact hperm.eq_nil
  | some timeline =>
    rw [htl] at hperm
    exact hperm.eq_singleton

theorem coherent_ingest (hc : Coherent narrate none e) {now : Int} {event : CorrelatedEvent}
    (h : Invalidates e (.ingest now event)) : Coherent narrate none (e.ingest now event) := by
  have hallowed := coherent_allowed hc now 1
  rw [Engine.ingest]
  split
  · exact ⟨hallowed.artifacts, hallowed.chains⟩
  · next hne =>
    obtain ⟨happend,hevict⟩ := h hne
    exact coherent_popChain (coherent_evictOldest (coherent_append hallowed happend) hevict)

theorem coherent_ingestMany (hc : Coherent narrate none e) {now : Int}
    {events : List CorrelatedEvent} (h : Invalidates e (.ingestMany now events)) :
    Coherent narrate none (e.ingestMany now events) := by
  have hallowed := coherent_allowed hc now events.length
  rw [Engine.ingestMany]
  split
  · exact ⟨hallowed.artifacts, hallowed.chains⟩
  · next hne =>
    obtain ⟨happend,hevict⟩ := h hne
    have hend := coherent_evictOldest (coherent_appends hallowed happend) hevict
    exact ⟨hend.artifacts, hend.chains⟩

theorem keys_loadEvents (events : List CorrelatedEvent) (h : e.events.keys.Nodup) :
    (events.foldl Engine.loadEvent e).events.keys.Nodup := by
  induction events generalizing e with
  | nil => exact h
  | cons event events ih => exact ih (Dict.keys_set_nodup h _ _)

theorem coherent_step (_past : List Answer) (e : Engine) (op : Op) (e' : Engine)
    (es : List Answer) (hc : Coherent narrate none e) (h : Invalidates e op)
    (hstep : step narrate e op = some (e', es)) : Coherent narrate none e' := by
  cases op with
  | ingest now event =>
    cases hstep
    exact coherent_ingest hc h
  | ingestMany now events =>
    cases hstep
    exact coherent_ingestMany hc h
  | killChain artifact org =>
    cases hstep
    exact (coherent_killChain hc artifact org).2
  | allChains org =>
    cases hstep
    exact (coherent_allChains hc org []).2
  | clear =>
    cases hstep
    exact ⟨List.nodup_nil, by intro _ _ _ _ hget; cases hget⟩
  | loadEvents events =>
    cases hstep
    exact ⟨keys_loadEvents events hc.artifacts, by intro _ _ _ _ hget; cases hget⟩

end Coherence

theorem cached_chains_coherent (narrate : Narrator) (ops : List Op) (e : Engine)
    (answers : List Answer) (hrun : exec (step narrate) {} ops = some (e, answers))
    (hmeets : Meets (step narrate) Invalidates {} ops) (artifact : Str) (org : Option Str) :
    (e.killChain narrate artifact org).1 =
        Engine.scopedTimeline narrate org artifact (e.stored artifact) ∧
      (e.allChains narrate org).1.filter (fun t => t.artifactId = artifact) =
        (Engine.scopedTimeline narrate org artifact (e.stored artifact)).toList := by
  have hinit : Coherent narrate none ({} : Engine) :=
    ⟨List.nodup_nil, by intro _ _ _ _ hget; cases hget⟩
  have hc : Coherent narrate none e :=
    exec_invariant coherent_step [] hinit hmeets hrun
  exact ⟨(coherent_killChain hc artifact org).1, (coherent_allChains hc org artifact).1⟩

def silent : Narrator := fun _ _ _ _ _ _ => []

def finding (org : Option Str) (artifact : Str) (severity : Severity) : CorrelatedEvent where
  artifactId := artifact
  layer := "scan".toList
  ruleId := "L2-POST-001".toList
  severity := severity
  confidence := .high
  target := "project".toList
  title := "post install".toList
  detail := []
  timestamp := "2026-06-03T12:00:00+00:00".toList
  orgId := org
  runId := none

def lodash : Str := "lodash@4.17.21".toList

def tenantOne : Option Str := some "1".toList

def tenantTwo : Option Str := some "2".toList

def tenantRun : List Op :=
  [.ingest 100 (finding tenantOne lodash .low), .killChain lodash tenantOne,
   .ingest 200 (finding tenantTwo lodash .high), .allChains tenantTwo]

theorem cached_chains_coherent_two_tenants :
    ∃ e answers, exec (step silent) {} tenantRun = some (e, answers) ∧
      ((e.killChain silent lodash tenantOne).1.map (·.severity)) = some .low ∧
      (e.killChain silent lodash tenantOne).1 =
        Engine.scopedTimeline silent tenantOne lodash (e.stored lodash) := by
  refine ⟨_, _, rfl, by decide +kernel, ?_⟩
  exact (cached_chains_coherent silent tenantRun _ _ rfl (by decide +kernel) lodash tenantOne).1

def globalRun : List Op :=
  [.ingest 100 (finding tenantOne lodash .low), .killChain lodash tenantOne,
   .ingest 200 (finding none lodash .critical)]

theorem global_event_leaves_stale_chain :
    ∃ e answers, exec (step silent) {} globalRun = some (e, answers) ∧
      (e.killChain silent lodash tenantOne).1 ≠
        Engine.scopedTimeline silent tenantOne lodash (e.stored lodash) ∧
      ((e.killChain silent lodash tenantOne).1.map (·.severity)) = some .low ∧
      ((Engine.scopedTimeline silent tenantOne lodash (e.stored lodash)).map (·.severity)) =
        some .critical :=
  ⟨_, _, rfl, by decide +kernel, by decide +kernel, by decide +kernel⟩

end PicoSentry.Serve.Correlation
