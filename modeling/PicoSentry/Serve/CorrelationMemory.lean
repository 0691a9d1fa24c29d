import Mathlib.Data.List.Dedup
import PicoSentry.Foundation.Decimal
import PicoSentry.Serve.CorrelationStore

namespace PicoSentry.Serve.Correlation

open Foundation
open Foundation.Run

theorem length_eraseAll {κ ν : Type} [DecidableEq κ] {d : Dict κ ν} {ks : List κ}
    (hd : d.keys.Nodup) (hks : ks.Nodup) (hsub : ∀ k ∈ ks, k ∈ d.keys) :
    (ks.foldl Dict.erase d).length + ks.length = d.length := by
  induction ks generalizing d with
  | nil => rfl
  | cons k ks ih =>
    obtain ⟨hk,hks⟩ := List.nodup_cons.mp hks
    have hrest : ∀ k' ∈ ks, k' ∈ (d.erase k).keys := by
      intro k' hk'
      obtain ⟨v,hv⟩ := Dict.exists_get?_of_mem_keys (hsub k' (List.mem_cons_of_mem _ hk'))
      refine Dict.mem_keys_of_get? (v := v) ?_
      rw [Dict.get?_erase, if_neg (by rintro rfl; exact hk hk'), hv]
    have hlen := ih (Dict.keys_erase_nodup hd k) hks hrest
    have hone := Dict.length_erase hd (hsub k List.mem_cons_self)
    simp only [List.foldl_cons, List.length_cons]
    omega

theorem mem_of_mem_eraseAll {κ ν : Type} [DecidableEq κ] {d : Dict κ ν} {ks : List κ} {p : κ × ν}
    (h : p ∈ ks.foldl Dict.erase d) : p ∈ d := by
  induction ks generalizing d with
  | nil => exact h
  | cons k ks ih => exact List.mem_of_mem_filter (ih h)

theorem keys_eraseAll_nodup {κ ν : Type} [DecidableEq κ] {d : Dict κ ν} (h : d.keys.Nodup)
    (ks : List κ) : (ks.foldl Dict.erase d).keys.Nodup := by
  induction ks generalizing d with
  | nil => exact h
  | cons k ks ih => exact ih (Dict.keys_erase_nodup h k)

namespace Engine

variable {e : Engine}

def Light (e : Engine) : Prop := ∀ entry ∈ e.events, entry.2.length ≤ maxEventsPerArtifact

def tracked (e : Engine) (events : List CorrelatedEvent) : List Str :=
  (e.events.keys ++ events.map CorrelatedEvent.artifactId).dedup

theorem oldestQuarter_nodup {events : Dict Str (List CorrelatedEvent)} (h : events.keys.Nodup) :
    (oldestQuarter events).Nodup := by
  have hperm := (List.perm_insertionSort
    (fun p q => oldestTimestamp p.2 ≤ oldestTimestamp q.2) events).map Prod.fst
  exact (List.take_sublist _ _).nodup (hperm.nodup_iff.mpr h)

theorem mem_oldestQuarter {events : Dict Str (List CorrelatedEvent)} {artifact : Str}
    (h : artifact ∈ oldestQuarter events) : artifact ∈ events.keys := by
  have hperm := (List.perm_insertionSort
    (fun p q => oldestTimestamp p.2 ≤ oldestTimestamp q.2) events).map Prod.fst
  exact hperm.mem_iff.mp (List.mem_of_mem_take h)

theorem length_oldestQuarter (events : Dict Str (List CorrelatedEvent)) :
    (oldestQuarter events).length = events.length / 4 := by
  simp only [oldestQuarter, List.length_take, List.length_map, List.length_insertionSort]
  omega

theorem events_foldl_evict (artifacts : List Str) :
    (artifacts.foldl evict e).events = artifacts.foldl Dict.erase e.events := by
  induction artifacts generalizing e with
  | nil => rfl
  | cons artifact artifacts ih => simp [ih, evict]

theorem dropped_foldl_evict (artifacts : List Str) :
    (artifacts.foldl evict e).droppedEvents = e.droppedEvents := by
  induction artifacts generalizing e with
  | nil => rfl
  | cons artifact artifacts ih => simp [ih, evict]

theorem events_evictOldest : e.evictOldest.events = e.evicted.foldl Dict.erase e.events :=
  events_foldl_evict e.evicted

theorem length_evictOldest (h : e.events.keys.Nodup) :
    e.evictOldest.events.length =
      if maxArtifacts < e.events.length then e.events.length - e.events.length / 4
      else e.events.length := by
  rw [events_evictOldest, evicted]
  split
  · have hlen := length_eraseAll h (oldestQuarter_nodup h) fun _ => mem_oldestQuarter
    rw [length_oldestQuarter] at hlen
    omega
  · rfl

theorem length_evictOldest_le_iff (h : e.events.keys.Nodup) :
    e.evictOldest.events.length ≤ maxArtifacts ↔ e.events.length ≤ 6666 := by
  rw [length_evictOldest h]
  by_cases hfull : maxArtifacts < e.events.length
  · rw [if_pos hfull]
    rw [maxArtifacts] at hfull ⊢
    omega
  · rw [if_neg hfull]
    rw [maxArtifacts] at hfull ⊢
    omega

theorem light_evictOldest (h : Light e) : Light e.evictOldest := by
  intro entry hentry
  rw [events_evictOldest] at hentry
  exact h entry (mem_of_mem_eraseAll hentry)

theorem light_append (h : Light e) (event : CorrelatedEvent) : Light (e.append event) := by
  intro entry hentry
  rw [append] at hentry
  rcases Dict.mem_set hentry with hentry | hentry
  · exact h entry hentry
  · have hlen := length_lastEvents (e.stored event.artifactId ++ [event])
    simpa only [hentry] using hlen

theorem light_appendPops (h : Light e) (events : List CorrelatedEvent) :
    Light (events.foldl appendPop e) := by
  induction events generalizing e with
  | nil => exact h
  | cons event events ih => exact ih (light_append h event)

theorem keys_appendPops_nodup (h : e.events.keys.Nodup) (events : List CorrelatedEvent) :
    (events.foldl appendPop e).events.keys.Nodup := by
  induction events generalizing e with
  | nil => exact h
  | cons event events ih => exact ih (Dict.keys_set_nodup h _ _)

theorem mem_keys_appendPops {events : List CorrelatedEvent} {artifact : Str} :
    artifact ∈ (events.foldl appendPop e).events.keys ↔
      artifact ∈ e.events.keys ++ events.map CorrelatedEvent.artifactId := by
  induction events generalizing e with
  | nil => simp
  | cons event events ih =>
    simp [ih, appendPop, append, popChain, Dict.mem_keys_set, or_assoc]

theorem dropped_appendPops (events : List CorrelatedEvent) :
    (events.foldl appendPop e).droppedEvents = e.droppedEvents := by
  induction events generalizing e with
  | nil => rfl
  | cons event events ih => simp [ih, appendPop, append, popChain]

theorem length_appendPops (h : e.events.keys.Nodup) (events : List CorrelatedEvent) :
    (events.foldl appendPop e).events.length = (e.tracked events).length := by
  have hperm : (events.foldl appendPop e).events.keys.Perm (e.tracked events) := by
    refine (List.perm_ext_iff_of_nodup (keys_appendPops_nodup h events) (List.nodup_dedup _)).mpr ?_
    intro artifact
    rw [mem_keys_appendPops, List.mem_dedup]
  simpa [Dict.keys] using hperm.length_eq

def budget (e : Engine) (now : Int) : Nat :=
  maxEventsPerMinute - if minute ≤ now - e.minuteBucketStart then 0 else e.minuteEventCount

theorem allowed_eq (e : Engine) (now : Int) (count : Nat) :
    (e.allowedByBackpressure now count).1 = min count (e.budget now) := by
  simp only [allowedByBackpressure, budget]
  split <;> rfl

theorem dropped_allowed (e : Engine) (now : Int) (count : Nat) :
    (e.allowedByBackpressure now count).2.droppedEvents = e.droppedEvents := by
  rw [allowedByBackpressure]
  split <;> rfl

theorem tracked_allowed (e : Engine) (now : Int) (count : Nat) (events : List CorrelatedEvent) :
    (e.allowedByBackpressure now count).2.tracked events = e.tracked events := by
  rw [tracked, events_allowed, tracked]

theorem take_allowed (e : Engine) (now : Int) (events : List CorrelatedEvent) :
    events.take (e.allowedByBackpressure now events.length).1 = events.take (e.budget now) := by
  rw [allowed_eq]
  rcases le_total events.length (e.budget now) with h | h
  · rw [min_eq_left h, List.take_length, List.take_of_length_le h]
  · rw [min_eq_right h]

def Fits (e : Engine) (now : Int) (events : List CorrelatedEvent) : Prop :=
  if events.take (e.budget now) = [] then e.events.length ≤ maxArtifacts
  else (e.tracked (events.take (e.budget now))).length ≤ 6666

instance (e : Engine) (now : Int) (events : List CorrelatedEvent) : Decidable (e.Fits now events) :=
  decidable_of_iff (if events.take (e.budget now) = [] then e.events.length ≤ maxArtifacts
    else (e.tracked (events.take (e.budget now))).length ≤ 6666) Iff.rfl

theorem events_ingestMany (e : Engine) (now : Int) (events : List CorrelatedEvent) :
    (e.ingestMany now events).events = if events.take (e.budget now) = [] then e.events
      else ((events.take (e.budget now)).foldl appendPop
        (e.allowedByBackpressure now events.length).2).evictOldest.events := by
  have htake := take_allowed e now events
  have hnil : (e.allowedByBackpressure now events.length).1 = 0 ↔
      events.take (e.budget now) = [] := by
    rw [allowed_eq, List.take_eq_nil_iff, ← List.length_eq_zero_iff]
    omega
  rw [ingestMany]
  split
  · next h => rw [if_pos (hnil.mp h), events_allowed]
  · next h => rw [if_neg (mt hnil.mpr h), htake]

theorem length_ingestMany_le_iff (h : e.events.keys.Nodup) (now : Int)
    (events : List CorrelatedEvent) :
    (e.ingestMany now events).events.length ≤ maxArtifacts ↔ e.Fits now events := by
  rw [events_ingestMany, Fits]
  split
  · rfl
  · have hkeys : (e.allowedByBackpressure now events.length).2.events.keys.Nodup := by simpa using h
    rw [length_evictOldest_le_iff (keys_appendPops_nodup hkeys _), length_appendPops hkeys,
      tracked_allowed]

theorem dropped_ingestMany (e : Engine) (now : Int) (events : List CorrelatedEvent) :
    (e.ingestMany now events).droppedEvents =
      e.droppedEvents + (events.drop (e.budget now)).length := by
  have hlen : (events.drop (e.budget now)).length =
      events.length - (e.allowedByBackpressure now events.length).1 := by
    rw [allowed_eq, List.length_drop]
    omega
  rw [hlen, ingestMany]
  split
  · next h => simp [h, dropped_allowed]
  · simp [evictOldest, dropped_foldl_evict, dropped_appendPops, dropped_allowed]

theorem light_ingestMany (h : Light e) (now : Int) (events : List CorrelatedEvent) :
    Light (e.ingestMany now events) := by
  intro entry hentry
  rw [events_ingestMany] at hentry
  split at hentry
  · exact h entry hentry
  · have hallowed : Light (e.allowedByBackpressure now events.length).2 := by simpa [Light] using h
    exact light_evictOldest (light_appendPops hallowed _) entry hentry

theorem keys_ingestMany_nodup (h : e.events.keys.Nodup) (now : Int) (events : List CorrelatedEvent) :
    (e.ingestMany now events).events.keys.Nodup := by
  rw [events_ingestMany]
  split
  · exact h
  · have hkeys : (e.allowedByBackpressure now events.length).2.events.keys.Nodup := by simpa using h
    have hall := keys_appendPops_nodup hkeys (events.take (e.budget now))
    rw [events_evictOldest]
    exact keys_eraseAll_nodup hall _

theorem events_evictOldest_popChain (e : Engine) (key : ChainKey) :
    (e.popChain key).evictOldest.events = e.evictOldest.events := by
  rw [events_evictOldest, events_evictOldest]
  rfl

theorem events_ingest (e : Engine) (now : Int) (event : CorrelatedEvent) :
    (e.ingest now event).events = (e.ingestMany now [event]).events := by
  have hle : (e.allowedByBackpressure now 1).1 ≤ 1 := by
    rw [allowed_eq]
    omega
  simp only [ingest, ingestMany, List.length_singleton]
  split
  · rfl
  · next h =>
    have hone : (e.allowedByBackpressure now 1).1 = 1 := by omega
    rw [hone]
    exact (events_evictOldest_popChain _ _).symm

theorem dropped_ingest (e : Engine) (now : Int) (event : CorrelatedEvent) :
    (e.ingest now event).droppedEvents = e.droppedEvents + ([event].drop (e.budget now)).length := by
  have hone := allowed_eq e now 1
  simp only [ingest]
  split
  · next h => simp [dropped_allowed, show e.budget now = 0 by omega]
  · next h =>
    obtain ⟨n,hn⟩ : ∃ n, e.budget now = n + 1 := ⟨e.budget now - 1, by omega⟩
    simp [popChain, evictOldest, dropped_foldl_evict, append, dropped_allowed, hn]

theorem light_of_stored (h : e.events.keys.Nodup)
    (hstored : ∀ artifact, (e.stored artifact).length ≤ maxEventsPerArtifact) : Light e := by
  intro entry hentry
  have hlen := hstored entry.1
  rwa [stored, Dict.get?_of_mem h hentry, Option.getD_some] at hlen

theorem Light.stored (h : Light e) (artifact : Str) :
    (e.stored artifact).length ≤ maxEventsPerArtifact := by
  rw [Engine.stored]
  cases hget : e.events.get? artifact with
  | none => exact Nat.zero_le _
  | some events => exact h (artifact, events) (Dict.mem_of_get? hget)

end Engine

def offered : Op → Option (Int × List CorrelatedEvent)
  | .ingest now event => some (now, [event])
  | .ingestMany now events => some (now, events)
  | _ => none

def refused (e : Engine) (op : Op) : List CorrelatedEvent :=
  match offered op with
  | some (now, events) => events.drop (e.budget now)
  | none => []

def memoryStep (narrate : Narrator) (e : Engine) (op : Op) :
    Option (Engine × List CorrelatedEvent) :=
  (step narrate e op).map fun r => (r.1, refused e op)

def LoadsLight (e : Engine) : Op → Prop
  | .loadEvents events => ∀ event ∈ events,
      (e.stored event.artifactId ++
        events.filter fun old => old.artifactId = event.artifactId).length ≤ maxEventsPerArtifact
  | _ => True

instance decidableLoadsLight (e : Engine) : ∀ op, Decidable (LoadsLight e op)
  | .ingest _ _ => isTrue trivial
  | .ingestMany _ _ => isTrue trivial
  | .killChain _ _ => isTrue trivial
  | .allChains _ => isTrue trivial
  | .clear => isTrue trivial
  | .loadEvents events => inferInstanceAs (Decidable (∀ event ∈ events, _))

structure WithinLimits (e : Engine) (refused : List CorrelatedEvent) : Prop where
  artifacts : e.events.length ≤ maxArtifacts
  perArtifact : e.Light
  dropped : e.droppedEvents = refused.length

section Run

variable {narrate : Narrator} {e e' : Engine}

structure Counted (past : List CorrelatedEvent) (e : Engine) : Prop where
  artifacts : e.events.keys.Nodup
  light : e.Light
  dropped : e.droppedEvents = past.length

theorem store_killChain (e : Engine) (artifact : Str) (org : Option Str) :
    (e.killChain narrate artifact org).2.events = e.events ∧
      (e.killChain narrate artifact org).2.droppedEvents = e.droppedEvents := by
  rw [Engine.killChain]
  split
  · exact ⟨rfl, rfl⟩
  · split <;> exact ⟨rfl, rfl⟩

theorem store_visits (org : Option Str) (entries : Dict Str (List CorrelatedEvent))
    (state : List KillChainTimeline × Engine) :
    (entries.foldl (Engine.visitArtifact narrate org) state).2.events = state.2.events ∧
      (entries.foldl (Engine.visitArtifact narrate org) state).2.droppedEvents =
        state.2.droppedEvents := by
  induction entries generalizing state with
  | nil => exact ⟨rfl, rfl⟩
  | cons entry entries ih =>
    have hrest := ih (Engine.visitArtifact narrate org state entry)
    have hone : (Engine.visitArtifact narrate org state entry).2.events = state.2.events ∧
        (Engine.visitArtifact narrate org state entry).2.droppedEvents = state.2.droppedEvents := by
      rw [Engine.visitArtifact]
      split
      · exact ⟨rfl, rfl⟩
      · split <;> exact ⟨rfl, rfl⟩
    exact ⟨hrest.1.trans hone.1, hrest.2.trans hone.2⟩

theorem Counted.congr {past : List CorrelatedEvent} (h : Counted past e)
    (hevents : e'.events = e.events) (hdropped : e'.droppedEvents = e.droppedEvents) :
    Counted past e' := by
  refine ⟨?_, ?_, ?_⟩
  · rw [hevents]
    exact h.artifacts
  · intro entry hentry
    rw [hevents] at hentry
    exact h.light entry hentry
  · rw [hdropped]
    exact h.dropped

theorem counted_ingestMany {past : List CorrelatedEvent} (h : Counted past e) (now : Int)
    (events : List CorrelatedEvent) :
    Counted (past ++ events.drop (e.budget now)) (e.ingestMany now events) := by
  refine ⟨Engine.keys_ingestMany_nodup h.artifacts now events,
    Engine.light_ingestMany h.light now events, ?_⟩
  rw [Engine.dropped_ingestMany, h.dropped, List.length_append]

theorem counted_ingest {past : List CorrelatedEvent} (h : Counted past e) (now : Int)
    (event : CorrelatedEvent) :
    Counted (past ++ [event].drop (e.budget now)) (e.ingest now event) := by
  refine (counted_ingestMany h now [event]).congr (Engine.events_ingest e now event) ?_
  rw [Engine.dropped_ingest, Engine.dropped_ingestMany]

theorem dropped_loads (events : List CorrelatedEvent) :
    (events.foldl Engine.loadEvent e).droppedEvents = e.droppedEvents := by
  induction events generalizing e with
  | nil => rfl
  | cons event events ih => simp [ih, Engine.loadEvent]

theorem counted_loadEvents {past : List CorrelatedEvent} (h : Counted past e)
    {events : List CorrelatedEvent} (hlight : LoadsLight e (.loadEvents events)) :
    Counted past (e.loadEvents events) := by
  have hkeys := keys_loadEvents events h.artifacts
  refine ⟨hkeys, Engine.light_of_stored hkeys ?_, (dropped_loads events).trans h.dropped⟩
  intro artifact
  change ((events.foldl Engine.loadEvent e).stored artifact).length ≤ _
  rw [stored_loadAll]
  by_cases hmem : ∃ event ∈ events, event.artifactId = artifact
  · obtain ⟨event,hevent,rfl⟩ := hmem
    exact hlight event hevent
  · have hnone : events.filter (fun event => event.artifactId = artifact) = [] := by
      simpa using hmem
    rw [hnone, List.append_nil]
    exact h.light.stored artifact

theorem counted_step (past : List CorrelatedEvent) (e : Engine) (op : Op) (e' : Engine)
    (es : List CorrelatedEvent) (h : Counted past e) (hlight : LoadsLight e op)
    (hstep : memoryStep narrate e op = some (e', es)) : Counted (past ++ es) e' := by
  cases op with
  | ingest now event =>
    cases hstep
    exact counted_ingest h now event
  | ingestMany now events =>
    cases hstep
    exact counted_ingestMany h now events
  | killChain artifact org =>
    cases hstep
    have hstore := @store_killChain narrate e artifact org
    simpa [refused, offered] using h.congr hstore.1 hstore.2
  | allChains org =>
    cases hstep
    have hstore := @store_visits narrate org e.events ([], e)
    have hcounted : Counted past (e.allChains narrate org).2 := h.congr hstore.1 hstore.2
    simpa [refused, offered] using hcounted
  | clear =>
    cases hstep
    have hlight : (e.clear).Light := by
      intro _ hentry
      cases hentry
    refine ⟨List.nodup_nil, hlight, ?_⟩
    simpa [refused, offered, Engine.clear] using h.dropped
  | loadEvents events =>
    cases hstep
    simpa [refused, offered] using counted_loadEvents h hlight

theorem counted_exec {ops : List Op} {past : List CorrelatedEvent}
    (hrun : exec (memoryStep narrate) {} ops = some (e, past))
    (hloads : Meets (memoryStep narrate) LoadsLight {} ops) : Counted past e := by
  have hlight : ({} : Engine).Light := by
    intro _ hentry
    cases hentry
  have hinit : Counted [] ({} : Engine) := ⟨List.nodup_nil, hlight, rfl⟩
  exact exec_invariant counted_step [] hinit hloads hrun

theorem length_offered_le_iff (h : e.events.keys.Nodup) {call : Op} {now : Int}
    {events es : List CorrelatedEvent} (hcall : offered call = some (now, events))
    (hstep : memoryStep narrate e call = some (e', es)) :
    e'.events.length ≤ maxArtifacts ↔ e.Fits now events := by
  cases call with
  | ingest now event =>
    cases hcall
    cases hstep
    rw [← Engine.length_ingestMany_le_iff h]
    exact iff_of_eq (congrArg (fun store => List.length store ≤ maxArtifacts)
      (Engine.events_ingest e _ event))
  | ingestMany now events =>
    cases hcall
    cases hstep
    exact Engine.length_ingestMany_le_iff h _ _
  | killChain artifact org => cases hcall
  | allChains org => cases hcall
  | clear => cases hcall
  | loadEvents events => cases hcall

end Run

theorem within_limits_iff (narrate : Narrator) (ops : List Op) (call : Op) (now : Int)
    (events past es : List CorrelatedEvent) (e e' : Engine)
    (hrun : exec (memoryStep narrate) {} ops = some (e, past))
    (hloads : Meets (memoryStep narrate) LoadsLight {} ops)
    (hcall : offered call = some (now, events))
    (hstep : memoryStep narrate e call = some (e', es)) :
    WithinLimits e' (past ++ es) ↔ e.Fits now events := by
  have hbefore := counted_exec hrun hloads
  have hlight : LoadsLight e call := by
    cases call with
    | loadEvents events => cases hcall
    | _ => trivial
  have hafter := counted_step past e call e' es hbefore hlight hstep
  have hfits := length_offered_le_iff hbefore.artifacts hcall hstep
  constructor
  · intro h
    exact hfits.mp h.artifacts
  · intro h
    exact ⟨hfits.mpr h, hafter.light, hafter.dropped⟩

def twoCalls : List Op := [.ingest 100 critical, .killChain lodash tenantOne]

theorem within_limits_two_calls :
    ∃ e past e' es, exec (memoryStep silent) {} twoCalls = some (e, past) ∧
      memoryStep silent e (.ingestMany 200 [critical, critical]) = some (e', es) ∧
      WithinLimits e' (past ++ es) := by
  refine ⟨_, _, _, _, rfl, rfl, ?_⟩
  exact (within_limits_iff silent twoCalls (.ingestMany 200 [critical, critical]) 200
    [critical, critical] _ _ _ _ rfl (by decide +kernel) rfl rfl).mpr (by decide +kernel)

def package (n : Nat) : CorrelatedEvent :=
  { critical with artifactId := "pkg@".toList ++ decimal n }

def bigBatch : List CorrelatedEvent := (List.range 6667).map package

theorem artifacts_bigBatch_nodup : (bigBatch.map CorrelatedEvent.artifactId).Nodup := by
  rw [bigBatch, List.map_map]
  refine List.nodup_range.map ?_
  intro m n h
  exact decimal_injective (List.append_cancel_left h)

theorem big_batch_exceeds_limit :
    ∃ e, memoryStep silent {} (.ingestMany 200 bigBatch) = some (e, []) ∧
      ¬ e.events.length ≤ maxArtifacts ∧ ¬ WithinLimits e [] := by
  have hlen : bigBatch.length = 6667 := by simp [bigBatch]
  have hbudget : ({} : Engine).budget 200 = 10000 := rfl
  have hall : bigBatch.take 10000 = bigBatch := List.take_of_length_le (by omega)
  have hnone : bigBatch.drop 10000 = [] := List.drop_eq_nil_of_le (by omega)
  have htracked : ({} : Engine).tracked bigBatch = bigBatch.map CorrelatedEvent.artifactId := by
    simp only [Engine.tracked, Dict.keys_nil, List.nil_append, artifacts_bigBatch_nodup.dedup]
  have hmany : ¬ ({} : Engine).Fits 200 bigBatch := by
    have hne : bigBatch ≠ [] := List.ne_nil_of_length_pos (by omega)
    rw [Engine.Fits, hbudget, hall, if_neg hne, htracked, List.length_map, hlen]
    omega
  have hover : ¬ (({} : Engine).ingestMany 200 bigBatch).events.length ≤ maxArtifacts := by
    rwa [Engine.length_ingestMany_le_iff (e := {}) List.nodup_nil]
  refine ⟨({} : Engine).ingestMany 200 bigBatch, ?_, hover, fun h => hover h.artifacts⟩
  simp only [memoryStep, step, Option.map_some, refused, offered, hbudget, hnone]

end PicoSentry.Serve.Correlation
