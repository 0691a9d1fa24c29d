import PicoSentry.Scan.Models

namespace PicoSentry.Scan.Models

open Foundation Json

section WellFormed

theorem wellFormed_sortedItems {d : Dict Str Json} (h : ∀ e ∈ d, e.2.WellFormed) :
    Json.WellFormed (.obj (.ofList (sortedItems d))) :=
  wellFormed_ofList fun e he => h e ((perm_ascending Prod.fst d).mem_iff.mp he)

theorem wellFormed_counts (d : Dict Str Int) : (counts d).WellFormed := by
  apply wellFormed_ofList
  rw [List.forall_mem_map]
  exact fun _ _ => trivial

theorem wellFormed_line (line : Option Int) : (line.elim .null .int : Json).WellFormed := by
  cases line <;> trivial

theorem wellFormed_finding (f : Finding) : f.toDict.WellFormed := by
  apply wellFormed_ofList
  apply Filled.present
  iterate 6 refine filled_some trivial ?_
  refine filled_some (wellFormed_line f.line) ?_
  iterate 4 refine filled_some trivial ?_
  exact filled_unless (wellFormed_list (f := Json.str) (fun _ => trivial) f.references) filled_nil

theorem wellFormed_execution (e : RuleExecution) (deterministicOutput : Bool) :
    (e.toDict deterministicOutput).WellFormed := by
  apply wellFormed_ofList
  apply Filled.present
  iterate 4 refine filled_some trivial ?_
  exact filled_unless trivial (filled_unless trivial filled_nil)

theorem wellFormed_stats (stats : ScanStats) (deterministic : Bool) :
    (stats.toDict deterministic).WellFormed := by
  apply wellFormed_sortedItems
  apply Filled.present
  iterate 2 refine filled_some trivial ?_
  iterate 2 refine filled_some (wellFormed_counts _) ?_
  exact filled_unless trivial (filled_unless (wellFormed_counts _) filled_nil)

theorem wellFormed_deterministicDict (stats : ScanStats) : stats.deterministicDict.WellFormed := by
  apply wellFormed_ofList
  intro e he
  simp only [List.mem_cons, List.not_mem_nil, or_false] at he
  obtain rfl | rfl | rfl | rfl := he
  · trivial
  · trivial
  · exact wellFormed_counts _
  · exact wellFormed_counts _

theorem wellFormed_shownStats (stats : ScanStats) (deterministicOutput : Bool) :
    (if deterministicOutput then stats.deterministicDict else stats.toDict false).WellFormed := by
  split
  · exact wellFormed_deterministicDict stats
  · exact wellFormed_stats stats false

namespace ScanResult

variable (sha256 : Str → Str)

structure WellFormed (r : ScanResult) : Prop where
  intel : ∀ e ∈ r.packageIntel, e.2.WellFormed
  policy : ∀ j, r.policyResult = some j → j.WellFormed
  behavior : ∀ j, r.behavioralEvidence = some j → j.WellFormed

theorem wellFormed_ruleStatus (r : ScanResult) (deterministicOutput : Bool) :
    (r.ruleStatus deterministicOutput).WellFormed := by
  apply wellFormed_ofList
  intro p hp
  obtain ⟨e,_,rfl⟩ := List.mem_map.mp (Dict.mem_ofPairs hp)
  exact wellFormed_execution e deterministicOutput

theorem wellFormed_givenText (s : Str) : ∀ j, givenText s = some j → j.WellFormed := by
  intro j hj
  rw [givenText] at hj
  split at hj
  · cases hj
  · cases hj
    trivial

theorem wellFormed_audit (r : ScanResult) : Json.WellFormed (.obj (.ofList r.audit)) := by
  apply wellFormed_ofList
  apply Filled.present
  iterate 5 refine filled_cons (wellFormed_givenText _) ?_
  exact filled_nil

variable {sha256}

theorem filled_entries {r : ScanResult} (h : r.WellFormed) (deterministicOutput : Bool) :
    Filled (r.entries sha256 deterministicOutput) := by
  iterate 4 refine filled_some trivial ?_
  refine filled_some (wellFormed_list wellFormed_finding _) ?_
  refine filled_unless trivial ?_
  refine filled_some (wellFormed_shownStats r.stats deterministicOutput) ?_
  refine filled_unless (wellFormed_ruleStatus r deterministicOutput) ?_
  refine filled_unless trivial ?_
  refine filled_cons h.policy ?_
  refine filled_unless (wellFormed_audit r) ?_
  exact filled_cons h.behavior filled_nil

theorem wellFormed_shownIntel {r : ScanResult} (h : r.WellFormed) (deterministicOutput : Bool) :
    ∀ e ∈ r.shownIntel deterministicOutput, e.2.WellFormed := by
  rw [shownIntel]
  split
  · exact fun _ he => absurd he List.not_mem_nil
  · exact h.intel

theorem wellFormed_sortedIntel {shown : Dict IntelKey Json} (h : ∀ e ∈ shown, e.2.WellFormed)
    {intel : Dict Str Json} (hi : sortedIntel shown = some intel) : ∀ e ∈ intel, e.2.WellFormed := by
  have hmap : ∀ ps : Dict IntelKey Json, ps.Perm shown →
      ∀ e ∈ ps.map fun e => (e.1.json, sortKeys e.2), e.2.WellFormed := by
    intro ps hperm
    rw [List.forall_mem_map]
    exact fun e he => wellFormed_sortKeys (h e (hperm.mem_iff.mp he))
  rw [sortedIntel] at hi
  split at hi
  · cases hi
    exact hmap _ (perm_ascending _ _)
  · split at hi
    · cases hi
      exact hmap _ (perm_ascending _ _)
    · cases hi

theorem wellFormed_intelEntry {intel : Dict Str Json} (h : ∀ e ∈ intel, e.2.WellFormed) :
    ∀ e ∈ intelEntry intel, e.2.WellFormed := by
  rw [intelEntry]
  split
  · exact fun _ he => absurd he List.not_mem_nil
  · rw [List.forall_mem_singleton]
    exact wellFormed_ofList h

theorem wellFormed_fields {r : ScanResult} (h : r.WellFormed) {f : Json → Json}
    (hf : ∀ j : Json, j.WellFormed → (f j).WellFormed) {intel : Dict Str Json}
    (hi : ∀ e ∈ intel, e.2.WellFormed) (deterministicOutput : Bool) :
    Json.WellFormed (.obj (.ofList (sortedItems ((Dict.present
      (r.entries sha256 deterministicOutput)).map (fun e => (e.1, f e.2)) ++ intelEntry intel)))) := by
  apply wellFormed_sortedItems
  intro e he
  rcases List.mem_append.mp he with he | he
  · obtain ⟨e',he',rfl⟩ := List.mem_map.mp he
    exact hf _ ((filled_entries h deterministicOutput).present e' he')
  · exact wellFormed_intelEntry hi e he

theorem wellFormed_sortedDict {r : ScanResult} (h : r.WellFormed) {j : Json}
    {deterministicOutput : Bool} (hj : r.sortedDict sha256 deterministicOutput = some j) :
    j.WellFormed := by
  obtain ⟨intel,hi,rfl⟩ := Option.map_eq_some_iff.mp hj
  exact wellFormed_fields h (fun _ => wellFormed_sortKeys)
    (wellFormed_sortedIntel (wellFormed_shownIntel h _) hi) _

end ScanResult

end WellFormed

section Lookup

theorem get?_sortedItems {ν : Type} {d : Dict Str ν} (h : (Dict.keys d).Nodup) (k : Str) :
    Dict.get? (sortedItems d) k = Dict.get? d k :=
  (Dict.get?_perm h (perm_ascending Prod.fst d).symm k).symm

namespace ScanResult

variable (sha256 : Str → Str) (r : ScanResult)

def topKeys : List Str :=
  ["scan_id".toList, "engine_version".toList, "corpus_version".toList, "target".toList,
   "findings".toList, "unscannable_components".toList, "stats".toList, "rule_status".toList,
   "scan_completeness".toList, "policy".toList, "audit".toList, "behavioral_evidence".toList]

theorem keys_intelEntry_nodup (intel : Dict Str Json) : (Dict.keys (intelEntry intel)).Nodup := by
  rw [intelEntry]
  split
  · exact List.nodup_nil
  · exact List.nodup_singleton _

theorem mem_keys_intelEntry {intel : Dict Str Json} {k : Str} (h : k ∈ Dict.keys (intelEntry intel)) :
    k = "package_intel".toList := by
  rw [intelEntry] at h
  split at h
  · cases h
  · exact List.mem_singleton.mp h

theorem keys_fields_nodup (f : Json → Json) (intel : Dict Str Json) (deterministicOutput : Bool) :
    (Dict.keys ((Dict.present (r.entries sha256 deterministicOutput)).map (fun e => (e.1, f e.2)) ++
      intelEntry intel)).Nodup := by
  have hsub : (Dict.keys (Dict.present (r.entries sha256 deterministicOutput))).Sublist topKeys :=
    Dict.keys_present_sublist _
  have hkeys : Dict.keys ((Dict.present (r.entries sha256 deterministicOutput)).map
      fun e => (e.1, f e.2)) = Dict.keys (Dict.present (r.entries sha256 deterministicOutput)) := by
    simp [Dict.keys]
  rw [Dict.keys, List.map_append, ← Dict.keys, ← Dict.keys, hkeys, List.nodup_append]
  refine ⟨List.Nodup.sublist hsub (by decide), keys_intelEntry_nodup intel, ?_⟩
  rintro k hk k' hk' rfl
  rw [mem_keys_intelEntry hk'] at hk
  exact absurd (hsub.subset hk) (by decide)

theorem get?_fields (f : Json → Json) (intel : Dict Str Json) (deterministicOutput : Bool) {k : Str}
    (hk : k ≠ "package_intel".toList) :
    Dict.get? (sortedItems ((Dict.present (r.entries sha256 deterministicOutput)).map
      (fun e => (e.1, f e.2)) ++ intelEntry intel)) k =
        ((Dict.get? (r.entries sha256 deterministicOutput) k).join).map f := by
  have hnone : Dict.get? (intelEntry intel) k = none :=
    Dict.not_mem_keys_iff.mp fun hmem => hk (mem_keys_intelEntry hmem)
  have hnodup : (Dict.keys (r.entries sha256 deterministicOutput)).Nodup :=
    show topKeys.Nodup by decide
  rw [get?_sortedItems (r.keys_fields_nodup sha256 f intel _), Dict.get?_append, hnone,
    Option.or_none, Dict.get?_mapValues, Dict.get?_present hnodup]

theorem get?_intel (f : Json → Json) (intel : Dict Str Json) :
    Dict.get? (sortedItems ((Dict.present (r.entries sha256 false)).map (fun e => (e.1, f e.2)) ++
      intelEntry intel)) "package_intel".toList =
      if intel = [] then none else some (.obj (.ofList intel)) := by
  have hnodup : (Dict.keys (r.entries sha256 false)).Nodup := show topKeys.Nodup by decide
  have hentry : Dict.get? (r.entries sha256 false) "package_intel".toList = none := rfl
  rw [get?_sortedItems (r.keys_fields_nodup sha256 f intel _), Dict.get?_append,
    Dict.get?_mapValues, Dict.get?_present hnodup, hentry, Option.join_none, Option.map_none,
    Option.none_or, intelEntry]
  split
  · rfl
  · exact if_pos rfl

end ScanResult

end Lookup

end PicoSentry.Scan.Models
