import PicoSentry.Serve.AuditChain

namespace PicoSentry.Serve.Audit

open Foundation

section Runs

def covers (runs : List (Nat × Nat)) (i : Nat) : Prop := ∃ g ∈ runs, g.1 ≤ i ∧ i ≤ g.2

theorem addToRuns_spec {runs : List (Nat × Nat)} (h : ∀ g ∈ runs, g.1 ≤ g.2) (i : Nat) :
    (∀ g ∈ addToRuns runs i, g.1 ≤ g.2) ∧
      ∀ j, covers (addToRuns runs i) j ↔ covers runs j ∨ j = i := by
  have hnew : ∀ runs : List (Nat × Nat), ∀ j,
      covers (runs ++ [(i, i)]) j ↔ covers runs j ∨ j = i := by
    intro runs j
    simp only [covers, List.mem_append, List.mem_singleton, or_and_right, exists_or,
      exists_eq_left]
    exact or_congr_right ⟨fun hj => le_antisymm hj.2 hj.1, fun hj => by simp [hj]⟩
  have hle : ∀ runs : List (Nat × Nat), (∀ g ∈ runs, g.1 ≤ g.2) →
      ∀ g ∈ runs ++ [(i, i)], g.1 ≤ g.2 := by
    intro runs hruns g hg
    rcases List.mem_append.mp hg with hg | hg
    · exact hruns g hg
    · rw [List.mem_singleton.mp hg]
  rw [addToRuns]
  split
  · next lo hi hl =>
    obtain ⟨ys,rfl⟩ := List.getLast?_eq_some_iff.mp hl
    have hlo : lo ≤ hi := h (lo, hi) (by simp)
    split
    · next hi' =>
      rw [List.dropLast_concat]
      refine ⟨?_, ?_⟩
      · intro g hg
        rcases List.mem_append.mp hg with hg | hg
        · exact h g (List.mem_append_left _ hg)
        · rw [List.mem_singleton.mp hg]
          simp only
          omega
      · intro j
        simp only [covers, List.mem_append, List.mem_singleton, or_and_right, exists_or,
          exists_eq_left]
        rw [or_assoc]
        apply or_congr_right
        constructor
        · intro hj
          omega
        · intro hj
          omega
    · exact ⟨hle _ h, hnew _⟩
  · next hl =>
    rw [List.getLast?_eq_none_iff] at hl
    subst hl
    exact ⟨hle [] h, hnew []⟩

theorem foldl_addToRuns (ids : List Nat) {runs : List (Nat × Nat)} (h : ∀ g ∈ runs, g.1 ≤ g.2)
    (j : Nat) : covers (ids.foldl addToRuns runs) j ↔ covers runs j ∨ j ∈ ids := by
  induction ids generalizing runs with
  | nil => simp
  | cons i ids ih =>
    obtain ⟨hle,hcov⟩ := addToRuns_spec h i
    rw [List.foldl_cons, ih hle, hcov, List.mem_cons, or_assoc]

theorem covers_contiguousRuns (ids : List Nat) (j : Nat) :
    covers (contiguousRuns ids) j ↔ j ∈ ids := by
  rw [contiguousRuns, foldl_addToRuns _ (by simp), List.mem_insertionSort]
  simp [covers]

end Runs

section Marker

theorem plainItems_runs (runs : List (Nat × Nat)) :
    Json.plainItems (.ofList (runs.map runJson)) = true := by
  induction runs with
  | nil => rfl
  | cons g runs ih =>
    rw [List.map_cons, JsonItems.ofList, Json.plainItems, ih]
    rfl

theorem sortItems_runs (runs : List (Nat × Nat)) :
    Json.sortItems (.ofList (runs.map runJson)) = .ofList (runs.map runJson) := by
  induction runs with
  | nil => rfl
  | cons g runs ih =>
    rw [List.map_cons, JsonItems.ofList, Json.sortItems, ih]
    rfl

theorem toList_ofList (js : List Json) : (JsonItems.ofList js).toList = js := by
  induction js with
  | nil => rfl
  | cons j js ih => rw [JsonItems.ofList, JsonItems.toList, ih]

theorem insertField_le {k k' : Str} (h : ¬k' < k) (j j' : Json) (fields : JsonFields) :
    Json.insertField k j (.cons k' j' fields) = .cons k j (.cons k' j' fields) := by
  rw [Json.insertField, if_neg h]

theorem sortKeys_marker (deleted : Nat) (runs : List (Nat × Nat)) (orgId : Option Int) :
    (Json.obj (.ofList (markerFields deleted runs orgId))).sortKeys =
      .obj (.ofList (markerFields deleted runs orgId)) := by
  have horg : (orgJson orgId).sortKeys = orgJson orgId := by cases orgId <;> rfl
  have h1 : ¬"org_id".toList < "gaps".toList := by decide
  have h2 : ¬"gaps".toList < "deleted".toList := by decide
  rw [markerFields, JsonFields.ofList, JsonFields.ofList, JsonFields.ofList, JsonFields.ofList,
    Json.sortKeys, Json.sortFields, Json.sortFields, Json.sortFields, Json.sortFields, horg,
    Json.insertField, insertField_le h1, insertField_le h2, Json.sortKeys, Json.sortKeys,
    sortItems_runs]
  all_goals simp

theorem plain_marker (deleted : Nat) (runs : List (Nat × Nat)) (orgId : Option Int) :
    (Json.obj (.ofList (markerFields deleted runs orgId))).plain = true := by
  have horg : (orgJson orgId).plain = true := by cases orgId <;> rfl
  simp only [markerFields, JsonFields.ofList, Json.plain, Json.plainFields, plainItems_runs, horg]
  decide

theorem gapsOf_runs (runs : List (Nat × Nat)) :
    gapsOf (runs.map runJson) = runs.map fun g => ((g.1 : Int), (g.2 : Int)) := by
  induction runs with
  | nil => rfl
  | cons g runs ih =>
    rw [List.map_cons, gapsOf, ih]
    rfl

theorem markerGaps_marker (deleted : Nat) (runs : List (Nat × Nat)) (orgId : Option Int) :
    markerGaps (detailsJson (.dict (markerFields deleted runs orgId))) =
      runs.map fun g => ((g.1 : Int), (g.2 : Int)) := by
  rw [markerGaps, detailsJson, Json.dumps, sortKeys_marker, Json.loads_render (plain_marker _ _ _)]
  have hgaps : Dict.lastOf (JsonFields.ofList (markerFields deleted runs orgId)).toList
      "gaps".toList = some (.arr (.ofList (runs.map runJson))) := rfl
  simp only [hgaps, toList_ofList, gapsOf_runs]

theorem isPurged_marker (ids : List Nat) (orgId : Option Int) (j : Nat) :
    isPurged (markerGaps (detailsJson (markerArgs ids orgId).details)) j = true ↔ j ∈ ids := by
  rw [markerArgs, markerGaps_marker, ← covers_contiguousRuns]
  simp only [isPurged, List.any_map, List.any_eq_true, Function.comp_apply, Bool.and_eq_true,
    decide_eq_true_eq, Nat.cast_le, covers]

end Marker

end PicoSentry.Serve.Audit
