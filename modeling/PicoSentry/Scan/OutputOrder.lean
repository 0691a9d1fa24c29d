import PicoSentry.Scan.Baseline
import PicoSentry.Scan.CachedResult

namespace PicoSentry.Scan.Models

open Foundation Json

section Separation

variable {f g : Finding}

theorem entry_of_sortKeys_eq (h : sortKeys f.toDict = sortKeys g.toDict) (k : Str) :
    ((Dict.get? f.entries k).join).map sortKeys = ((Dict.get? g.entries k).join).map sortKeys := by
  have hfields : sortFields (.ofList (Dict.present f.entries)) =
      sortFields (.ofList (Dict.present g.entries)) := Json.obj.inj h
  rw [← get?_finding, ← get?_finding, hfields]

theorem text_of_sortKeys_eq (h : sortKeys f.toDict = sortKeys g.toDict) (key : String) {s t : Str}
    (hf : Dict.get? f.entries key.toList = some (some (.str s)))
    (hg : Dict.get? g.entries key.toList = some (some (.str t))) : s = t := by
  have hentry := entry_of_sortKeys_eq h key.toList
  rw [hf, hg] at hentry
  exact Json.str.inj (Option.some.inj hentry)

theorem value_inj {s t : PolicyEngine.Severity} (h : s.value = t.value) : s = t :=
  Option.some.inj ((severityOf_value s).symm.trans (h ▸ severityOf_value t))

theorem confidence_value_inj {s t : Confidence} (h : s.value = t.value) : s = t :=
  Option.some.inj ((confidenceOf_value s).symm.trans (h ▸ confidenceOf_value t))

theorem line_inj {l m : Option Int}
    (h : sortKeys (l.elim .null .int) = sortKeys (m.elim .null .int)) : l = m := by
  cases l with
  | none => cases m with
    | none => rfl
    | some m => cases h
  | some l => cases m with
    | none => cases h
    | some m => exact congrArg some (Json.int.inj h)

theorem references_inj {ss ts : List Str}
    (h : (if ss = [] then none else some (texts ss)).map sortKeys =
      (if ts = [] then none else some (texts ts)).map sortKeys) : ss = ts := by
  by_cases hs : ss = []
  · by_cases ht : ts = []
    · rw [hs, ht]
    · rw [if_pos hs, if_neg ht] at h
      cases h
  · by_cases ht : ts = []
    · rw [if_neg hs, if_pos ht] at h
      cases h
    · rw [if_neg hs, if_neg ht, Option.map_some, Option.map_some, sortKeys_texts,
        sortKeys_texts] at h
      exact texts_inj (Option.some.inj h)

theorem finding_of_sortKeys_eq (h : sortKeys f.toDict = sortKeys g.toDict) : f = g := by
  have hid := text_of_sortKeys_eq h "rule_id" rfl rfl
  have hseverity := value_inj (text_of_sortKeys_eq h "severity" rfl rfl)
  have hconfidence := confidence_value_inj (text_of_sortKeys_eq h "confidence" rfl rfl)
  have hecosystem := text_of_sortKeys_eq h "ecosystem" rfl rfl
  have hpackage := text_of_sortKeys_eq h "package" rfl rfl
  have hfile := text_of_sortKeys_eq h "file" rfl rfl
  have hmessage := text_of_sortKeys_eq h "message" rfl rfl
  have hevidence := text_of_sortKeys_eq h "evidence" rfl rfl
  have hremediation := text_of_sortKeys_eq h "remediation" rfl rfl
  have hline := line_inj (Option.some.inj (entry_of_sortKeys_eq h "line".toList))
  have hreachable := Json.bool.inj (Option.some.inj (entry_of_sortKeys_eq h "reachable".toList))
  have hreferences := references_inj (entry_of_sortKeys_eq h "references".toList)
  cases f
  cases g
  simp only [Finding.mk.injEq]
  exact ⟨hid, hseverity, hconfidence, hpackage, hfile, hmessage, hevidence, hremediation, hreferences,
    hline, hecosystem, hreachable⟩

end Separation

section Output

variable {sha256 : Str → Str} {r : ScanResult} {findings : List Finding}

def ScanResult.withFindings (r : ScanResult) (findings : List Finding) : ScanResult :=
  { r with findings }

theorem sortedFindings_of_sortedDict_eq {r s : ScanResult}
    (h : r.sortedDict sha256 true = s.sortedDict sha256 true) :
    ScanResult.sortedFindings r.findings = ScanResult.sortedFindings s.findings := by
  have hfields := ofList_inj (Json.obj.inj (Option.some.inj h))
  have hname : "findings".toList ≠ "package_intel".toList := by decide
  have hget := congrArg (Dict.get? · "findings".toList) hfields
  rw [ScanResult.get?_fields _ _ _ _ _ hname, ScanResult.get?_fields _ _ _ _ _ hname] at hget
  have hdicts : sortKeys r.findingDicts = sortKeys s.findingDicts := Option.some.inj hget
  rw [ScanResult.findingDicts, ScanResult.findingDicts, sortKeys, sortKeys, sortItems_ofList,
    sortItems_ofList, List.map_map, List.map_map] at hdicts
  have hitems := items_ofList_inj (Json.arr.inj hdicts)
  exact List.map_injective_iff.mpr (fun _ _ => finding_of_sortKeys_eq) hitems

theorem exists_sortedDict (sha256 : Str → Str) (r : ScanResult) :
    ∃ j, r.sortedDict sha256 true = some j := ⟨_, rfl⟩

theorem sortedDict_of_toJson_eq {r s : ScanResult} (hr : r.WellFormed) (hs : s.WellFormed)
    (h : r.toJson sha256 true = s.toJson sha256 true) :
    r.sortedDict sha256 true = s.sortedDict sha256 true := by
  obtain ⟨j,hj⟩ := exists_sortedDict sha256 r
  obtain ⟨j',hj'⟩ := exists_sortedDict sha256 s
  rw [ScanResult.toJson, ScanResult.toJson, hj, hj'] at h
  have hsame := renderIndented_inj (ScanResult.wellFormed_sortedDict hr hj)
    (ScanResult.wellFormed_sortedDict hs hj') (Option.some.inj h)
  rw [hj, hj', hsame]

theorem toJson_withFindings_iff (h : r.WellFormed) :
    (r.withFindings findings).toJson sha256 true = r.toJson sha256 true ↔
      ScanResult.sortedFindings findings = ScanResult.sortedFindings r.findings := by
  constructor
  · intro hsame
    have hwell : (r.withFindings findings).WellFormed := ⟨h.intel, h.policy, h.behavior⟩
    exact sortedFindings_of_sortedDict_eq (sortedDict_of_toJson_eq hwell h hsame)
  · intro hsame
    have hdicts : (r.withFindings findings).findingDicts = r.findingDicts :=
      congrArg (fun sorted : List Finding => Json.arr (.ofList (sorted.map Finding.toDict))) hsame
    have hentries : (r.withFindings findings).entries sha256 true = r.entries sha256 true := by
      rw [ScanResult.entries, hdicts]
      rfl
    rw [ScanResult.toJson, ScanResult.sortedDict, hentries]
    rfl

theorem output_deterministic_iff (sha256 : Str → Str) (r : ScanResult) (h : r.WellFormed) :
    (∀ findings, findings.Perm r.findings →
      (r.withFindings findings).toJson sha256 true = r.toJson sha256 true) ↔
        ∀ f ∈ r.findings, ∀ g ∈ r.findings, f.sortKey = g.sortKey → f = g := by
  rw [← ascending_perm_iff]
  exact forall_congr' fun findings => imp_congr_right fun _ => toJson_withFindings_iff h

-- A dependency with two known advisories.
def advised (advisory : String) : Finding where
  ruleId := "L2-ADV-001".toList
  severity := .high
  confidence := .high
  package := "lodash@4.17.4".toList
  file := "package.json".toList
  message := advisory.toList
  evidence := []
  remediation := []

theorem output_deterministic_two :
    (resultOf [noLockfile "a".toList, noLockfile "b".toList]).WellFormed ∧
      ∀ findings, findings.Perm [noLockfile "a".toList, noLockfile "b".toList] →
        ((resultOf [noLockfile "a".toList, noLockfile "b".toList]).withFindings findings).toJson id true =
          (resultOf [noLockfile "a".toList, noLockfile "b".toList]).toJson id true :=
  ⟨wellFormed_resultOf _,
    (output_deterministic_iff id (resultOf [noLockfile "a".toList, noLockfile "b".toList])
      (wellFormed_resultOf _)).mpr (by decide)⟩

theorem advisories_swapped_in_output :
    [advised "CVE-2019-10744", advised "CVE-2018-3721"].Perm
        [advised "CVE-2018-3721", advised "CVE-2019-10744"] ∧
      ((resultOf [advised "CVE-2018-3721", advised "CVE-2019-10744"]).withFindings
        [advised "CVE-2019-10744", advised "CVE-2018-3721"]).toJson id true ≠
          (resultOf [advised "CVE-2018-3721", advised "CVE-2019-10744"]).toJson id true := by
  refine ⟨List.Perm.swap _ _ [], fun hsame => ?_⟩
  have hsorted := (toJson_withFindings_iff (wellFormed_resultOf _)).mp hsame
  have hkey : (advised "CVE-2019-10744").sortKey = (advised "CVE-2018-3721").sortKey := rfl
  exact absurd (eq_of_ascending_swap Finding.sortKey hkey hsorted) (by decide)

end Output

end PicoSentry.Scan.Models
