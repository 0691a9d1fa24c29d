import PicoSentry.Scan.ResultJson

namespace PicoSentry.Scan.Models

open Foundation Json

section Load

variable {U : Unicode} {sha256 : Str → Str}

theorem get?_finding (f : Finding) (k : Str) :
    Dict.get? (sortFields (.ofList (Dict.present f.entries))).toList k =
      ((Dict.get? f.entries k).join).map sortKeys := by
  have hnodup : (Dict.keys f.entries).Nodup :=
    show (["rule_id".toList, "severity".toList, "confidence".toList, "ecosystem".toList,
      "package".toList, "file".toList, "line".toList, "message".toList, "evidence".toList,
      "remediation".toList, "reachable".toList, "references".toList] : List Str).Nodup by decide
  rw [get?_sortFields, toList_ofList, Dict.get?_present hnodup]

def recordedKey (f : Finding) : LoadedKey := .ofFingerprint f.fingerprint

theorem baselineKey_finding (f : Finding) : baselineKey (sortKeys f.toDict) = some (recordedKey f) := by
  have htext : ∀ (key : String) (default s : Str),
      Dict.get? f.entries key.toList = some (some (.str s)) →
        fieldOr (sortFields (.ofList (Dict.present f.entries))).toList key default = some (.str s) := by
    intro key default s h
    rw [fieldOr, get?_finding, h]
    rfl
  rw [Finding.toDict, sortKeys, baselineKey, htext "rule_id" _ f.ruleId rfl,
    htext "ecosystem" _ f.ecosystem rfl, htext "package" _ f.package rfl, htext "file" _ f.file rfl]
  rfl

theorem mapM_baselineKey (findings : List Finding) :
    (findings.map fun f => sortKeys f.toDict).mapM baselineKey = some (findings.map recordedKey) := by
  induction findings with
  | nil => rfl
  | cons f findings ih =>
    rw [List.map_cons, List.mapM_cons, baselineKey_finding, ih]
    rfl

theorem loadBaseline_toJson {r : ScanResult} (h : r.WellFormed) {text : Str}
    (ht : r.toJson sha256 false = some text) :
    loadBaseline U text =
      some ((ScanResult.sortedFindings r.findings).map recordedKey) := by
  obtain ⟨j,hj,rfl⟩ := Option.map_eq_some_iff.mp ht
  obtain ⟨intel,hi,rfl⟩ := Option.map_eq_some_iff.mp hj
  have hfindings := r.get?_fields sha256 sortKeys intel false
    (show "findings".toList ≠ "package_intel".toList by decide)
  have hentry : Dict.get? (r.entries sha256 false) "findings".toList = some (some r.findingDicts) :=
    rfl
  rw [hentry] at hfindings
  rw [loadBaseline, loads_renderIndented (ScanResult.wellFormed_sortedDict h hj)]
  simp only [toList_ofList, hfindings, Option.join_some, Option.map_some,
    ScanResult.findingDicts, sortKeys, findingKeys, sortItems_ofList, toList_ofItems, List.map_map]
  exact mapM_baselineKey _

end Load

section Exact

def Known (r : ScanResult) (f : Finding) : Prop := f.fingerprint ∈ r.findings.map Finding.fingerprint

instance (r : ScanResult) (f : Finding) : Decidable (Known r f) :=
  inferInstanceAs (Decidable (f.fingerprint ∈ r.findings.map Finding.fingerprint))

def Overmatched (r : ScanResult) (f : Finding) : Prop :=
  ∃ g ∈ r.findings, g.ruleId = f.ruleId ∧
    (g.package = [] ∨ g.file = [] ∧ g.ecosystem = f.ecosystem ∧ g.package = f.package)

theorem isText_str {s t : Str} : isText s (.str t) = true ↔ t = s := decide_eq_true_iff

theorem truthy_str {s : Str} : (Json.str s).truthy = true ↔ s ≠ [] := decide_eq_true_iff

theorem suppressed_eq_true {findings : List Finding} {f : Finding} :
    suppressed (findings.map recordedKey) f = true ↔
      ∃ g ∈ findings, g.ruleId = f.ruleId ∧
        (g.file ≠ [] ∧ g.fingerprint = f.fingerprint ∨
          (g.package ≠ [] ∧ g.file = []) ∧ g.ecosystem = f.ecosystem ∧ g.package = f.package ∨
            g.package = []) := by
  simp only [suppressed, exactMatches, ruleEcosystemPkg, ruleOnly, recordedKey,
    LoadedKey.ofFingerprint, Finding.fingerprint, List.filter_map, List.any_map, Bool.or_eq_true,
    List.any_eq_true, List.mem_filter, Function.comp_apply, Bool.and_eq_true, Bool.not_eq_true',
    ← Bool.not_eq_true, isText_str, truthy_str, not_not, Prod.mk.injEq]
  constructor
  · rintro ((⟨g,⟨hg,hfile⟩,⟨⟨hrule,heco⟩,hpkg⟩,hsame⟩ | ⟨g,⟨hg,hempty⟩,⟨hrule,heco⟩,hpkg⟩) |
      ⟨g,⟨hg,hpkg⟩,hrule⟩)
    · exact ⟨g, hg, hrule, .inl ⟨hfile, hrule, heco, hpkg, hsame⟩⟩
    · exact ⟨g, hg, hrule, .inr (.inl ⟨hempty, heco, hpkg⟩)⟩
    · exact ⟨g, hg, hrule, .inr (.inr hpkg)⟩
  · rintro ⟨g,hg,hrule,⟨hfile,-,heco,hpkg,hsame⟩ | ⟨hempty,heco,hpkg⟩ | hpkg⟩
    · exact .inl (.inl ⟨g, ⟨hg, hfile⟩, ⟨⟨hrule, heco⟩, hpkg⟩, hsame⟩)
    · exact .inl (.inr ⟨g, ⟨hg, hempty⟩, ⟨hrule, heco⟩, hpkg⟩)
    · exact .inr ⟨g, ⟨hg, hpkg⟩, hrule⟩

theorem suppressed_iff {r : ScanResult} {f : Finding} :
    suppressed (r.findings.map recordedKey) f = true ↔ Known r f ∨ Overmatched r f := by
  rw [suppressed_eq_true, Known, List.mem_map]
  constructor
  · rintro ⟨g,hg,hrule,⟨-,hsame⟩ | ⟨⟨-,hfile⟩,heco,hpkg⟩ | hpkg⟩
    · exact .inl ⟨g, hg, hsame⟩
    · exact .inr ⟨g, hg, hrule, .inr ⟨hfile, heco, hpkg⟩⟩
    · exact .inr ⟨g, hg, hrule, .inl hpkg⟩
  · rintro (⟨g,hg,hsame⟩ | ⟨g,hg,hrule,hpkg | ⟨hfile,heco,hpkg⟩⟩)
    · obtain ⟨hrule,heco,hpkg,-⟩ : g.ruleId = f.ruleId ∧ g.ecosystem = f.ecosystem ∧
          g.package = f.package ∧ g.file = f.file := by simpa [Finding.fingerprint] using hsame
      refine ⟨g, hg, hrule, ?_⟩
      by_cases hfile : g.file = []
      · by_cases hempty : g.package = []
        · exact .inr (.inr hempty)
        · exact .inr (.inl ⟨⟨hempty, hfile⟩, heco, hpkg⟩)
      · exact .inl ⟨hfile, hsame⟩
    · exact ⟨g, hg, hrule, .inr (.inr hpkg)⟩
    · refine ⟨g, hg, hrule, ?_⟩
      by_cases hempty : g.package = []
      · exact .inr (.inr hempty)
      · exact .inr (.inl ⟨⟨hempty, hfile⟩, heco, hpkg⟩)

theorem suppressed_perm {findings findings' : List Finding} (h : findings.Perm findings') (f : Finding) :
    suppressed (findings.map recordedKey) f = suppressed (findings'.map recordedKey) f := by
  rw [Bool.eq_iff_iff, suppressed_eq_true, suppressed_eq_true]
  simp only [h.mem_iff]

theorem filter_eq_filter_iff {α : Type} {p q : α → Bool} {xs : List α} :
    xs.filter p = xs.filter q ↔ ∀ x ∈ xs, p x = q x := by
  refine ⟨fun h x hx => ?_, List.filter_congr⟩
  have hmem : x ∈ xs.filter p ↔ x ∈ xs.filter q := by rw [h]
  simp only [List.mem_filter, hx, true_and] at hmem
  exact Bool.eq_iff_iff.mpr hmem

theorem baseline_exact_iff (U : Unicode) (sha256 : Str → Str) (r current : ScanResult)
    (h : r.WellFormed) (text : Str) (ht : r.toJson sha256 false = some text) :
    (∃ fps, loadBaseline U text = some fps ∧
      (applyBaseline current fps).remaining = current.findings.filter fun f => ¬Known r f) ↔
      ∀ f ∈ current.findings, ¬Known r f → ¬Overmatched r f := by
  have hperm := perm_ascending Finding.sortKey r.findings
  have hsup : ∀ f, (!suppressed ((ScanResult.sortedFindings r.findings).map recordedKey) f) =
      decide (¬Known r f) ↔ (¬Known r f → ¬Overmatched r f) := by
    intro f
    rw [ScanResult.sortedFindings, suppressed_perm hperm, Bool.eq_iff_iff, Bool.not_eq_true',
      ← Bool.not_eq_true, suppressed_iff, decide_eq_true_eq]
    tauto
  simp only [loadBaseline_toJson h ht, Option.some.injEq, exists_eq_left', applyBaseline,
    filter_eq_filter_iff, hsup]

end Exact

section Recorded

def noLockfile (package : Str) : Finding where
  ruleId := "L2-LOCK-001".toList
  severity := .high
  confidence := .exact
  package := package
  file := "package.json".toList
  message := "Package has 1 dependencies but no lockfile".toList
  evidence := "dependencies present, no lockfile found".toList
  remediation := "Commit a lockfile.".toList

def resultOf (findings : List Finding) : ScanResult where
  target := "/project".toList
  findings := findings
  scannerVersion := "8.0.0".toList

theorem wellFormed_resultOf (findings : List Finding) : (resultOf findings).WellFormed where
  intel := List.forall_mem_nil _
  policy := fun _ h => absurd h (Option.some_ne_none _).symm
  behavior := fun _ h => absurd h (Option.some_ne_none _).symm

theorem exists_toJson (findings : List Finding) :
    ∃ text, (resultOf findings).toJson (fun _ => []) false = some text := by
  have hintel : ScanResult.sortedIntel ((resultOf findings).shownIntel false) = some [] := rfl
  rw [ScanResult.toJson, ScanResult.sortedDict, hintel, Option.map_some, Option.map_some]
  exact ⟨_, rfl⟩

theorem baseline_keeps_new_finding :
    ∃ text, (resultOf [noLockfile "web".toList]).toJson (fun _ => []) false = some text ∧
      ∃ fps, loadBaseline Unicode.basic text = some fps ∧
        (applyBaseline (resultOf [noLockfile "web".toList, noLockfile "api".toList])
            fps).remaining =
          (resultOf [noLockfile "web".toList, noLockfile "api".toList]).findings.filter
            fun f => ¬Known (resultOf [noLockfile "web".toList]) f := by
  obtain ⟨text,ht⟩ := exists_toJson [noLockfile "web".toList]
  refine ⟨text, ht, (baseline_exact_iff _ _ _ _ (wellFormed_resultOf _) text ht).mpr ?_⟩
  rintro f _ _ ⟨g,hg,_,hempty⟩
  obtain rfl := List.mem_singleton.mp hg
  rcases hempty with h | ⟨h,_⟩ <;> cases h

-- The recorded finding is of a package.json whose name is the empty text.
theorem unnamed_package_hides_rule :
    ∃ text, (resultOf [noLockfile []]).toJson (fun _ => []) false = some text ∧
      ¬∃ fps, loadBaseline Unicode.basic text = some fps ∧
        (applyBaseline (resultOf [noLockfile "web".toList]) fps).remaining =
          (resultOf [noLockfile "web".toList]).findings.filter
            fun f => ¬Known (resultOf [noLockfile []]) f := by
  obtain ⟨text,ht⟩ := exists_toJson [noLockfile []]
  refine ⟨text, ht, ?_⟩
  rw [loadBaseline_toJson (wellFormed_resultOf _) ht]
  rintro ⟨fps,hfps,hremaining⟩
  cases hfps
  exact absurd hremaining (by decide)

end Recorded

end PicoSentry.Scan.Models
