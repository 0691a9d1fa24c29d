import PicoSentry.Foundation.FirstOf
import PicoSentry.Scan.Models
import PicoSentry.Scan.OsvEvaluation

namespace PicoSentry.Scan.AdvisoryFindings

open Foundation Advisories Models

structure AdvisoryConfig where
  ecosystem : Str
  ruleId : Str
  deriving DecidableEq

def ecosystems : List AdvisoryConfig :=
  [⟨"npm".toList, "L2-ADV-001".toList⟩, ⟨"go".toList, "L2-GO-ADV-001".toList⟩,
   ⟨"cargo".toList, "L2-CARGO-ADV-001".toList⟩, ⟨"pypi".toList, "L2-PYPI-ADV-001".toList⟩,
   ⟨"maven".toList, "L2-MAVEN-ADV-001".toList⟩, ⟨"nuget".toList, "L2-NUGET-ADV-001".toList⟩,
   ⟨"rubygems".toList, "L2-RUBYGEMS-ADV-001".toList⟩]

structure Installed where
  name : Str
  version : Str
  label : Str
  source : Str
  deriving DecidableEq

structure Target where
  isDir : Bool
  importMap : Dict Str (List Str)

section Reachable

variable (U : Unicode)

def packageInImports (pkgName ecosystem : Str) (imports : List Str) : Bool :=
  if ecosystem = "pypi".toList then
    let normalized := U.lowerStr (pkgName.map fun c => if c = '-' ∨ c = '.' then '_' else c)
    decide (normalized ∈ imports) || decide (normalized.takeWhile (· ≠ '_') ∈ imports)
  else if ecosystem = "npm".toList then
    if pkgName.head? = some '@' then decide (U.lowerStr pkgName ∈ imports)
    else decide (U.lowerStr (pkgName.takeWhile (· ≠ '/')) ∈ imports)
  else decide (pkgName ∈ imports)

def isPackageReachable (target : Target) (pkgName ecosystem : Str) : Bool :=
  if target.isDir then
    match Dict.get? target.importMap ecosystem with
    | none => true
    | some imports => packageInImports U pkgName ecosystem imports
  else true

end Reachable

section Findings

variable (U : Unicode)

def severityText : Severity → Str
  | .critical => "CRITICAL".toList
  | .high => "HIGH".toList
  | .medium => "MEDIUM".toList
  | .low => "LOW".toList

def findingSeverity : Severity → PolicyEngine.Severity
  | .critical => .critical
  | .high => .high
  | .medium => .medium
  | .low => .low

def orElse (text other : Str) : Str := if text = [] then other else text

def advisoryFinding (target : Target) (config : AdvisoryConfig) (pkg : Installed)
    (adv : Advisory) : Finding :=
  let fixedHint := if adv.fixedVersion = [] then []
    else " Upgrade to >= ".toList ++ adv.fixedVersion ++ ".".toList
  { ruleId := config.ruleId
    severity := findingSeverity adv.severity
    confidence := .high
    package := pkg.label
    file := pkg.source
    message := adv.id ++ ": ".toList ++ adv.summary
    evidence := "advisory=".toList ++ adv.id ++ ", severity=".toList ++ severityText adv.severity ++
      ", fixed=".toList ++ orElse adv.fixedVersion "N/A".toList
    remediation := "Vulnerability in ".toList ++ pkg.name ++ "@".toList ++ pkg.version ++
      ".".toList ++ fixedHint ++ " See ".toList ++
      adv.references.head?.getD "advisory database".toList ++ " for details.".toList
    references := adv.references.take 5
    ecosystem := config.ecosystem
    reachable := isPackageReachable U target pkg.name config.ecosystem }

structure Checked where
  findings : List Finding := []
  reported : List (Str × Str) := []

def reportAdvisory (target : Target) (config : AdvisoryConfig) (pkg : Installed) (state : Checked)
    (adv : Advisory) : Checked :=
  if (adv.id, pkg.label) ∈ state.reported then state
  else ⟨state.findings ++ [advisoryFinding U target config pkg adv],
    state.reported ++ [(adv.id, pkg.label)]⟩

def checkPackages (target : Target) (packages : List Installed) (db : AdvisoryDB)
    (config : AdvisoryConfig) : List Finding :=
  (packages.foldl (fun state pkg =>
    (db.check U pkg.name pkg.version).foldl (reportAdvisory U target config pkg) state) {}).findings

end Findings

section Hits

variable (U : Unicode)

def reaches (pkg : Installed) (adv : Advisory) : Bool :=
  decide (normalizeName U adv.packageName = normalizeName U pkg.name) &&
    versionAffected U pkg.version adv

def hitsOf (files : List (List OsvRecord)) (pkg : Installed) : List (Installed × Advisory) :=
  ((files.flatten.flatMap (fromOsv U)).filter (reaches U pkg)).map fun adv => (pkg, adv)

def hits (files : List (List OsvRecord)) (packages : List Installed) :
    List (Installed × Advisory) :=
  packages.flatMap (hitsOf U files)

def reportKey (hit : Installed × Advisory) : Str × Str := (hit.2.id, hit.1.label)

variable {U}

theorem check_load (files : List (List OsvRecord)) (pkg : Installed) :
    AdvisoryDB.check U (AdvisoryDB.load U [] files) pkg.name pkg.version =
      (files.flatten.flatMap (fromOsv U)).filter (reaches U pkg) := by
  have hflat : (files.flatMap fun entries => entries.flatMap (fromOsv U)) =
      files.flatten.flatMap (fromOsv U) := by
    induction files with
    | nil => rfl
    | cons entries files ih => rw [List.flatMap_cons, ih, List.flatten_cons, List.flatMap_append]
  simp only [AdvisoryDB.check, AdvisoryDB.load, get?_index, Dict.get?, Option.getD_none,
    List.nil_append, List.filter_filter, hflat]
  exact List.filter_congr fun adv _ => Bool.and_comm _ _

theorem foldl_reportAdvisory (target : Target) (config : AdvisoryConfig) (pkg : Installed)
    (advs : List Advisory) (state : Checked) :
    advs.foldl (reportAdvisory U target config pkg) state =
      let kept := firstOf reportKey state.reported (advs.map fun adv => (pkg, adv))
      ⟨state.findings ++ kept.map fun hit => advisoryFinding U target config hit.1 hit.2,
        state.reported ++ kept.map reportKey⟩ := by
  induction advs generalizing state with
  | nil => simp [firstOf]
  | cons adv advs ih =>
    rw [List.foldl_cons, ih, reportAdvisory, List.map_cons, firstOf]
    by_cases h : (adv.id, pkg.label) ∈ state.reported
    · simp [reportKey, h]
    · simp [reportKey, h]

theorem foldl_packages (target : Target) (config : AdvisoryConfig) (files : List (List OsvRecord))
    (packages : List Installed) (state : Checked) :
    packages.foldl (fun state pkg =>
        (AdvisoryDB.check U (AdvisoryDB.load U [] files) pkg.name pkg.version).foldl
          (reportAdvisory U target config pkg) state) state =
      let kept := firstOf reportKey state.reported (hits U files packages)
      ⟨state.findings ++ kept.map fun hit => advisoryFinding U target config hit.1 hit.2,
        state.reported ++ kept.map reportKey⟩ := by
  induction packages generalizing state with
  | nil => simp [hits, firstOf]
  | cons pkg packages ih =>
    rw [List.foldl_cons, ih, check_load, foldl_reportAdvisory]
    simp only [hits, List.flatMap_cons, firstOf_append, List.map_append, List.append_assoc]
    rfl

theorem checkPackages_eq (target : Target) (files : List (List OsvRecord))
    (packages : List Installed) (config : AdvisoryConfig) :
    checkPackages U target packages (AdvisoryDB.load U [] files) config =
      (firstOf reportKey [] (hits U files packages)).map fun hit =>
        advisoryFinding U target config hit.1 hit.2 := by
  rw [checkPackages, foldl_packages]
  rfl

end Hits

section Justified

variable (U : Unicode) (own : Str → Str → Str) (target : Target) (files : List (List OsvRecord))
  (packages : List Installed) (config : AdvisoryConfig)

def OwnEntry (pkg : Installed) (affected : Affected) : Prop :=
  U.lowerStr (ecosystemKey U affected.ecosystem) = config.ecosystem ∧
    own config.ecosystem affected.name = own config.ecosystem pkg.name

def Justified (f : Finding) : Prop :=
  ∃ pkg ∈ packages, ∃ record ∈ files.flatten, ∃ affected ∈ record.affected,
    OwnEntry U own config pkg affected ∧ ∃ adv, entryAdvisory U record affected = some adv ∧
      versionAffected U pkg.version adv = true ∧ f = advisoryFinding U target config pkg adv

def FirstHit (pkg : Installed) (record : OsvRecord) (affected : Affected) (adv : Advisory) : Prop :=
  pkg ∈ packages ∧ record ∈ files.flatten ∧ affected ∈ record.affected ∧
    entryAdvisory U record affected = some adv ∧ reaches U pkg adv = true ∧
    First reportKey (pkg, adv) (hits U files packages)

variable {U own target files packages config}

theorem mem_hits_iff {pkg : Installed} {adv : Advisory} :
    (pkg, adv) ∈ hits U files packages ↔
      pkg ∈ packages ∧ (∃ record ∈ files.flatten, ∃ affected ∈ record.affected,
        entryAdvisory U record affected = some adv) ∧ reaches U pkg adv = true := by
  simp only [hits, hitsOf, List.mem_flatMap, List.mem_map, List.mem_filter, fromOsv,
    List.mem_filterMap, Prod.mk.injEq]
  constructor
  · rintro ⟨pkg',hpkg,adv',⟨hentry,hreach⟩,rfl,rfl⟩
    exact ⟨hpkg, hentry, hreach⟩
  · rintro ⟨hpkg,hentry,hreach⟩
    exact ⟨pkg, hpkg, adv, ⟨hentry, hreach⟩, rfl, rfl⟩

theorem affected_of_reaches {pkg : Installed} {adv : Advisory} (h : reaches U pkg adv = true) :
    versionAffected U pkg.version adv = true := (Bool.and_eq_true_iff.mp h).2

variable (U own target files packages config)

def upgradeText (adv : Advisory) : Str :=
  if adv.fixedVersion = [] then [] else " Upgrade to >= ".toList ++ adv.fixedVersion ++ ".".toList

structure SameReport (pkg : Installed) (adv : Advisory) (pkg' : Installed) (adv' : Advisory) : Prop where
  label : pkg.label = pkg'.label
  source : pkg.source = pkg'.source
  severity : adv.severity = adv'.severity
  summary : adv.id ++ ": ".toList ++ adv.summary = adv'.id ++ ": ".toList ++ adv'.summary
  fixed : adv.id ++ ", severity=".toList ++ severityText adv.severity ++ ", fixed=".toList ++
      orElse adv.fixedVersion "N/A".toList =
    adv'.id ++ ", severity=".toList ++ severityText adv'.severity ++ ", fixed=".toList ++
      orElse adv'.fixedVersion "N/A".toList
  advice : pkg.name ++ "@".toList ++ pkg.version ++ ".".toList ++ upgradeText adv ++ " See ".toList ++
      adv.references.head?.getD "advisory database".toList =
    pkg'.name ++ "@".toList ++ pkg'.version ++ ".".toList ++ upgradeText adv' ++ " See ".toList ++
      adv'.references.head?.getD "advisory database".toList
  references : adv.references.take 5 = adv'.references.take 5
  reachable : isPackageReachable U target pkg.name config.ecosystem =
    isPackageReachable U target pkg'.name config.ecosystem

def Vouched (pkg : Installed) (adv : Advisory) : Prop :=
  ∃ pkg' ∈ packages, ∃ record ∈ files.flatten, ∃ affected ∈ record.affected,
    OwnEntry U own config pkg' affected ∧ ∃ adv', entryAdvisory U record affected = some adv' ∧
      versionAffected U pkg'.version adv' = true ∧ SameReport U target config pkg adv pkg' adv'

variable {U own target files packages config}

theorem advisoryFinding_eq_iff {pkg pkg' : Installed} {adv adv' : Advisory} :
    advisoryFinding U target config pkg adv = advisoryFinding U target config pkg' adv' ↔
      SameReport U target config pkg adv pkg' adv' := by
  have hseverity : findingSeverity adv.severity = findingSeverity adv'.severity ↔
      adv.severity = adv'.severity := by
    cases adv.severity <;> cases adv'.severity <;> decide
  simp only [advisoryFinding, Finding.mk.injEq, hseverity, true_and, List.append_assoc,
    List.append_cancel_left_eq]
  constructor
  · rintro ⟨hseverity,hlabel,hsource,hsummary,hfixed,hadvice,hreferences,hreachable⟩
    refine ⟨hlabel, hsource, hseverity, ?_, ?_, ?_, hreferences, hreachable⟩
    · simpa only [List.append_assoc] using hsummary
    · simpa only [List.append_assoc] using hfixed
    · simp only [upgradeText, ← List.append_assoc] at hadvice ⊢
      exact List.append_cancel_right hadvice
  · rintro ⟨hlabel,hsource,hseverity,hsummary,hfixed,hadvice,hreferences,hreachable⟩
    refine ⟨hseverity, hlabel, hsource, ?_, ?_, ?_, hreferences, hreachable⟩
    · simpa only [List.append_assoc] using hsummary
    · simpa only [List.append_assoc] using hfixed
    · have hdetails := congrArg (· ++ " for details.".toList) hadvice
      simpa only [List.append_assoc, upgradeText] using hdetails

theorem justified_advisoryFinding {pkg : Installed} {adv : Advisory} :
    Justified U own target files packages config (advisoryFinding U target config pkg adv) ↔
      Vouched U own target files packages config pkg adv := by
  simp only [Justified, Vouched, advisoryFinding_eq_iff]

variable (U own target files packages config)

theorem findings_justified_iff :
    (∀ f ∈ checkPackages U target packages (AdvisoryDB.load U [] files) config,
      Justified U own target files packages config f) ↔
      ∀ pkg record affected adv, FirstHit U files packages pkg record affected adv →
        OwnEntry U own config pkg affected ∨ Vouched U own target files packages config pkg adv := by
  rw [checkPackages_eq, List.forall_mem_map]
  constructor
  · rintro h pkg record affected adv ⟨_,_,_,_,_,hfirst⟩
    exact .inr (justified_advisoryFinding.mp (h (pkg, adv) (mem_firstOf_iff.mpr ⟨List.not_mem_nil, hfirst⟩)))
  · rintro h ⟨pkg,adv⟩ hmem
    have hfirst := (mem_firstOf_iff.mp hmem).2
    obtain ⟨hpkg,⟨record,hrecord,affected,haffected,hadv⟩,hreach⟩ := mem_hits_iff.mp hfirst.mem
    rcases h pkg record affected adv ⟨hpkg, hrecord, haffected, hadv, hreach, hfirst⟩ with
      howns | hvouched
    · exact ⟨pkg, hpkg, record, hrecord, affected, haffected, howns, adv, hadv,
        affected_of_reaches hreach, rfl⟩
    · exact justified_advisoryFinding.mpr hvouched

end Justified

section Foreign

def fixedInTwo (ecosystem name : Str) : Affected where
  ecosystem := ecosystem
  name := name
  ranges := [[⟨.introduced, "1.0.0".toList⟩, ⟨.fixed, "2.0.0".toList⟩]]

def installed (name : Str) : Installed where
  name := name
  version := "1.5.0".toList
  label := name ++ "@1.5.0".toList
  source := "package.json".toList

def npm : AdvisoryConfig := ⟨"npm".toList, "L2-ADV-001".toList⟩

def noSources : Target := ⟨false, []⟩

theorem justified_single {U : Unicode} {own : Str → Str → Str} {target : Target}
    {affected : Affected} {pkg : Installed} {config : AdvisoryConfig} {f : Finding}
    (h : Justified U own target [[recordOf affected]] [pkg] config f) :
    OwnEntry U own config pkg affected := by
  obtain ⟨pkg',hpkg,record,hrecord,affected',haffected,howns,_⟩ := h
  obtain rfl := List.mem_singleton.mp hpkg
  obtain rfl : record = recordOf affected := by simpa using hrecord
  obtain rfl := List.mem_singleton.mp haffected
  exact howns

-- A PyPI advisory for `requests`, and an npm one for `lodash-merge`, against npm packages.
theorem foreign_advisories_reported :
    (¬∃ own, ∀ f ∈ checkPackages Unicode.basic noSources [installed "requests".toList]
        (AdvisoryDB.load Unicode.basic [] [[recordOf (fixedInTwo "PyPI".toList
          "requests".toList)]]) npm,
      Justified Unicode.basic own noSources [[recordOf (fixedInTwo "PyPI".toList
        "requests".toList)]] [installed "requests".toList] npm f) ∧
    ¬∀ f ∈ checkPackages Unicode.basic noSources [installed "lodash.merge".toList]
        (AdvisoryDB.load Unicode.basic [] [[recordOf (fixedInTwo "npm".toList
          "lodash-merge".toList)]]) npm,
      Justified Unicode.basic (fun _ name => name) noSources [[recordOf (fixedInTwo "npm".toList
        "lodash-merge".toList)]] [installed "lodash.merge".toList] npm f := by
  have hpypi : checkPackages Unicode.basic noSources [installed "requests".toList]
      (AdvisoryDB.load Unicode.basic [] [[recordOf (fixedInTwo "PyPI".toList
        "requests".toList)]]) npm ≠ [] := by decide +kernel
  have hmerge : checkPackages Unicode.basic noSources [installed "lodash.merge".toList]
      (AdvisoryDB.load Unicode.basic [] [[recordOf (fixedInTwo "npm".toList
        "lodash-merge".toList)]]) npm ≠ [] := by decide +kernel
  constructor
  · rintro ⟨own,h⟩
    obtain ⟨f,hf⟩ := List.exists_mem_of_ne_nil _ hpypi
    exact absurd (justified_single (h f hf)).1 (by decide +kernel)
  · intro h
    obtain ⟨f,hf⟩ := List.exists_mem_of_ne_nil _ hmerge
    exact absurd (justified_single (h f hf)).2 (by decide)

end Foreign

end PicoSentry.Scan.AdvisoryFindings
