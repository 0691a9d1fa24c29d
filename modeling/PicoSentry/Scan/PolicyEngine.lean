import Mathlib.Tactic.Tauto
import PicoSentry.Foundation.Dict
import PicoSentry.Scan.Typosquat

namespace PicoSentry.Scan.PolicyEngine

open Foundation
open Typosquat (sortedNames)

inductive Severity where
  | critical
  | high
  | medium
  | low
  | info
  deriving DecidableEq, Repr

def Severity.value : Severity → Str
  | .critical => "CRITICAL".toList
  | .high => "HIGH".toList
  | .medium => "MEDIUM".toList
  | .low => "LOW".toList
  | .info => "INFO".toList

def severityOrder : Dict Str Nat :=
  [("critical".toList, 0), ("high".toList, 1), ("medium".toList, 2), ("low".toList, 3),
   ("info".toList, 4)]

structure Finding where
  ruleId : Str
  severity : Severity
  package : Str
  deriving DecidableEq, Repr

structure Waiver where
  id : Str
  ruleId : Str
  package : Str
  expires : Str
  deriving DecidableEq, Repr

structure Policy where
  failOnSeverity : Str := "high".toList
  failOnRules : List Str := []
  allowLicenses : List Str := []
  denyLicenses : List Str := []
  denyPackages : List Str := []
  requireLockfile : Bool := true
  requireIntegrity : Bool := true
  requireProvenance : Bool := false
  updatesEnabled : Bool := true
  updatesAllowedSources : List Str := []
  updatesRequireIntegrity : Bool := true
  corpusRequireSignature : Bool := true
  waivers : List Waiver := []
  deriving DecidableEq, Repr

inductive ViolationType where
  | severity
  | license
  | denyPackage
  | requirement
  deriving DecidableEq, Repr

structure PolicyViolation where
  violationType : ViolationType
  severity : Str
  message : Str
  detail : Dict Str Str
  deriving DecidableEq, Repr

structure PolicyResult where
  passed : Bool
  violations : List PolicyViolation
  waivedFindings : Nat
  expiredWaivers : List Str
  policyDigest : Str
  deriving DecidableEq, Repr

structure Target where
  packageLock : Bool
  pnpmLock : Bool
  yarnLock : Bool
  deriving DecidableEq, Repr

structure Runtime where
  unicode : Unicode
  isExpired : Str → Bool
  digest : Policy → Str
  listOfSet : Finset Str → List Str
  mem_listOfSet : ∀ (s : Finset Str) (x : Str), x ∈ listOfSet s ↔ x ∈ s

def error : Str := "ERROR".toList

def warning : Str := "WARNING".toList

def beforeLast (c : Char) (s : Str) : Str := ((s.reverse.dropWhile (· ≠ c)).drop 1).reverse

def parsePackageName (pkg : Str) : Str :=
  match pkg with
  | '@' :: rest => if '@' ∈ rest then beforeLast '@' pkg else pkg
  | _ => pkg.takeWhile (· ≠ '@')

def pep503Normalize (U : Unicode) (name : Str) : Str := U.lowerStr (collapseSeparators false name)

def Waiver.matches (w : Waiver) (ruleId package : Str) : Bool :=
  w.ruleId = ruleId &&
    (parsePackageName w.package = ['*'] || parsePackageName w.package = parsePackageName package ||
      w.package = package)

namespace Policy

variable (env : Runtime) (p : Policy)

def getActiveWaivers : List Waiver := p.waivers.filter fun w => !env.isExpired w.expires

def isFindingWaived (ruleId package : Str) : Bool :=
  (p.getActiveWaivers env).any fun w => w.matches ruleId package

def licenseViolation (pkg lic : Str) : Option PolicyViolation :=
  let lower := env.unicode.lowerStr (env.unicode.strip lic)
  if p.denyLicenses = [] then none
  else
    match p.denyLicenses.find? fun denied => env.unicode.lowerStr denied = lower with
    | some denied =>
      some
        { violationType := .license
          severity := error
          message := "Package '".toList ++ pkg ++ "' uses denied license '".toList ++ lic ++
            "'".toList
          detail := [("package".toList, pkg), ("license".toList, lic), ("denied".toList, denied)] }
    | none =>
      if p.allowLicenses ≠ [] ∧ ∀ a ∈ p.allowLicenses, env.unicode.lowerStr a ≠ lower then
        some
          { violationType := .license
            severity := warning
            message := "Package '".toList ++ pkg ++ "' license '".toList ++ lic ++
              "' not in allow list".toList
            detail := [("package".toList, pkg), ("license".toList, lic)] }
      else none

def sortItems (items : Dict Str Str) : Dict Str Str :=
  items.mergeSort fun a b => decide (toLex a ≤ toLex b)

def checkLicenses (packageLicenses : Dict Str Str) : List PolicyViolation :=
  (sortItems packageLicenses).filterMap fun item => p.licenseViolation env item.1 item.2

def deniedMap : Dict Str Str :=
  p.denyPackages.foldl
    (fun d denied =>
      d.setDefault (pep503Normalize env.unicode (parsePackageName denied)) denied) []

def checkPackages (installedPackages : Finset Str) : List PolicyViolation :=
  (sortedNames installedPackages).filterMap fun pkg =>
    ((p.deniedMap env).get? (pep503Normalize env.unicode (parsePackageName pkg))).map fun matched =>
      { violationType := .denyPackage
        severity := error
        message := "Package '".toList ++ pkg ++ "' is on the deny list".toList
        detail := [("package".toList, pkg), ("denied".toList, matched)] }

def lockfileViolations (target : Target) : List PolicyViolation :=
  if p.requireLockfile ∧ ¬(target.packageLock ∨ target.pnpmLock ∨ target.yarnLock) then
    [{ violationType := .requirement
       severity := warning
       message := "No lockfile found — dependency versions are not pinned".toList
       detail := [("required".toList, "lockfile".toList)] }]
  else []

def integrityViolations (target : Target) : List PolicyViolation :=
  if p.requireIntegrity ∧ ¬target.packageLock ∧ ¬target.pnpmLock then
    [{ violationType := .requirement
       severity := warning
       message := "No npm/pnpm lockfile — cannot verify package integrity".toList
       detail := [("required".toList, "integrity".toList)] }]
  else []

def checkRequirements (target : Target) : List PolicyViolation :=
  p.lockfileViolations target ++ p.integrityViolations target

def failLevel : Nat :=
  (severityOrder.get? (env.unicode.lowerStr p.failOnSeverity)).getD 1

def findingLevel (f : Finding) : Nat :=
  (severityOrder.get? (env.unicode.lowerStr f.severity.value)).getD 4

def findingDetail (f : Finding) : Dict Str Str :=
  [("rule_id".toList, f.ruleId), ("package".toList, f.package),
   ("severity".toList, f.severity.value)]

def findingViolation (f : Finding) : Option PolicyViolation :=
  if f.ruleId ∈ p.failOnRules then
    some
      { violationType := .severity
        severity := error
        message := "Finding violates fail-on rule: ".toList ++ f.ruleId
        detail := findingDetail f }
  else if findingLevel env f ≤ p.failLevel env then
    some
      { violationType := .severity
        severity := f.severity.value
        message := "Finding at or above fail-on severity (".toList ++ p.failOnSeverity ++ ")".toList
        detail := findingDetail f }
  else none

def waived (findings : List Finding) : List Finding :=
  findings.filter fun f => p.isFindingWaived env f.ruleId f.package

def checkFindings (findings : List Finding) : List PolicyViolation :=
  (findings.filter fun f => !p.isFindingWaived env f.ruleId f.package).filterMap
    (p.findingViolation env)

def apply (findings : List Finding) (target : Target) (packageLicenses : Option (Dict Str Str))
    (installedPackages : Option (Finset Str)) : PolicyResult :=
  let violations :=
    p.checkFindings env findings ++ p.checkLicenses env (packageLicenses.getD []) ++
      p.checkPackages env (installedPackages.getD ∅) ++ p.checkRequirements target
  { passed := violations.isEmpty
    violations := violations
    waivedFindings := (p.waived env findings).length
    expiredWaivers := (p.waivers.filter fun w => env.isExpired w.expires).map Waiver.id
    policyDigest := env.digest p }

def Fails (findings : List Finding) (target : Target) (packageLicenses : Option (Dict Str Str))
    (installedPackages : Option (Finset Str)) : Prop :=
  (p.apply env findings target packageLicenses installedPackages).passed = false

def FindingFails (f : Finding) : Prop :=
  f.ruleId ∈ p.failOnRules ∨ findingLevel env f ≤ p.failLevel env

def LicenseFails (lic : Str) : Prop :=
  let lower := env.unicode.lowerStr (env.unicode.strip lic)
  p.denyLicenses ≠ [] ∧
    ((∃ denied ∈ p.denyLicenses, env.unicode.lowerStr denied = lower) ∨
      p.allowLicenses ≠ [] ∧ ∀ a ∈ p.allowLicenses, env.unicode.lowerStr a ≠ lower)

def PackageFails (pkg : Str) : Prop :=
  ∃ denied ∈ p.denyPackages, pep503Normalize env.unicode (parsePackageName denied) =
    pep503Normalize env.unicode (parsePackageName pkg)

def LockfileFails (target : Target) : Prop :=
  p.requireLockfile = true ∧ ¬(target.packageLock ∨ target.pnpmLock ∨ target.yarnLock)

def IntegrityFails (target : Target) : Prop :=
  p.requireIntegrity = true ∧ ¬target.packageLock ∧ ¬target.pnpmLock

section Spec

variable {env p}

theorem isSome_findingViolation (f : Finding) :
    (p.findingViolation env f).isSome ↔ p.FindingFails env f := by
  rw [findingViolation, FindingFails]
  split
  · next h => simp [h]
  · next h =>
    split
    · next hl => simp [hl]
    · next hl => simp [h, hl]

theorem isSome_licenseViolation (pkg lic : Str) :
    (p.licenseViolation env pkg lic).isSome ↔ p.LicenseFails env lic := by
  simp only [licenseViolation, LicenseFails]
  split
  · next h => simp [h]
  · next h =>
    split
    · next denied hd =>
      have hmem := List.mem_of_find?_eq_some hd
      have heq := List.find?_some hd
      simp only [decide_eq_true_eq] at heq
      simp only [Option.isSome_some, true_iff]
      exact ⟨h, .inl ⟨denied, hmem, heq⟩⟩
    · next hd =>
      have hnone : ¬∃ denied ∈ p.denyLicenses,
          env.unicode.lowerStr denied = env.unicode.lowerStr (env.unicode.strip lic) := by
        rintro ⟨denied,hmem,heq⟩
        exact List.find?_eq_none.mp hd denied hmem (by simpa using heq)
      split
      · next ha =>
        simp only [Option.isSome_some, true_iff]
        exact ⟨h, .inr ha⟩
      · next ha =>
        simp only [Option.isSome_none, Bool.false_eq_true, false_iff]
        rintro ⟨_,hbad | hbad⟩
        · exact hnone hbad
        · exact ha hbad

theorem isSome_get?_deniedMap (name : Str) :
    ((p.deniedMap env).get? name).isSome ↔
      ∃ denied ∈ p.denyPackages, pep503Normalize env.unicode (parsePackageName denied) = name := by
  have hfold : ∀ (ds : List Str) (d : Dict Str Str),
      ((ds.foldl (fun d denied =>
        d.setDefault (pep503Normalize env.unicode (parsePackageName denied)) denied) d).get?
          name).isSome ↔
      (∃ denied ∈ ds, pep503Normalize env.unicode (parsePackageName denied) = name) ∨
        (d.get? name).isSome := by
    intro ds
    induction ds with
    | nil => simp
    | cons denied ds ih =>
      intro d
      rw [List.foldl_cons, ih, Dict.isSome_get?_setDefault]
      simp only [List.mem_cons, exists_eq_or_imp]
      rw [or_left_comm, or_assoc]
  rw [deniedMap, hfold]
  simp [Dict.get?]

theorem filterMap_ne_nil {α β : Type} {f : α → Option β} {xs : List α} :
    xs.filterMap f ≠ [] ↔ ∃ x ∈ xs, (f x).isSome := by
  simp only [ne_eq, List.filterMap_eq_nil_iff, not_forall, Option.isSome_iff_ne_none, exists_prop]

theorem checkFindings_ne_nil (hw : p.waivers = []) (findings : List Finding) :
    p.checkFindings env findings ≠ [] ↔ ∃ f ∈ findings, p.FindingFails env f := by
  have hall : findings.filter (fun f => !p.isFindingWaived env f.ruleId f.package) = findings := by
    apply List.filter_eq_self.mpr
    intro f _
    simp [isFindingWaived, getActiveWaivers, hw]
  rw [checkFindings, hall, filterMap_ne_nil]
  simp only [isSome_findingViolation]

theorem checkLicenses_ne_nil (items : Dict Str Str) :
    p.checkLicenses env items ≠ [] ↔ ∃ item ∈ items, p.LicenseFails env item.2 := by
  rw [checkLicenses, filterMap_ne_nil]
  simp only [isSome_licenseViolation, sortItems, List.mem_mergeSort]

theorem checkPackages_ne_nil (installed : Finset Str) :
    p.checkPackages env installed ≠ [] ↔ ∃ pkg ∈ installed, p.PackageFails env pkg := by
  rw [checkPackages, filterMap_ne_nil]
  simp only [Option.isSome_map, isSome_get?_deniedMap, Typosquat.mem_sortedNames, PackageFails]

theorem lockfileViolations_ne_nil (target : Target) :
    p.lockfileViolations target ≠ [] ↔ p.LockfileFails target := by
  rw [lockfileViolations]
  split
  · next h => exact ⟨fun _ => h, fun _ => List.cons_ne_nil _ _⟩
  · next h => exact ⟨fun hne => absurd rfl hne, fun hf => absurd hf h⟩

theorem integrityViolations_ne_nil (target : Target) :
    p.integrityViolations target ≠ [] ↔ p.IntegrityFails target := by
  rw [integrityViolations]
  split
  · next h => exact ⟨fun _ => h, fun _ => List.cons_ne_nil _ _⟩
  · next h => exact ⟨fun hne => absurd rfl hne, fun hf => absurd hf h⟩

theorem fails_iff (hw : p.waivers = []) (findings : List Finding) (target : Target)
    (licenses : Option (Dict Str Str)) (installed : Option (Finset Str)) :
    p.Fails env findings target licenses installed ↔
      (∃ f ∈ findings, p.FindingFails env f) ∨
      (∃ item ∈ licenses.getD [], p.LicenseFails env item.2) ∨
      (∃ pkg ∈ installed.getD ∅, p.PackageFails env pkg) ∨
      p.LockfileFails target ∨ p.IntegrityFails target := by
  rw [← checkFindings_ne_nil hw, ← checkLicenses_ne_nil, ← checkPackages_ne_nil,
    ← lockfileViolations_ne_nil, ← integrityViolations_ne_nil]
  simp only [Fails, apply, checkRequirements, List.isEmpty_eq_false_iff, ne_eq,
    List.append_eq_nil_iff]
  tauto

end Spec

end Policy

end PicoSentry.Scan.PolicyEngine
