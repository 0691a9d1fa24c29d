import PicoSentry.Foundation.JsonDict
import PicoSentry.Scan.PolicyBundle
import PicoSentry.Scan.PolicyLifecycle

namespace PicoSentry.Scan.PolicyMigration

open Foundation
open CorpusShare (Record field isText)
open PolicyEngine (Policy Runtime Finding Target Severity)
open PolicyBundle (Env)

-- A policy document; a version that is given is an int.
structure Document where
  version : Option Int := none
  entries : Record := []

def Document.toJson (d : Document) : Json :=
  .obj (.ofList ((d.version.map fun version => ("version".toList, Json.int version)).toList ++ d.entries))

section Migrate

def defaults : Record :=
  [("fail_on_severity".toList, .str "medium".toList), ("fail_on_rules".toList, .arr .nil),
   ("allow_licenses".toList, .arr .nil), ("deny_licenses".toList, .arr .nil),
   ("deny_packages".toList, .arr .nil), ("require".toList, .obj .nil), ("waivers".toList, .arr .nil)]

def setDefaults (d : Record) (defaults : Record) : Record :=
  defaults.foldl (fun d entry => d.setDefault entry.1 entry.2) d

def moveFlag (d : Record) (flag : String) : Except PyError Record :=
  match d.get? flag.toList with
  | none => .ok d
  | some value =>
    let rest := d.erase flag.toList
    match d.get? "require".toList with
    | none => .ok (rest.set "require".toList (.obj (.cons flag.toList value .nil)))
    | some (.obj fields) =>
      if flag.toList ∈ Dict.keys fields.toList then .ok d
      else .ok (rest.set "require".toList (.obj (.ofList (Dict.set fields.toList flag.toList value))))
    | some (.arr items) => if items.toList.any (isText flag) then .ok d else .error .typeError
    | some (.str s) => if flag.toList <:+: s then .ok d else .error .typeError
    | some _ => .error .typeError

def migratePolicy (d : Document) (fromVersion : Int) : Except PyError Document :=
  if (if fromVersion = 0 then d.version.getD 0 else fromVersion) < 1 then do
    let entries ← ["lockfile", "integrity", "provenance"].foldlM moveFlag (setDefaults d.entries defaults)
    return { version := some 1, entries := entries }
  else .ok { d with version := some 1 }

end Migrate

section Decisions

def decisionWaiver (w : PolicyBundle.Waiver) : Option PolicyEngine.Waiver := do
  let id ← w.id.text?
  let ruleId ← w.ruleId.text?
  let package ← w.package.text?
  let expires ← w.expires.text?
  return { id := id, ruleId := ruleId, package := package, expires := expires }

def decisionWaivers (ws : List PolicyBundle.Waiver) : Option (List PolicyEngine.Waiver) :=
  ws.mapM decisionWaiver

def decisionPolicy (p : PolicyBundle.Policy) : Option Policy := do
  let failOnSeverity ← p.failOnSeverity.text?
  let failOnRules ← p.failOnRules.texts?
  let requireLockfile ← p.requireLockfile.bool?
  let requireIntegrity ← p.requireIntegrity.bool?
  let requireProvenance ← p.requireProvenance.bool?
  let waivers ← decisionWaivers p.waivers
  return {
    failOnSeverity := failOnSeverity
    failOnRules := failOnRules
    allowLicenses := p.allowLicenses
    denyLicenses := p.denyLicenses
    denyPackages := p.denyPackages
    requireLockfile := requireLockfile
    requireIntegrity := requireIntegrity
    requireProvenance := requireProvenance
    waivers := waivers }

variable (env : Env)

def migrated (d : Document) : Option Policy :=
  match migratePolicy d 0 with
  | .error _ => none
  | .ok d' =>
    match PolicyBundle.Policy.fromDict env d'.toJson with
    | .error _ => none
    | .ok p => decisionPolicy p

def waivers? (j : Json) : Option (List PolicyEngine.Waiver) := do
  let records ← (← j.list?).mapM Json.dict?
  decisionWaivers (records.map PolicyBundle.Waiver.fromDict)

def statedPolicy (d : Document) : Option Policy :=
  if d.version.getD 0 < 1 ∧ d.entries.get? "fail_on".toList = none ∧ d.entries.get? "require".toList = none then do
    let failOnSeverity ← Json.optional Json.text? "medium".toList d.entries "fail_on_severity"
    let failOnRules ← Json.optional Json.texts? [] d.entries "fail_on_rules"
    let allowLicenses ← Json.optional Json.texts? [] d.entries "allow_licenses"
    let denyLicenses ← Json.optional Json.texts? [] d.entries "deny_licenses"
    let denyPackages ← Json.optional Json.texts? [] d.entries "deny_packages"
    let requireLockfile ← Json.optional Json.bool? true d.entries "lockfile"
    let requireIntegrity ← Json.optional Json.bool? true d.entries "integrity"
    let requireProvenance ← Json.optional Json.bool? false d.entries "provenance"
    let waivers ← Json.optional waivers? [] d.entries "waivers"
    return {
      failOnSeverity := failOnSeverity
      failOnRules := failOnRules
      allowLicenses := allowLicenses.map env.unicode.strip
      denyLicenses := denyLicenses.map env.unicode.strip
      denyPackages := denyPackages.map env.unicode.strip
      requireLockfile := requireLockfile
      requireIntegrity := requireIntegrity
      requireProvenance := requireProvenance
      waivers := waivers }
  else none

end Decisions

section Entries

theorem get?_setDefaults (d defaults : Record) (k : Str) :
    (setDefaults d defaults).get? k = (d.get? k).or (defaults.get? k) := by
  induction defaults generalizing d with
  | nil => simp [setDefaults, Dict.get?]
  | cons entry defaults ih =>
    rw [setDefaults, List.foldl_cons, ← setDefaults, ih, Dict.setDefault, Dict.get?]
    split
    · next hsome =>
      obtain ⟨value,hvalue⟩ := Option.isSome_iff_exists.mp hsome
      split
      · next hk =>
        rw [← hk, hvalue]
        rfl
      · rfl
    · next hnone =>
      rw [Option.not_isSome_iff_eq_none] at hnone
      rw [Dict.get?_set]
      split
      · next hk =>
        rw [← hk, hnone]
        rfl
      · rfl

structure Moved (d : Record) (fields : JsonFields) (flag : String) (d' : Record) (fields' : JsonFields) : Prop where
  require : d'.get? "require".toList = some (.obj fields')
  others : ∀ k, k ≠ flag.toList → k ≠ "require".toList → d'.get? k = d.get? k
  moved : Dict.get? fields'.toList flag.toList = (Dict.get? fields.toList flag.toList).or (d.get? flag.toList)
  kept : ∀ k, k ≠ flag.toList → Dict.get? fields'.toList k = Dict.get? fields.toList k

theorem moveFlag_moves {d : Record} {fields : JsonFields} (flag : String)
    (hrequire : d.get? "require".toList = some (.obj fields)) :
    ∃ d' fields', moveFlag d flag = .ok d' ∧ Moved d fields flag d' fields' := by
  rw [moveFlag, hrequire]
  cases hflag : d.get? flag.toList with
  | none =>
    exact ⟨d, fields, rfl, hrequire, fun _ _ _ => rfl, by rw [hflag, Option.or_none], fun _ _ => rfl⟩
  | some value =>
    dsimp only
    split
    · next hmem =>
      obtain ⟨own,hown⟩ := Dict.exists_get?_of_mem_keys hmem
      exact ⟨d, fields, rfl, hrequire, fun _ _ _ => rfl, by rw [hown]; rfl, fun _ _ => rfl⟩
    · next hnot =>
      refine ⟨_, _, rfl, Dict.get?_set_self _ _ _, fun k hk hr => ?_, ?_, fun k hk => ?_⟩
      · rw [Dict.get?_set, if_neg (Ne.symm hr), Dict.get?_erase, if_neg (Ne.symm hk)]
      · rw [Json.toList_ofList, Dict.get?_set_self, Dict.not_mem_keys_iff.mp hnot, hflag]
        rfl
      · rw [Json.toList_ofList, Dict.get?_set, if_neg (Ne.symm hk)]

structure Migrated (d : Record) (m : Record) : Prop where
  no_fail_on : m.get? "fail_on".toList = none
  updates : m.get? "updates".toList = d.get? "updates".toList
  lists : ∀ key ∈ ["allow_licenses", "deny_licenses", "deny_packages", "waivers"],
    m.get? key.toList = some ((d.get? key.toList).getD (.arr .nil))
  flags : ∃ fields, m.get? "require".toList = some (.obj fields) ∧
    ∀ flag ∈ ["lockfile", "integrity", "provenance"], Dict.get? fields.toList flag.toList = d.get? flag.toList

theorem migratePolicy_flat {d : Document} (hversion : d.version.getD 0 < 1)
    (hfailOn : d.entries.get? "fail_on".toList = none) (hrequire : d.entries.get? "require".toList = none) :
    ∃ m, migratePolicy d 0 = .ok { version := some 1, entries := m } ∧ Migrated d.entries m := by
  have hfilled := get?_setDefaults d.entries defaults
  have hstart : (setDefaults d.entries defaults).get? "require".toList = some (.obj .nil) := by
    rw [hfilled, hrequire]
    rfl
  obtain ⟨d₁,f₁,heq₁,h₁⟩ := moveFlag_moves "lockfile" hstart
  obtain ⟨d₂,f₂,heq₂,h₂⟩ := moveFlag_moves "integrity" h₁.require
  obtain ⟨d₃,f₃,heq₃,h₃⟩ := moveFlag_moves "provenance" h₂.require
  have hmoved : ∀ k, k ∉ ["lockfile".toList, "integrity".toList, "provenance".toList, "require".toList] →
      d₃.get? k = (d.entries.get? k).or (Dict.get? defaults k) := by
    intro k hk
    simp only [List.mem_cons, List.not_mem_nil, or_false, not_or] at hk
    rw [h₃.others k hk.2.2.1 hk.2.2.2, h₂.others k hk.2.1 hk.2.2.2, h₁.others k hk.1 hk.2.2.2, hfilled]
  refine ⟨d₃, ?_, ?_, ?_, ?_, f₃, h₃.require, ?_⟩
  · rw [migratePolicy, if_pos rfl, if_pos hversion]
    simp only [List.foldlM_cons, List.foldlM_nil, heq₁, heq₂, heq₃, bind, Except.bind, pure, Except.pure]
  · rw [hmoved _ (by decide), hfailOn]
    rfl
  · rw [hmoved _ (by decide)]
    exact Option.or_none
  · intro key hkey
    simp only [List.mem_cons, List.not_mem_nil, or_false] at hkey
    rcases hkey with rfl | rfl | rfl | rfl
    all_goals
      rw [hmoved _ (by decide)]
      cases Dict.get? d.entries _ <;> rfl
  · intro flag hflag
    have hflags : ∀ k, k ∈ ["lockfile".toList, "integrity".toList, "provenance".toList] →
        (setDefaults d.entries defaults).get? k = d.entries.get? k := by
      intro k hk
      rw [hfilled]
      simp only [List.mem_cons, List.not_mem_nil, or_false] at hk
      rcases hk with rfl | rfl | rfl <;> exact Option.or_none
    simp only [List.mem_cons, List.not_mem_nil, or_false] at hflag
    rcases hflag with rfl | rfl | rfl
    · rw [h₃.kept _ (by decide), h₂.kept _ (by decide), h₁.moved, hflags _ (by decide)]
      rfl
    · rw [h₃.kept _ (by decide), h₂.moved, h₁.kept _ (by decide), h₁.others _ (by decide) (by decide),
        hflags _ (by decide)]
      rfl
    · rw [h₃.moved, h₂.kept _ (by decide), h₁.kept _ (by decide), h₂.others _ (by decide) (by decide),
        h₁.others _ (by decide) (by decide), hflags _ (by decide)]
      rfl

end Entries

section Reading

variable {env : Env} {d m : Record} {key : String}

def asMigrated (m : Record) : Json := Document.toJson { version := some 1, entries := m }

theorem entry_asMigrated (m : Record) (hkey : "version".toList ≠ key.toList) :
    PolicyBundle.entry (asMigrated m) key = .ok (m.get? key.toList) := by
  rw [asMigrated, Document.toJson, PolicyBundle.entry, Json.toList_ofList]
  exact congrArg Except.ok (if_neg hkey)

theorem listEntry_asMigrated (hkey : "version".toList ≠ key.toList) {j : Json}
    (hget : m.get? key.toList = some j) :
    PolicyBundle.listEntry (asMigrated m) key = PolicyBundle.elements j := by
  rw [PolicyBundle.listEntry, entry_asMigrated m hkey, hget]
  rfl

theorem mapM_text {items : List Json} {ss : List Str} (h : items.mapM Json.text? = some ss) :
    items = ss.map .str := by
  induction items generalizing ss with
  | nil =>
    cases h
    rfl
  | cons j items ih =>
    rw [List.mapM_cons] at h
    obtain ⟨s,hs,hrest⟩ := Option.bind_eq_some_iff.mp h
    obtain ⟨rest,hitems,heq⟩ := Option.bind_eq_some_iff.mp hrest
    cases heq
    cases j <;> cases hs
    rw [ih hitems]
    rfl

theorem listEntry_texts (hkey : "version".toList ≠ key.toList) {ss : List Str}
    (hget : m.get? key.toList = some ((d.get? key.toList).getD (.arr .nil)))
    (h : Json.optional Json.texts? [] d key = some ss) :
    PolicyBundle.listEntry (asMigrated m) key = .ok (ss.map .str) := by
  rw [listEntry_asMigrated hkey hget]
  rw [Json.optional] at h
  cases hown : d.get? key.toList with
  | none =>
    rw [hown] at h
    cases h
    rfl
  | some j =>
    rw [hown] at h
    obtain ⟨items,hitems,htexts⟩ := Option.bind_eq_some_iff.mp h
    cases j <;> cases hitems
    exact congrArg Except.ok (mapM_text htexts)

theorem mapM_asRecord {items : List Json} {records : List Record} (h : items.mapM Json.dict? = some records) :
    items.mapM PolicyBundle.asRecord = .ok records := by
  induction items generalizing records with
  | nil =>
    cases h
    rfl
  | cons j items ih =>
    rw [List.mapM_cons] at h
    obtain ⟨record,hrecord,hrest⟩ := Option.bind_eq_some_iff.mp h
    obtain ⟨rest,hitems,heq⟩ := Option.bind_eq_some_iff.mp hrest
    cases heq
    cases j <;> cases hrecord
    rw [List.mapM_cons, ih hitems]
    rfl

theorem listEntry_waivers {ws : List PolicyEngine.Waiver}
    (hget : m.get? "waivers".toList = some ((d.get? "waivers".toList).getD (.arr .nil)))
    (h : Json.optional waivers? [] d "waivers" = some ws) :
    ∃ items records, PolicyBundle.listEntry (asMigrated m) "waivers" = .ok items ∧
      items.mapM PolicyBundle.asRecord = .ok records ∧
      decisionWaivers (records.map PolicyBundle.Waiver.fromDict) = some ws := by
  rw [listEntry_asMigrated (by decide) hget]
  rw [Json.optional] at h
  cases hown : d.get? "waivers".toList with
  | none =>
    rw [hown] at h
    cases h
    exact ⟨[], [], rfl, rfl, rfl⟩
  | some j =>
    rw [hown] at h
    obtain ⟨items,hitems,hread⟩ := Option.bind_eq_some_iff.mp h
    obtain ⟨records,hrecords,hws⟩ := Option.bind_eq_some_iff.mp hread
    cases j <;> cases hitems
    exact ⟨_, records, rfl, mapM_asRecord hrecords, hws⟩

theorem flag_field {fields : JsonFields} {default flag : Bool}
    (hfields : Dict.get? fields.toList key.toList = d.get? key.toList)
    (h : Json.optional Json.bool? default d key = some flag) :
    (field fields.toList key (.bool default)).bool? = some flag := by
  rw [field, hfields]
  rw [Json.optional] at h
  cases hown : d.get? key.toList with
  | none =>
    rw [hown] at h
    exact h
  | some j =>
    rw [hown] at h
    exact h

theorem migrated_of_stated {d : Document} {stated : Policy} (h : statedPolicy env d = some stated) :
    migrated env d = some { stated with failOnSeverity := "high".toList, failOnRules := [] } := by
  rw [statedPolicy] at h
  split at h
  · next hflat =>
    obtain ⟨hversion,hfailOn,hrequire⟩ := hflat
    simp only [Option.bind_eq_bind, Option.bind_eq_some_iff, Option.pure_def, Option.some.injEq] at h
    obtain ⟨severity,_,rules,_,allow,hallow,deny,hdeny,packages,hpackages,lockfile,hlockfile,integrity,
      hintegrity,provenance,hprovenance,waivers,hwaivers,rfl⟩ := h
    obtain ⟨m,hmigrate,hm⟩ := migratePolicy_flat hversion hfailOn hrequire
    obtain ⟨fields,hfields,hflags⟩ := hm.flags
    obtain ⟨items,records,hitems,hrecords,hread⟩ := listEntry_waivers (hm.lists "waivers" (by simp)) hwaivers
    have hallow' := listEntry_texts (by decide) (hm.lists "allow_licenses" (by simp)) hallow
    have hdeny' := listEntry_texts (by decide) (hm.lists "deny_licenses" (by simp)) hdeny
    have hpackages' := listEntry_texts (by decide) (hm.lists "deny_packages" (by simp)) hpackages
    have hempty : PolicyBundle.dictEntry (asMigrated m) "fail_on" = .ok [] := by
      rw [PolicyBundle.dictEntry, entry_asMigrated m (by decide), hm.no_fail_on]
      rfl
    have hrequired : PolicyBundle.dictEntry (asMigrated m) "require" = .ok fields.toList := by
      rw [PolicyBundle.dictEntry, entry_asMigrated m (by decide), hfields]
      rfl
    obtain ⟨updates,hupdates⟩ : ∃ updates, PolicyBundle.dictEntry (asMigrated m) "updates" = .ok updates := by
      rw [PolicyBundle.dictEntry, entry_asMigrated m (by decide)]
      exact ⟨_, rfl⟩
    have hstrip : ∀ ss : List Str, (ss.map Json.str).map (PolicyBundle.strip env) = ss.map env.unicode.strip := by
      intro ss
      rw [List.map_map]
      rfl
    rw [migrated, hmigrate]
    dsimp only
    rw [← asMigrated, PolicyBundle.Policy.fromDict, hempty, hallow', hdeny', hpackages', hrequired, hupdates, hitems]
    simp only [bind, Except.bind, hrecords, pure, Except.pure]
    simp only [decisionPolicy, hstrip, flag_field (hflags "lockfile" (by simp)) hlockfile,
      flag_field (hflags "integrity" (by simp)) hintegrity,
      flag_field (hflags "provenance" (by simp)) hprovenance, hread]
    rfl
  · cases h

end Reading

section Findings

variable {R : Runtime} {p : Policy}

theorem checkFindings_unwaived (findings : List Finding) : p.checkFindings R findings ≠ [] ↔
    ∃ f ∈ findings, p.isFindingWaived R f.ruleId f.package = false ∧ p.FindingFails R f := by
  rw [Policy.checkFindings, Policy.filterMap_ne_nil]
  simp only [Policy.isSome_findingViolation, List.mem_filter, Bool.not_eq_true', and_assoc]

def OtherFails (R : Runtime) (p : Policy) (target : Target) (licenses : Option (Dict Str Str))
    (installed : Option (Finset Str)) : Prop :=
  p.checkLicenses R (licenses.getD []) ≠ [] ∨ p.checkPackages R (installed.getD ∅) ≠ [] ∨
    p.checkRequirements target ≠ []

theorem fails_iff_unwaived (findings : List Finding) (target : Target) (licenses : Option (Dict Str Str))
    (installed : Option (Finset Str)) : p.Fails R findings target licenses installed ↔
      (∃ f ∈ findings, p.isFindingWaived R f.ruleId f.package = false ∧ p.FindingFails R f) ∨
        OtherFails R p target licenses installed := by
  rw [← checkFindings_unwaived, OtherFails]
  simp only [Policy.Fails, Policy.apply, List.isEmpty_eq_false_iff, ne_eq, List.append_eq_nil_iff]
  tauto

theorem fails_finding_iff_unwaived (f : Finding) : p.Fails R [f] PolicyLifecycle.lockedTarget none none ↔
    p.isFindingWaived R f.ruleId f.package = false ∧ p.FindingFails R f := by
  have hother : ¬OtherFails R p PolicyLifecycle.lockedTarget none none := by
    rw [OtherFails, Option.getD_none, Option.getD_none, Policy.checkLicenses_ne_nil, Policy.checkPackages_ne_nil,
      Policy.checkRequirements, Policy.lockfileViolations, Policy.integrityViolations]
    simp [PolicyLifecycle.lockedTarget]
  rw [fails_iff_unwaived, or_iff_left hother]
  simp only [List.mem_singleton, exists_eq_left]

theorem parsePackageName_fresh (n : Nat) : PolicyEngine.parsePackageName (freshStr n) = freshStr n := by
  cases n with
  | zero => rfl
  | succ n =>
    have hall : ∀ c ∈ freshStr (n + 1), decide (c ≠ '@') = true := by
      intro c hc
      rw [List.eq_of_mem_replicate hc]
      decide
    exact List.takeWhile_eq_self_iff.mpr hall

def WaivedEverywhere (R : Runtime) (p : Policy) (rule : Str) : Prop :=
  ∃ w ∈ p.getActiveWaivers R, w.ruleId = rule ∧ PolicyEngine.parsePackageName w.package = ['*']

theorem waivedEverywhere_iff (rule : Str) :
    WaivedEverywhere R p rule ↔ ∀ package, p.isFindingWaived R rule package = true := by
  simp only [Policy.isFindingWaived, List.any_eq_true, PolicyEngine.Waiver.matches, Bool.and_eq_true,
    Bool.or_eq_true, decide_eq_true_eq]
  constructor
  · rintro ⟨w,hw,hrule,hall⟩ package
    exact ⟨w, hw, hrule, .inl (.inl hall)⟩
  · intro h
    obtain ⟨n,hn⟩ := exists_fresh ((p.getActiveWaivers R).map (fun w => PolicyEngine.parsePackageName w.package) ++
      (p.getActiveWaivers R).map PolicyEngine.Waiver.package)
    rw [List.mem_append, not_or] at hn
    obtain ⟨w,hw,hrule,(hall | hname) | hpackage⟩ := h (freshStr n)
    · exact ⟨w, hw, hrule, hall⟩
    · rw [parsePackageName_fresh] at hname
      exact absurd (List.mem_map.mpr ⟨w, hw, hname⟩) hn.1
    · exact absurd (List.mem_map.mpr ⟨w, hw, hpackage⟩) hn.2

theorem not_waived_of_fresh {rule : Str} (h : rule ∉ (p.getActiveWaivers R).map PolicyEngine.Waiver.ruleId)
    (package : Str) : p.isFindingWaived R rule package = false := by
  rw [Policy.isFindingWaived, List.any_eq_false]
  intro w hw
  have hne : w.ruleId ≠ rule := fun heq => h (List.mem_map.mpr ⟨w, hw, heq⟩)
  simp [PolicyEngine.Waiver.matches, hne]

end Findings

section Migration

variable {R : Runtime} {env : Env} {stated : Policy}

def withDefaults (p : Policy) : Policy := { p with failOnSeverity := "high".toList, failOnRules := [] }

theorem failLevel_withDefaults (p : Policy) : (withDefaults p).failLevel R = 1 := by
  have hascii : ∀ c ∈ "high".toList, c.toNat < 128 := forall_mem_of_all (by decide)
  rw [Policy.failLevel, withDefaults, Unicode.lowerStr_ascii hascii]
  rfl

def Preserves (R : Runtime) (env : Env) (d : Document) (stated : Policy) : Prop :=
  ∃ p, migrated env d = some p ∧ p.requireLockfile = stated.requireLockfile ∧
    p.requireIntegrity = stated.requireIntegrity ∧ p.requireProvenance = stated.requireProvenance ∧
    ∀ findings target licenses installed, p.Fails R findings target licenses installed ↔
      stated.Fails R findings target licenses installed

theorem decides_withDefaults_iff :
    (∀ findings target licenses installed, (withDefaults stated).Fails R findings target licenses installed ↔
      stated.Fails R findings target licenses installed) ↔
    stated.failLevel R = 1 ∧ ∀ rule ∈ stated.failOnRules, WaivedEverywhere R stated rule := by
  have hwaived : ∀ rule package, (withDefaults stated).isFindingWaived R rule package =
      stated.isFindingWaived R rule package := fun _ _ => rfl
  have hfails : ∀ f, (withDefaults stated).FindingFails R f ↔ Policy.findingLevel R f ≤ 1 := by
    intro f
    rw [Policy.FindingFails, failLevel_withDefaults]
    exact or_iff_right List.not_mem_nil
  constructor
  · intro h
    have hfinding : ∀ f, stated.isFindingWaived R f.ruleId f.package = false →
        (Policy.findingLevel R f ≤ 1 ↔ stated.FindingFails R f) := by
      intro f hf
      have hsame := h [f] PolicyLifecycle.lockedTarget none none
      rw [fails_finding_iff_unwaived, fails_finding_iff_unwaived, hwaived, hfails] at hsame
      simpa [hf] using hsame
    constructor
    · obtain ⟨n,hn⟩ := exists_fresh (stated.failOnRules ++
        (stated.getActiveWaivers R).map PolicyEngine.Waiver.ruleId)
      rw [List.mem_append, not_or] at hn
      have hlevel : ∀ severity, Policy.findingLevel R ⟨freshStr n, severity, []⟩ ≤ 1 ↔
          Policy.findingLevel R ⟨freshStr n, severity, []⟩ ≤ stated.failLevel R := by
        intro severity
        rw [hfinding _ (not_waived_of_fresh hn.2 []), Policy.FindingFails]
        exact or_iff_right hn.1
      have hhigh := hlevel .high
      have hmedium := hlevel .medium
      rw [PolicyLifecycle.findingLevel_eq] at hhigh hmedium
      dsimp only at hhigh hmedium
      omega
    · intro rule hrule
      rw [waivedEverywhere_iff]
      intro package
      by_contra hnot
      have hinfo := (hfinding ⟨rule, .info, package⟩ (Bool.eq_false_iff.mpr hnot)).mpr (.inl hrule)
      rw [PolicyLifecycle.findingLevel_eq] at hinfo
      exact absurd hinfo (by simp)
  · rintro ⟨hlevel,hrules⟩ findings target licenses installed
    rw [fails_iff_unwaived, fails_iff_unwaived]
    have hother : OtherFails R (withDefaults stated) target licenses installed ↔
        OtherFails R stated target licenses installed := Iff.rfl
    rw [hother]
    refine or_congr_left (exists_congr fun f => and_congr_right fun _ => ?_)
    rw [hwaived, hfails, Policy.FindingFails, hlevel]
    refine and_congr_right fun hf => (or_iff_right fun hrule => ?_).symm
    have hall := (waivedEverywhere_iff f.ruleId).mp (hrules f.ruleId hrule) f.package
    rw [hf] at hall
    cases hall

theorem migration_preserves_iff (R : Runtime) (env : Env) (d : Document) (stated : Policy)
    (h : statedPolicy env d = some stated) : Preserves R env d stated ↔
      stated.failLevel R = 1 ∧ ∀ rule ∈ stated.failOnRules, WaivedEverywhere R stated rule := by
  rw [← decides_withDefaults_iff, Preserves, migrated_of_stated h]
  constructor
  · rintro ⟨p,⟨⟩,_,_,_,hdecides⟩
    exact hdecides
  · exact fun hdecides => ⟨_, rfl, rfl, rfl, rfl, hdecides⟩

def plainEnv : Env where
  unicode := .basic
  sha256 _ := []
  now := []
  crypto := ⟨none, none, none, none⟩
  str _ := []

def severityDocument (severity : String) : Document where
  entries := [("fail_on_severity".toList, .str severity.toList)]

def severityPolicy (severity : String) : Policy := { failOnSeverity := severity.toList }

theorem migration_preserves_high :
    Preserves PolicyLifecycle.plainRuntime plainEnv (severityDocument "high") (severityPolicy "high") := by
  have hlevel : (severityPolicy "high").failLevel PolicyLifecycle.plainRuntime = 1 := by decide
  exact (migration_preserves_iff PolicyLifecycle.plainRuntime plainEnv (severityDocument "high")
    (severityPolicy "high") rfl).mpr ⟨hlevel, fun _ hrule => absurd hrule List.not_mem_nil⟩

-- A policy that failed on medium findings passes them after its migration.
theorem medium_policy_relaxed :
    ¬∀ (R : Runtime) (env : Env) (d : Document) (stated : Policy), statedPolicy env d = some stated →
      Preserves R env d stated := by
  intro h
  obtain ⟨p,hp,_,_,_,hdecides⟩ := h PolicyLifecycle.plainRuntime plainEnv (severityDocument "medium")
    (severityPolicy "medium") rfl
  have hmigrated : migrated plainEnv (severityDocument "medium") = some (withDefaults (severityPolicy "medium")) :=
    migrated_of_stated rfl
  cases hmigrated.symm.trans hp
  exact absurd (decides_withDefaults_iff.mp hdecides).1 (by decide)

end Migration

end PicoSentry.Scan.PolicyMigration
