import PicoSentry.Firewall.VerdictCache
import PicoSentry.Foundation.SortedBy
import PicoSentry.Scan.EcosystemDetection

namespace PicoSentry.Firewall.RuleFailures

open Foundation VerdictCache
open Scan.EcosystemDetection (Tree detectEcosystems)

-- The files that scan_metadata writes, by what it fills them from.
inductive Written where
  | npm (manifest : Dict Str Json)
  | pypi (safeName version : Str) (info : Dict Str Json)

def Written.tree : Written → Tree
  | .npm _ => fun path => if path = [] then some [{ name := "package.json".toList }] else none
  | .pypi _ _ _ => fun path =>
    if path = [] then
      some [{ name := "pyproject.toml".toList }, { name := "requirements.txt".toList },
        { name := "pypi_metadata.json".toList }, { name := "node_modules".toList, isDir := true }]
    else none

-- What a rule function comes to: its findings, the type and text of its exception, or the timebox.
inductive Outcome where
  | findings (fs : List Finding)
  | raised (error : Str)
  | timedOut
  deriving DecidableEq

inductive Status where
  | ok
  | timeout
  | failed
  deriving DecidableEq, Repr

structure RuleExecution where
  ruleId : Str
  status : Status
  findingsCount : Nat
  error : Option Str
  deriving DecidableEq

structure ScanResult where
  findings : List Finding
  ruleExecutions : List RuleExecution

-- The rule ids with the functions behind them, and whether the engine raises before it runs one.
structure Registry where
  rules : Dict Str Nat
  run : Nat → Written → Outcome
  setupRaises : Written → Bool

section Selection

def crossEcosystemRules : List Str :=
  ["L2-TYPO-001".toList, "L2-DEPC-001".toList, "L2-ADV-001".toList, "L2-BUILD-001".toList]

def npmPrefixes : List Str :=
  ["L2-POST-".toList, "L2-OBFS-".toList, "L2-MANI-".toList, "L2-NETEX-".toList, "L2-CRED-".toList,
   "L2-LOCK-".toList, "L2-BUND-".toList, "L2-BUILD-".toList, "L2-PROV-".toList, "L2-MAINT-".toList,
   "L2-PNPM-".toList, "L2-LICENSE-".toList, "L2-ENGIN-".toList, "L2-SIDELOAD-".toList, "L2-IOC-".toList,
   "L2-WORM-".toList, "L2-FORK-".toList, "L2-DEPC-".toList, "L2-TYPO-".toList, "L2-ADV-".toList,
   "L2-CAMP-".toList, "L2-INTEL-".toList, "L2-VCONF-".toList]

structure EcosystemFilter where
  ecosystem : Str
  prefixes : List Str
  cross : List Str

def ecosystemFilters : List EcosystemFilter :=
  [⟨"npm".toList, npmPrefixes, crossEcosystemRules⟩, ⟨"pypi".toList, ["L2-PYPI-".toList], []⟩,
   ⟨"go".toList, ["L2-GO-".toList], []⟩, ⟨"cargo".toList, ["L2-CARGO-".toList], []⟩,
   ⟨"maven".toList, ["L2-MAVEN-".toList], []⟩, ⟨"rubygems".toList, ["L2-RUBYGEMS-".toList], []⟩,
   ⟨"nuget".toList, ["L2-NUGET-".toList], []⟩]

def EcosystemFilter.keeps (f : EcosystemFilter) (ruleId : Str) : Bool :=
  f.cross.contains ruleId || !f.prefixes.any fun p => p.isPrefixOf ruleId

def artifactRuleExclusions : List Str :=
  ["L2-LOCK-001".toList, "L2-PNPM-001".toList, "L2-DEPC-001".toList, "L2-PYPI-DEPC-001".toList]

namespace Registry

variable (reg : Registry)

def withoutArtifactRules : Registry := { reg with rules := artifactRuleExclusions.foldl Dict.erase reg.rules }

def selectedRules (w : Written) : Dict Str Nat :=
  ecosystemFilters.foldl (fun selected f =>
    if (detectEcosystems w.tree).contains f.ecosystem then selected
    else selected.filter fun p => f.keeps p.1) reg.rules

end Registry

end Selection

section Loop

def fnToRuleIds (selected : List (Str × Nat)) : Dict Nat (List Str) :=
  selected.foldl (fun groups p => groups.set p.2 ((groups.get? p.2).getD [] ++ [p.1])) []

def ruleGroups (selected : List (Str × Nat)) : List (Nat × List Str) :=
  ascending (fun group => group.2.headD []) (fnToRuleIds selected)

def timeboxText : Str := "exceeded 5.0s timebox".toList

def Outcome.status : Outcome → Status
  | .findings _ => .ok
  | .raised _ => .failed
  | .timedOut => .timeout

def Outcome.reported : Outcome → List Finding
  | .findings fs => fs
  | _ => []

def Outcome.execution (ruleId : Str) : Outcome → RuleExecution
  | .findings fs => ⟨ruleId, .ok, fs.countP fun f => f.ruleId = ruleId, none⟩
  | .raised error => ⟨ruleId, .failed, 0, some error⟩
  | .timedOut => ⟨ruleId, .timeout, 0, some timeboxText⟩

namespace Registry

variable (reg : Registry)

def runGroup (w : Written) (state : ScanResult) (group : Nat × List Str) : ScanResult :=
  let outcome := reg.run group.1 w
  ⟨state.findings ++ outcome.reported,
    state.ruleExecutions ++ group.2.map fun ruleId => outcome.execution ruleId⟩

-- The result is none where the scan as a whole raises.
def scan (w : Written) : Option ScanResult :=
  if reg.setupRaises w then none
  else if reg.selectedRules w = [] then some ⟨[], []⟩
  else some ((ruleGroups (reg.selectedRules w)).foldl (reg.runGroup w) ⟨[], []⟩)

def engine : ScanEngine where
  scanNpm manifest := (reg.scan (.npm manifest)).map ScanResult.findings
  scanPypi safeName version info := (reg.scan (.pypi safeName version info)).map ScanResult.findings

end Registry

end Loop

section Groups

variable {selected : List (Str × Nat)}

theorem fnToRuleIds_concat (selected : List (Str × Nat)) (p : Str × Nat) : fnToRuleIds (selected ++ [p]) =
    (fnToRuleIds selected).set p.2 (((fnToRuleIds selected).get? p.2).getD [] ++ [p.1]) := by
  rw [fnToRuleIds, List.foldl_append]
  rfl

theorem mem_keys_fnToRuleIds {fn : Nat} : fn ∈ (fnToRuleIds selected).keys ↔ fn ∈ selected.map Prod.snd := by
  induction selected using List.reverseRecOn with
  | nil => exact Iff.rfl
  | append_singleton selected p ih =>
    rw [fnToRuleIds_concat, Dict.mem_keys_set, ih, List.map_append, List.mem_append, List.map_singleton,
      List.mem_singleton]

theorem getD_fnToRuleIds (selected : List (Str × Nat)) (fn : Nat) :
    ((fnToRuleIds selected).get? fn).getD [] = (selected.filter fun p => p.2 = fn).map Prod.fst := by
  induction selected using List.reverseRecOn with
  | nil => rfl
  | append_singleton selected p ih =>
    rw [fnToRuleIds_concat, Dict.get?_set, List.filter_append, List.map_append]
    by_cases hfn : p.2 = fn
    · rw [if_pos hfn, Option.getD_some, hfn, ih, List.filter_cons_of_pos (by simpa using hfn)]
      rfl
    · rw [if_neg hfn, ih, List.filter_cons_of_neg (by simpa using hfn)]
      exact (List.append_nil _).symm

theorem group_fn {group : Nat × List Str} (h : group ∈ ruleGroups selected) : group.1 ∈ selected.map Prod.snd := by
  have hmem := (perm_ascending _ _).mem_iff.mp h
  exact mem_keys_fnToRuleIds.mp (List.mem_map_of_mem hmem)

theorem exists_group {p : Str × Nat} (h : p ∈ selected) : ∃ ids, (p.2, ids) ∈ ruleGroups selected ∧ p.1 ∈ ids := by
  obtain ⟨ids,hget⟩ := Dict.exists_get?_of_mem_keys (mem_keys_fnToRuleIds.mpr (List.mem_map_of_mem h))
  refine ⟨ids, (perm_ascending _ _).mem_iff.mpr (Dict.mem_of_get? hget), ?_⟩
  have hids := getD_fnToRuleIds selected p.2
  rw [hget, Option.getD_some] at hids
  rw [hids]
  exact List.mem_map_of_mem (List.mem_filter.mpr ⟨h, decide_eq_true rfl⟩)

end Groups

namespace Registry

variable (reg : Registry) (w : Written)

section Records

theorem findings_runGroups (state : ScanResult) (groups : List (Nat × List Str)) :
    (groups.foldl (reg.runGroup w) state).findings =
      state.findings ++ groups.flatMap fun group => (reg.run group.1 w).reported := by
  induction groups generalizing state with
  | nil => exact (List.append_nil _).symm
  | cons group groups ih => rw [List.foldl_cons, ih, runGroup, List.flatMap_cons, List.append_assoc]

variable {reg w} {result : ScanResult}

theorem scan_eq (h : reg.scan w = some result) :
    result = (ruleGroups (reg.selectedRules w)).foldl (reg.runGroup w) ⟨[], []⟩ := by
  rw [scan] at h
  split at h
  · cases h
  · split at h
    · next hnone =>
      cases h
      rw [hnone]
      rfl
    · exact (Option.some.inj h).symm

theorem mem_findings_iff (h : reg.scan w = some result) {f : Finding} :
    f ∈ result.findings ↔ ∃ p ∈ reg.selectedRules w, f ∈ (reg.run p.2 w).reported := by
  rw [scan_eq h, findings_runGroups, List.nil_append, List.mem_flatMap]
  constructor
  · rintro ⟨group,hgroup,hf⟩
    obtain ⟨p,hp,heq⟩ := List.mem_map.mp (group_fn hgroup)
    exact ⟨p, hp, heq ▸ hf⟩
  · rintro ⟨p,hp,hf⟩
    obtain ⟨ids,hgroup,-⟩ := exists_group hp
    exact ⟨_, hgroup, hf⟩

theorem scan_eq_none_iff : reg.scan w = none ↔ reg.setupRaises w = true := by
  rw [scan]
  split
  · next hsetup => exact ⟨fun _ => hsetup, fun _ => rfl⟩
  · next hsetup =>
    refine ⟨fun h => ?_, fun h => absurd h hsetup⟩
    split at h <;> cases h

end Records

end Registry

section Verdict

variable (scanner : FirewallScanner) (reg : Registry)

def scannerOver : FirewallScanner := { scanner with engine := reg.withoutArtifactRules.engine }

def written (request : Request) (manifest : Dict Str Json) : Option Written :=
  if request.ecosystem = "npm".toList then some (.npm manifest)
  else if request.ecosystem = "pypi".toList then
    (scanner.sanitizePypiName request.name).map fun safeName => .pypi safeName request.version manifest
  else none

structure Scans (store : FirewallScanner.Store) (call : FirewallScanner.Call) (manifest : Dict Str Json)
    (w : Written) : Prop where
  miss : (store.lookup call.request call.start).1 = none
  resolved : extractVersionManifest call.metadata call.request.version = .ok (some manifest)
  files : written scanner call.request manifest = some w

def Completes (w : Written) : Prop :=
  ∀ p ∈ reg.withoutArtifactRules.selectedRules w, (reg.run p.2 w).status = .ok

def Flagged (w : Written) : Prop :=
  ∃ p ∈ reg.withoutArtifactRules.selectedRules w, ∃ f ∈ (reg.run p.2 w).reported,
    scanner.unicode.upperStr f.severity ∈ scanner.blockSevs ∨ scanner.unicode.upperStr f.severity ∈ scanner.quarantineSevs

def NotAllowed (store : FirewallScanner.Store) (call : FirewallScanner.Call) : Prop :=
  (∀ fs, (scanner.scanMetadata store call).1 ≠ .ok (.allow, fs)) ∧
    ∀ expiresAt fs, (scanner.scanMetadata store call).2.get? call.request ≠ some (expiresAt, .allow, fs)

variable {scanner reg} {store : FirewallScanner.Store} {call : FirewallScanner.Call} {manifest : Dict Str Json}
  {w : Written}

theorem verdict_allow_iff (fs : List Finding) : scanner.verdictFromFindings fs = .allow ↔
    ¬∃ f ∈ fs, scanner.unicode.upperStr f.severity ∈ scanner.blockSevs ∨
      scanner.unicode.upperStr f.severity ∈ scanner.quarantineSevs := by
  rw [FirewallScanner.verdictFromFindings]
  split
  · next hblock =>
    obtain ⟨f,hf,hsev⟩ := List.any_eq_true.mp hblock
    exact ⟨fun h => FirewallVerdict.noConfusion h, fun h => absurd ⟨f, hf, .inl (of_decide_eq_true hsev)⟩ h⟩
  · next hblock =>
    split
    · next hquarantine =>
      obtain ⟨f,hf,hsev⟩ := List.any_eq_true.mp hquarantine
      exact ⟨fun h => FirewallVerdict.noConfusion h, fun h => absurd ⟨f, hf, .inr (of_decide_eq_true hsev)⟩ h⟩
    · next hquarantine =>
      refine ⟨fun _ => ?_, fun _ => rfl⟩
      rintro ⟨f,hf,hsev | hsev⟩
      · exact hblock (List.any_eq_true.mpr ⟨f, hf, decide_eq_true hsev⟩)
      · exact hquarantine (List.any_eq_true.mpr ⟨f, hf, decide_eq_true hsev⟩)

theorem scanManifest_written {request : Request} (h : written scanner request manifest = some w) :
    (scannerOver scanner reg).scanManifest request manifest =
      match (reg.withoutArtifactRules.scan w).map ScanResult.findings with
      | none => ((.block, []), false)
      | some fs => ((scanner.verdictFromFindings fs, fs), true) := by
  rw [written] at h
  rw [FirewallScanner.scanManifest]
  split at h
  · next hnpm =>
    cases h
    rw [if_pos hnpm]
    rfl
  · next hnpm =>
    split at h
    · next hpypi =>
      obtain ⟨safeName,hname,rfl⟩ := Option.map_eq_some_iff.mp h
      have hname : (scannerOver scanner reg).sanitizePypiName request.name = some safeName := hname
      rw [if_neg hnpm, if_pos hpypi, hname]
      rfl
    · cases h

theorem flagged_iff {result : ScanResult} (h : reg.withoutArtifactRules.scan w = some result) :
    scanner.verdictFromFindings result.findings ≠ .allow ↔ Flagged scanner reg w := by
  rw [ne_eq, verdict_allow_iff, not_not, Flagged]
  constructor
  · rintro ⟨f,hf,hsev⟩
    obtain ⟨p,hp,hreported⟩ := (Registry.mem_findings_iff h).mp hf
    exact ⟨p, hp, f, hreported, hsev⟩
  · rintro ⟨p,hp,f,hreported,hsev⟩
    exact ⟨f, (Registry.mem_findings_iff h).mpr ⟨p, hp, hreported⟩, hsev⟩

theorem scanMetadata_scans (h : Scans scanner store call manifest w) :
    (scannerOver scanner reg).scanMetadata store call =
      match (reg.withoutArtifactRules.scan w).map ScanResult.findings with
      | none => (.ok (.block, []), (store.lookup call.request call.start).2)
      | some fs =>
        match (store.lookup call.request call.start).2.insert scanner.maxEntries call.request
            (scanner.verdictFromFindings fs, fs) (call.finish + scanner.ttlSeconds) with
        | .error e => (.error e, (store.lookup call.request call.start).2)
        | .ok store => (.ok (scanner.verdictFromFindings fs, fs), store) := by
  have hlookup : store.lookup call.request call.start = (none, (store.lookup call.request call.start).2) :=
    Prod.ext h.miss rfl
  rw [FirewallScanner.scanMetadata, hlookup]
  dsimp only
  rw [h.resolved]
  dsimp only
  rw [scanManifest_written h.files]
  cases (reg.withoutArtifactRules.scan w).map ScanResult.findings with
  | none => rfl
  | some fs => rfl

theorem notAllowed_iff (h : Scans scanner store call manifest w) :
    NotAllowed (scannerOver scanner reg) store call ↔ reg.setupRaises w = true ∨
      (scanner.maxEntries = 0 ∧ (store.lookup call.request call.start).2 = []) ∨ Flagged scanner reg w := by
  have hgone := TtlCache.get?_lookup_miss h.miss
  have hsetup : reg.withoutArtifactRules.scan w = none ↔ reg.setupRaises w = true := Registry.scan_eq_none_iff
  rw [NotAllowed, scanMetadata_scans h]
  cases hscan : reg.withoutArtifactRules.scan w with
  | none =>
    refine ⟨fun _ => .inl (hsetup.mp hscan), fun _ => ⟨fun fs heq => ?_, fun expiresAt fs hget => ?_⟩⟩
    · cases heq
    · cases hgone.symm.trans hget
  | some result =>
    have hraises : reg.setupRaises w ≠ true := fun hraises => by cases (hsetup.mpr hraises).symm.trans hscan
    have hok := TtlCache.insert_isOk_iff scanner.maxEntries (store.lookup call.request call.start).2
      call.request (scanner.verdictFromFindings result.findings, result.findings) (call.finish + scanner.ttlSeconds)
    rw [Option.map_some, or_iff_right hraises]
    dsimp only
    cases hinsert : (store.lookup call.request call.start).2.insert scanner.maxEntries call.request
        (scanner.verdictFromFindings result.findings, result.findings) (call.finish + scanner.ttlSeconds) with
    | error e =>
      rw [hinsert] at hok
      have hempty : scanner.maxEntries = 0 ∧ (store.lookup call.request call.start).2 = [] :=
        not_not.mp fun hne => by obtain ⟨_,heq⟩ := hok.mpr hne; cases heq
      refine ⟨fun _ => .inl hempty, fun _ => ⟨fun fs heq => ?_, fun expiresAt fs hget => ?_⟩⟩
      · cases heq
      · cases hgone.symm.trans hget
    | ok store' =>
      have hstored := TtlCache.get?_insert_self hinsert
      rw [or_iff_right (hok.mp ⟨store', hinsert⟩), ← flagged_iff hscan]
      constructor
      · intro hnot hallow
        exact hnot.1 result.findings (by rw [hallow])
      · refine fun hverdict => ⟨fun fs heq => ?_, fun expiresAt fs hget => ?_⟩
        · exact hverdict (Prod.mk.inj (Except.ok.inj heq)).1
        · have hentry := Option.some.inj (hstored.symm.trans hget)
          exact hverdict (Prod.mk.inj (Prod.mk.inj hentry).2).1

theorem failed_rule_never_allows_iff (h : Scans scanner store call manifest w) :
    (¬Completes reg w → NotAllowed (scannerOver scanner reg) store call) ↔
      Completes reg w ∨ reg.setupRaises w = true ∨
        (scanner.maxEntries = 0 ∧ (store.lookup call.request call.start).2 = []) ∨ Flagged scanner reg w := by
  rw [notAllowed_iff h, ← or_iff_not_imp_left]

theorem selectedRules_of_kept (h : ∀ p ∈ reg.rules, ∀ f ∈ ecosystemFilters, f.keeps p.1 = true) (w : Written) :
    reg.selectedRules w = reg.rules := by
  have hfold : ∀ filters : List EcosystemFilter, (∀ p ∈ reg.rules, ∀ f ∈ filters, f.keeps p.1 = true) →
      filters.foldl (fun selected f =>
        if (detectEcosystems w.tree).contains f.ecosystem then selected
        else selected.filter fun p => f.keeps p.1) reg.rules = reg.rules := by
    intro filters hkept
    induction filters with
    | nil => rfl
    | cons f filters ih =>
      have hself : reg.rules.filter (fun p => f.keeps p.1) = reg.rules :=
        List.filter_eq_self.mpr fun p hp => hkept p hp f List.mem_cons_self
      rw [List.foldl_cons, hself, ite_self]
      exact ih fun p hp f hf => hkept p hp f (List.mem_cons_of_mem _ hf)
  exact hfold ecosystemFilters h

end Verdict

section Failing

-- The typosquat rule raises, whatever the manifest, and the advisory rule reports these findings.
def raisingRegistry (fs : List Finding) : Registry where
  rules := [("L2-TYPO-001".toList, 0), ("L2-ADV-001".toList, 1)]
  run fn _ := if fn = 0 then .raised "TypeError: unhashable type: 'dict'".toList else .findings fs
  setupRaises _ := false

theorem selectedRules_raising (fs : List Finding) (w : Written) :
    (raisingRegistry fs).withoutArtifactRules.selectedRules w = (raisingRegistry fs).rules := by
  have hrules : (raisingRegistry fs).withoutArtifactRules.rules = (raisingRegistry fs).rules := rfl
  have hkept : ∀ p ∈ [("L2-TYPO-001".toList, 0), ("L2-ADV-001".toList, 1)], ∀ f ∈ ecosystemFilters,
      f.keeps p.1 = true := by
    decide +kernel
  rw [selectedRules_of_kept (hrules ▸ hkept), hrules]

theorem scans_raising : Scans wormScanner [] (fetch "2.0.0" wormRelease 0) [("preinstall".toList, .str "worm".toList)]
    (.npm [("preinstall".toList, .str "worm".toList)]) where
  miss := rfl
  resolved := rfl
  files := rfl

theorem not_completes_raising (fs : List Finding) (w : Written) : ¬Completes (raisingRegistry fs) w := by
  intro h
  have hselected := selectedRules_raising fs w
  cases h ("L2-TYPO-001".toList, 0) (hselected ▸ List.mem_cons_self)

theorem flagged_package_not_allowed :
    NotAllowed (scannerOver wormScanner (raisingRegistry [wormFinding])) [] (fetch "2.0.0" wormRelease 0) := by
  refine (failed_rule_never_allows_iff scans_raising).mpr ?_ (not_completes_raising [wormFinding] _)
  refine .inr (.inr (.inr ⟨("L2-ADV-001".toList, 1), ?_, wormFinding, List.mem_singleton_self _, by decide⟩))
  rw [selectedRules_raising]
  exact .tail _ (.head _)

theorem raising_rule_allows :
    ¬Completes (raisingRegistry []) (.npm [("preinstall".toList, .str "worm".toList)]) ∧
    ¬NotAllowed (scannerOver wormScanner (raisingRegistry [])) [] (fetch "2.0.0" wormRelease 0) := by
  have hselected := selectedRules_raising [] (.npm [("preinstall".toList, .str "worm".toList)])
  refine ⟨not_completes_raising [] _, fun h => ?_⟩
  rcases (notAllowed_iff scans_raising).mp h with h | h | ⟨p,hp,f,hf,-⟩
  · cases h
  · exact absurd h.1 (by decide)
  · rw [hselected] at hp
    rcases List.mem_cons.mp hp with rfl | hp
    · cases hf
    · rw [List.mem_singleton.mp hp] at hf
      cases hf

end Failing

end PicoSentry.Firewall.RuleFailures
