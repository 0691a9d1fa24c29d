import PicoSentry.Scan.ResultJson

namespace PicoSentry.Scan.Models

open Foundation Json
open PicoSentry.Scan.PolicyEngine (Severity severityOrder)

section Read

def severities : List Severity := [.critical, .high, .medium, .low, .info]

def severityOf (value : Str) : Option Severity := severities.find? fun s => s.value = value

def confidences : List Confidence := [.exact, .high, .medium, .low]

def confidenceOf (value : Str) : Option Confidence := confidences.find? fun c => c.value = value

def line? : Json → Option (Option Int)
  | .null => some none
  | .int n => some (some n)
  | _ => none

def evidence? : Json → Option (Option Json)
  | .null => some none
  | j => some (some j)

def counts? (j : Json) : Option (Dict Str Int) := do
  (← dict? j).mapM fun e => (int? e.2).map fun n => (e.1, n)

def findingNames : List Str :=
  ["rule_id".toList, "severity".toList, "confidence".toList, "ecosystem".toList, "package".toList,
   "file".toList, "line".toList, "message".toList, "evidence".toList, "remediation".toList,
   "reachable".toList, "references".toList]

def findingOf (j : Json) : Option Finding := do
  let d ← dict? j
  keywords findingNames d
  return {
    ruleId := ← required text? d "rule_id"
    severity := ← (← required text? d "severity") |> severityOf
    confidence := ← (← required text? d "confidence") |> confidenceOf
    package := ← required text? d "package"
    file := ← required text? d "file"
    message := ← required text? d "message"
    evidence := ← required text? d "evidence"
    remediation := ← required text? d "remediation"
    references := ← optional texts? [] d "references"
    line := ← optional line? none d "line"
    ecosystem := ← optional text? "npm".toList d "ecosystem"
    reachable := ← optional bool? true d "reachable" }

def executionNames : List Str :=
  ["rule_id".toList, "status".toList, "findings_count".toList, "files_scanned".toList,
   "duration_ms".toList, "error".toList]

def executionOf (j : Json) : Option RuleExecution := do
  let d ← dict? j
  keywords executionNames d
  return {
    ruleId := ← required text? d "rule_id"
    status := ← optional text? "success".toList d "status"
    durationMs := ← optional int? 0 d "duration_ms"
    error := ← optional text? [] d "error"
    filesScanned := ← optional int? 0 d "files_scanned"
    findingsCount := ← optional int? 0 d "findings_count" }

def statsNames : List Str :=
  ["packages_scanned".toList, "files_scanned".toList, "findings_by_severity".toList,
   "findings_by_rule".toList, "duration_ms".toList, "rule_timings_ms".toList]

def statsOf (d : Dict Str Json) : Option ScanStats := do
  keywords statsNames d
  return {
    packagesScanned := ← optional int? 0 d "packages_scanned"
    filesScanned := ← optional int? 0 d "files_scanned"
    durationMs := ← optional int? 0 d "duration_ms"
    findingsBySeverity := ← optional counts? [] d "findings_by_severity"
    findingsByRule := ← optional counts? [] d "findings_by_rule"
    ruleTimingsMs := ← optional counts? [] d "rule_timings_ms" }

-- `version` is the scanner's own __version__ and `target` the scanned path.
def scanResultFromCache (version target : Str) (cachedData : Json) : Option ScanResult := do
  let d ← dict? cachedData
  let stats ← optional dict? [] d "stats"
  let findings ← (← optional list? [] d "findings").mapM findingOf
  let ruleStatus ← optional dict? [] d "rule_status"
  let ruleExecutions ← (ruleStatus.map Prod.snd).mapM executionOf
  let audit ← optional dict? [] d "audit"
  let engineVersion ← optional text? version d "engine_version"
  let intel ← optional dict? [] d "package_intel"
  return {
    target := ← optional text? target d "target"
    engineVersion
    corpusVersion := ← optional text? [] d "corpus_version"
    findings
    stats := ← if stats = [] then some {} else statsOf stats
    ruleExecutions
    startedAt := ← optional text? [] audit "started_at"
    completedAt := ← optional text? [] audit "completed_at"
    configDigest := ← optional text? [] audit "config_digest"
    policyDigest := ← optional text? [] audit "policy_digest"
    scannerVersion := ← optional text? engineVersion audit "scanner_version"
    packageIntel := intel.map fun e => (.text e.1, e.2)
    behavioralEvidence := ← optional evidence? none d "behavioral_evidence"
    unscannableComponents := ← optional int? 0 d "unscannable_components" }

end Read

section ReadBack

theorem severityOf_value (severity : Severity) : severityOf severity.value = some severity := by
  cases severity <;> decide

theorem confidenceOf_value (confidence : Confidence) :
    confidenceOf confidence.value = some confidence := by
  cases confidence <;> decide

theorem line?_elim (line : Option Int) : line? (line.elim .null .int) = some line := by
  cases line <;> rfl

theorem findingOf_toDict (f : Finding) : findingOf f.toDict = some f := by
  have hnodup : (Dict.keys f.entries).Nodup := show findingNames.Nodup by decide
  have hread : ∀ (key : String) (s : Str), Dict.get? f.entries key.toList = some (some (.str s)) →
      required text? (Dict.present f.entries) key = some s :=
    fun _ _ hs => required_present hnodup hs
  have hid := hread "rule_id" f.ruleId rfl
  have hseverity := hread "severity" f.severity.value rfl
  have hconfidence := hread "confidence" f.confidence.value rfl
  have hpackage := hread "package" f.package rfl
  have hfile := hread "file" f.file rfl
  have hmessage := hread "message" f.message rfl
  have hevidence := hread "evidence" f.evidence rfl
  have hremediation := hread "remediation" f.remediation rfl
  have hrefs : optional texts? [] (Dict.present f.entries) "references" = some f.references :=
    optional_unless hnodup id rfl (texts?_texts f.references)
  have hline : optional line? none (Dict.present f.entries) "line" = some f.line :=
    optional_some hnodup rfl (line?_elim f.line)
  have heco : optional text? "npm".toList (Dict.present f.entries) "ecosystem" =
      some f.ecosystem := optional_some (j := .str f.ecosystem) hnodup rfl rfl
  have hreach : optional bool? true (Dict.present f.entries) "reachable" = some f.reachable :=
    optional_some (j := .bool f.reachable) hnodup rfl rfl
  have hkey : keywords findingNames (Dict.present f.entries) = some () := keywords_present
  have hdict : dict? f.toDict = some (Dict.present f.entries) := congrArg some (toList_ofList _)
  rw [findingOf, bind_of_eq_some hdict, bind_of_eq_some hkey, bind_of_eq_some hid,
    bind_of_eq_some hseverity, bind_of_eq_some (severityOf_value _), bind_of_eq_some hconfidence,
    bind_of_eq_some (confidenceOf_value _), bind_of_eq_some hpackage, bind_of_eq_some hfile,
    bind_of_eq_some hmessage, bind_of_eq_some hevidence, bind_of_eq_some hremediation,
    bind_of_eq_some hrefs, bind_of_eq_some hline, bind_of_eq_some heco, bind_of_eq_some hreach]
  rfl

theorem executionOf_toDict (e : RuleExecution) : executionOf (e.toDict false) = some e := by
  have hnodup : (Dict.keys (e.entries false)).Nodup := show executionNames.Nodup by decide
  have hdict : dict? (e.toDict false) = some (Dict.present (e.entries false)) :=
    congrArg some (toList_ofList _)
  have hkey : keywords executionNames (Dict.present (e.entries false)) = some () := keywords_present
  have hid : required text? (Dict.present (e.entries false)) "rule_id" = some e.ruleId :=
    required_present (j := .str e.ruleId) hnodup rfl
  have hstatus : optional text? "success".toList (Dict.present (e.entries false)) "status" =
      some e.status := optional_some (j := .str e.status) hnodup rfl rfl
  have hduration : optional int? 0 (Dict.present (e.entries false)) "duration_ms" =
      some e.durationMs := optional_some (j := .int e.durationMs) hnodup rfl rfl
  have herror : optional text? [] (Dict.present (e.entries false)) "error" = some e.error :=
    optional_unless hnodup (fun hc => hc.resolve_left Bool.false_ne_true) rfl rfl
  have hscanned : optional int? 0 (Dict.present (e.entries false)) "files_scanned" =
      some e.filesScanned := optional_some (j := .int e.filesScanned) hnodup rfl rfl
  have hcount : optional int? 0 (Dict.present (e.entries false)) "findings_count" =
      some e.findingsCount := optional_some (j := .int e.findingsCount) hnodup rfl rfl
  rw [executionOf, bind_of_eq_some hdict, bind_of_eq_some hkey, bind_of_eq_some hid,
    bind_of_eq_some hstatus, bind_of_eq_some hduration, bind_of_eq_some herror,
    bind_of_eq_some hscanned, bind_of_eq_some hcount]
  rfl

theorem counts?_counts (d : Dict Str Int) : counts? (counts d) = some (sortedItems d) := by
  have hmap : ∀ ps : Dict Str Int, (ps.map fun e => (e.1, Json.int e.2)).mapM
      (fun e => (int? e.2).map fun n => (e.1, n)) = some ps := by
    intro ps
    induction ps with
    | nil => rfl
    | cons p ps ih =>
      rw [List.map_cons, List.mapM_cons, ih]
      rfl
  rw [counts, counts?, dict?, toList_ofList]
  exact hmap (sortedItems d)

theorem optional_sortedItems {α : Type} {read : Json → Option α} {default : α}
    {d : Dict Str Json} (h : (Dict.keys d).Nodup) (key : String) :
    optional read default (sortedItems d) key = optional read default d key :=
  optional_congr (get?_sortedItems h _)

theorem keywords_sortedItems {names : List Str} {d : Dict Str Json} (h : keywords names d = some ()) :
    keywords names (sortedItems d) = some () := by
  have hmem : ∀ k, k ∈ Dict.keys (sortedItems d) ↔ k ∈ Dict.keys d :=
    fun k => ((perm_ascending Prod.fst d).map Prod.fst).mem_iff
  rw [keywords] at h ⊢
  simpa only [hmem] using h

def ScanStats.sorted (stats : ScanStats) : ScanStats :=
  { stats with
    findingsBySeverity := sortedItems stats.findingsBySeverity
    findingsByRule := sortedItems stats.findingsByRule
    ruleTimingsMs := sortedItems stats.ruleTimingsMs }

theorem statsOf_toDict (stats : ScanStats) :
    statsOf (sortedItems (Dict.present (stats.entries false))) = some stats.sorted := by
  have hnodup : (Dict.keys (stats.entries false)).Nodup := show statsNames.Nodup by decide
  have hkeys : (Dict.keys (Dict.present (stats.entries false))).Nodup :=
    Dict.keys_present_nodup hnodup
  have hkey : keywords statsNames (sortedItems (Dict.present (stats.entries false))) = some () :=
    keywords_sortedItems keywords_present
  have hread : ∀ {α : Type} {read : Json → Option α} {default x : α} {key : String},
      optional read default (Dict.present (stats.entries false)) key = some x →
        optional read default (sortedItems (Dict.present (stats.entries false))) key = some x :=
    fun h => (optional_sortedItems hkeys _).trans h
  have hpackages : optional int? 0 (Dict.present (stats.entries false)) "packages_scanned" =
      some stats.packagesScanned := optional_some (j := .int stats.packagesScanned) hnodup rfl rfl
  have hfiles : optional int? 0 (Dict.present (stats.entries false)) "files_scanned" =
      some stats.filesScanned := optional_some (j := .int stats.filesScanned) hnodup rfl rfl
  have hduration : optional int? 0 (Dict.present (stats.entries false)) "duration_ms" =
      some stats.durationMs := optional_some (j := .int stats.durationMs) hnodup rfl rfl
  have hseverity : optional counts? [] (Dict.present (stats.entries false)) "findings_by_severity" =
      some (sortedItems stats.findingsBySeverity) := optional_some hnodup rfl (counts?_counts _)
  have hrule : optional counts? [] (Dict.present (stats.entries false)) "findings_by_rule" =
      some (sortedItems stats.findingsByRule) := optional_some hnodup rfl (counts?_counts _)
  have htimings : optional counts? [] (Dict.present (stats.entries false)) "rule_timings_ms" =
      some (sortedItems stats.ruleTimingsMs) := by
    refine optional_unless hnodup (fun hnil => ?_) rfl (counts?_counts _)
    rw [hnil, sortedItems, ascending, List.insertionSort_nil]
  rw [statsOf, bind_of_eq_some hkey, bind_of_eq_some (hread hpackages),
    bind_of_eq_some (hread hfiles), bind_of_eq_some (hread hduration),
    bind_of_eq_some (hread hseverity), bind_of_eq_some (hread hrule),
    bind_of_eq_some (hread htimings)]
  rfl

end ReadBack

section ExitStatus

variable (U : Unicode)

structure ExitSettings where
  rulesRequested : Bool
  failClosed : Bool
  baseline : Option (Option Str)
  policyFails : Bool
  exitCode : Bool
  failOn : Option Str

def severityLevel (f : Finding) : Nat :=
  (severityOrder.get? (U.lowerStr f.severity.value)).getD 4

def findingsStatus (settings : ExitSettings) (findings : List Finding) : Option Nat :=
  if settings.policyFails then some 2
  else if settings.exitCode || settings.failOn.isSome then
    match settings.failOn with
    | some (c :: failOn) => do
      let minLevel ← severityOrder.get? (U.lowerStr (c :: failOn))
      return if ∃ f ∈ findings, severityLevel U f ≤ minLevel then 1 else 0
    | _ => some (if findings = [] then 0 else 1)
  else some 0

-- What `run` returns once it has a result; `none` where it raises. A baseline is the text of its
-- file, or `none` for a missing file.
def exitStatus (settings : ExitSettings) (r : ScanResult) : Option Nat :=
  if settings.rulesRequested ∧ (¬∃ e ∈ r.ruleExecutions, e.status = "ok".toList) ∧
      ∃ e ∈ r.ruleExecutions, e.status = "skipped".toList then some 2
  else if settings.failClosed ∧ ∃ e ∈ r.ruleExecutions, e.status ≠ "ok".toList then some 4
  else
    match settings.baseline with
    | none => findingsStatus U settings r.findings
    | some none => some 2
    | some (some text) => do
      let fps ← loadBaseline U text
      findingsStatus U settings (applyBaseline r fps).remaining

variable {U}

theorem findingsStatus_perm (settings : ExitSettings) {findings findings' : List Finding}
    (h : findings.Perm findings') :
    findingsStatus U settings findings = findingsStatus U settings findings' := by
  have hnil : findings = [] ↔ findings' = [] :=
    ⟨fun hf => List.nil_perm.mp (hf ▸ h), fun hf => List.perm_nil.mp (hf ▸ h)⟩
  simp only [findingsStatus, hnil, h.mem_iff]

theorem exitStatus_perm (settings : ExitSettings) {r r' : ScanResult}
    (hfindings : r'.findings.Perm r.findings) (hexecutions : r'.ruleExecutions = r.ruleExecutions) :
    exitStatus U settings r' = exitStatus U settings r := by
  have hremaining : ∀ fps, findingsStatus U settings (applyBaseline r' fps).remaining =
      findingsStatus U settings (applyBaseline r fps).remaining :=
    fun fps => findingsStatus_perm settings (hfindings.filter _)
  simp only [exitStatus, hexecutions, findingsStatus_perm settings hfindings, hremaining]

end ExitStatus

end PicoSentry.Scan.Models
