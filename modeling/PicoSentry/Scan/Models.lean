import PicoSentry.Foundation.JsonDict
import PicoSentry.Foundation.SortedBy
import PicoSentry.Scan.PolicyEngine

namespace PicoSentry.Scan.Models

open Foundation
open PolicyEngine (Severity severityOrder)

inductive Confidence where
  | exact
  | high
  | medium
  | low
  deriving DecidableEq, Repr

def Confidence.value : Confidence → Str
  | .exact => "EXACT".toList
  | .high => "HIGH".toList
  | .medium => "MEDIUM".toList
  | .low => "LOW".toList

structure Finding where
  ruleId : Str
  severity : Severity
  confidence : Confidence
  package : Str
  file : Str
  message : Str
  evidence : Str
  remediation : Str
  references : List Str := []
  line : Option Int := none
  ecosystem : Str := "npm".toList
  reachable : Bool := true
  deriving DecidableEq, Repr

namespace Finding

abbrev Fingerprint := Str × Str × Str × Str

def fingerprint (f : Finding) : Fingerprint := (f.ruleId, f.ecosystem, f.package, f.file)

def sortKey (f : Finding) : Str ×ₗ Str ×ₗ Str ×ₗ Str ×ₗ Int :=
  toLex (f.ruleId, toLex (f.ecosystem, toLex (f.package, toLex (f.file, f.line.getD 0))))

def entries (f : Finding) : List (Str × Option Json) :=
  [("rule_id".toList, some (.str f.ruleId)),
   ("severity".toList, some (.str f.severity.value)),
   ("confidence".toList, some (.str f.confidence.value)),
   ("ecosystem".toList, some (.str f.ecosystem)),
   ("package".toList, some (.str f.package)),
   ("file".toList, some (.str f.file)),
   ("line".toList, some (f.line.elim .null .int)),
   ("message".toList, some (.str f.message)),
   ("evidence".toList, some (.str f.evidence)),
   ("remediation".toList, some (.str f.remediation)),
   ("reachable".toList, some (.bool f.reachable)),
   ("references".toList, if f.references = [] then none else some (Json.texts f.references))]

def toDict (f : Finding) : Json := .obj (.ofList (Dict.present f.entries))

end Finding

structure RuleExecution where
  ruleId : Str
  status : Str := "success".toList
  durationMs : Int := 0
  error : Str := []
  filesScanned : Int := 0
  findingsCount : Int := 0
  deriving DecidableEq, Repr

namespace RuleExecution

def entries (r : RuleExecution) (deterministicOutput : Bool) : List (Str × Option Json) :=
  [("rule_id".toList, some (.str r.ruleId)),
   ("status".toList, some (.str r.status)),
   ("findings_count".toList, some (.int r.findingsCount)),
   ("files_scanned".toList, some (.int r.filesScanned)),
   ("duration_ms".toList, if deterministicOutput then none else some (.int r.durationMs)),
   ("error".toList,
     if deterministicOutput ∨ r.error = [] then none else some (.str r.error))]

def toDict (r : RuleExecution) (deterministicOutput : Bool) : Json :=
  .obj (.ofList (Dict.present (r.entries deterministicOutput)))

end RuleExecution

structure ScanStats where
  packagesScanned : Int := 0
  filesScanned : Int := 0
  durationMs : Int := 0
  findingsBySeverity : Dict Str Int := []
  findingsByRule : Dict Str Int := []
  ruleTimingsMs : Dict Str Int := []
  deriving DecidableEq, Repr

-- dict(sorted(d.items()))
def sortedItems {ν : Type} (d : Dict Str ν) : Dict Str ν := ascending Prod.fst d

def counts (d : Dict Str Int) : Json :=
  .obj (.ofList ((sortedItems d).map fun e => (e.1, .int e.2)))

namespace ScanStats

def entries (stats : ScanStats) (deterministic : Bool) : List (Str × Option Json) :=
  [("packages_scanned".toList, some (.int stats.packagesScanned)),
   ("files_scanned".toList, some (.int stats.filesScanned)),
   ("findings_by_severity".toList, some (counts stats.findingsBySeverity)),
   ("findings_by_rule".toList, some (counts stats.findingsByRule)),
   ("duration_ms".toList, if deterministic then none else some (.int stats.durationMs)),
   ("rule_timings_ms".toList,
     if stats.ruleTimingsMs = [] then none else some (counts stats.ruleTimingsMs))]

def toDict (stats : ScanStats) (deterministic : Bool) : Json :=
  .obj (.ofList (sortedItems (Dict.present (stats.entries deterministic))))

-- What ScanResult.to_dict writes itself when the output has to be deterministic.
def deterministicDict (stats : ScanStats) : Json :=
  .obj (.ofList
    [("packages_scanned".toList, .int stats.packagesScanned),
     ("files_scanned".toList, .int stats.filesScanned),
     ("findings_by_severity".toList, counts stats.findingsBySeverity),
     ("findings_by_rule".toList, counts stats.findingsByRule)])

end ScanStats

-- A dict key as json.dumps meets it: a text, or a number or truth value with its JSON text.
inductive IntelKey where
  | text (s : Str)
  | number (value : Rat) (json : Str)
  deriving DecidableEq

def IntelKey.json : IntelKey → Str
  | .text s => s
  | .number _ json => json

def IntelKey.isText : IntelKey → Bool
  | .text _ => true
  | .number _ _ => false

def IntelKey.value : IntelKey → Rat
  | .text _ => 0
  | .number value _ => value

structure ScanResult where
  target : Str := []
  engineVersion : Str := []
  corpusVersion : Str := []
  findings : List Finding := []
  stats : ScanStats := {}
  startedAt : Str := []
  completedAt : Str := []
  configDigest : Str := []
  policyDigest : Str := []
  scannerVersion : Str := []
  policyResult : Option Json := none
  ruleExecutions : List RuleExecution := []
  packageIntel : Dict IntelKey Json := []
  behavioralEvidence : Option Json := none
  unscannableComponents : Int := 0

namespace ScanResult

variable (sha256 : Str → Str)

def scanId (r : ScanResult) : Str :=
  (sha256 (r.target ++ ':' :: r.corpusVersion ++ ':' :: r.engineVersion)).take 16

def sortedFindings (findings : List Finding) : List Finding := ascending Finding.sortKey findings

def findingDicts (r : ScanResult) : Json :=
  .arr (.ofList ((sortedFindings r.findings).map Finding.toDict))

def ruleStatus (r : ScanResult) (deterministicOutput : Bool) : Json :=
  .obj (.ofList (Dict.ofPairs
    (r.ruleExecutions.map fun e => (e.ruleId, e.toDict deterministicOutput))))

def scanCompleteness (r : ScanResult) : Str :=
  if ∃ e ∈ r.ruleExecutions, e.status ≠ "ok".toList then "partial".toList else "complete".toList

def givenText (s : Str) : Option Json := if s = [] then none else some (.str s)

def auditEntries (r : ScanResult) : List (Str × Option Json) :=
  [("started_at".toList, givenText r.startedAt),
   ("completed_at".toList, givenText r.completedAt),
   ("config_digest".toList, givenText r.configDigest),
   ("policy_digest".toList, givenText r.policyDigest),
   ("scanner_version".toList, givenText r.scannerVersion)]

def audit (r : ScanResult) : Dict Str Json := Dict.present r.auditEntries

def entries (r : ScanResult) (deterministicOutput : Bool) : List (Str × Option Json) :=
  [("scan_id".toList, some (.str (r.scanId sha256))),
   ("engine_version".toList, some (.str r.engineVersion)),
   ("corpus_version".toList, some (.str r.corpusVersion)),
   ("target".toList, some (.str r.target)),
   ("findings".toList, some r.findingDicts),
   ("unscannable_components".toList,
     if r.unscannableComponents = 0 then none else some (.int r.unscannableComponents)),
   ("stats".toList,
     some (if deterministicOutput then r.stats.deterministicDict else r.stats.toDict false)),
   ("rule_status".toList,
     if r.ruleExecutions = [] then none else some (r.ruleStatus deterministicOutput)),
   ("scan_completeness".toList,
     if r.ruleExecutions = [] then none else some (.str r.scanCompleteness)),
   ("policy".toList, r.policyResult),
   ("audit".toList,
     if deterministicOutput ∨ r.audit.isEmpty then none else some (.obj (.ofList r.audit))),
   ("behavioral_evidence".toList, r.behavioralEvidence)]

def intelEntry (intel : Dict Str Json) : Dict Str Json :=
  if intel = [] then [] else [("package_intel".toList, .obj (.ofList intel))]

def shownIntel (r : ScanResult) (deterministicOutput : Bool) : Dict IntelKey Json :=
  if deterministicOutput then [] else r.packageIntel

-- The dict as json.dumps writes it without sort_keys: keys become texts, in their order.
def toDict (r : ScanResult) (deterministicOutput : Bool) : Json :=
  .obj (.ofList (sortedItems (Dict.present (r.entries sha256 deterministicOutput) ++
    intelEntry ((r.shownIntel deterministicOutput).map fun e => (e.1.json, e.2)))))

-- sort_keys compares the keys themselves: texts with texts, numbers with numbers.
def sortedIntel (intel : Dict IntelKey Json) : Option (Dict Str Json) :=
  if intel.all fun e => e.1.isText then
    some ((ascending (fun e => e.1.json) intel).map fun e => (e.1.json, Json.sortKeys e.2))
  else if intel.all fun e => !e.1.isText then
    some ((ascending (fun e => e.1.value) intel).map fun e => (e.1.json, Json.sortKeys e.2))
  else none

def sortedDict (r : ScanResult) (deterministicOutput : Bool) : Option Json :=
  (sortedIntel (r.shownIntel deterministicOutput)).map fun intel =>
    .obj (.ofList (sortedItems ((Dict.present (r.entries sha256 deterministicOutput)).map
      (fun e => (e.1, Json.sortKeys e.2)) ++ intelEntry intel)))

def toJson (r : ScanResult) (deterministicOutput : Bool) : Option Str :=
  (r.sortedDict sha256 deterministicOutput).map (Json.renderIndented 0)

end ScanResult

section Baseline

open Finding

structure BaselineResult where
  originalCount : Nat
  suppressedCount : Nat
  remaining : List Finding

def BaselineResult.newCount (result : BaselineResult) : Nat := result.remaining.length

-- The part of `text` before each of the first `n` separators, and the rest.
def splitMax (c : Char) : Nat → Str → List Str
  | 0, text => [text]
  | n + 1, text =>
    match text.dropWhile (· ≠ c) with
    | [] => [text]
    | _ :: rest => text.takeWhile (· ≠ c) :: splitMax c n rest

def lineBoundaries : List Nat := [10, 11, 12, 13, 28, 29, 30, 0x85, 0x2028, 0x2029]

def splitLines (line : Str) : Str → List Str
  | [] => if line = [] then [] else [line]
  | '\r' :: '\n' :: rest => line :: splitLines [] rest
  | c :: rest =>
    if c.toNat ∈ lineBoundaries then line :: splitLines [] rest else splitLines (line ++ [c]) rest

def baselineEcosystems : List Str :=
  ["npm".toList, "pypi".toList, "go".toList, "cargo".toList, "maven".toList, "rubygems".toList,
   "nuget".toList]

def ignoreLine (U : Unicode) (rawLine : Str) : Option Fingerprint :=
  let line := U.strip rawLine
  if line = [] ∨ line.head? = some '#' then none
  else
    let parts := splitMax ':' 3 line
    let part (i : Nat) : Str := U.strip (parts.getD i [])
    if parts.getD 0 [] ∈ baselineEcosystems then some (part 1, part 0, part 2, part 3)
    else some (part 0, "npm".toList, part 1, part 2)

-- A fingerprint as a JSON baseline gives it: its parts may be any values of a set.
abbrev LoadedKey := Json × Json × Json × Json

def LoadedKey.ofFingerprint (fp : Fingerprint) : LoadedKey :=
  (.str fp.1, .str fp.2.1, .str fp.2.2.1, .str fp.2.2.2)

def hashable : Json → Bool
  | .arr _ | .obj _ => false
  | _ => true

def fieldOr (d : Dict Str Json) (key : String) (default : Str) : Option Json :=
  let value := (Dict.get? d key.toList).getD (.str default)
  if hashable value then some value else none

def baselineKey : Json → Option LoadedKey
  | .obj f => do
    let d := f.toList
    return (← fieldOr d "rule_id" [], ← fieldOr d "ecosystem" "npm".toList,
      ← fieldOr d "package" [], ← fieldOr d "file" [])
  | _ => none

def ignoreFile (U : Unicode) (text : Str) : List LoadedKey :=
  ((splitLines [] text).filterMap (ignoreLine U)).map LoadedKey.ofFingerprint

def isText (s : Str) : Json → Bool
  | .str t => decide (t = s)
  | _ => false

-- What "findings" holds is iterated: the characters of a text and the keys of a dict have no get.
def findingKeys : Json → Option (List LoadedKey)
  | .arr items => items.toList.mapM baselineKey
  | .str [] | .obj .nil => some []
  | _ => none

-- A baseline that Python could not index or iterate raises.
def loadBaseline (U : Unicode) (text : Str) : Option (List LoadedKey) :=
  match Json.loads text with
  | none => some (ignoreFile U text)
  | some (.obj data) =>
    match Dict.get? data.toList "findings".toList with
    | none => some (ignoreFile U text)
    | some findings => findingKeys findings
  | some (.arr items) =>
    if items.toList.any (isText "findings".toList) then none else some (ignoreFile U text)
  | some (.str s) => if "findings".toList <:+: s then none else some (ignoreFile U text)
  | some _ => none

def ruleOnly (fps : List LoadedKey) : List Json :=
  (fps.filter fun fp => !fp.2.2.1.truthy).map fun fp => fp.1

def ruleEcosystemPkg (fps : List LoadedKey) : List (Json × Json × Json) :=
  (fps.filter fun fp => fp.2.2.1.truthy && !fp.2.2.2.truthy).map fun fp => (fp.1, fp.2.1, fp.2.2.1)

def exactMatches (fps : List LoadedKey) : List LoadedKey := fps.filter fun fp => fp.2.2.2.truthy

-- A text equals no value but itself, so the sets are asked for the parts of the finding one by one.
def suppressed (fps : List LoadedKey) (f : Finding) : Bool :=
  (exactMatches fps).any (fun fp => isText f.ruleId fp.1 && isText f.ecosystem fp.2.1 &&
      isText f.package fp.2.2.1 && isText f.file fp.2.2.2) ||
    (ruleEcosystemPkg fps).any (fun fp => isText f.ruleId fp.1 && isText f.ecosystem fp.2.1 &&
      isText f.package fp.2.2) ||
    (ruleOnly fps).any (isText f.ruleId)

def applyBaseline (result : ScanResult) (fps : List LoadedKey) : BaselineResult :=
  let remaining := result.findings.filter fun f => !suppressed fps f
  { originalCount := result.findings.length
    suppressedCount := result.findings.length - remaining.length
    remaining }

end Baseline

end PicoSentry.Scan.Models
