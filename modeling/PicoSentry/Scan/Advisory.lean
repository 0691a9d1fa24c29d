import PicoSentry.Foundation.Dict
import PicoSentry.Scan.OsvRange
import PicoSentry.Scan.Version

namespace PicoSentry.Scan.Advisories

open Foundation Version Osv

structure Event where
  kind : EventKind
  version : Str
  deriving DecidableEq

inductive Severity where
  | critical
  | high
  | medium
  | low
  deriving DecidableEq

structure Affected where
  ecosystem : Str := []
  name : Str := []
  ranges : List (List Event) := []
  versions : List Str := []
  deriving DecidableEq

structure DatabaseSpecific where
  severity : Str := []
  cweIds : List Str := []
  deriving DecidableEq

structure OsvRecord where
  id : Str := []
  summary : Str := []
  details : Str := []
  databaseSpecific : Option DatabaseSpecific := some {}
  scores : List (Option Rat) := []
  affected : List Affected := []
  references : List Str := []
  published : Str := []

structure RecordedRange where
  introduced : Str
  upper : Str
  upperInclusive : Bool
  deriving DecidableEq

structure Advisory where
  id : Str
  packageName : Str
  summary : Str
  severity : Severity
  fixedVersion : Str
  affectedVersions : List Str
  cweIds : List Str
  references : List Str
  published : Str
  affectedRanges : List RecordedRange
  deriving DecidableEq

section FromOsv

variable (U : Unicode)

def knownEcosystems : List Str :=
  ["npm".toList, "pypi".toList, "go".toList, "cargo".toList, "maven".toList, "rubygems".toList,
   "nuget".toList]

def osvEcosystemAliases : List (Str × Str) := [("crates.io".toList, "cargo".toList)]

def ecosystemKey (ecosystem : Str) : Str :=
  (Dict.get? osvEcosystemAliases (U.lowerStr ecosystem)).getD ecosystem

def supported (affected : Affected) : Bool :=
  decide (U.lowerStr (ecosystemKey U affected.ecosystem) ∈ knownEcosystems) &&
    !affected.name.isEmpty

def cvssScoreToSeverity (score : Rat) : Severity :=
  if 9 ≤ score then .critical
  else if 7 ≤ score then .high
  else if 4 ≤ score then .medium
  else .low

def severityFromOsvSeverityList (scores : List (Option Rat)) : Severity :=
  let best := scores.foldl (fun best score => score.elim best (max best)) 0
  if 0 < best then cvssScoreToSeverity best else .medium

def severityNames : List (Str × Severity) :=
  [("CRITICAL".toList, .critical), ("HIGH".toList, .high), ("MEDIUM".toList, .medium),
   ("LOW".toList, .low)]

def recordSeverity (record : OsvRecord) : Severity :=
  match record.databaseSpecific with
  | none => .medium
  | some specific =>
    (Dict.get? severityNames (U.upperStr specific.severity)).getD
      (severityFromOsvSeverityList record.scores)

def lastOf (kind : EventKind) (events : List Event) : Str :=
  events.foldl (fun last event => if event.kind = kind then event.version else last) []

def recordedRange (events : List Event) : Option RecordedRange :=
  let introduced := lastOf .introduced events
  let fixed := lastOf .fixed events
  let lastAffected := lastOf .lastAffected events
  if introduced = [] then none
  else if fixed ≠ [] then some ⟨introduced, fixed, false⟩
  else if lastAffected ≠ [] then some ⟨introduced, lastAffected, true⟩
  else some ⟨introduced, [], false⟩

def firstFixed (ranges : List (List Event)) : Str :=
  ((ranges.map (lastOf .fixed)).find? fun fixed => decide (fixed ≠ [])).getD []

def withoutRepeats (versions : List Str) : List Str :=
  versions.foldl (fun seen v => if v ∈ seen then seen else seen ++ [v]) []

def entryAdvisory (record : OsvRecord) (affected : Affected) : Option Advisory :=
  if supported U affected then
    some
      { id := record.id
        packageName := affected.name
        summary := if record.summary = [] then record.details.take 200 else record.summary
        severity := recordSeverity U record
        fixedVersion := firstFixed affected.ranges
        affectedVersions := withoutRepeats affected.versions
        cweIds := record.databaseSpecific.elim [] DatabaseSpecific.cweIds
        references := record.references
        published := record.published
        affectedRanges := affected.ranges.filterMap recordedRange }
  else none

def fromOsv (record : OsvRecord) : List Advisory :=
  record.affected.filterMap (entryAdvisory U record)

end FromOsv

section Database

variable (U : Unicode)

def normalizeName (name : Str) : Str := U.lowerStr (collapseSeparators false name)

abbrev AdvisoryDB := Dict Str (List Advisory)

def AdvisoryDB.index (db : AdvisoryDB) (adv : Advisory) : AdvisoryDB :=
  let key := normalizeName U adv.packageName
  Dict.set db key ((Dict.get? db key).getD [] ++ [adv])

def AdvisoryDB.load (db : AdvisoryDB) (files : List (List OsvRecord)) : AdvisoryDB :=
  (files.flatMap fun entries => entries.flatMap (fromOsv U)).foldl (AdvisoryDB.index U) db

def rangeAffects (v : VersionTuple) (range : RecordedRange) : Bool :=
  match parseVersion U range.introduced with
  | none => false
  | some introduced =>
    if v < introduced then false
    else
      match parseVersion U range.upper with
      | none => true
      | some upper => if range.upperInclusive then decide (v ≤ upper) else decide (v < upper)

def versionAffected (version : Str) (adv : Advisory) : Bool :=
  match parseVersion U version with
  | none => false
  | some v =>
    adv.affectedRanges.any (rangeAffects U v) ||
      (adv.affectedRanges.isEmpty &&
        (parseVersion U adv.fixedVersion).any fun fixed => decide (v < fixed)) ||
      adv.affectedVersions.any (versionInRange U v)

def AdvisoryDB.check (db : AdvisoryDB) (pkgName pkgVersion : Str) : List Advisory :=
  ((Dict.get? db (normalizeName U pkgName)).getD []).filter (versionAffected U pkgVersion)

end Database

end PicoSentry.Scan.Advisories
