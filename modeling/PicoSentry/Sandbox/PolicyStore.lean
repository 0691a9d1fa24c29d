import PicoSentry.Foundation.Directory
import PicoSentry.Foundation.Number
import PicoSentry.Foundation.ParsedJson
import PicoSentry.Foundation.Result
import PicoSentry.Foundation.SortedBy
import PicoSentry.Sandbox.Policy

namespace PicoSentry.Sandbox.PolicyStore

open Foundation

abbrev Record := Dict Str Json

def field (d : Record) (key : String) (default : Json) : Json :=
  (Dict.get? d key.toList).getD default

-- The entries of a dict; any other value has no get.
def asDict : Json → Except PyError Record
  | .obj fields => .ok fields.toList
  | _ => .error .attributeError

-- What a loop over a value goes through.
def elements : Json → Except PyError (List Json)
  | .arr items => .ok items.toList
  | .obj fields => .ok (fields.toList.map fun f => .str f.1)
  | .str s => .ok (s.map fun c => .str [c])
  | _ => .error .typeError

section Policies

-- A rule or a policy as it is read back: most fields are taken as they stand.
structure StoredRule where
  ruleId : Json
  target : RuleTarget
  action : SyscallAction
  paths : Json
  addresses : Json
  syscalls : Json
  description : Json

structure StoredPolicy where
  name : Json
  version : Json
  defaultAction : SyscallAction
  failClosed : Json
  rules : List StoredRule

def StoredRule.ofRule (r : PolicyRule) : StoredRule :=
  { ruleId := .str r.ruleId, target := r.target, action := r.action, paths := .texts r.paths
    addresses := .texts r.addresses, syscalls := .texts r.syscalls
    description := .str r.description }

def StoredPolicy.ofPolicy (p : Policy) : StoredPolicy :=
  { name := .str p.name, version := .str p.version, defaultAction := p.defaultAction
    failClosed := .bool p.failClosed, rules := p.rules.map StoredRule.ofRule }

def listOf (j : Json) : Except PyError Json := return .arr (.ofList (← elements j))

def StoredRule.toDict (r : StoredRule) : Except PyError Json := do
  let addresses ← listOf r.addresses
  let paths ← listOf r.paths
  let syscalls ← listOf r.syscalls
  return .obj (.ofList
    [("action".toList, .str r.action.value), ("addresses".toList, addresses),
     ("description".toList, r.description), ("paths".toList, paths),
     ("rule_id".toList, r.ruleId), ("syscalls".toList, syscalls),
     ("target".toList, .str r.target.value)])

def StoredPolicy.toDict (p : StoredPolicy) : Except PyError Json := do
  let rules ← p.rules.mapM StoredRule.toDict
  return .obj (.ofList
    [("default_action".toList, .str p.defaultAction.value), ("fail_closed".toList, p.failClosed),
     ("name".toList, p.name), ("rules".toList, .arr (.ofList rules)),
     ("version".toList, p.version)])

def syscallActions : List SyscallAction := [.allow, .deny, .kill, .trace]

def ruleTargets : List RuleTarget :=
  [.fileRead, .fileWrite, .fileExec, .networkOut, .networkIn, .networkBind, .processSpawn,
   .processKill, .dnsQuery, .signalSend, .syscallGeneric]

-- An enumeration called with a value.
def member {α : Type} (value : α → Str) (members : List α) : Json → Except PyError α
  | .str s => (members.find? fun m => value m = s).elim (.error .valueError) .ok
  | _ => .error .valueError

def item (r : Json) (key : String) : Except PyError Json :=
  match r with
  | .obj fields => (Dict.get? fields.toList key.toList).elim (.error .keyError) .ok
  | _ => .error .typeError

def ruleFromDict (r : Json) : Except PyError StoredRule := do
  let ruleId ← item r "rule_id"
  let target ← member RuleTarget.value ruleTargets (← item r "target")
  let action ← member SyscallAction.value syscallActions (← item r "action")
  let d ← asDict r
  return { ruleId, target, action, paths := field d "paths" (.arr .nil)
           addresses := field d "addresses" (.arr .nil), syscalls := field d "syscalls" (.arr .nil)
           description := field d "description" (.str []) }

def policyFromDict (data : Json) : Except PyError StoredPolicy := do
  let d ← asDict data
  let rules ← (← elements (field d "rules" (.arr .nil))).mapM ruleFromDict
  let defaultAction ← member SyscallAction.value syscallActions
    (field d "default_action" (.str "deny".toList))
  return { name := field d "name" (.str "custom".toList), version := field d "version" (.str "1.0".toList)
           defaultAction, failClosed := field d "fail_closed" (.bool true), rules }

structure PolicyVersion where
  policy : StoredPolicy
  version : Json
  author : Json
  timestamp : Json
  changeDescription : Json
  contentHash : Json

namespace PolicyVersion

def toDict (pv : PolicyVersion) : Except PyError Json := do
  let policy ← pv.policy.toDict
  return .obj (.ofList
    [("author".toList, pv.author), ("change_description".toList, pv.changeDescription),
     ("content_hash".toList, pv.contentHash), ("policy".toList, policy),
     ("timestamp".toList, pv.timestamp), ("version".toList, pv.version)])

def fromDict (data : Json) : Except PyError PolicyVersion := do
  let d ← asDict data
  let policy ← policyFromDict (field d "policy" (.obj .nil))
  return { policy, version := field d "version" (.int 1)
           author := field d "author" (.str "unknown".toList)
           timestamp := field d "timestamp" (.str [])
           changeDescription := field d "change_description" (.str [])
           contentHash := field d "content_hash" (.str []) }

end PolicyVersion

end Policies

structure Env where
  -- hmac-sha256 under the configured key
  key : Option (Str → Str)
  sha256 : Str → Str
  -- float.__repr__ of the value that a literal stands for
  repr : Str → Str
  floatText_repr : ∀ text, Json.FloatText (repr text)
  repr_repr : ∀ text, repr (repr text) = repr text
  value : Str → Number
  -- a literal of that value plus one
  plusOne : Str → Str

-- The only float is one half.
def Env.half (key : Option (Str → Str)) : Env where
  key := key
  sha256 _ := []
  repr _ := "0.5".toList
  floatText_repr _ := Json.floatText_half
  repr_repr _ := rfl
  value _ := .finite (1 / 2)
  plusOne _ := "1.5".toList

-- The files of the store, by policy name and file name.
abbrev Files := Dict (Str × Str) FileContent

section Names

def reservedNames : List Str :=
  ["default".toList, "strict".toList, "node".toList, "python".toList]

def validName (name : Str) : Bool :=
  !(name.all (· = '.') || name.contains '/' || name.contains '\\' ||
    decide ("..".toList <:+: name)) && !reservedNames.contains name

def validatePolicyName (name : Str) : Except PyError Unit :=
  if validName name then .ok () else .error .valueError

def latestFile : Str := "latest.json".toList

-- A version plus one is an int, or a float where the version is one.
inductive VersionNumber where
  | int (n : Int)
  | float (text : Str)

namespace VersionNumber

def json : VersionNumber → Json
  | int n => .int n
  | float text => .float text

-- str() of a float, where json has names of its own for three of them.
def printed : VersionNumber → Str
  | int n => intText n
  | float text =>
    if text = "NaN".toList then "nan".toList
    else if text = "Infinity".toList then "inf".toList
    else if text = "-Infinity".toList then "-inf".toList
    else text

def file (version : VersionNumber) : Str := 'v' :: version.printed ++ ".json".toList

end VersionNumber

def versionFile (version : Int) : Str := (VersionNumber.int version).file

def companion (file : Str) : Str := file ++ ".sig".toList

def isVersionFile (file : Str) : Bool :=
  file.head? = some 'v' && decide (".json".toList <:+ file) && file ≠ latestFile

end Names

section Companions

def signature (mac : Str → Str) (content timestamp file : Str) : Str :=
  Json.renderIndented 0 (.obj (.ofList
    [("algorithm".toList, .str "hmac-sha256".toList), ("signature".toList, .str (mac content)),
     ("timestamp".toList, .str timestamp), ("key_id".toList, .str "default".toList),
     ("policy_file".toList, .str file)])) ++ ['\n']

variable (env : Env) (mac : Str → Str)

def equalsText (text : String) : Json → Bool
  | .str s => s = text.toList
  | _ => false

-- A list or a dict is not hashable, so the set of algorithms cannot be asked for it.
def hashable : Json → Bool
  | .arr _ | .obj _ => false
  | _ => true

def checkSignature (content : FileContent) (sigData : Record) : Except PyError Bool :=
  let algorithm := field sigData "algorithm" (.str [])
  if !hashable algorithm then .error .typeError
  else if !equalsText "hmac-sha256" algorithm then .ok false
  else if !equalsText "default" (field sigData "key_id" (.str "default".toList)) then .ok false
  else
    match content with
    | .unreadable => .ok false
    | .undecodable => .error .valueError
    | .text s =>
      match field sigData "signature" (.str []) with
      | .str stored => .ok (mac s = stored)
      | _ => .error .attributeError

def verifyPolicyCompanion (content sig : FileContent) : Except PyError Bool :=
  match sig with
  | .unreadable => .ok false
  | .undecodable => .error .valueError
  | .text s =>
    match Json.parse env.repr s with
    | none => .ok false
    | some sigData => do checkSignature mac content (← asDict sigData)

def verifyCompanion (content : FileContent) (sig : Option FileContent) : Except PyError Bool :=
  match sig, env.key with
  | none, none =>
    match content with
    | .text _ => .ok true
    | .undecodable => .error .valueError
    | .unreadable => .error .osError
  | none, some _ => .ok false
  | some _, none => .ok false
  | some sig, some mac => verifyPolicyCompanion env mac content sig

end Companions

section Store

variable (env : Env) (files : Files)

def readVersionFile (content : FileContent) : Except PyError (Option PolicyVersion) :=
  match content with
  | .unreadable => .ok none
  | .undecodable => .error .valueError
  | .text s =>
    match Json.parse env.repr s with
    | none => .ok none
    | some data =>
      match PolicyVersion.fromDict data with
      | .ok pv => .ok (some pv)
      | .error .keyError => .ok none
      | .error e => .error e

def directory (name : Str) : Dict Str FileContent :=
  (files.filter fun e => e.1.1 = name).map fun e => (e.1.2, e.2)

def listVersions (name : Str) : Except PyError (List PolicyVersion) := do
  let found ← ((ascending Prod.fst (directory files name)).filter fun e => isVersionFile e.1).mapM
    fun e => readVersionFile env e.2
  return found.filterMap id

def number : Json → Option Number
  | .int n => some (.finite n)
  | .bool b => some (.finite (if b then 1 else 0))
  | .float text => some (env.value text)
  | _ => none

def greater (version other : Json) : Except PyError Bool :=
  match number env version, number env other with
  | some x, some y => .ok (y.lt x)
  | none, none =>
    match version, other with
    | .str s, .str t => .ok (t < s)
    | _, _ => .error .typeError
  | _, _ => .error .typeError

-- max keeps the first of the greatest.
def greatest (best : PolicyVersion) : List PolicyVersion → Except PyError PolicyVersion
  | [] => .ok best
  | pv :: pvs => do
    if ← greater env pv.version best.version then greatest pv pvs else greatest best pvs

def oneAbove : Json → Except PyError VersionNumber
  | .int n => .ok (.int (n + 1))
  | .bool b => .ok (.int (if b then 2 else 1))
  | .float text => .ok (.float (env.repr (env.plusOne text)))
  | _ => .error .typeError

def nextVersion (name : Str) : Except PyError VersionNumber := do
  match ← listVersions env files name with
  | [] => return .int 1
  | pv :: pvs => oneAbove env (← greatest env pv pvs).version

-- max(versions, key=lambda v: v.version)
def newest : List PolicyVersion → Except PyError (Option PolicyVersion)
  | [] => .ok none
  | pv :: pvs => do return some (← greatest env pv pvs)

def writeVersion (name : Str) (version : VersionNumber) (text timestamp : Str) : Files :=
  let written := Dict.set (Dict.set files (name, version.file) (.text text))
    (name, latestFile) (.text text)
  match env.key with
  | none => written
  | some mac =>
    Dict.set (Dict.set written (name, companion version.file)
      (.text (signature mac text timestamp version.file)))
      (name, companion latestFile) (.text (signature mac text timestamp latestFile))

def policyName : Json → Except PyError Str
  | .str name => do
    validatePolicyName name
    return name
  | j => .error (if j.truthy then .attributeError else .valueError)

def save (policy : StoredPolicy) (author changeDescription timestamp : Str) :
    Except PyError (Files × PolicyVersion) := do
  let name ← policyName policy.name
  let version ← nextVersion env files name
  let contentHash := env.sha256 (← policy.toDict).dumps
  let pv : PolicyVersion :=
    { policy, version := version.json, author := .str author, timestamp := .str timestamp
      changeDescription := .str changeDescription, contentHash := .str contentHash }
  let text := (← pv.toDict).dumpsIndented
  return (writeVersion env files name version text timestamp, pv)

def loadFile (name file : Str) (content : FileContent) : Except PyError (Option PolicyVersion) := do
  if ← verifyCompanion env content (Dict.get? files (name, companion file)) then
    readVersionFile env content
  else return none

def load (name : Str) (version : Option Int) : Except PyError (Option PolicyVersion) := do
  validatePolicyName name
  match version with
  | none =>
    match Dict.get? files (name, latestFile) with
    | some content => loadFile env files name latestFile content
    | none => newest env (← listVersions env files name)
  | some version =>
    match Dict.get? files (name, versionFile version) with
    | some content => loadFile env files name (versionFile version) content
    | none => return none

def rollback (name : Str) (version : Int) (author timestamp : Str) :
    Except PyError (Files × Option PolicyVersion) := do
  match ← load env files name (some version) with
  | none => return (files, none)
  | some target =>
    let (files, pv) ← save env files target.policy author
      ("Rollback to v".toList ++ intText version) timestamp
    return (files, some pv)

end Store

end PicoSentry.Sandbox.PolicyStore
