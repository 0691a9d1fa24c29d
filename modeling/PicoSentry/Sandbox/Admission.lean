import PicoSentry.Foundation.JsonDict
import PicoSentry.Foundation.Literal
import PicoSentry.Foundation.Result
import PicoSentry.Foundation.Url

namespace PicoSentry.Sandbox.Admission

open Foundation Foundation.Json

section Values

-- dict.get of a parsed document
def pyGet (j : Json) (key : String) (default : Json) : Except PyError Json :=
  match dict? j with
  | some fields => .ok ((fields.get? key.toList).getD default)
  | none => .error .attributeError

def isText (text : String) : Json → Bool
  | .str s => s = text.toList
  | _ => false

-- The operator in: a key of a dict, an item of a list, a part of a string.
def pyIn (text : String) : Json → Except PyError Bool
  | .obj fields => .ok (Dict.get? fields.toList text.toList).isSome
  | .arr items => .ok (items.toList.any (isText text))
  | .str s => .ok (text.toList <:+: s)
  | _ => .error .typeError

def pyIter : Json → Except PyError (List Json)
  | .arr items => .ok items.toList
  | .obj fields => .ok (fields.toList.map fun field => .str field.1)
  | .str s => .ok (s.map fun c => .str [c])
  | _ => .error .typeError

-- What a loop over a sum passes. Numbers can be added, but no loop goes over their sum.
def pyIterSum : Json → Json → Except PyError (List Json)
  | .arr items, .arr items' => .ok (items.toList ++ items'.toList)
  | .str s, .str s' => .ok ((s ++ s').map fun c => .str [c])
  | _, _ => .error .typeError

def equalsZero : Json → Bool
  | .bool b => !b
  | .int n => n = 0
  | .float text => !nonzeroDigits text
  | _ => false

end Values

structure AdmissionRequest where
  uid : Json
  kind : Json
  name : Json
  namespaceName : Json
  operation : Json
  objectRaw : Json

def AdmissionRequest.fromDict (data : Json) : Except PyError AdmissionRequest := do
  let uid ← pyGet data "uid" (.str [])
  let kind ← pyGet data "kind" (.obj .nil)
  let name ← pyGet data "name" (.str [])
  let namespaceName ← pyGet data "namespace" (.str [])
  let operation ← pyGet data "operation" (.str [])
  let objectRaw ← pyGet data "object" (.obj .nil)
  return { uid, kind, name, namespaceName, operation, objectRaw }

structure PodSecurityValidator where
  denyPrivileged : Bool := true
  denyRunAsRoot : Bool := true
  requireSecurityContext : Bool := true
  denyHostPath : Bool := true
  denyHostNetwork : Bool := true
  requireNonRoot : Bool := false
  requireReadOnlyRoot : Bool := false
  requireDropAllCaps : Bool := false

section Validate

-- The tables from which an f-string writes the name of a container.
variable (T : CharTables)

abbrev Violations := Except PyError (List Str)

def whenSet (option : Bool) (check : Violations) : Violations := if option then check else .ok []

def violation (found : Bool) (text : Str) : List Str := if found then [text] else []

def hostCheck (spec : Json) (key : String) : Violations := do
  let used ← pyGet spec key (.bool false)
  return violation used.truthy (key.toList ++ " is not allowed".toList)

def hostChecks (spec : Json) : Violations := do
  let network ← hostCheck spec "hostNetwork"
  let pid ← hostCheck spec "hostPID"
  let ipc ← hostCheck spec "hostIPC"
  return network ++ pid ++ ipc

def volumeCheck (volume : Json) : Violations := do
  if ← pyIn "hostPath" volume then
    let name ← pyGet volume "name" (.str "unknown".toList)
    return ["hostPath volume '".toList ++ Repr.strOf T name ++ "' is not allowed".toList]
  else
    return []

def volumeChecks (spec : Json) : Violations := do
  let volumes ← pyGet spec "volumes" (.arr .nil)
  let volumes ← pyIter volumes
  let found ← volumes.mapM (volumeCheck T)
  return found.flatten

def podNonRootCheck (podSecurity : Json) : Violations := do
  let nonRoot ← pyGet podSecurity "runAsNonRoot" (.bool false)
  return violation (!nonRoot.truthy) "pod securityContext.runAsNonRoot must be true".toList

def about (name : Json) (text : String) : Str := "container '".toList ++ Repr.strOf T name ++ text.toList

def privilegedCheck (name sec : Json) : Violations := do
  let privileged ← pyGet sec "privileged" (.bool false)
  return violation privileged.truthy (about T name "' is privileged")

def rootCheck (podSecurity name sec : Json) : Violations := do
  let podUser ← pyGet podSecurity "runAsUser" .null
  let user ← pyGet sec "runAsUser" podUser
  return violation (equalsZero user) (about T name "' runs as root (runAsUser=0)")

def nonRootCheck (podSecurity name sec : Json) : Violations := do
  let podNonRoot ← pyGet podSecurity "runAsNonRoot" (.bool false)
  let nonRoot ← pyGet sec "runAsNonRoot" podNonRoot
  return violation (!nonRoot.truthy) (about T name "' securityContext.runAsNonRoot must be true")

def readOnlyCheck (name sec : Json) : Violations := do
  let readOnly ← pyGet sec "readOnlyRootFilesystem" (.bool false)
  return violation (!readOnly.truthy) (about T name "' readOnlyRootFilesystem must be true")

def dropAllCheck (name sec : Json) : Violations := do
  let caps ← pyGet sec "capabilities" (.obj .nil)
  let drop ← pyGet caps "drop" (.arr .nil)
  let all ← pyIn "ALL" drop
  return violation (!all) (about T name "' must drop ALL capabilities")

def containerCheck (v : PodSecurityValidator) (podSecurity container : Json) : Violations := do
  let name ← pyGet container "name" (.str "unknown".toList)
  let hasSecurity ← pyIn "securityContext" container
  let sec ← pyGet container "securityContext" (.obj .nil)
  let missing := violation (v.requireSecurityContext && !hasSecurity) (about T name "' missing securityContext")
  let privileged ← whenSet v.denyPrivileged (privilegedCheck T name sec)
  let root ← whenSet v.denyRunAsRoot (rootCheck T podSecurity name sec)
  let nonRoot ← whenSet v.requireNonRoot (nonRootCheck T podSecurity name sec)
  let readOnly ← whenSet v.requireReadOnlyRoot (readOnlyCheck T name sec)
  let caps ← whenSet v.requireDropAllCaps (dropAllCheck T name sec)
  return missing ++ privileged ++ root ++ nonRoot ++ readOnly ++ caps

def specCheck (v : PodSecurityValidator) (spec : Json) : Violations := do
  let podSecurity ← pyGet spec "securityContext" (.obj .nil)
  let host ← whenSet v.denyHostNetwork (hostChecks spec)
  let volumes ← whenSet v.denyHostPath (volumeChecks T spec)
  let nonRoot ← whenSet v.requireNonRoot (podNonRootCheck podSecurity)
  let containers ← pyGet spec "containers" (.arr .nil)
  let initContainers ← pyGet spec "initContainers" (.arr .nil)
  let entries ← pyIterSum containers initContainers
  let found ← entries.mapM (containerCheck T v podSecurity)
  return host ++ volumes ++ nonRoot ++ found.flatten

def PodSecurityValidator.validate (v : PodSecurityValidator) (req : AdmissionRequest) : Except PyError (Bool × Str) :=
  let pod := req.objectRaw
  if !pod.truthy then .ok (true, [])
  else do
    let spec ← pyGet pod "spec" (.obj .nil)
    let violations ← whenSet spec.truthy (specCheck T v spec)
    return (violations = [], "; ".toList.intercalate violations)

end Validate

structure AdmissionResponse where
  uid : Json
  allowed : Bool
  status : Option (Int × Str) := none

def AdmissionResponse.of (uid : Json) (allowed : Bool) (reason : Str) : AdmissionResponse where
  uid := uid
  allowed := allowed
  status := if reason = [] then none else some (if allowed then 200 else 403, reason)

def admissionError (error : Str) : AdmissionResponse where
  uid := .str []
  allowed := false
  status := some (400, error)

def AdmissionResponse.toReview (r : AdmissionResponse) : Json :=
  .obj (.ofList [
    ("apiVersion".toList, .str "admission.k8s.io/v1".toList),
    ("kind".toList, .str "AdmissionReview".toList),
    ("response".toList, .obj (.ofList ([("uid".toList, r.uid), ("allowed".toList, .bool r.allowed)] ++
      r.status.toList.map fun s =>
        ("status".toList, .obj (.ofList [("code".toList, .int s.1), ("message".toList, .str s.2)])))))])

section Handler

abbrev Validator := AdmissionRequest → Except PyError (Bool × Str)

def maxAdmissionReviewBytes : Int := 2 * 1024 * 1024

-- document: what json.loads makes of the body, or the text of its exception.
structure Posted where
  path : Str
  contentLength : Int
  document : Except Str Json

inductive Reply where
  | notFound
  | review (body : Json)

def answer (validator : Option Validator) (review : Json) : Except PyError AdmissionResponse := do
  let requestData ← pyGet review "request" (.obj .nil)
  if !requestData.truthy then
    return admissionError "missing 'request' field".toList
  else
    let req ← AdmissionRequest.fromDict requestData
    match validator with
    | some validate => do
      let (allowed, reason) ← validate req
      return .of req.uid allowed reason
    | none => return .of req.uid false "no validator configured".toList

def doPost (nfkc : Str → Str) (validator : Option Validator) (posted : Posted) : Except PyError Reply := do
  let parsed ← Url.urlparse nfkc posted.path []
  if parsed.path ≠ "/validate".toList then
    return .notFound
  else if posted.contentLength > maxAdmissionReviewBytes then
    return .review (admissionError "AdmissionReview body exceeds size limit".toList).toReview
  else
    match posted.document with
    | .error exc => return .review (admissionError ("invalid JSON: ".toList ++ exc)).toReview
    | .ok review => do
      let response ← answer validator review
      return .review response.toReview

end Handler

section Reads

abbrev IsDict (j : Json) : Prop := (dict? j).isSome = true

def field? (j : Json) (key : String) : Option Json := (dict? j).bind fun fields => fields.get? key.toList

def fieldOr (j : Json) (key : String) (default : Json) : Json := (field? j key).getD default

def field (j : Json) (key : String) : Json := fieldOr j key .null

variable {α β : Type} {j r : Json} {key : String} {default : Json}

theorem pyGet_eq_ok : pyGet j key default = .ok r ↔ IsDict j ∧ r = fieldOr j key default := by
  rw [pyGet, IsDict, fieldOr, field?]
  cases dict? j with
  | none => exact ⟨fun h => (by cases h), fun h => (by cases h.1)⟩
  | some fields => exact ⟨fun h => ⟨rfl, (Except.ok.inj h).symm⟩, fun h => congrArg _ h.2.symm⟩

theorem pyGet_bind_eq_ok {f : Json → Except PyError α} {x : α} :
    pyGet j key default >>= f = .ok x ↔ IsDict j ∧ f (fieldOr j key default) = .ok x := by
  rw [bind_eq_ok]
  constructor
  · rintro ⟨r,hr,h⟩
    obtain ⟨hdict,rfl⟩ := pyGet_eq_ok.mp hr
    exact ⟨hdict, h⟩
  · rintro ⟨hdict,h⟩
    exact ⟨_, pyGet_eq_ok.mpr ⟨hdict, rfl⟩, h⟩

theorem bind_isOk {x : Except PyError α} {f : α → Except PyError β} :
    (∃ r, x >>= f = .ok r) ↔ ∃ a, x = .ok a ∧ ∃ r, f a = .ok r := by
  simp only [bind_eq_ok]
  exact ⟨fun ⟨r,a,ha,hr⟩ => ⟨a, ha, r, hr⟩, fun ⟨a,ha,r,hr⟩ => ⟨r, a, ha, hr⟩⟩

theorem pyGet_bind_isOk {f : Json → Except PyError α} :
    (∃ x, pyGet j key default >>= f = .ok x) ↔ IsDict j ∧ ∃ x, f (fieldOr j key default) = .ok x := by
  simp only [pyGet_bind_eq_ok, exists_and_left]

theorem pyIn_dict {text : String} (h : IsDict j) : pyIn text j = .ok (field? j text).isSome := by
  cases j with
  | obj fields => rfl
  | _ => cases h

theorem truthy_empty : (Json.obj .nil).truthy = false := rfl

end Reads

section Rules

variable (podSecurity container : Json)

def securityOf : Json := fieldOr container "securityContext" (.obj .nil)

-- The user as the validator reads it: also null overrides the value of the pod.
def userOf : Json := fieldOr (securityOf container) "runAsUser" (field podSecurity "runAsUser")

structure EntryReadable : Prop where
  dict : IsDict container
  security : IsDict (securityOf container)
  pod : IsDict podSecurity

structure EntryPasses : Prop where
  security : (field? container "securityContext").isSome = true
  privileged : (field (securityOf container) "privileged").truthy = false
  user : equalsZero (userOf podSecurity container) = false

variable (T : CharTables) {podSecurity container} {found : List Str}

theorem violation_eq_nil {b : Bool} {text : Str} : violation b text = [] ↔ b = false := by
  cases b with
  | false => exact ⟨fun _ => rfl, fun _ => rfl⟩
  | true => exact ⟨fun h => (by cases h), fun h => (by cases h)⟩

theorem truthy_fieldOr_false {j : Json} {key : String} :
    (fieldOr j key (.bool false)).truthy = (field j key).truthy := by
  rw [field, fieldOr, fieldOr]
  cases field? j key with
  | none => rfl
  | some value => rfl

theorem hostCheck_eq_ok {spec : Json} {key : String} : hostCheck spec key = .ok found ↔
    IsDict spec ∧ found = violation (field spec key).truthy (key.toList ++ " is not allowed".toList) := by
  rw [hostCheck, pyGet_bind_eq_ok, truthy_fieldOr_false]
  exact and_congr_right fun _ => ⟨fun h => (Except.ok.inj h).symm, fun h => congrArg _ h.symm⟩

variable {T}

theorem privilegedCheck_eq_ok {name sec : Json} : privilegedCheck T name sec = .ok found ↔
    IsDict sec ∧ found = violation (field sec "privileged").truthy (about T name "' is privileged") := by
  rw [privilegedCheck, pyGet_bind_eq_ok, truthy_fieldOr_false]
  exact and_congr_right fun _ => ⟨fun h => (Except.ok.inj h).symm, fun h => congrArg _ h.symm⟩

theorem rootCheck_eq_ok {name sec : Json} : rootCheck T podSecurity name sec = .ok found ↔
    IsDict podSecurity ∧ IsDict sec ∧ found = violation
      (equalsZero (fieldOr sec "runAsUser" (field podSecurity "runAsUser"))) (about T name "' runs as root (runAsUser=0)") := by
  rw [rootCheck, pyGet_bind_eq_ok, pyGet_bind_eq_ok]
  refine and_congr_right fun _ => and_congr_right fun _ => ?_
  exact ⟨fun h => (Except.ok.inj h).symm, fun h => congrArg _ h.symm⟩

theorem containerCheck_isOk : (∃ found, containerCheck T {} podSecurity container = .ok found) ↔
    EntryReadable podSecurity container := by
  constructor
  · rintro ⟨found,h⟩
    obtain ⟨hdict,h⟩ := pyGet_bind_eq_ok.mp h
    obtain ⟨has,-,h⟩ := bind_eq_ok.mp h
    obtain ⟨-,h⟩ := pyGet_bind_eq_ok.mp h
    obtain ⟨privileged,-,h⟩ := bind_eq_ok.mp h
    obtain ⟨root,hroot,-⟩ := bind_eq_ok.mp h
    obtain ⟨hpod,hsec,-⟩ := rootCheck_eq_ok.mp hroot
    exact ⟨hdict, hsec, hpod⟩
  · rintro ⟨hdict,hsec,hpod⟩
    refine pyGet_bind_isOk.mpr ⟨hdict, bind_isOk.mpr ⟨_, pyIn_dict hdict, ?_⟩⟩
    refine pyGet_bind_isOk.mpr ⟨hdict, bind_isOk.mpr ⟨_, privilegedCheck_eq_ok.mpr ⟨hsec, rfl⟩, ?_⟩⟩
    exact bind_isOk.mpr ⟨_, rootCheck_eq_ok.mpr ⟨hpod, hsec, rfl⟩, _, rfl⟩

theorem containerCheck_nil (h : containerCheck T {} podSecurity container = .ok found) :
    found = [] ↔ EntryPasses podSecurity container := by
  obtain ⟨hdict,h⟩ := pyGet_bind_eq_ok.mp h
  obtain ⟨has,hhas,h⟩ := bind_eq_ok.mp h
  cases (pyIn_dict hdict).symm.trans hhas
  obtain ⟨-,h⟩ := pyGet_bind_eq_ok.mp h
  obtain ⟨privileged,hprivileged,h⟩ := bind_eq_ok.mp h
  obtain ⟨root,hroot,h⟩ := bind_eq_ok.mp h
  cases h
  obtain ⟨-,rfl⟩ := privilegedCheck_eq_ok.mp hprivileged
  obtain ⟨-,-,rfl⟩ := rootCheck_eq_ok.mp hroot
  simp only [List.append_eq_nil_iff, violation_eq_nil, and_true, Bool.true_and, Bool.not_eq_false']
  constructor
  · rintro ⟨⟨hsecurity,hprivileged⟩,huser⟩
    exact ⟨hsecurity, hprivileged, huser⟩
  · rintro ⟨hsecurity,hprivileged,huser⟩
    exact ⟨⟨hsecurity, hprivileged⟩, huser⟩

end Rules

section Volumes

variable {T : CharTables} {volume : Json} {found : List Str}

def VolumeReadable (volume : Json) : Prop := pyIn "hostPath" volume = .ok false ∨ IsDict volume

theorem volumeCheck_isOk : (∃ found, volumeCheck T volume = .ok found) ↔ VolumeReadable volume := by
  rw [VolumeReadable, volumeCheck]
  cases hin : pyIn "hostPath" volume with
  | error e =>
    refine ⟨fun ⟨_,h⟩ => (by cases h), ?_⟩
    rintro (h | hdict)
    · cases h
    · cases (pyIn_dict hdict).symm.trans hin
  | ok b =>
    cases b with
    | false => exact ⟨fun _ => .inl rfl, fun _ => ⟨[], rfl⟩⟩
    | true =>
      constructor
      · rintro ⟨found,h⟩
        exact .inr (pyGet_bind_eq_ok.mp h).1
      · rintro (h | hdict)
        · cases h
        · exact ⟨_, pyGet_bind_eq_ok.mpr ⟨hdict, rfl⟩⟩

theorem volumeCheck_nil (h : volumeCheck T volume = .ok found) : found = [] ↔ pyIn "hostPath" volume = .ok false := by
  rw [volumeCheck] at h
  obtain ⟨b,hb,h⟩ := bind_eq_ok.mp h
  rw [hb]
  cases b with
  | false =>
    cases h
    exact ⟨fun _ => rfl, fun _ => rfl⟩
  | true =>
    obtain ⟨-,h⟩ := pyGet_bind_eq_ok.mp h
    cases h
    exact ⟨fun h => (by cases h), fun h => (by cases h)⟩

theorem flatten_eq_nil_of_mapM {f : Json → Violations} {passes : Json → Prop} {xs : List Json} {founds : List (List Str)}
    (hf : ∀ x found, f x = .ok found → (found = [] ↔ passes x)) (h : xs.mapM f = .ok founds) :
    founds.flatten = [] ↔ ∀ x ∈ xs, passes x := by
  rw [List.flatten_eq_nil_iff]
  constructor
  · intro hnil x hx
    obtain ⟨found,hfound⟩ := mapM_isOk.mp ⟨founds, h⟩ x hx
    exact (hf x found hfound).mp (hnil found ((mem_mapM h found).mpr ⟨x, hx, hfound⟩))
  · intro hpass found hmem
    obtain ⟨x,hx,hfound⟩ := (mem_mapM h found).mp hmem
    exact (hf x found hfound).mpr (hpass x hx)

end Volumes

section Spec

variable (spec : Json)

def volumesField : Json := fieldOr spec "volumes" (.arr .nil)

def podSecurityOf : Json := fieldOr spec "securityContext" (.obj .nil)

def containerEntries : Except PyError (List Json) :=
  pyIterSum (fieldOr spec "containers" (.arr .nil)) (fieldOr spec "initContainers" (.arr .nil))

structure SpecReadable : Prop where
  volumes : ∃ volumes, pyIter (volumesField spec) = .ok volumes ∧ ∀ v ∈ volumes, VolumeReadable v
  entries : ∃ entries, containerEntries spec = .ok entries ∧ ∀ c ∈ entries, EntryReadable (podSecurityOf spec) c

structure Passes : Prop where
  network : (field spec "hostNetwork").truthy = false
  pid : (field spec "hostPID").truthy = false
  ipc : (field spec "hostIPC").truthy = false
  volumes : ∀ volumes, pyIter (volumesField spec) = .ok volumes → ∀ v ∈ volumes, pyIn "hostPath" v = .ok false
  entries : ∀ entries, containerEntries spec = .ok entries → ∀ c ∈ entries, EntryPasses (podSecurityOf spec) c

variable {T : CharTables} {spec} {found : List Str}

theorem hostChecks_eq_ok : hostChecks spec = .ok found ↔ IsDict spec ∧ found =
    violation (field spec "hostNetwork").truthy "hostNetwork is not allowed".toList ++
    violation (field spec "hostPID").truthy "hostPID is not allowed".toList ++
    violation (field spec "hostIPC").truthy "hostIPC is not allowed".toList := by
  constructor
  · intro h
    obtain ⟨network,hnetwork,h⟩ := bind_eq_ok.mp h
    obtain ⟨pid,hpid,h⟩ := bind_eq_ok.mp h
    obtain ⟨ipc,hipc,h⟩ := bind_eq_ok.mp h
    obtain ⟨hdict,rfl⟩ := hostCheck_eq_ok.mp hnetwork
    obtain ⟨-,rfl⟩ := hostCheck_eq_ok.mp hpid
    obtain ⟨-,rfl⟩ := hostCheck_eq_ok.mp hipc
    cases h
    exact ⟨hdict, rfl⟩
  · rintro ⟨hdict,rfl⟩
    refine bind_eq_ok.mpr ⟨_, hostCheck_eq_ok.mpr ⟨hdict, rfl⟩, ?_⟩
    refine bind_eq_ok.mpr ⟨_, hostCheck_eq_ok.mpr ⟨hdict, rfl⟩, ?_⟩
    exact bind_eq_ok.mpr ⟨_, hostCheck_eq_ok.mpr ⟨hdict, rfl⟩, rfl⟩

theorem volumeChecks_isOk (hdict : IsDict spec) : (∃ found, volumeChecks T spec = .ok found) ↔
    ∃ volumes, pyIter (volumesField spec) = .ok volumes ∧ ∀ v ∈ volumes, VolumeReadable v := by
  constructor
  · rintro ⟨found,h⟩
    obtain ⟨-,h⟩ := pyGet_bind_eq_ok.mp h
    obtain ⟨volumes,hvolumes,h⟩ := bind_eq_ok.mp h
    obtain ⟨founds,hfounds,-⟩ := bind_eq_ok.mp h
    exact ⟨volumes, hvolumes, fun v hv => volumeCheck_isOk.mp (mapM_isOk.mp ⟨founds, hfounds⟩ v hv)⟩
  · rintro ⟨volumes,hvolumes,hall⟩
    obtain ⟨founds,hfounds⟩ := mapM_isOk.mpr fun v hv => (volumeCheck_isOk (T := T)).mpr (hall v hv)
    exact pyGet_bind_isOk.mpr ⟨hdict, bind_isOk.mpr ⟨_, hvolumes, bind_isOk.mpr ⟨_, hfounds, _, rfl⟩⟩⟩

theorem volumeChecks_nil (h : volumeChecks T spec = .ok found) : found = [] ↔
    ∀ volumes, pyIter (volumesField spec) = .ok volumes → ∀ v ∈ volumes, pyIn "hostPath" v = .ok false := by
  obtain ⟨-,h⟩ := pyGet_bind_eq_ok.mp h
  obtain ⟨volumes,hvolumes,h⟩ := bind_eq_ok.mp h
  obtain ⟨founds,hfounds,h⟩ := bind_eq_ok.mp h
  cases h
  rw [flatten_eq_nil_of_mapM (fun v found => volumeCheck_nil) hfounds]
  refine ⟨fun h volumes' hvolumes' => ?_, fun h => h volumes hvolumes⟩
  cases hvolumes.symm.trans hvolumes'
  exact h

theorem specCheck_isOk (hdict : IsDict spec) : (∃ found, specCheck T {} spec = .ok found) ↔ SpecReadable spec := by
  constructor
  · rintro ⟨found,h⟩
    obtain ⟨-,h⟩ := pyGet_bind_eq_ok.mp h
    obtain ⟨host,-,h⟩ := bind_eq_ok.mp h
    obtain ⟨volumes,hvolumes,h⟩ := bind_eq_ok.mp h
    obtain ⟨nonRoot,-,h⟩ := bind_eq_ok.mp h
    obtain ⟨-,h⟩ := pyGet_bind_eq_ok.mp h
    obtain ⟨-,h⟩ := pyGet_bind_eq_ok.mp h
    obtain ⟨entries,hentries,h⟩ := bind_eq_ok.mp h
    obtain ⟨founds,hfounds,-⟩ := bind_eq_ok.mp h
    refine ⟨(volumeChecks_isOk hdict).mp ⟨volumes, hvolumes⟩, entries, hentries, fun c hc => ?_⟩
    exact containerCheck_isOk.mp (mapM_isOk.mp ⟨founds, hfounds⟩ c hc)
  · rintro ⟨hvolumes,entries,hentries,hall⟩
    obtain ⟨volumes,hvolumes⟩ := (volumeChecks_isOk (T := T) hdict).mpr hvolumes
    obtain ⟨founds,hfounds⟩ := mapM_isOk.mpr fun c hc => (containerCheck_isOk (T := T)).mpr (hall c hc)
    refine pyGet_bind_isOk.mpr ⟨hdict, bind_isOk.mpr ⟨_, hostChecks_eq_ok.mpr ⟨hdict, rfl⟩, ?_⟩⟩
    refine bind_isOk.mpr ⟨_, hvolumes, bind_isOk.mpr ⟨[], rfl, ?_⟩⟩
    refine pyGet_bind_isOk.mpr ⟨hdict, pyGet_bind_isOk.mpr ⟨hdict, ?_⟩⟩
    exact bind_isOk.mpr ⟨_, hentries, bind_isOk.mpr ⟨_, hfounds, _, rfl⟩⟩

theorem specCheck_nil (h : specCheck T {} spec = .ok found) : found = [] ↔ Passes spec := by
  obtain ⟨-,h⟩ := pyGet_bind_eq_ok.mp h
  obtain ⟨host,hhost,h⟩ := bind_eq_ok.mp h
  obtain ⟨volumes,hvolumes,h⟩ := bind_eq_ok.mp h
  obtain ⟨nonRoot,hnonRoot,h⟩ := bind_eq_ok.mp h
  obtain ⟨-,h⟩ := pyGet_bind_eq_ok.mp h
  obtain ⟨-,h⟩ := pyGet_bind_eq_ok.mp h
  obtain ⟨entries,hentries,h⟩ := bind_eq_ok.mp h
  obtain ⟨founds,hfounds,h⟩ := bind_eq_ok.mp h
  cases hnonRoot
  cases h
  obtain ⟨-,rfl⟩ := hostChecks_eq_ok.mp hhost
  simp only [List.append_eq_nil_iff, violation_eq_nil, and_true]
  rw [volumeChecks_nil hvolumes, flatten_eq_nil_of_mapM (fun c found => containerCheck_nil) hfounds]
  constructor
  · rintro ⟨⟨⟨⟨hnetwork,hpid⟩,hipc⟩,hvolumes⟩,hall⟩
    refine ⟨hnetwork, hpid, hipc, hvolumes, fun entries' hentries' => ?_⟩
    cases hentries.symm.trans hentries'
    exact hall
  · intro h
    exact ⟨⟨⟨⟨h.network, h.pid⟩, h.ipc⟩, h.volumes⟩, h.entries entries hentries⟩

end Spec

section Pods

variable (spec c : Json)

def items (j : Json) (key : String) : List Json := (list? (field j key)).getD []

def effectiveUser : Json :=
  match field (field c "securityContext") "runAsUser" with
  | .null => field (field spec "securityContext") "runAsUser"
  | user => user

structure EntryClean : Prop where
  security : field c "securityContext" ≠ .null
  privileged : (field (field c "securityContext") "privileged").truthy = false
  user : equalsZero (effectiveUser spec c) = false

structure PodClean : Prop where
  containers : ∀ c ∈ items spec "containers", EntryClean spec c
  initContainers : ∀ c ∈ items spec "initContainers", EntryClean spec c
  ephemeralContainers : ∀ c ∈ items spec "ephemeralContainers", EntryClean spec c
  volumes : ∀ v ∈ items spec "volumes", field? v "hostPath" = none
  network : (field spec "hostNetwork").truthy = false
  pid : (field spec "hostPID").truthy = false
  ipc : (field spec "hostIPC").truthy = false

def NullOverRoot : Prop :=
  field? (field c "securityContext") "runAsUser" = some .null ∧
    equalsZero (field (field spec "securityContext") "runAsUser") = true

variable {spec c}

theorem field_fieldOr_empty {j : Json} {key key' : String} :
    field (fieldOr j key (.obj .nil)) key' = field (field j key) key' := by
  rw [field.eq_def j key, fieldOr, fieldOr]
  cases field? j key with
  | none => rfl
  | some value => rfl

theorem entryClean_iff (h : EntryReadable (podSecurityOf spec) c) :
    EntryClean spec c ↔ EntryPasses (podSecurityOf spec) c ∧ ¬NullOverRoot spec c := by
  have hpod : field (podSecurityOf spec) "runAsUser" = field (field spec "securityContext") "runAsUser" :=
    field_fieldOr_empty
  have hprivileged : field (securityOf c) "privileged" = field (field c "securityContext") "privileged" :=
    field_fieldOr_empty
  have hreadable := h.security
  cases hsec : field? c "securityContext" with
  | none =>
    have hnull : field c "securityContext" = .null := by rw [field, fieldOr, hsec, Option.getD_none]
    refine iff_of_false (fun h => h.security hnull) fun h => ?_
    have hsome := h.1.security
    rw [hsec] at hsome
    cases hsome
  | some sec =>
    have hfield : field c "securityContext" = sec := by rw [field, fieldOr, hsec, Option.getD_some]
    have hsecurity : securityOf c = sec := by rw [securityOf, fieldOr, hsec, Option.getD_some]
    rw [hsecurity] at hreadable
    have hnotnull : sec ≠ .null := by
      rintro rfl
      cases hreadable
    have huser : equalsZero (effectiveUser spec c) = false ↔
        equalsZero (userOf (podSecurityOf spec) c) = false ∧ ¬NullOverRoot spec c := by
      rw [userOf, hsecurity, hpod, effectiveUser, NullOverRoot, hfield, field.eq_def sec, fieldOr, fieldOr]
      cases field? sec "runAsUser" with
      | none => simp
      | some user => cases user <;> simp [equalsZero]
    constructor
    · rintro ⟨-,hpriv,hzero⟩
      exact ⟨⟨by rw [hsec]; rfl, by rw [hprivileged]; exact hpriv, (huser.mp hzero).1⟩, (huser.mp hzero).2⟩
    · rintro ⟨⟨-,hpriv,hzero⟩,hnull⟩
      exact ⟨hfield.symm ▸ hnotnull, by rw [← hprivileged]; exact hpriv, huser.mpr ⟨hzero, hnull⟩⟩

theorem list?_fieldOr {j : Json} {key : String} :
    (list? (fieldOr j key (.arr .nil))).getD [] = items j key := by
  rw [items, field, fieldOr, fieldOr]
  cases field? j key with
  | none => rfl
  | some value => rfl

-- The loop passes the two lists; two strings have no character that is a container.
theorem entries_eq {entries : List Json} {podSecurity : Json} (h : containerEntries spec = .ok entries)
    (hall : ∀ c ∈ entries, EntryReadable podSecurity c) :
    entries = items spec "containers" ++ items spec "initContainers" := by
  rw [containerEntries] at h
  rw [← list?_fieldOr, ← list?_fieldOr]
  cases hcontainers : fieldOr spec "containers" (.arr .nil) with
  | arr containers =>
    cases hinit : fieldOr spec "initContainers" (.arr .nil) with
    | arr initContainers =>
      rw [hcontainers, hinit] at h
      cases h
      rfl
    | _ =>
      rw [hcontainers, hinit] at h
      cases h
  | str s =>
    cases hinit : fieldOr spec "initContainers" (.arr .nil) with
    | str s' =>
      rw [hcontainers, hinit] at h
      cases h
      cases hs : s ++ s' with
      | nil => rfl
      | cons c rest =>
        rw [hs] at hall
        cases (hall _ List.mem_cons_self).dict
    | _ =>
      rw [hcontainers, hinit] at h
      cases h
  | _ =>
    rw [hcontainers] at h
    cases h

theorem pyIn_false_iff {v : Json} (h : IsDict v) : pyIn "hostPath" v = .ok false ↔ field? v "hostPath" = none := by
  rw [pyIn_dict h, Except.ok.injEq, Option.isSome_eq_false_iff, Option.isNone_iff_eq_none]

theorem field?_of_not_dict {j : Json} {key : String} (h : ¬IsDict j) : field? j key = none := by
  rw [field?, Option.not_isSome_iff_eq_none.mp h, Option.bind_none]

theorem volumes_iff (h : SpecReadable spec) :
    (∀ volumes, pyIter (volumesField spec) = .ok volumes → ∀ v ∈ volumes, pyIn "hostPath" v = .ok false) ↔
      ∀ v ∈ items spec "volumes", field? v "hostPath" = none := by
  obtain ⟨volumes,hvolumes,hreadable⟩ := h.volumes
  have hpasses : ∀ v ∈ volumes, pyIn "hostPath" v = .ok false ↔ field? v "hostPath" = none := by
    intro v hv
    by_cases hdict : IsDict v
    · exact pyIn_false_iff hdict
    · exact iff_of_true ((hreadable v hv).resolve_right hdict) (field?_of_not_dict hdict)
  have hsame : (∀ v ∈ volumes, field? v "hostPath" = none) ↔ ∀ v ∈ items spec "volumes", field? v "hostPath" = none := by
    rw [← list?_fieldOr, ← volumesField]
    cases hfield : volumesField spec with
    | arr vs =>
      rw [hfield] at hvolumes
      cases hvolumes
      rfl
    | obj fields =>
      rw [hfield] at hvolumes
      cases hvolumes
      refine iff_of_true (fun v hv => ?_) fun v hv => absurd hv List.not_mem_nil
      obtain ⟨field,-,rfl⟩ := List.mem_map.mp hv
      rfl
    | str s =>
      rw [hfield] at hvolumes
      cases hvolumes
      refine iff_of_true (fun v hv => ?_) fun v hv => absurd hv List.not_mem_nil
      obtain ⟨c,-,rfl⟩ := List.mem_map.mp hv
      rfl
    | _ =>
      rw [hfield] at hvolumes
      cases hvolumes
  rw [← hsame]
  constructor
  · exact fun hall v hv => (hpasses v hv).mp (hall volumes hvolumes v hv)
  · intro hall volumes' hvolumes' v hv
    cases hvolumes.symm.trans hvolumes'
    exact (hpasses v hv).mpr (hall v hv)

def RestClean (spec : Json) : Prop :=
  (∀ c ∈ items spec "ephemeralContainers", EntryClean spec c) ∧
    ∀ c ∈ items spec "containers" ++ items spec "initContainers", ¬NullOverRoot spec c

theorem podClean_iff (h : SpecReadable spec) : PodClean spec ↔ Passes spec ∧ RestClean spec := by
  obtain ⟨entries,hentries,hreadable⟩ := h.entries
  have heq := entries_eq hentries hreadable
  have hclean : (∀ c ∈ items spec "containers" ++ items spec "initContainers", EntryClean spec c) ↔
      (∀ entries, containerEntries spec = .ok entries → ∀ c ∈ entries, EntryPasses (podSecurityOf spec) c) ∧
        ∀ c ∈ items spec "containers" ++ items spec "initContainers", ¬NullOverRoot spec c := by
    rw [← heq]
    constructor
    · intro hall
      refine ⟨fun entries' hentries' => ?_, fun c hc => ((entryClean_iff (hreadable c hc)).mp (hall c hc)).2⟩
      cases hentries.symm.trans hentries'
      exact fun c hc => ((entryClean_iff (hreadable c hc)).mp (hall c hc)).1
    · rintro ⟨hpasses,hnull⟩ c hc
      exact (entryClean_iff (hreadable c hc)).mpr ⟨hpasses entries hentries c hc, hnull c hc⟩
  constructor
  · intro hpod
    obtain ⟨hpasses,hnull⟩ := hclean.mp (List.forall_mem_append.mpr ⟨hpod.containers, hpod.initContainers⟩)
    exact ⟨⟨hpod.network, hpod.pid, hpod.ipc, (volumes_iff h).mpr hpod.volumes, hpasses⟩,
      hpod.ephemeralContainers, hnull⟩
  · rintro ⟨hpasses,hephemeral,hnull⟩
    obtain ⟨hcontainers,hinit⟩ := List.forall_mem_append.mp (hclean.mpr ⟨hpasses.entries, hnull⟩)
    exact ⟨hcontainers, hinit, hephemeral, (volumes_iff h).mp hpasses.volumes, hpasses.network, hpasses.pid, hpasses.ipc⟩

end Pods

section Review

variable (doc : Json)

def requestOf : Json := field doc "request"

def podOf : Json := field (requestOf doc) "object"

def specOf : Json := field (podOf doc) "spec"

structure Answerable : Prop where
  review : IsDict doc
  request : (requestOf doc).truthy = true → IsDict (requestOf doc)
  pod : (podOf doc).truthy = true → IsDict (podOf doc)
  spec : (specOf doc).truthy = true → IsDict (specOf doc) ∧ SpecReadable (specOf doc)

def AtValidate (nfkc : Str → Str) (path : Str) : Prop :=
  ∃ parsed, Url.urlparse nfkc path [] = .ok parsed ∧ parsed.path = "/validate".toList

def Reviewed (T : CharTables) (nfkc : Str → Str) (posted : Posted) (doc : Json) : Prop :=
  ∃ body, doPost nfkc (some (PodSecurityValidator.validate T {})) posted = .ok (.review body) ∧
    ((field (field body "response") "allowed").truthy = true → PodClean (specOf doc))

variable {T : CharTables} {nfkc : Str → Str} {doc}

theorem truthy_fieldOr_empty {j : Json} {key : String} :
    (fieldOr j key (.obj .nil)).truthy = (field j key).truthy := by
  rw [field, fieldOr, fieldOr]
  cases field? j key with
  | none => rfl
  | some value => rfl

theorem fieldOr_of_truthy {j default default' : Json} {key : String} (hdefault : default.truthy = false)
    (h : (fieldOr j key default).truthy = true) : fieldOr j key default = fieldOr j key default' := by
  rw [fieldOr] at h ⊢
  rw [fieldOr]
  cases hfield : field? j key with
  | none =>
    rw [hfield, Option.getD_none, hdefault] at h
    cases h
  | some value => rfl

theorem field_of_not_truthy {j : Json} {key : String} (h : j.truthy = false) : field j key = .null := by
  rw [field, fieldOr, field?]
  cases j with
  | obj fields =>
    cases fields with
    | nil => rfl
    | cons k v rest => cases h
  | _ => rfl

theorem allowed_toReview (r : AdmissionResponse) :
    (field (field r.toReview "response") "allowed").truthy = r.allowed := by
  cases r with
  | mk uid allowed status => cases status <;> rfl

theorem podClean_of_not_truthy {spec : Json} (h : spec.truthy = false) : PodClean spec := by
  have hitems : ∀ key, items spec key = [] := fun key => by
    rw [items, field_of_not_truthy h]
    rfl
  have hall : ∀ {p : Json → Prop} key, ∀ c ∈ items spec key, p c := fun key c hc => by
    rw [hitems] at hc
    cases hc
  have hfalse : ∀ key, (field spec key).truthy = false := fun key => by
    rw [field_of_not_truthy h]
    rfl
  exact ⟨hall _, hall _, hall _, hall _, hfalse _, hfalse _, hfalse _⟩

theorem restClean_of_not_truthy {spec : Json} (h : spec.truthy = false) : RestClean spec := by
  have hclean := podClean_of_not_truthy h
  refine ⟨hclean.ephemeralContainers, fun c _ hnull => ?_⟩
  have huser : field (field spec "securityContext") "runAsUser" = .null := by
    rw [field_of_not_truthy h]
    rfl
  cases (congrArg equalsZero huser).symm.trans hnull.2

theorem validate_spec (req : AdmissionRequest) :
    ((∃ r, PodSecurityValidator.validate T {} req = .ok r) ↔
      (req.objectRaw.truthy = true → IsDict req.objectRaw) ∧
      ((field req.objectRaw "spec").truthy = true →
        IsDict (field req.objectRaw "spec") ∧ SpecReadable (field req.objectRaw "spec"))) ∧
    ∀ allowed reason, PodSecurityValidator.validate T {} req = .ok (allowed, reason) →
      (allowed = true ↔ ((field req.objectRaw "spec").truthy = true → Passes (field req.objectRaw "spec"))) := by
  rw [PodSecurityValidator.validate]
  cases hpod : req.objectRaw.truthy with
  | false =>
    have hspec := @field_of_not_truthy _ "spec" hpod
    rw [hspec]
    refine ⟨iff_of_true ⟨_, rfl⟩ ⟨fun h => (by cases h), fun h => (by cases h)⟩, fun allowed reason h => ?_⟩
    cases h
    exact iff_of_true rfl fun h => (by cases h)
  | true =>
    simp only [Bool.not_true, Bool.false_eq_true, if_false, true_imp_iff]
    rw [pyGet_bind_isOk, ← truthy_fieldOr_empty]
    cases hspec : (fieldOr req.objectRaw "spec" (.obj .nil)).truthy with
    | false =>
      refine ⟨and_congr_right fun _ => iff_of_true ⟨_, rfl⟩ fun h => (by cases h), fun allowed reason h => ?_⟩
      obtain ⟨-,h⟩ := pyGet_bind_eq_ok.mp h
      rw [hspec] at h
      cases h
      exact iff_of_true rfl fun h => (by cases h)
    | true =>
      have heq : fieldOr req.objectRaw "spec" (.obj .nil) = field req.objectRaw "spec" :=
        fieldOr_of_truthy truthy_empty hspec
      rw [← heq]
      constructor
      · refine and_congr_right fun _ => ?_
        rw [whenSet, if_pos rfl, bind_isOk, imp_iff_right (rfl : true = true)]
        constructor
        · rintro ⟨found,hfound,-⟩
          have hdict := (pyGet_bind_eq_ok.mp hfound).1
          exact ⟨hdict, (specCheck_isOk hdict).mp ⟨found, hfound⟩⟩
        · rintro ⟨hdict,hreadable⟩
          obtain ⟨found,hfound⟩ := (specCheck_isOk (T := T) hdict).mpr hreadable
          exact ⟨found, hfound, _, rfl⟩
      · intro allowed reason h
        obtain ⟨-,h⟩ := pyGet_bind_eq_ok.mp h
        obtain ⟨found,hfound,h⟩ := bind_eq_ok.mp h
        rw [whenSet, if_pos hspec] at hfound
        cases h
        rw [decide_eq_true_iff, specCheck_nil hfound, imp_iff_right (rfl : true = true)]

theorem fromDict_eq_ok {data : Json} {req : AdmissionRequest} : AdmissionRequest.fromDict data = .ok req ↔
    IsDict data ∧ req =
      { uid := fieldOr data "uid" (.str []), kind := fieldOr data "kind" (.obj .nil),
        name := fieldOr data "name" (.str []), namespaceName := fieldOr data "namespace" (.str []),
        operation := fieldOr data "operation" (.str []), objectRaw := fieldOr data "object" (.obj .nil) } := by
  rw [AdmissionRequest.fromDict]
  simp only [pyGet_bind_eq_ok]
  constructor
  · rintro ⟨hdict,-,-,-,-,-,h⟩
    exact ⟨hdict, (Except.ok.inj h).symm⟩
  · rintro ⟨hdict,rfl⟩
    exact ⟨hdict, hdict, hdict, hdict, hdict, hdict, rfl⟩

theorem answer_of_missing {validator : Option Validator} (hdict : IsDict doc) (h : (requestOf doc).truthy = false) :
    answer validator doc = .ok (admissionError "missing 'request' field".toList) := by
  refine pyGet_bind_eq_ok.mpr ⟨hdict, ?_⟩
  rw [truthy_fieldOr_empty, ← requestOf, h]
  rfl

theorem answer_of_request {req : AdmissionRequest} (hdict : IsDict doc) (h : (requestOf doc).truthy = true)
    (hreq : AdmissionRequest.fromDict (requestOf doc) = .ok req) :
    answer (some (PodSecurityValidator.validate T {})) doc =
      (PodSecurityValidator.validate T {} req).map fun verdict => .of req.uid verdict.1 verdict.2 := by
  have heq : fieldOr doc "request" (.obj .nil) = requestOf doc :=
    fieldOr_of_truthy truthy_empty (truthy_fieldOr_empty.trans h)
  rw [answer, bind_of_eq_ok (pyGet_eq_ok.mpr ⟨hdict, rfl⟩), heq, h]
  simp only [Bool.not_true, Bool.false_eq_true, if_false]
  rw [bind_of_eq_ok hreq]
  cases PodSecurityValidator.validate T {} req with
  | error e => rfl
  | ok verdict => rfl

theorem map_isOk {α β : Type} {f : α → β} {x : Except PyError α} : (∃ r, x.map f = .ok r) ↔ ∃ a, x = .ok a := by
  cases x with
  | error e => exact ⟨fun ⟨_,h⟩ => (by cases h), fun ⟨_,h⟩ => (by cases h)⟩
  | ok a => exact ⟨fun _ => ⟨a, rfl⟩, fun _ => ⟨f a, rfl⟩⟩

theorem answer_isOk : (∃ r, answer (some (PodSecurityValidator.validate T {})) doc = .ok r) ↔ Answerable doc := by
  by_cases hdict : IsDict doc
  · cases hrequest : (requestOf doc).truthy with
    | false =>
      refine iff_of_true ⟨_, answer_of_missing hdict hrequest⟩ ⟨hdict, fun h => ?_, fun h => ?_, fun h => ?_⟩
      · cases hrequest.symm.trans h
      · rw [podOf, field_of_not_truthy hrequest] at h
        cases h
      · rw [specOf, podOf, field_of_not_truthy hrequest] at h
        cases h
    | true =>
      by_cases hdata : IsDict (requestOf doc)
      · have hreq := fromDict_eq_ok.mpr ⟨hdata, rfl⟩
        rw [answer_of_request hdict hrequest hreq, map_isOk, (validate_spec _).1]
        dsimp only
        rw [truthy_fieldOr_empty, field_fieldOr_empty, ← podOf, ← specOf]
        have hpod : (podOf doc).truthy = true → fieldOr (requestOf doc) "object" (.obj .nil) = podOf doc := fun h =>
          fieldOr_of_truthy truthy_empty (truthy_fieldOr_empty.trans h)
        constructor
        · rintro ⟨hobject,hspec⟩
          exact ⟨hdict, fun _ => hdata, fun h => hpod h ▸ hobject h, hspec⟩
        · intro h
          exact ⟨fun htruthy => (hpod htruthy).symm ▸ h.pod htruthy, h.spec⟩
      · refine iff_of_false (fun ⟨r,h⟩ => ?_) fun h => hdata (h.request hrequest)
        have heq : fieldOr doc "request" (.obj .nil) = requestOf doc :=
          fieldOr_of_truthy truthy_empty (truthy_fieldOr_empty.trans hrequest)
        obtain ⟨-,h⟩ := pyGet_bind_eq_ok.mp h
        rw [heq, hrequest] at h
        simp only [Bool.not_true, Bool.false_eq_true, if_false] at h
        obtain ⟨req,hreq,-⟩ := bind_eq_ok.mp h
        exact hdata (fromDict_eq_ok.mp hreq).1
  · exact iff_of_false (fun ⟨_,h⟩ => hdict (pyGet_bind_eq_ok.mp h).1) fun h => hdict h.review

theorem answer_allowed {r : AdmissionResponse} (h : answer (some (PodSecurityValidator.validate T {})) doc = .ok r) :
    (r.allowed = true → PodClean (specOf doc)) ↔ (Passes (specOf doc) → RestClean (specOf doc)) := by
  have hanswerable := answer_isOk.mp ⟨r, h⟩
  cases hspec : (specOf doc).truthy with
  | false => exact iff_of_true (fun _ => podClean_of_not_truthy hspec) fun _ => restClean_of_not_truthy hspec
  | true =>
    have hrequest : (requestOf doc).truthy = true := by
      by_contra hfalse
      rw [specOf, podOf, field_of_not_truthy (Bool.eq_false_iff.mpr hfalse)] at hspec
      cases hspec
    have hreq := fromDict_eq_ok.mpr ⟨hanswerable.request hrequest, rfl⟩
    rw [answer_of_request hanswerable.review hrequest hreq] at h
    obtain ⟨⟨allowed,reason⟩,hverdict⟩ := map_isOk.mp ⟨r, h⟩
    rw [hverdict] at h
    cases h
    have hallowed := (validate_spec _).2 allowed reason hverdict
    dsimp only at hallowed
    rw [field_fieldOr_empty, ← podOf, ← specOf, hspec, imp_iff_right (rfl : true = true)] at hallowed
    change (allowed = true → PodClean (specOf doc)) ↔ _
    rw [hallowed, podClean_iff (hanswerable.spec hspec).2]
    exact ⟨fun h hpasses => (h hpasses).2, fun h hpasses => ⟨hpasses, h hpasses⟩⟩

theorem pod_admission_iff (T : CharTables) (nfkc : Str → Str) (posted : Posted) (doc : Json)
    (hpath : AtValidate nfkc posted.path) (hdoc : posted.document = .ok doc) :
    Reviewed T nfkc posted doc ↔
      (posted.contentLength ≤ maxAdmissionReviewBytes →
        Answerable doc ∧ (Passes (specOf doc) → RestClean (specOf doc))) := by
  obtain ⟨parsed,hparsed,hvalidate⟩ := hpath
  rw [Reviewed, doPost, bind_of_eq_ok hparsed, if_neg (not_not.mpr hvalidate)]
  by_cases hlength : posted.contentLength ≤ maxAdmissionReviewBytes
  · rw [if_neg (not_lt.mpr hlength), hdoc, imp_iff_right hlength, ← answer_isOk (T := T)]
    dsimp only
    cases hanswer : answer (some (PodSecurityValidator.validate T {})) doc with
    | error e =>
      refine iff_of_false ?_ ?_
      · rintro ⟨body,h,-⟩
        cases h
      · rintro ⟨⟨r,h⟩,-⟩
        cases h
    | ok r =>
      rw [and_iff_right ⟨r, rfl⟩, ← answer_allowed hanswer]
      constructor
      · rintro ⟨body,h,hclean⟩
        cases h
        rwa [allowed_toReview] at hclean
      · intro hclean
        refine ⟨r.toReview, rfl, ?_⟩
        rwa [allowed_toReview]
  · rw [if_pos (not_le.mp hlength)]
    refine iff_of_true ⟨_, rfl, ?_⟩ fun h => absurd h hlength
    rw [allowed_toReview]
    exact fun h => Bool.noConfusion h

def reviewOf (spec : List (Str × Json)) : Json :=
  .obj (.ofList [("request".toList, .obj (.ofList [("object".toList, .obj (.ofList [("spec".toList, .obj (.ofList spec))]))]))])

def postedAt (path : String) (doc : Json) : Posted := { path := path.toList, contentLength := 300, document := .ok doc }

def debugContainer : Json :=
  .obj (.ofList [("name".toList, .str "debug".toList),
    ("securityContext".toList, .obj (.ofList [("privileged".toList, .bool true)]))])

theorem atValidate_timeout : AtValidate id "/validate?timeout=10s".toList :=
  ⟨_, rfl, by decide +kernel⟩

theorem debug_container_reviewed :
    Reviewed .basic id (postedAt "/validate?timeout=10s" (reviewOf [("containers".toList, .arr (.ofList [debugContainer]))]))
      (reviewOf [("containers".toList, .arr (.ofList [debugContainer]))]) := by
  refine (pod_admission_iff .basic id (postedAt "/validate?timeout=10s" _) _ atValidate_timeout rfl).mpr fun _ => ?_
  refine ⟨⟨rfl, fun _ => rfl, fun _ => rfl, fun _ => ⟨rfl, ?_, ?_⟩⟩, fun hpasses => ?_⟩
  · exact ⟨_, rfl, fun _ hv => absurd hv List.not_mem_nil⟩
  · exact ⟨_, rfl, List.forall_mem_singleton.mpr ⟨rfl, rfl, rfl⟩⟩
  · cases (hpasses.entries _ rfl debugContainer (List.mem_singleton_self _)).privileged

-- A privileged ephemeral container is admitted, and a null securityContext ends in an exception.
theorem ephemeral_admitted_and_null_raises :
    ¬Reviewed .basic id (postedAt "/validate" (reviewOf [("ephemeralContainers".toList, .arr (.ofList [debugContainer]))]))
        (reviewOf [("ephemeralContainers".toList, .arr (.ofList [debugContainer]))]) ∧
      doPost id (some (PodSecurityValidator.validate .basic {})) (postedAt "/validate" (reviewOf
        [("containers".toList, .arr (.ofList [.obj (.ofList [("securityContext".toList, .null)])]))])) =
        .error .attributeError := by
  refine ⟨?_, rfl⟩
  rintro ⟨body,h,hclean⟩
  cases h
  have hdebug := (hclean rfl).ephemeralContainers debugContainer (List.mem_singleton_self _)
  cases hdebug.privileged

end Review

end PicoSentry.Sandbox.Admission
