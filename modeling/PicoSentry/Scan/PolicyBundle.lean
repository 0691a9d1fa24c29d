import PicoSentry.Foundation.UniqueKeys
import PicoSentry.Scan.CorpusShare

namespace PicoSentry.Scan.PolicyBundle

open Foundation
open CorpusShare (Record field isText SignatureBundle Crypto signContent verifyContent loggedKinds)

structure Env where
  unicode : Unicode
  sha256 : Str → Str
  now : Str
  crypto : Crypto
  -- str of a value that is not a text
  str : Json → Str

inductive Failure where
  | reading (error : CorpusShare.Failure)
  | missingPolicy
  | digestMismatch (expected : Json) (actual : Str)
  | noSignature
  | notSigned (provider : Json)
  | verificationFailed
  | cryptoError (kind message : Str)

section Policies

structure Waiver where
  id : Json
  ruleId : Json
  package : Json
  reason : Json
  owner : Json
  expires : Json
  ticket : Json

def Waiver.entries (w : Waiver) : Record :=
  [("id".toList, w.id), ("rule_id".toList, w.ruleId), ("package".toList, w.package),
   ("reason".toList, w.reason), ("owner".toList, w.owner), ("expires".toList, w.expires),
   ("ticket".toList, w.ticket)]

def Waiver.toDict (w : Waiver) : Json := .obj (.ofList w.entries)

def Waiver.fromDict (d : Record) : Waiver :=
  { id := field d "id" (.str [])
    ruleId := field d "rule_id" (.str [])
    package := field d "package" (.str [])
    reason := field d "reason" (.str [])
    owner := field d "owner" (.str [])
    expires := field d "expires" (.str [])
    ticket := field d "ticket" (.str []) }

-- The fields that are read from a file as they stand hold any value.
structure Policy where
  failOnSeverity : Json := .str "high".toList
  failOnRules : Json := .arr .nil
  allowLicenses : List Str := []
  denyLicenses : List Str := []
  denyPackages : List Str := []
  requireLockfile : Json := .bool true
  requireIntegrity : Json := .bool true
  requireProvenance : Json := .bool false
  updatesEnabled : Json := .bool true
  updatesAllowedSources : Json := .arr .nil
  updatesRequireIntegrity : Json := .bool true
  corpusRequireSignature : Json := .bool true
  waivers : List Waiver := []

def policyVersion : Int := 1

namespace Policy

def failOn (p : Policy) : Record :=
  [("severity".toList, p.failOnSeverity), ("rules".toList, p.failOnRules)]

def require (p : Policy) : Record :=
  [("lockfile".toList, p.requireLockfile), ("integrity".toList, p.requireIntegrity),
   ("provenance".toList, p.requireProvenance)]

def updates (p : Policy) : Record :=
  [("enabled".toList, p.updatesEnabled), ("allowed_sources".toList, p.updatesAllowedSources),
   ("require_integrity".toList, p.updatesRequireIntegrity),
   ("corpus_require_signature".toList, p.corpusRequireSignature)]

def entries (p : Policy) : Record :=
  [("version".toList, .int policyVersion), ("fail_on".toList, .obj (.ofList p.failOn)),
   ("allow_licenses".toList, .texts p.allowLicenses),
   ("deny_licenses".toList, .texts p.denyLicenses),
   ("deny_packages".toList, .texts p.denyPackages), ("require".toList, .obj (.ofList p.require)),
   ("updates".toList, .obj (.ofList p.updates)),
   ("waivers".toList, .arr (.ofList (p.waivers.map Waiver.toDict)))]

def toDict (p : Policy) : Json := .obj (.ofList p.entries)

end Policy

-- What "key in data" and then data[key] give.
def entry (data : Json) (key : String) : Except Failure (Option Json) :=
  match data with
  | .obj fields => .ok (Dict.get? fields.toList key.toList)
  | .arr items => if items.toList.any (isText key) then .error (.reading .typeError) else .ok none
  | .str s => if key.toList <:+: s then .error (.reading .typeError) else .ok none
  | _ => .error (.reading .typeError)

def dictEntry (data : Json) (key : String) : Except Failure Record :=
  return ((← entry data key).bind Record.ofJson).getD []

def elements (j : Json) : Except Failure (List Json) :=
  (CorpusShare.CorpusPack.elements j).mapError .reading

def asRecord (j : Json) : Except Failure Record :=
  (CorpusShare.CorpusPack.asRecord j).mapError .reading

def listEntry (data : Json) (key : String) : Except Failure (List Json) := do
  match ← entry data key with
  | none => return []
  | some j => elements j

variable (env : Env)

def strip : Json → Str
  | .str s => env.unicode.strip s
  | j => env.unicode.strip (env.str j)

def Policy.fromDict (data : Json) : Except Failure Policy := do
  let failOn ← dictEntry data "fail_on"
  let allowLicenses ← listEntry data "allow_licenses"
  let denyLicenses ← listEntry data "deny_licenses"
  let denyPackages ← listEntry data "deny_packages"
  let require ← dictEntry data "require"
  let updates ← dictEntry data "updates"
  let waivers ← (← listEntry data "waivers").mapM asRecord
  return {
    failOnSeverity := field failOn "severity" (.str "high".toList)
    failOnRules := field failOn "rules" (.arr .nil)
    allowLicenses := allowLicenses.map (strip env)
    denyLicenses := denyLicenses.map (strip env)
    denyPackages := denyPackages.map (strip env)
    requireLockfile := field require "lockfile" (.bool true)
    requireIntegrity := field require "integrity" (.bool true)
    requireProvenance := field require "provenance" (.bool false)
    updatesEnabled := field updates "enabled" (.bool true)
    updatesAllowedSources := field updates "allowed_sources" (.arr .nil)
    updatesRequireIntegrity := field updates "require_integrity" (.bool true)
    corpusRequireSignature := field updates "corpus_require_signature" (.bool true)
    waivers := waivers.map Waiver.fromDict }

end Policies

section Export

variable (env : Env)

def policyDigest (policy : Json) : Str :=
  "sha256:".toList ++ (env.sha256 policy.dumpsCompact).take 32

structure SignOptions where
  signer : Str := []
  signMethod : Str := []
  signSecretKey : Str := []
  signPassword : Str := []

def bundleFields (p : Policy) (signer : Str) : Record :=
  [("bundle_format".toList, .str "1.0".toList),
   ("digest".toList, .str (policyDigest env p.toDict)), ("signed_at".toList, .str env.now),
   ("signer".toList, .str (if signer = [] then "unsigned".toList else signer)),
   ("policy".toList, p.toDict)]

def signedContent (p : Policy) (signer : Str) : Str :=
  Json.dumpsCompact (.obj (.ofList (bundleFields env p signer)))

-- A bundle file and the signature file beside it; none is a file that cannot be read.
structure BundleFile where
  text : Option Str
  signature : Option (Option Str)

def writtenBundle (p : Policy) (signer : Str) (sig : Option SignatureBundle) : BundleFile :=
  { text := some (Json.dumpsIndented (.obj (.ofList (bundleFields env p signer ++
      sig.toList.map fun sig => ("_crypto".toList, sig.toDict)))))
    signature := sig.map fun sig => some sig.toDict.dumpsIndented }

def exportSignedPolicy (p : Policy) (o : SignOptions) : Except Failure (Str × BundleFile) := do
  let sig ←
    if o.signMethod = [] then pure none else
      match signContent env.crypto (signedContent env p o.signer) o.signMethod o.signSecretKey
        o.signPassword with
      | .signed sig => pure (some sig)
      | .importError _ => pure none
      | .raised kind message =>
        if loggedKinds.contains kind then pure none else throw (.cryptoError kind message)
  return (policyDigest env p.toDict, writtenBundle env p o.signer sig)

end Export

section Import

variable (env : Env)

structure ImportOptions where
  verify : Bool := true
  verifyCrypto : Bool := false
  publicKey : Str := []
  offline : Bool := false

def readJson (text : Option Str) : Except Failure Json :=
  (CorpusShare.readJson text).mapError .reading

def equalsText (text : Str) : Json → Bool
  | .str s => s = text
  | _ => false

def checkDigest (data policy : Json) : Except Failure Unit := do
  match ← entry data "digest" with
  | none => return ()
  | some expected =>
    let actual := policyDigest env policy
    if equalsText actual expected then return ()
    else throw (.digestMismatch expected actual)

def findSignature (file : BundleFile) (data : Json) : Except Failure (Option SignatureBundle) := do
  match file.signature with
  | some text => return some (.fromDict env.now (← asRecord (← readJson text)))
  | none =>
    let found ← dictEntry data "_crypto"
    return if found = [] then none else some (.fromDict env.now found)

def checkSignature (file : BundleFile) (data policy : Json) (o : ImportOptions) :
    Except Failure Unit := do
  match ← findSignature env file data with
  | none => throw .noSignature
  | some sig =>
    if !sig.isSigned then throw (.notSigned sig.provider) else
      match verifyContent env.crypto policy.dumpsCompact sig o.publicKey o.offline with
      | .accepted => return ()
      | .refused => throw .verificationFailed
      | .importError _ => return ()
      | .raised kind message => throw (.cryptoError kind message)

def importPolicyBundle (file : BundleFile) (o : ImportOptions) : Except Failure Policy := do
  let data ← readJson file.text
  match ← entry data "policy" with
  | none => throw .missingPolicy
  | some policy =>
    if o.verify then checkDigest env data policy
    if o.verifyCrypto then checkSignature env file data policy o
    Policy.fromDict env policy

end Import

section Read

theorem dumpsCompact_sortKeys (j : Json) : (Json.sortKeys j).dumpsCompact = j.dumpsCompact := by
  rw [Json.dumpsCompact, Json.sortKeys_sortKeys, Json.dumpsCompact]

theorem readJson_dumpsIndented {j : Json} (h : j.Regular) :
    readJson (some j.dumpsIndented) = .ok (Json.sortKeys j) := by
  obtain ⟨read,hloads,hdistinct⟩ := Option.map_eq_some_iff.mp h.loads_dumpsIndented
  rw [readJson, CorpusShare.readJson, hloads]
  exact congrArg Except.ok hdistinct

theorem entry_sorted (d : Record) (key : String) :
    entry (Json.sortKeys (.obj (.ofList d))) key = .ok ((Dict.get? d key.toList).map Json.sortKeys) := by
  rw [Json.sortKeys, entry, Json.get?_sortFields, Json.toList_ofList]

theorem field_sorted (d : Record) (key : String) (default : Json) {j : Json}
    (h : Dict.get? d key.toList = some j) :
    field (Json.sortFields (.ofList d)).toList key default = Json.sortKeys j := by
  rw [field, Json.get?_sortFields, Json.toList_ofList, h]
  rfl

end Read

section Policies

structure Policy.Regular (p : Policy) : Prop where
  sections : ∀ e ∈ p.failOn ++ p.require ++ p.updates, e.2.Regular
  waivers : ∀ w ∈ p.waivers, ∀ e ∈ w.entries, e.2.Regular

theorem Policy.Regular.toDict {p : Policy} (h : p.Regular) : p.toDict.Regular := by
  have hsection : ∀ {d : Record}, (Dict.keys d).Nodup → d ⊆ p.failOn ++ p.require ++ p.updates →
      Json.Regular (.obj (.ofList d)) :=
    fun hnodup hsub => Json.regular_ofList hnodup fun e he => h.sections e (hsub he)
  have hfailOn : Json.Regular (.obj (.ofList p.failOn)) :=
    hsection (show ["severity".toList, "rules".toList].Nodup by decide) (by simp)
  have hrequire : Json.Regular (.obj (.ofList p.require)) :=
    hsection (show ["lockfile".toList, "integrity".toList, "provenance".toList].Nodup by decide)
      (by simp)
  have hupdates : Json.Regular (.obj (.ofList p.updates)) :=
    hsection (show ["enabled".toList, "allowed_sources".toList, "require_integrity".toList,
      "corpus_require_signature".toList].Nodup by decide) (by simp)
  have hwaivers : Json.Regular (.arr (.ofList (p.waivers.map Waiver.toDict))) := by
    refine Json.regular_ofItems (List.forall_mem_map.mpr fun w hw => ?_)
    exact Json.regular_ofList (show ["id".toList, "rule_id".toList, "package".toList,
      "reason".toList, "owner".toList, "expires".toList, "ticket".toList].Nodup by decide)
      (h.waivers w hw)
  refine Json.regular_ofList (show ["version".toList, "fail_on".toList, "allow_licenses".toList,
    "deny_licenses".toList, "deny_packages".toList, "require".toList, "updates".toList,
    "waivers".toList].Nodup by decide) ?_
  simp only [Policy.entries, List.forall_mem_cons]
  exact ⟨Json.regular_int _, hfailOn, Json.regular_texts _, Json.regular_texts _,
    Json.regular_texts _, hrequire, hupdates, hwaivers, fun _ h => absurd h List.not_mem_nil⟩

structure Policy.Settled (env : Env) (p : Policy) : Prop where
  sections : ∀ e ∈ p.failOn ++ p.require ++ p.updates, Json.sortKeys e.2 = e.2
  waivers : ∀ w ∈ p.waivers, ∀ e ∈ w.entries, Json.sortKeys e.2 = e.2
  texts : ∀ s ∈ p.allowLicenses ++ p.denyLicenses ++ p.denyPackages, env.unicode.strip s = s

variable {env : Env} {p : Policy}

theorem dictEntry_sorted {d e : Record} {key : String}
    (h : Dict.get? d key.toList = some (.obj (.ofList e))) :
    dictEntry (Json.sortKeys (.obj (.ofList d))) key = .ok (Json.sortFields (.ofList e)).toList := by
  rw [dictEntry, entry_sorted, h]
  rfl

theorem listEntry_texts {d : Record} {key : String} {ss : List Str}
    (h : Dict.get? d key.toList = some (.texts ss)) :
    listEntry (Json.sortKeys (.obj (.ofList d))) key = .ok (ss.map .str) := by
  rw [listEntry, entry_sorted, h, Option.map_some, Json.sortKeys_texts]
  exact congrArg Except.ok (Json.toList_ofItems _)

theorem strip_texts {ss : List Str} (h : ∀ s ∈ ss, env.unicode.strip s = s) :
    (ss.map Json.str).map (strip env) = ss := by
  rw [List.map_map]
  exact (List.map_congr_left h).trans (List.map_id ss)

theorem Waiver.fromDict_sorted {w : Waiver} (h : ∀ e ∈ w.entries, Json.sortKeys e.2 = e.2) :
    Waiver.fromDict (Json.sortFields (.ofList w.entries)).toList = w := by
  have hfield : ∀ {key : String} {j : Json}, Dict.get? w.entries key.toList = some j →
      field (Json.sortFields (.ofList w.entries)).toList key (.str []) = j := by
    intro key j hj
    rw [field_sorted _ _ _ hj]
    exact h _ (Dict.mem_of_get? hj)
  rw [Waiver.fromDict, @hfield "id" w.id rfl, @hfield "rule_id" w.ruleId rfl,
    @hfield "package" w.package rfl, @hfield "reason" w.reason rfl, @hfield "owner" w.owner rfl,
    @hfield "expires" w.expires rfl, @hfield "ticket" w.ticket rfl]

theorem waivers_sorted {ws : List Waiver}
    (h : ∀ w ∈ ws, ∀ e ∈ w.entries, Json.sortKeys e.2 = e.2) :
    ∃ ds, ((ws.map Waiver.toDict).map Json.sortKeys).mapM asRecord = .ok ds ∧
      ds.map Waiver.fromDict = ws := by
  induction ws with
  | nil => exact ⟨[], rfl, rfl⟩
  | cons w ws ih =>
    obtain ⟨hw,hws⟩ := List.forall_mem_cons.mp h
    obtain ⟨ds,hds,hfrom⟩ := ih hws
    refine ⟨(Json.sortFields (.ofList w.entries)).toList :: ds, ?_, ?_⟩
    · rw [List.map_cons, List.map_cons, List.mapM_cons, hds]
      rfl
    · rw [List.map_cons, Waiver.fromDict_sorted hw, hfrom]

theorem listEntry_waivers (p : Policy) :
    listEntry (Json.sortKeys p.toDict) "waivers" =
      .ok ((p.waivers.map Waiver.toDict).map Json.sortKeys) := by
  rw [listEntry, Policy.toDict, entry_sorted]
  refine congrArg Except.ok ?_
  rw [Json.sortItems_ofList, Json.toList_ofItems]

theorem Policy.fromDict_toDict (h : p.Settled env) :
    Policy.fromDict env (Json.sortKeys p.toDict) = .ok p := by
  have hfield : ∀ {d : Record} (key : String) {default j : Json},
      d ⊆ p.failOn ++ p.require ++ p.updates → Dict.get? d key.toList = some j →
        field (Json.sortFields (.ofList d)).toList key default = j := by
    intro d key default j hsub hj
    rw [field_sorted _ _ _ hj]
    exact h.sections _ (hsub (Dict.mem_of_get? hj))
  have hfailOn : dictEntry (Json.sortKeys p.toDict) "fail_on" =
      .ok (Json.sortFields (.ofList p.failOn)).toList := dictEntry_sorted rfl
  have hrequire : dictEntry (Json.sortKeys p.toDict) "require" =
      .ok (Json.sortFields (.ofList p.require)).toList := dictEntry_sorted rfl
  have hupdates : dictEntry (Json.sortKeys p.toDict) "updates" =
      .ok (Json.sortFields (.ofList p.updates)).toList := dictEntry_sorted rfl
  have hallow : listEntry (Json.sortKeys p.toDict) "allow_licenses" =
      .ok (p.allowLicenses.map .str) := listEntry_texts rfl
  have hdeny : listEntry (Json.sortKeys p.toDict) "deny_licenses" =
      .ok (p.denyLicenses.map .str) := listEntry_texts rfl
  have hpackages : listEntry (Json.sortKeys p.toDict) "deny_packages" =
      .ok (p.denyPackages.map .str) := listEntry_texts rfl
  obtain ⟨ds,hds,hwaivers⟩ := waivers_sorted h.waivers
  have hone : p.failOn ⊆ p.failOn ++ p.require ++ p.updates := by simp
  have htwo : p.require ⊆ p.failOn ++ p.require ++ p.updates := by simp
  have hthree : p.updates ⊆ p.failOn ++ p.require ++ p.updates := by simp
  rw [Policy.fromDict, bind_of_eq_ok hfailOn, bind_of_eq_ok hallow, bind_of_eq_ok hdeny,
    bind_of_eq_ok hpackages, bind_of_eq_ok hrequire, bind_of_eq_ok hupdates,
    bind_of_eq_ok (listEntry_waivers p), bind_of_eq_ok hds, hwaivers,
    strip_texts fun s hs => h.texts s (by simp [hs]),
    strip_texts fun s hs => h.texts s (by simp [hs]),
    strip_texts fun s hs => h.texts s (by simp [hs]),
    hfield "severity" hone rfl, hfield "rules" hone rfl, hfield "lockfile" htwo rfl,
    hfield "integrity" htwo rfl, hfield "provenance" htwo rfl, hfield "enabled" hthree rfl,
    hfield "allowed_sources" hthree rfl, hfield "require_integrity" hthree rfl,
    hfield "corpus_require_signature" hthree rfl]
  rfl

end Policies

section RoundTrip

structure OfTexts (sig : SignatureBundle) : Prop where
  texts : ∃ identity provider raw certificate digest signedAt, signedAt ≠ [] ∧
    sig = ⟨.str identity, .str provider, .str raw, .str certificate, .str digest, .str signedAt⟩

variable {env : Env} {p : Policy} {sig : SignatureBundle}

theorem OfTexts.regular (h : OfTexts sig) : sig.toDict.Regular := by
  obtain ⟨identity,provider,raw,certificate,digest,signedAt,_,rfl⟩ := h
  refine Json.regular_ofList (show ["signer_identity".toList, "provider".toList,
    "signature".toList, "certificate".toList, "digest".toList, "signed_at".toList].Nodup
    by decide) ?_
  simp only [List.forall_mem_cons]
  exact ⟨Json.regular_str _, Json.regular_str _, Json.regular_str _, Json.regular_str _,
    Json.regular_str _, Json.regular_str _, fun _ h => absurd h List.not_mem_nil⟩

theorem OfTexts.fromDict_sorted (h : OfTexts sig) (now : Str) :
    ∃ d, asRecord (Json.sortKeys sig.toDict) = .ok d ∧ SignatureBundle.fromDict now d = sig := by
  obtain ⟨identity,provider,raw,certificate,digest,signedAt,hne,rfl⟩ := h
  refine ⟨_, rfl, ?_⟩
  rw [SignatureBundle.fromDict, field_sorted _ "signer_identity" _ rfl,
    field_sorted _ "provider" _ rfl, field_sorted _ "signature" _ rfl,
    field_sorted _ "certificate" _ rfl, field_sorted _ "digest" _ rfl,
    field_sorted _ "signed_at" _ rfl]
  simp [Json.sortKeys, Json.truthy, hne]

def cryptoEntry (sig : Option SignatureBundle) : Record :=
  sig.toList.map fun sig => ("_crypto".toList, sig.toDict)

def writtenFields (env : Env) (p : Policy) (signer : Str) (sig : Option SignatureBundle) : Record :=
  bundleFields env p signer ++ cryptoEntry sig

theorem regular_written (hp : p.Regular) (signer : Str) {sig : Option SignatureBundle}
    (hsig : ∀ s, sig = some s → OfTexts s) :
    Json.Regular (.obj (.ofList (writtenFields env p signer sig))) := by
  have hfields : ∀ e ∈ bundleFields env p signer, e.2.Regular := by
    simp only [bundleFields, List.forall_mem_cons]
    exact ⟨Json.regular_str _, Json.regular_str _, Json.regular_str _, Json.regular_str _,
      hp.toDict, fun _ h => absurd h List.not_mem_nil⟩
  cases sig with
  | none =>
    rw [writtenFields, cryptoEntry, Option.toList_none, List.map_nil, List.append_nil]
    exact Json.regular_ofList (show ["bundle_format".toList, "digest".toList, "signed_at".toList,
      "signer".toList, "policy".toList].Nodup by decide) hfields
  | some sig =>
    refine Json.regular_ofList (show ["bundle_format".toList, "digest".toList, "signed_at".toList,
      "signer".toList, "policy".toList, "_crypto".toList].Nodup by decide) fun e he => ?_
    rcases List.mem_append.mp he with he | he
    · exact hfields e he
    · obtain rfl := List.mem_singleton.mp he
      exact (hsig sig rfl).regular

theorem policyDigest_sortKeys (j : Json) : policyDigest env (Json.sortKeys j) = policyDigest env j := by
  unfold policyDigest
  exact congrArg (fun t => "sha256:".toList ++ (env.sha256 t).take 32) (dumpsCompact_sortKeys j)

theorem checkDigest_written (signer : Str) (sig : Option SignatureBundle) :
    checkDigest env (Json.sortKeys (.obj (.ofList (writtenFields env p signer sig))))
      (Json.sortKeys p.toDict) = .ok () := by
  have hget : Dict.get? (writtenFields env p signer sig) "digest".toList =
      some (.str (policyDigest env p.toDict)) := by
    rw [writtenFields, Dict.get?_append]
    rfl
  rw [checkDigest, policyDigest_sortKeys, entry_sorted, hget]
  exact if_pos (decide_eq_true rfl)

theorem entry_policy (signer : Str) (sig : Option SignatureBundle) :
    entry (Json.sortKeys (.obj (.ofList (writtenFields env p signer sig)))) "policy" =
      .ok (some (Json.sortKeys p.toDict)) := by
  rw [entry_sorted]
  rfl

theorem findSignature_written (later : Str) (hsig : OfTexts sig) (signer : Str) (data : Json) :
    findSignature { env with now := later } (writtenBundle env p signer (some sig)) data =
      .ok (some sig) := by
  have hread : readJson (some sig.toDict.dumpsIndented) = .ok (Json.sortKeys sig.toDict) :=
    readJson_dumpsIndented hsig.regular
  obtain ⟨d,hd,hfrom⟩ := hsig.fromDict_sorted later
  rw [findSignature, writtenBundle, Option.map_some]
  simp only [bind_of_eq_ok hread, bind_of_eq_ok hd, hfrom]
  rfl

theorem import_of_read {file : BundleFile} {data policy : Json}
    (hread : readJson file.text = .ok data) (hpolicy : entry data "policy" = .ok (some policy))
    (hcheck : checkDigest env data policy = .ok ()) (o : ImportOptions) :
    importPolicyBundle env file o =
      if o.verifyCrypto then
        checkSignature env file data policy o >>= fun _ => Policy.fromDict env policy
      else Policy.fromDict env policy := by
  rw [importPolicyBundle, bind_of_eq_ok hread, bind_of_eq_ok hpolicy]
  dsimp only
  rw [hcheck]
  cases o.verify <;> cases o.verifyCrypto <;> rfl

theorem import_written (hp : p.Regular) (signer : Str) {sig : Option SignatureBundle}
    (hsig : ∀ s, sig = some s → OfTexts s) (later : Str) (o : ImportOptions) :
    importPolicyBundle { env with now := later } (writtenBundle env p signer sig) o =
      if o.verifyCrypto then
        checkSignature { env with now := later } (writtenBundle env p signer sig)
            (Json.sortKeys (.obj (.ofList (writtenFields env p signer sig))))
            (Json.sortKeys p.toDict) o >>= fun _ => Policy.fromDict env (Json.sortKeys p.toDict)
      else Policy.fromDict env (Json.sortKeys p.toDict) := by
  have hread : readJson (writtenBundle env p signer sig).text =
      .ok (Json.sortKeys (.obj (.ofList (writtenFields env p signer sig)))) :=
    readJson_dumpsIndented (regular_written hp signer hsig)
  have hcheck : checkDigest { env with now := later }
      (Json.sortKeys (.obj (.ofList (writtenFields env p signer sig))))
      (Json.sortKeys p.toDict) = .ok () := checkDigest_written signer sig
  exact import_of_read hread (entry_policy signer sig) hcheck o

theorem import_export_unverified (hp : p.Regular) (hsettled : p.Settled env) (signer : Str)
    {sig : Option SignatureBundle} (hsig : ∀ s, sig = some s → OfTexts s) (later : Str)
    (o : ImportOptions) (ho : o.verifyCrypto = false) :
    importPolicyBundle { env with now := later } (writtenBundle env p signer sig) o = .ok p := by
  rw [import_written hp signer hsig later o, ho, if_neg Bool.false_ne_true]
  exact Policy.fromDict_toDict hsettled

structure SignsAndVerifies (env : Env) (p : Policy) (s : SignOptions) (o : ImportOptions)
    (sig : SignatureBundle) : Prop where
  method : s.signMethod ≠ []
  signs : signContent env.crypto (signedContent env p s.signer) s.signMethod s.signSecretKey
    s.signPassword = .signed sig
  texts : OfTexts sig
  signed : sig.isSigned = true
  accepts : verifyContent env.crypto (signedContent env p s.signer) sig o.publicKey o.offline =
    .accepted
  refuses : ∀ content, content ≠ signedContent env p s.signer →
    verifyContent env.crypto content sig o.publicKey o.offline = .refused

theorem export_signed {s : SignOptions} {o : ImportOptions} (h : SignsAndVerifies env p s o sig) :
    exportSignedPolicy env p s =
      .ok (policyDigest env p.toDict, writtenBundle env p s.signer (some sig)) := by
  rw [exportSignedPolicy, if_neg h.method, h.signs]
  rfl

-- The signature is over the whole bundle; an import asks for one over the policy alone.
theorem policy_ne_signedContent (hp : p.Regular) (signer : Str) :
    (Json.sortKeys p.toDict).dumpsCompact ≠ signedContent env p signer := by
  intro h
  rw [dumpsCompact_sortKeys] at h
  have hfields : Json.Regular (.obj (.ofList (writtenFields env p signer none))) :=
    regular_written hp signer fun s hs => absurd hs.symm (Option.some_ne_none s)
  rw [writtenFields, cryptoEntry, Option.toList_none, List.map_nil, List.append_nil] at hfields
  have hsort := Json.dumpsCompact_inj hp.toDict.wellFormed hfields.wellFormed h
  exact absurd (Json.get?_of_sortKeys_eq hsort "policy".toList).symm (Option.some_ne_none _)

theorem import_export_refused {s : SignOptions} {o : ImportOptions} (hp : p.Regular)
    (h : SignsAndVerifies env p s o sig) (later : Str) (ho : o.verifyCrypto = true) :
    importPolicyBundle { env with now := later } (writtenBundle env p s.signer (some sig)) o =
      .error .verificationFailed := by
  have hsig : ∀ s, some sig = some s → OfTexts s := by
    rintro _ ⟨⟩
    exact h.texts
  have hrefused : verifyContent env.crypto (Json.sortKeys p.toDict).dumpsCompact sig o.publicKey
      o.offline = .refused := h.refuses _ (policy_ne_signedContent hp s.signer)
  rw [import_written hp s.signer hsig later o, ho, if_pos rfl, checkSignature,
    bind_of_eq_ok (findSignature_written later h.texts s.signer _)]
  dsimp only
  rw [h.signed, hrefused]
  rfl

theorem signed_bundle_never_imports {s : SignOptions} {o : ImportOptions} (hp : p.Regular)
    (h : SignsAndVerifies env p s o sig) (later : Str) (ho : o.verifyCrypto = true) :
    ∃ digest file, exportSignedPolicy env p s = .ok (digest, file) ∧
      importPolicyBundle { env with now := later } file o = .error .verificationFailed :=
  ⟨_, _, export_signed h, import_export_refused hp h later ho⟩

end RoundTrip

section Minisign

def minisignature (content : Str) : SignatureBundle :=
  ⟨.str "minisign-key".toList, .str "minisign".toList, .str ("signed: ".toList ++ content), .str [],
    .str [], .str "2026-01-02".toList⟩

def minisign : Crypto :=
  { sigstoreSign := none
    minisignSign := some fun content _ _ => .signed (minisignature content)
    sigstoreVerify := none
    minisignVerify := some fun content raw _ =>
      if equalsText ("signed: ".toList ++ content) raw then .accepted else .refused }

def minisignEnv : Env :=
  { unicode := .basic, sha256 := id, now := "2026-01-01".toList, crypto := minisign
    str := fun _ => [] }

def signing : SignOptions := { signMethod := "minisign".toList }

def verifying : ImportOptions := { verifyCrypto := true }

def sampleWaiver : Waiver :=
  ⟨.str "w-1".toList, .str "L2-POST-001".toList, .str "left-pad".toList, .str [], .str [],
    .str "2027-01-01".toList, .str []⟩

def samplePolicy : Policy := { denyPackages := ["event-stream".toList], waivers := [sampleWaiver] }

theorem verify_minisign (content signed publicKey : Str) (offline : Bool) :
    verifyContent minisign content (minisignature signed) publicKey offline =
      if content = signed then .accepted else .refused := by
  have hraw : equalsText ("signed: ".toList ++ content) (minisignature signed).rawSignature =
      decide (content = signed) := by
    simp [minisignature, equalsText, eq_comm]
  have hverify : verifyContent minisign content (minisignature signed) publicKey offline =
      if equalsText ("signed: ".toList ++ content) (minisignature signed).rawSignature then .accepted
        else .refused := rfl
  rw [hverify, hraw]
  simp

theorem minisign_signs (p : Policy) : SignsAndVerifies minisignEnv p signing verifying
    (minisignature (signedContent minisignEnv p [])) where
  method := by decide
  signs := rfl
  texts := ⟨_, _, _, _, _, _, by decide, rfl⟩
  signed := rfl
  accepts := (verify_minisign _ _ _ _).trans (if_pos rfl)
  refuses := fun _ h => (verify_minisign _ _ _ _).trans (if_neg h)

theorem samplePolicy_regular : samplePolicy.Regular where
  sections := by
    have hitems : Json.Regular (.arr .nil) := ⟨trivial, trivial⟩
    simp [samplePolicy, Policy.failOn, Policy.require, Policy.updates, Json.regular_str,
      Json.regular_bool, hitems]
  waivers := by simp [samplePolicy, sampleWaiver, Waiver.entries, Json.regular_str]

theorem signed_sample_never_imports : ∃ digest file,
    exportSignedPolicy minisignEnv samplePolicy signing = .ok (digest, file) ∧
      importPolicyBundle minisignEnv file verifying = .error .verificationFailed :=
  signed_bundle_never_imports samplePolicy_regular (minisign_signs samplePolicy) minisignEnv.now rfl

-- The default policy, signed and untouched.
theorem default_policy_refused : ∃ sig digest file,
    SignsAndVerifies minisignEnv {} signing verifying sig ∧
      exportSignedPolicy minisignEnv {} signing = .ok (digest, file) ∧
      importPolicyBundle minisignEnv file verifying = .error .verificationFailed := by
  have hregular : Policy.Regular {} := by
    have hitems : Json.Regular (.arr .nil) := ⟨trivial, trivial⟩
    exact ⟨by simp [Policy.failOn, Policy.require, Policy.updates, Json.regular_str,
      Json.regular_bool, hitems], fun w hw => absurd hw List.not_mem_nil⟩
  have hsigns := minisign_signs {}
  exact ⟨_, _, _, hsigns, export_signed hsigns,
    import_export_refused hregular hsigns minisignEnv.now rfl⟩

end Minisign

end PicoSentry.Scan.PolicyBundle
