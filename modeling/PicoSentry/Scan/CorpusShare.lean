import PicoSentry.Foundation.IndentedJson
import PicoSentry.Foundation.Result
import PicoSentry.Foundation.SortedBy

namespace PicoSentry.Scan.CorpusShare

open Foundation

def packVersion : Str := "1.0".toList

def maxPackBytes : Nat := 10 * 1024 * 1024

abbrev Record := Dict Str Json

def field (d : Record) (key : String) (default : Json) : Json := (d.get? key.toList).getD default

def Record.ofJson : Json → Option Record
  | .obj fields => some fields.toList
  | _ => none

section Crypto

structure SignatureBundle where
  signerIdentity : Json
  provider : Json
  rawSignature : Json
  certificate : Json
  digest : Json
  signedAt : Json

def isText (text : String) : Json → Bool
  | .str s => s = text.toList
  | _ => false

namespace SignatureBundle

def isSigned (bundle : SignatureBundle) : Bool :=
  !isText "none" bundle.provider && bundle.rawSignature.truthy

def toDict (bundle : SignatureBundle) : Json :=
  .obj (.ofList
    [("signer_identity".toList, bundle.signerIdentity), ("provider".toList, bundle.provider),
     ("signature".toList, bundle.rawSignature), ("certificate".toList, bundle.certificate),
     ("digest".toList, bundle.digest), ("signed_at".toList, bundle.signedAt)])

def fromDict (now : Str) (d : Record) : SignatureBundle :=
  let signedAt := field d "signed_at" (.str [])
  { signerIdentity := field d "signer_identity" (.str [])
    provider := field d "provider" (.str "none".toList)
    rawSignature := field d "signature" (.str [])
    certificate := field d "certificate" (.str [])
    digest := field d "digest" (.str [])
    signedAt := if signedAt.truthy then signedAt else .str now }

end SignatureBundle

inductive Verification where
  | accepted
  | refused
  | importError (message : Str)
  | raised (kind message : Str)
deriving DecidableEq

inductive Signing where
  | signed (bundle : SignatureBundle)
  | importError (message : Str)
  | raised (kind message : Str)

-- The signing libraries; none is a library that is not installed.
structure Crypto where
  sigstoreSign : Option (Str → Signing)
  minisignSign : Option (Str → Str → Str → Signing)
  sigstoreVerify : Option (Str → Json → Json → Bool → Verification)
  minisignVerify : Option (Str → Json → Str → Verification)

def signContent (crypto : Crypto) (content method secretKey password : Str) : Signing :=
  if method = "sigstore".toList then
    match crypto.sigstoreSign with
    | none => .importError "sigstore package is required for Sigstore signing".toList
    | some sign => sign content
  else if method = "minisign".toList then
    match crypto.minisignSign with
    | none => .importError "minisign is required for minisign signing".toList
    | some sign => sign content secretKey password
  else .raised "ValueError".toList ("Unknown signing method: ".toList ++ method)

def verifyContent (crypto : Crypto) (content : Str) (bundle : SignatureBundle) (publicKey : Str)
    (offline : Bool) : Verification :=
  if !bundle.isSigned then .refused
  else if isText "sigstore" bundle.provider then
    match crypto.sigstoreVerify with
    | none => .importError "sigstore package is required for Sigstore verification".toList
    | some verify => verify content bundle.rawSignature bundle.signerIdentity offline
  else if isText "minisign" bundle.provider then
    match crypto.minisignVerify with
    | none => .importError "minisign is required for verification.".toList
    | some verify => verify content bundle.rawSignature publicKey
  else .raised "ValueError".toList "Unknown signature provider".toList

end Crypto

structure Env where
  unicode : Unicode
  sha256 : Str → Str
  now : Str
  crypto : Crypto
  writable : Str → Bool

inductive Failure where
  | notFound
  | badSuffix (suffix : Str)
  | cannotStat
  | tooLarge (size : Nat)
  | unreadable
  | notJson
  | attributeError
  | typeError
  | digestMismatch (signed : Json) (actual : Str)
  | noSignature (name : Str)
  | notSigned (name : Str) (provider : Json)
  | verificationFailed (name : Str)
  | cryptoError (kind message : Str)

section Packs

structure CorpusPack where
  name : Str
  description : Json
  author : Json
  version : Json
  packId : Json
  createdAt : Json
  iocs : Json
  signature : Option Record

namespace CorpusPack

variable (env : Env)

def new (name description author : Str) : CorpusPack :=
  { name, description := .str description, author := .str author, version := .str packVersion
    packId := .str ((env.sha256 name).take 12), createdAt := .str [], iocs := .arr .nil
    signature := none }

-- What a loop over a parsed value goes through.
def elements : Json → Except Failure (List Json)
  | .arr items => .ok items.toList
  | .obj fields => .ok (fields.toList.map fun f => .str f.1)
  | .str s => .ok (s.map fun c => .str [c])
  | _ => .error .typeError

def textId : Json → Option Str
  | .str s => some s
  | _ => none

def intId : Json → Option Int
  | .int n => some n
  | _ => none

-- sorted(iocs, key=lambda x: x.get("id", "")) over dicts with text ids or with whole numbers.
def sortById (iocs : List Record) : Except Failure (List Record) :=
  let id (ioc : Record) := field ioc "id" (.str [])
  if iocs.all fun ioc => (textId (id ioc)).isSome then
    .ok (ascending (fun ioc => (textId (id ioc)).getD []) iocs)
  else if iocs.all fun ioc => (intId (id ioc)).isSome then
    .ok (ascending (fun ioc => (intId (id ioc)).getD 0) iocs)
  else if iocs.length ≤ 1 then .ok iocs
  else .error .typeError

def asRecord (j : Json) : Except Failure Record :=
  match Record.ofJson j with
  | some d => .ok d
  | none => .error .attributeError

def digest (pack : CorpusPack) : Except Failure Str := do
  let iocs ← (← elements pack.iocs).mapM asRecord
  let sorted ← sortById iocs
  let raw := Json.dumps (.obj (.ofList
    [("pack_id".toList, pack.packId), ("name".toList, .str pack.name),
     ("iocs".toList, .arr (.ofList (sorted.map fun ioc => .obj (.ofList ioc))))]))
  return "sha256:".toList ++ (env.sha256 raw).take 32

def toDict (pack : CorpusPack) : Except Failure Json := do
  let iocCount := (← elements pack.iocs).length
  let digest ← digest env pack
  return .obj (.ofList
    ([("pack_format".toList, pack.version), ("pack_id".toList, pack.packId),
      ("name".toList, .str pack.name), ("description".toList, pack.description),
      ("author".toList, pack.author), ("created_at".toList, pack.createdAt),
      ("ioc_count".toList, .int iocCount), ("iocs".toList, pack.iocs),
      ("digest".toList, .str digest)] ++
      pack.signature.toList.map fun sig => ("signature".toList, .obj (.ofList sig))))

def toJson (pack : CorpusPack) : Except Failure Str := return (← pack.toDict env).dumpsIndented

def fromDict (data : Json) : Except Failure CorpusPack := do
  let data ← asRecord data
  match field data "name" (.str "unnamed".toList) with
  | .str name =>
    let sig := field data "signature" .null
    return { name
             description := field data "description" (.str [])
             author := field data "author" (.str "unknown".toList)
             version := field data "pack_format" (.str packVersion)
             packId := field data "pack_id" (.str [])
             createdAt := field data "created_at" (.str [])
             iocs := field data "iocs" (.arr .nil)
             signature := if sig.truthy then Record.ofJson sig else none }
  | _ => .error .attributeError

end CorpusPack

end Packs

section Registry

-- The custom directory: each record id and the record its file holds.
abbrev Registry := Dict Str Record

def iocRecord (env : Env) (data : Record) : Record :=
  let name := field data "name" (.str [])
  let packageName := field data "package_name" (.str [])
  let iocType := field data "ioc_type" (.str "custom".toList)
  let id := field data "id" (.str [])
  let addedAt := field data "added_at" (.str [])
  let expiresAt := field data "expires_at" .null
  let content := Json.dumps (.obj (.ofList
    [("name".toList, name), ("package_name".toList, packageName), ("ioc_type".toList, iocType)]))
  [("id".toList, if id.truthy then id else .str ((env.sha256 content).take 12)),
   ("name".toList, name), ("package_name".toList, packageName),
   ("version_range".toList, field data "version_range" (.str "*".toList)),
   ("ioc_type".toList, iocType),
   ("attack_vector".toList, field data "attack_vector" (.str [])),
   ("severity".toList, field data "severity" (.str "HIGH".toList)),
   ("description".toList, field data "description" (.str [])),
   ("references".toList, field data "references" (.arr .nil)),
   ("added_at".toList, if addedAt.truthy then addedAt else .str env.now),
   ("source".toList, field data "source" (.str "custom".toList))] ++
  if expiresAt.truthy then [("expires_at".toList, expiresAt)] else []

def safeIdChar (c : Char) : Bool :=
  ('A' ≤ c ∧ c ≤ 'Z') ∨ ('a' ≤ c ∧ c ≤ 'z') ∨ ('0' ≤ c ∧ c ≤ '9') ∨ c = '_' ∨ c = '.' ∨ c = '-'

def validIocId (id : Str) : Bool :=
  id ≠ [] && !decide ("..".toList <:+: id) && id.length ≤ 128 && id.all safeIdChar

inductive IocFailure where
  | fileExists
  | rejected
  | attributeError
deriving DecidableEq

def registerIoc (env : Env) (registry : Registry) (data : Json) (allowOverwrite : Bool) :
    Except IocFailure (Registry × Str) :=
  match Record.ofJson data with
  | none => .error .attributeError
  | some data =>
    let record := iocRecord env data
    match field record "id" (.str []) with
    | .str id =>
      if !validIocId id then .error .rejected
      else if (registry.get? id).isSome && !allowOverwrite then .error .fileExists
      else if !env.writable id then .error .rejected
      else .ok (registry.set id record, id)
    | _ => .error .rejected

def listCustomIocs (env : Env) (registry : Registry) : List Record :=
  (ascending (fun entry => entry.1 ++ ".json".toList) registry).map fun entry =>
    iocRecord env entry.2

end Registry

section Export

-- The errors that an export logs before it writes the pack unsigned.
def loggedKinds : List Str :=
  ["OSError".toList, "RuntimeError".toList, "ValueError".toList, "TypeError".toList]

def signCryptographically (env : Env) (pack : CorpusPack) (method secretKey password : Str) :
    Except Failure (CorpusPack × Option SignatureBundle) := do
  let canonical ← pack.toJson env
  match signContent env.crypto canonical method secretKey password with
  | .signed sig =>
    let digest ← pack.digest env
    let signature : Record :=
      [("signer".toList, sig.signerIdentity), ("digest".toList, .str digest),
       ("sealed_at".toList, sig.signedAt), ("provider".toList, sig.provider),
       ("crypto_signature".toList, sig.rawSignature), ("certificate".toList, sig.certificate)]
    return ({ pack with signature := some signature }, some sig)
  | .importError _ => return (pack, none)
  | .raised kind message =>
    if loggedKinds.contains kind then return (pack, none) else throw (.cryptoError kind message)

def exportCorpusPack (env : Env) (registry : Registry) (name description author signMethod
    signSecretKey signPassword : Str) : Except Failure (Str × Option Str) := do
  let pack := { CorpusPack.new env name description author with
    iocs := .arr (.ofList ((listCustomIocs env registry).map fun ioc => .obj (.ofList ioc))) }
  let (pack, sig) ← if signMethod = [] then pure (pack, none) else
    signCryptographically env pack signMethod signSecretKey signPassword
  let text ← pack.toJson env
  return (text ++ ['\n'], sig.map fun sig => sig.toDict.dumpsIndented)

end Export

section Import

-- A path and what the file system answers for it and for the signature file beside it.
structure PackFile where
  pathExists : Bool
  suffix : Str
  size : Option Nat
  text : Option Str
  signature : Option (Option Str)

structure ImportOptions where
  allowOverwrite : Bool := false
  dryRun : Bool := false
  verifyCrypto : Bool := false
  publicKey : Str := []
  offline : Bool := false

structure Stats where
  imported : Nat := 0
  skipped : Nat := 0
  errors : Nat := 0
deriving DecidableEq

structure ImportResult where
  registry : Registry
  registered : List Str
  outcome : Except Failure Stats

variable (env : Env) (file : PackFile)

def readJson (text : Option Str) : Except Failure Json :=
  match text with
  | none => .error .unreadable
  | some text =>
    match Json.loads text with
    | none => .error .notJson
    | some j => .ok j.distinct

def checkDigest (pack : CorpusPack) : Except Failure Unit :=
  match pack.signature with
  | none => .ok ()
  | some signature => do
    let expected := field signature "digest" (.str [])
    let actual ← pack.digest env
    if expected.truthy && !(match expected with | .str s => s = actual | _ => false) then
      .error (.digestMismatch expected actual)
    else .ok ()

def loadPack : Except Failure CorpusPack :=
  if !file.pathExists then .error .notFound
  else if env.unicode.lowerStr file.suffix ≠ ".json".toList then .error (.badSuffix file.suffix)
  else
    match file.size with
    | none => .error .cannotStat
    | some size =>
      if size > maxPackBytes then .error (.tooLarge size)
      else do
        let pack ← CorpusPack.fromDict (← readJson file.text)
        checkDigest env pack
        return pack

def inlineSignature (pack : CorpusPack) : Option SignatureBundle :=
  pack.signature.bind fun signature =>
    let cryptoSig := field signature "crypto_signature" (.str [])
    let sealedAt := field signature "sealed_at" (.str [])
    if cryptoSig.truthy then
      some
        { signerIdentity := field signature "signer" (.str [])
          provider := field signature "provider" (.str [])
          rawSignature := cryptoSig
          certificate := field signature "certificate" (.str [])
          digest := field signature "digest" (.str [])
          signedAt := if sealedAt.truthy then sealedAt else .str env.now }
    else none

def findSignature (pack : CorpusPack) : Except Failure (Option SignatureBundle) :=
  match file.signature with
  | none => .ok (inlineSignature env pack)
  | some text => do
    let data ← CorpusPack.asRecord (← readJson text)
    return some (.fromDict env.now data)

def canonical (pack : CorpusPack) : Except Failure Str := return (← pack.toDict env).dumpsCompact

def checkSignature (options : ImportOptions) (pack : CorpusPack) : Except Failure Unit := do
  match ← findSignature env file pack with
  | none => .error (.noSignature pack.name)
  | some bundle =>
    if !bundle.isSigned then .error (.notSigned pack.name bundle.provider)
    else
      match verifyContent env.crypto (← canonical env pack) bundle options.publicKey
        options.offline with
      | .accepted => .ok ()
      | .refused => .error (.verificationFailed pack.name)
      | .importError _ => .ok ()
      | .raised kind message => .error (.cryptoError kind message)

def registerAll (options : ImportOptions) (result : ImportResult) (stats : Stats) :
    List Json → ImportResult
  | [] => { result with outcome := .ok stats }
  | ioc :: iocs =>
    if options.dryRun then
      registerAll options result { stats with imported := stats.imported + 1 } iocs
    else
      match registerIoc env result.registry ioc options.allowOverwrite with
      | .ok (registry, id) =>
        registerAll options { result with registry, registered := result.registered ++ [id] }
          { stats with imported := stats.imported + 1 } iocs
      | .error .fileExists =>
        registerAll options result { stats with skipped := stats.skipped + 1 } iocs
      | .error .rejected =>
        registerAll options result { stats with errors := stats.errors + 1 } iocs
      | .error .attributeError => { result with outcome := .error .attributeError }

def importCorpusPack (registry : Registry) (options : ImportOptions) : ImportResult :=
  let refused (e : Failure) : ImportResult := { registry, registered := [], outcome := .error e }
  match loadPack env file with
  | .error e => refused e
  | .ok pack =>
    match if options.verifyCrypto then checkSignature env file options pack else .ok () with
    | .error e => refused e
    | .ok () =>
      match CorpusPack.elements pack.iocs with
      | .error e => refused e
      | .ok iocs =>
        registerAll env options { registry, registered := [], outcome := .ok {} } {} iocs

end Import

section Verified

variable {env : Env} {file : PackFile} {options : ImportOptions} {pack : CorpusPack}

def Passes (env : Env) (file : PackFile) (options : ImportOptions) (pack : CorpusPack) : Prop :=
  ∃ bundle content, findSignature env file pack = .ok (some bundle) ∧
    canonical env pack = .ok content ∧
    (verifyContent env.crypto content bundle options.publicKey options.offline = .accepted ∨
      ∃ message, verifyContent env.crypto content bundle options.publicKey options.offline =
        .importError message)

theorem verifyContent_unsigned {crypto : Crypto} {bundle : SignatureBundle}
    (h : bundle.isSigned = false) (content publicKey : Str) (offline : Bool) :
    verifyContent crypto content bundle publicKey offline = .refused := by
  rw [verifyContent, h]
  rfl

theorem checkSignature_of_signed {bundle : SignatureBundle} {content : Str}
    (hfind : findSignature env file pack = .ok (some bundle)) (hsigned : bundle.isSigned = true)
    (hcontent : canonical env pack = .ok content) :
    checkSignature env file options pack =
      match verifyContent env.crypto content bundle options.publicKey options.offline with
      | .accepted => .ok ()
      | .refused => .error (.verificationFailed pack.name)
      | .importError _ => .ok ()
      | .raised kind message => .error (.cryptoError kind message) := by
  simp only [checkSignature, hfind, hcontent, hsigned, bind, Except.bind]
  rfl

theorem checkSignature_ok_iff : checkSignature env file options pack = .ok () ↔
    Passes env file options pack := by
  constructor
  · intro h
    obtain ⟨found,hfind,h⟩ := bind_eq_ok.mp h
    cases found with
    | none => cases h
    | some bundle =>
      dsimp only at h
      cases hsigned : bundle.isSigned with
      | false =>
        rw [hsigned] at h
        cases h
      | true =>
        rw [hsigned] at h
        obtain ⟨content,hcontent,h⟩ := bind_eq_ok.mp h
        refine ⟨bundle, content, hfind, hcontent, ?_⟩
        cases hverify : verifyContent env.crypto content bundle options.publicKey
            options.offline with
        | accepted => exact .inl rfl
        | importError message => exact .inr ⟨message, rfl⟩
        | refused =>
          rw [hverify] at h
          cases h
        | raised kind message =>
          rw [hverify] at h
          cases h
  · rintro ⟨bundle,content,hfind,hcontent,hverify⟩
    have hsigned : bundle.isSigned = true := by
      by_contra hunsigned
      rw [Bool.not_eq_true] at hunsigned
      rcases hverify with h | ⟨message,h⟩
      · rw [verifyContent_unsigned hunsigned] at h
        cases h
      · rw [verifyContent_unsigned hunsigned] at h
        cases h
    rw [checkSignature_of_signed hfind hsigned hcontent]
    rcases hverify with h | ⟨message,h⟩
    · rw [h]
    · rw [h]

theorem registerAll_congr {options options' : ImportOptions}
    (hdry : options.dryRun = options'.dryRun)
    (hover : options.allowOverwrite = options'.allowOverwrite) (result : ImportResult)
    (stats : Stats) (iocs : List Json) :
    registerAll env options result stats iocs = registerAll env options' result stats iocs := by
  induction iocs generalizing result stats with
  | nil => rfl
  | cons ioc iocs ih =>
    rw [registerAll, registerAll, hdry, hover]
    simp only [ih]

theorem import_verified (env : Env) (file : PackFile) (registry : Registry)
    (options : ImportOptions) :
    (∃ pack, loadPack env file = .ok pack ∧ Passes env file options pack ∧
      importCorpusPack env file registry { options with verifyCrypto := true } =
        importCorpusPack env file registry { options with verifyCrypto := false }) ∨
    ∃ e, importCorpusPack env file registry { options with verifyCrypto := true } =
      { registry, registered := [], outcome := .error e } := by
  cases hload : loadPack env file with
  | error e =>
    refine .inr ⟨e, ?_⟩
    rw [importCorpusPack, hload]
  | ok pack =>
    cases hcheck : checkSignature env file options pack with
    | ok =>
      refine .inl ⟨pack, rfl, checkSignature_ok_iff.mp hcheck, ?_⟩
      have hcheck' : checkSignature env file { options with verifyCrypto := true } pack = .ok () :=
        hcheck
      rw [importCorpusPack, importCorpusPack, hload]
      dsimp only
      rw [if_pos rfl, hcheck', if_neg Bool.false_ne_true]
      dsimp only
      split
      · rfl
      · apply registerAll_congr
        · rfl
        · rfl
    | error e =>
      refine .inr ⟨e, ?_⟩
      have hcheck' : checkSignature env file { options with verifyCrypto := true } pack = .error e :=
        hcheck
      rw [importCorpusPack, hload]
      dsimp only
      rw [if_pos rfl, hcheck']

end Verified

section Signed

theorem toDict_obj {env : Env} {pack : CorpusPack} {j : Json} (h : pack.toDict env = .ok j) :
    ∃ fields, j = .obj fields ∧ fields ≠ .nil := by
  obtain ⟨iocs,-,h⟩ := bind_eq_ok.mp h
  obtain ⟨digest,-,h⟩ := bind_eq_ok.mp h
  cases h
  exact ⟨_, rfl, nofun⟩

theorem signed_ne_canonical {env env' : Env} {pack pack' : CorpusPack} {signed content : Str}
    (hsigned : pack.toJson env = .ok signed) (hcontent : canonical env' pack' = .ok content) :
    signed ≠ content := by
  obtain ⟨j,hj,h⟩ := bind_eq_ok.mp hsigned
  obtain ⟨j',hj',h'⟩ := bind_eq_ok.mp hcontent
  cases h
  cases h'
  obtain ⟨fields,rfl,hne⟩ := toDict_obj hj
  obtain ⟨fields',rfl,hne'⟩ := toDict_obj hj'
  exact Json.dumpsIndented_ne_dumpsCompact hne hne'

theorem signCryptographically_signed {env : Env} {pack pack' : CorpusPack}
    {method secretKey password : Str} {sig : SignatureBundle}
    (h : signCryptographically env pack method secretKey password = .ok (pack', some sig)) :
    ∃ signed, pack.toJson env = .ok signed ∧
      signContent env.crypto signed method secretKey password = .signed sig := by
  obtain ⟨signed,hsigned,h⟩ := bind_eq_ok.mp h
  refine ⟨signed, hsigned, ?_⟩
  cases hsign : signContent env.crypto signed method secretKey password with
  | signed sig' =>
    rw [hsign] at h
    obtain ⟨digest,-,h⟩ := bind_eq_ok.mp h
    cases h
    rfl
  | importError message =>
    rw [hsign] at h
    cases h
  | raised kind message =>
    rw [hsign] at h
    dsimp only at h
    split at h
    · cases h
    · cases h

theorem signed_export_never_verifies {env : Env} {pack pack' imported : CorpusPack}
    {method secretKey password content publicKey : Str} {offline : Bool} {sig : SignatureBundle}
    (hsign : signCryptographically env pack method secretKey password = .ok (pack', some sig))
    (hscheme : ∀ signed, signContent env.crypto signed method secretKey password = .signed sig →
      verifyContent env.crypto content sig publicKey offline = .accepted → content = signed)
    (hcontent : canonical env imported = .ok content) :
    verifyContent env.crypto content sig publicKey offline ≠ .accepted := by
  obtain ⟨signed,hsigned,hsign⟩ := signCryptographically_signed hsign
  exact fun h => signed_ne_canonical hsigned hcontent (hscheme signed hsign h).symm

end Signed

section Runs

def withoutLibraries : Env :=
  { unicode := .basic, sha256 := id, now := "2026-01-01".toList, writable := fun _ => true
    crypto :=
      { sigstoreSign := none, minisignSign := none, sigstoreVerify := none
        minisignVerify := none } }

def forgedPack : PackFile :=
  { pathExists := true, suffix := ".json".toList, size := some 130, signature := none
    text := some ("\x7b\"name\": \"p\", \"iocs\": [\x7b\"id\": \"ioc-1\"\x7d], \"signature\": " ++
      "\x7b\"provider\": \"sigstore\", \"crypto_signature\": \"forged\"\x7d\x7d").toList }

-- No library to verify with: the forged signature passes.
theorem forged_pack_is_imported :
    (importCorpusPack withoutLibraries forgedPack [] { verifyCrypto := true }).registered =
        ["ioc-1".toList] ∧
      ∀ content bundle publicKey offline,
        verifyContent withoutLibraries.crypto content bundle publicKey offline ≠ .accepted := by
  refine ⟨by decide +kernel, ?_⟩
  intro content bundle publicKey offline
  rw [verifyContent]
  split
  · exact nofun
  split
  · exact nofun
  split
  · exact nofun
  · exact nofun

end Runs

end PicoSentry.Scan.CorpusShare
