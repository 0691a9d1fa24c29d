import PicoSentry.Foundation.Json
import PicoSentry.Foundation.TtlCache

namespace PicoSentry.Firewall.VerdictCache

open Foundation

inductive FirewallVerdict where
  | allow
  | quarantine
  | block
  | unresolved
  deriving DecidableEq, Repr

structure Finding where
  ruleId : Str
  severity : Str
  deriving DecidableEq, Repr

-- The scan of the files written for one manifest; none when the engine raises.
structure ScanEngine where
  scanNpm : Dict Str Json → Option (List Finding)
  scanPypi : Str → Str → Dict Str Json → Option (List Finding)

structure FirewallScanner where
  unicode : Unicode
  printable : Char → Bool
  engine : ScanEngine
  blockSeverities : List Str := []
  quarantineSeverities : List Str := []
  ttlSeconds : ℚ := 3600
  maxEntries : Nat := 10000

def unresolvedTtlSeconds : ℚ := 30

structure Request where
  ecosystem : Str
  name : Str
  version : Str
  deriving DecidableEq, Repr

abbrev Scanned := FirewallVerdict × List Finding

-- What versions.get(resolved) if resolved else None gives for the value of a dist-tag.
def resolveTag (versions : Dict Str Json) : Json → Except PyError (Option Json)
  | .str tag => .ok (if tag = [] then none else versions.get? tag)
  | .arr .nil => .ok none
  | .arr (.cons _ _) => .error .typeError
  | .obj .nil => .ok none
  | .obj (.cons _ _ _) => .error .typeError
  | _ => .ok none

def asDict : Option Json → Option (Dict Str Json)
  | some (.obj fields) => some fields.toList
  | _ => none

def latest : Str := "latest".toList

def extractVersionManifest (metadata : Dict Str Json) (version : Str) :
    Except PyError (Option (Dict Str Json)) :=
  match asDict (metadata.get? "versions".toList) with
  | some versions =>
    if version = latest then
      match asDict (metadata.get? "dist-tags".toList) with
      | some distTags =>
        match distTags.get? latest with
        | some tag => (resolveTag versions tag).map asDict
        | none => .ok none
      | none => .ok none
    else (resolveTag versions (.str version)).map asDict
  | none =>
    match asDict (metadata.get? "info".toList) with
    | some info => .ok (some info)
    | none => .ok (some metadata)

namespace FirewallScanner

variable (scanner : FirewallScanner)

def severities (configured default : List Str) : List Str :=
  (if configured = [] then default else configured).map scanner.unicode.upperStr

def blockSevs : List Str := scanner.severities scanner.blockSeverities ["CRITICAL".toList]

def quarantineSevs : List Str :=
  scanner.severities scanner.quarantineSeverities ["HIGH".toList, "MEDIUM".toList]

def verdictFromFindings (findings : List Finding) : FirewallVerdict :=
  if findings.any fun f => scanner.unicode.upperStr f.severity ∈ scanner.blockSevs then .block
  else if findings.any fun f => scanner.unicode.upperStr f.severity ∈ scanner.quarantineSevs then
    .quarantine
  else .allow

def unsafeChars : List Char := ['\'', '\n', '\r', ']', '#']

def sanitizePypiName (name : Str) : Option Str :=
  let safe := scanner.unicode.strip (name.filter (· ∉ unsafeChars))
  if safe = [] ∨ safe.all scanner.printable = false then none else some safe

def scanManifest (request : Request) (manifest : Dict Str Json) : Scanned × Bool :=
  let finish : Option (List Finding) → Scanned × Bool
    | none => ((.block, []), false)
    | some findings => ((scanner.verdictFromFindings findings, findings), true)
  if request.ecosystem = "npm".toList then finish (scanner.engine.scanNpm manifest)
  else if request.ecosystem = "pypi".toList then
    match scanner.sanitizePypiName request.name with
    | none => ((.block, []), false)
    | some safeName => finish (scanner.engine.scanPypi safeName request.version manifest)
  else ((.allow, []), false)

-- One call of scan_metadata: the lookup happens at start, the store at finish.
structure Call where
  request : Request
  metadata : Dict Str Json
  start : ℚ
  finish : ℚ

abbrev Store := TtlCache Request Scanned

def scanMetadata (store : Store) (call : Call) : Except PyError Scanned × Store :=
  match store.lookup call.request call.start with
  | (some cached, store) => (.ok cached, store)
  | (none, store) =>
    match extractVersionManifest call.metadata call.request.version with
    | .error e => (.error e, store)
    | .ok none =>
      match store.insert scanner.maxEntries call.request (.unresolved, [])
          (call.finish + unresolvedTtlSeconds) with
      | .error e => (.error e, store)
      | .ok store => (.ok (.unresolved, []), store)
    | .ok (some manifest) =>
      match scanner.scanManifest call.request manifest with
      | (scanned, false) => (.ok scanned, store)
      | (scanned, true) =>
        match store.insert scanner.maxEntries call.request scanned
            (call.finish + scanner.ttlSeconds) with
        | .error e => (.error e, store)
        | .ok store => (.ok scanned, store)

def run (store : Store) : List Call → List (Except PyError Scanned)
  | [] => []
  | call :: calls =>
    (scanner.scanMetadata store call).1 :: run (scanner.scanMetadata store call).2 calls

def direct (request : Request) (metadata : Dict Str Json) : Except PyError Scanned :=
  (extractVersionManifest metadata request.version).map fun
    | none => (.unresolved, [])
    | some manifest => (scanner.scanManifest request manifest).1

section Transparency

def manifestOf (call : Call) : Except PyError (Option (Dict Str Json)) :=
  extractVersionManifest call.metadata call.request.version

def Resolvable (call : Call) : Prop := ∃ manifest, manifestOf call = .ok (some manifest)

def storedUntil (call : Call) : Option ℚ :=
  match manifestOf call with
  | .error _ => none
  | .ok none => some (call.finish + unresolvedTtlSeconds)
  | .ok (some manifest) =>
    if (scanner.scanManifest call.request manifest).2 then some (call.finish + scanner.ttlSeconds)
    else none

def Immutable (calls : List Call) : Prop :=
  calls.Pairwise fun a b => a.request = b.request → a.request.version ≠ latest →
    ∀ manifest, manifestOf a = .ok (some manifest) → manifestOf b = .ok (some manifest)

def Settled (calls : List Call) : Prop :=
  calls.Pairwise fun a b => a.request = b.request →
    (∃ expiresAt, scanner.storedUntil a = some expiresAt ∧ b.start ≤ expiresAt) → Resolvable b →
      (a.request.version = latest ∨ manifestOf a = .ok none) → manifestOf a = manifestOf b

def Agree (a b : Call) : Prop :=
  a.request = b.request →
    (∃ expiresAt, scanner.storedUntil a = some expiresAt ∧ b.start ≤ expiresAt) → Resolvable b →
      manifestOf a = manifestOf b

variable {scanner}

theorem agree_of_settled {calls : List Call} (himm : Immutable calls)
    (hset : scanner.Settled calls) : calls.Pairwise scanner.Agree := by
  refine (himm.and hset).imp ?_
  rintro a b ⟨hfix,hmove⟩ hreq hstored hres
  by_cases hlabel : a.request.version = latest ∨ manifestOf a = .ok none
  · exact hmove hreq hstored hres hlabel
  · rw [not_or] at hlabel
    cases hm : manifestOf a with
    | error e =>
      obtain ⟨_,hs,-⟩ := hstored
      rw [storedUntil, hm] at hs
      cases hs
    | ok resolved =>
      cases resolved with
      | none => exact absurd hm hlabel.2
      | some manifest => exact (hfix hreq hlabel.1 manifest hm).symm

def Backed (scanner : FirewallScanner) (store : Store) (past : List Call) : Prop :=
  ∀ request expiresAt scanned, store.get? request = some (expiresAt, scanned) →
    ∃ a ∈ past, a.request = request ∧ scanner.storedUntil a = some expiresAt ∧
      scanner.direct request a.metadata = .ok scanned

theorem Backed.mono {store store' : Store} {past : List Call} (h : scanner.Backed store past)
    (hsub : ∀ request entry, store'.get? request = some entry → store.get? request = some entry)
    (call : Call) : scanner.Backed store' (past ++ [call]) := by
  intro request expiresAt scanned hget
  obtain ⟨a,ha,hrest⟩ := h request expiresAt scanned (hsub request _ hget)
  exact ⟨a, List.mem_append_left _ ha, hrest⟩

theorem Backed.insert {store store' : Store} {past : List Call} {call : Call}
    (h : scanner.Backed store past) {scanned : Scanned} {expiresAt : ℚ}
    (hins : store.insert scanner.maxEntries call.request scanned expiresAt = .ok store')
    (hstored : scanner.storedUntil call = some expiresAt)
    (hdirect : scanner.direct call.request call.metadata = .ok scanned) :
    scanner.Backed store' (past ++ [call]) := by
  intro request expiresAt' scanned' hget
  rcases TtlCache.get?_insert hins hget with hold | ⟨rfl,heq⟩
  · obtain ⟨a,ha,hrest⟩ := h request expiresAt' scanned' hold
    exact ⟨a, List.mem_append_left _ ha, hrest⟩
  · cases heq
    exact ⟨call, List.mem_append_right _ List.mem_cons_self, rfl, hstored, hdirect⟩

theorem scanMetadata_cases (hpos : 0 < scanner.maxEntries) (store : Store) (call : Call) :
    (∃ scanned, (store.lookup call.request call.start).1 = some scanned ∧
      scanner.scanMetadata store call = (.ok scanned, (store.lookup call.request call.start).2)) ∨
    (scanner.scanMetadata store call).1 = scanner.direct call.request call.metadata ∧
      ((scanner.scanMetadata store call).2 = (store.lookup call.request call.start).2 ∨
        ∃ scanned expiresAt, scanner.storedUntil call = some expiresAt ∧
          scanner.direct call.request call.metadata = .ok scanned ∧
          (store.lookup call.request call.start).2.insert scanner.maxEntries call.request scanned
            expiresAt = .ok (scanner.scanMetadata store call).2) := by
  rw [scanMetadata]
  cases hl : store.lookup call.request call.start with
  | mk found store₁ =>
    cases found with
    | some scanned => exact .inl ⟨scanned, rfl, rfl⟩
    | none =>
      right
      cases hm : extractVersionManifest call.metadata call.request.version with
      | error e => exact ⟨by rw [direct, hm]; rfl, .inl rfl⟩
      | ok resolved =>
        cases resolved with
        | none =>
          have hdirect : scanner.direct call.request call.metadata = .ok (.unresolved, []) := by
            rw [direct, hm]
            rfl
          obtain ⟨store₂,hins⟩ := TtlCache.insert_isOk hpos store₁ call.request
            ((.unresolved, []) : Scanned) (call.finish + unresolvedTtlSeconds)
          simp only [hins]
          exact ⟨hdirect.symm, .inr ⟨_, _, by rw [storedUntil, manifestOf, hm], hdirect, hins⟩⟩
        | some manifest =>
          have hdirect : scanner.direct call.request call.metadata =
              .ok (scanner.scanManifest call.request manifest).1 := by
            rw [direct, hm]
            rfl
          cases hs : scanner.scanManifest call.request manifest with
          | mk scanned stored =>
            rw [hs] at hdirect
            cases stored with
            | false =>
              simp only [hs]
              exact ⟨hdirect.symm, .inl trivial⟩
            | true =>
              obtain ⟨store₂,hins⟩ := TtlCache.insert_isOk hpos store₁ call.request scanned
                (call.finish + scanner.ttlSeconds)
              simp only [hs, hins]
              refine ⟨hdirect.symm, .inr ⟨_, _, ?_, hdirect, hins⟩⟩
              simp only [storedUntil, manifestOf, hm, hs, if_true]

theorem backed_scanMetadata (hpos : 0 < scanner.maxEntries) {store : Store} {past : List Call}
    (h : scanner.Backed store past) (call : Call) :
    scanner.Backed (scanner.scanMetadata store call).2 (past ++ [call]) := by
  have hlookup : ∀ request entry,
      (store.lookup call.request call.start).2.get? request = some entry →
        store.get? request = some entry := fun _ _ hget => TtlCache.get?_lookup hget
  rcases scanMetadata_cases hpos store call with ⟨scanned,-,hr⟩ | ⟨-,hr | ⟨_,_,hst,hd,hins⟩⟩
  · rw [hr]
    exact h.mono hlookup call
  · rw [hr]
    exact h.mono hlookup call
  · have hbase : scanner.Backed (store.lookup call.request call.start).2 past := by
      intro request expiresAt scanned hget
      exact h request expiresAt scanned (hlookup _ _ hget)
    exact hbase.insert hins hst hd

theorem scanMetadata_direct (hpos : 0 < scanner.maxEntries) {store : Store} {past : List Call}
    (h : scanner.Backed store past) {call : Call} (hagree : ∀ a ∈ past, scanner.Agree a call)
    (hres : Resolvable call) :
    (scanner.scanMetadata store call).1 = scanner.direct call.request call.metadata := by
  rcases scanMetadata_cases hpos store call with ⟨scanned,hhit,hr⟩ | ⟨hr,-⟩
  · obtain ⟨expiresAt,hget,hle⟩ := TtlCache.lookup_some hhit
    obtain ⟨a,ha,hreq,hstored,hdirect⟩ := h _ _ _ hget
    have hsame := hagree a ha hreq ⟨expiresAt, hstored, hle⟩ hres
    rw [manifestOf, manifestOf, hreq] at hsame
    rw [hr, direct, ← hsame]
    exact hdirect.symm
  · exact hr

theorem run_direct (hpos : 0 < scanner.maxEntries) {store : Store} {past calls : List Call}
    (h : scanner.Backed store past) (hpast : ∀ a ∈ past, ∀ b ∈ calls, scanner.Agree a b)
    (hcalls : calls.Pairwise scanner.Agree) {i : Nat} {call : Call} (hi : calls[i]? = some call)
    (hres : Resolvable call) :
    (scanner.run store calls)[i]? = some (scanner.direct call.request call.metadata) := by
  induction calls generalizing store past i with
  | nil => cases hi
  | cons c calls ih =>
    rw [List.pairwise_cons] at hcalls
    cases i with
    | zero =>
      cases hi
      rw [run, List.getElem?_cons_zero,
        scanMetadata_direct hpos h (fun a ha => hpast a ha _ List.mem_cons_self) hres]
    | succ i =>
      rw [run, List.getElem?_cons_succ]
      refine ih (backed_scanMetadata hpos h c) ?_ hcalls.2 hi
      intro a ha b hb
      rcases List.mem_append.mp ha with ha | ha
      · exact hpast a ha b (List.mem_cons_of_mem _ hb)
      · rw [List.mem_singleton.mp ha]
        exact hcalls.1 b hb

theorem backed_empty (scanner : FirewallScanner) : scanner.Backed [] [] := by
  simp [Backed, Dict.get?]

end Transparency

end FirewallScanner

theorem cached_verdict_is_direct (scanner : FirewallScanner) (calls : List FirewallScanner.Call)
    (hpos : 0 < scanner.maxEntries) (himm : FirewallScanner.Immutable calls)
    (hset : scanner.Settled calls) (i : Nat) (call : FirewallScanner.Call)
    (hi : calls[i]? = some call) (hres : FirewallScanner.Resolvable call) :
    (scanner.run [] calls)[i]? = some (scanner.direct call.request call.metadata) :=
  FirewallScanner.run_direct hpos (FirewallScanner.backed_empty scanner) (by simp)
    (FirewallScanner.agree_of_settled himm hset) hi hres

section Release

def object (fields : List (String × Json)) : Json :=
  .obj (.ofList (fields.map fun f => (f.1.toList, f.2)))

def catalog (versions : List (String × Json)) (newest : String) : Dict Str Json :=
  [("versions".toList, object versions),
   ("dist-tags".toList, object [("latest", .str newest.toList)])]

def firstRelease : Dict Str Json := catalog [("1.0.0", object [("name", .str "pad".toList)])] "1.0.0"

def wormRelease : Dict Str Json :=
  catalog [("1.0.0", object [("name", .str "pad".toList)]),
    ("2.0.0", object [("preinstall", .str "worm".toList)])] "2.0.0"

def wormFinding : Finding := { ruleId := "L2-WORM-001".toList, severity := "critical".toList }

def wormScanner : FirewallScanner where
  unicode := .basic
  printable _ := true
  engine :=
    { scanNpm := fun manifest =>
        some (if (manifest.get? "preinstall".toList).isSome then [wormFinding] else [])
      scanPypi := fun _ _ _ => some [] }

def fetch (version : String) (metadata : Dict Str Json) (start : ℚ) : FirewallScanner.Call where
  request := { ecosystem := "npm".toList, name := "pad".toList, version := version.toList }
  metadata := metadata
  start := start
  finish := start + 1

def latestTwice : List FirewallScanner.Call :=
  [fetch "latest" firstRelease 0, fetch "latest" wormRelease 10]

theorem new_latest_let_through :
    FirewallScanner.Immutable latestTwice ∧
      (wormScanner.run [] latestTwice)[1]? = some (.ok (.allow, [])) ∧
      wormScanner.direct (fetch "latest" wormRelease 10).request wormRelease =
        .ok (.block, [wormFinding]) := by
  refine ⟨?_,?_,?_⟩
  · simp [FirewallScanner.Immutable, latestTwice, fetch, latest]
  · decide +kernel
  · rfl

def exactTwice : List FirewallScanner.Call :=
  [fetch "2.0.0" wormRelease 0, fetch "2.0.0" wormRelease 10]

theorem cached_verdict_is_direct_exact :
    (wormScanner.run [] exactTwice)[1]? =
      some (wormScanner.direct (fetch "2.0.0" wormRelease 10).request wormRelease) := by
  refine cached_verdict_is_direct wormScanner exactTwice (by decide) ?_ ?_ 1 _ rfl ⟨_, rfl⟩
  · simp only [FirewallScanner.Immutable, exactTwice, List.pairwise_cons, List.mem_singleton,
      forall_eq, List.not_mem_nil, false_imp_iff, implies_true, List.Pairwise.nil, and_true]
    exact fun _ _ _ h => h
  · simp only [FirewallScanner.Settled, exactTwice, List.pairwise_cons, List.mem_singleton,
      forall_eq, List.not_mem_nil, false_imp_iff, implies_true, List.Pairwise.nil, and_true]
    exact fun _ _ _ _ => rfl

end Release

end PicoSentry.Firewall.VerdictCache
