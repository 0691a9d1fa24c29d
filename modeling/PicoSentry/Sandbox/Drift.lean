import Mathlib.Algebra.Order.Field.Basic
import Mathlib.Algebra.Order.Field.Rat
import Mathlib.Data.List.Forall2
import PicoSentry.Foundation.Decimal
import PicoSentry.Foundation.Dict
import PicoSentry.Foundation.Result
import PicoSentry.Foundation.Url

namespace PicoSentry.Sandbox.Drift

open Foundation Foundation.Url

section Fnmatch

def rangeChunks : Nat → Nat → Str → List Str
  | 0, _, s => [s]
  | fuel + 1, skip, s =>
    match (s.drop skip).dropWhile (· ≠ '-') with
    | [] => [s]
    | _ :: rest =>
      let chunk := s.take (s.length - rest.length - 1)
      match rangeChunks fuel 2 rest with
      | [[]] => [chunk ++ ['-']]
      | chunks => chunk :: chunks

-- A range that runs backwards is empty, and its two ends fall away.
def dropEmptyRanges : List Str → List Str
  | [] => []
  | chunk :: chunks =>
    match chunk.getLast?, dropEmptyRanges chunks with
    | some lo, (hi :: chunk') :: rest =>
      if hi < lo then (chunk.dropLast ++ chunk') :: rest else chunk :: (hi :: chunk') :: rest
    | _, rest => chunk :: rest

def setChunks (stuff : Str) : List Str :=
  if stuff.contains '-' then
    dropEmptyRanges (rangeChunks stuff.length (if stuff.head? = some '!' then 2 else 1) stuff)
  else [stuff]

def inChunks (c : Char) : List Str → Bool
  | [] => false
  | [chunk] => chunk.contains c
  | chunk :: chunk' :: rest =>
    chunk.contains c ||
      (match chunk.getLast?, chunk'.head? with
        | some lo, some hi => decide (lo ≤ c) && decide (c ≤ hi)
        | _, _ => false) ||
      inChunks c (chunk' :: rest)

def inSet (stuff : Str) (c : Char) : Bool :=
  match setChunks stuff with
  | [[]] => false
  | [['!']] => true
  | ('!' :: chunk) :: chunks => !inChunks c (chunk :: chunks)
  | chunks => inChunks c chunks

def splitSet (rest : Str) : Option (Str × Str) :=
  let start := if rest.head? = some '!' then 1 else 0
  let start := if (rest.drop start).head? = some ']' then start + 1 else start
  let tail := rest.drop start
  match tail.dropWhile (· ≠ ']') with
  | [] => none
  | _ :: after => some (rest.take start ++ tail.takeWhile (· ≠ ']'), after)

inductive Piece where
  | star
  | one
  | set (stuff : Str)
  | literal (c : Char)

def translate : Nat → Str → List Piece
  | 0, _ => []
  | _, [] => []
  | fuel + 1, '*' :: pat => .star :: translate fuel pat
  | fuel + 1, '?' :: pat => .one :: translate fuel pat
  | fuel + 1, '[' :: pat =>
    match splitSet pat with
    | some (stuff, after) => .set stuff :: translate fuel after
    | none => .literal '[' :: translate fuel pat
  | fuel + 1, c :: pat => .literal c :: translate fuel pat

def Piece.accepts : Piece → Char → Bool
  | .star, _ => false
  | .one, _ => true
  | .set stuff, c => inSet stuff c
  | .literal d, c => c = d

def matchPieces : List Piece → Str → Bool
  | [], s => s.isEmpty
  | .star :: pieces, s => s.tails.any (matchPieces pieces)
  | _ :: _, [] => false
  | piece :: pieces, c :: s => piece.accepts c && matchPieces pieces s

def fnmatch (path pattern : Str) : Bool := matchPieces (translate pattern.length pattern) path

example : fnmatch "/tmp/b-7".toList "/tmp/[!a]-[0-9]*".toList = true := by decide +kernel

example : fnmatch "]".toList "[c-b]".toList = false := by decide +kernel

end Fnmatch

structure NetworkCall where
  address : Str
  deriving DecidableEq

structure FileOperation where
  path : Str
  deriving DecidableEq

-- The DNS queries and spawns are only counted.
structure BehavioralProfile where
  package : Str
  entrypoint : Str
  networkCalls : List NetworkCall
  dnsQueries : List Str
  fsOps : List FileOperation
  spawns : List Str
  totalRuntimeMs : Int

structure Baseline where
  name : Str
  package : Str
  expectedNetworkCalls : Int := 0
  expectedDnsQueries : Int := 0
  expectedFsOps : Int := 0
  expectedSpawns : Int := 0
  expectedRuntimeMsRange : Int × Int := (0, 0)
  allowedDomains : List Str := []
  allowedPaths : List Str := []
  deriving DecidableEq

-- The score is the number of drifting checks; the code divides it by the five checks.
structure DriftResult where
  baselineName : Str
  driftCount : Nat
  networkDrift : Bool
  dnsDrift : Bool
  fsDrift : Bool
  spawnDrift : Bool
  timingDrift : Bool
  details : Str
  deriving DecidableEq

def totalChecks : Nat := 5

def DriftResult.score (d : DriftResult) : ℚ := d.driftCount / totalChecks

section Compare

-- The tables of str.lower, the characters of str.isdigit and the normal form that urlsplit compares with.
variable (U : Unicode) (isdigit : Char → Bool) (nfkc : Str → Str)

-- SplitResult.hostname, before it is lowered: what stands between the credentials and the port.
def rawHost (netloc : Str) : Str :=
  let hostinfo := (netloc.reverse.takeWhile (· ≠ '@')).reverse
  if hostinfo.contains '[' then (partition ']' (partition '[' hostinfo).2).1 else (partition ':' hostinfo).1

def hostname (netloc : Str) : Option Str :=
  let host := rawHost netloc
  if host = [] then none
  else
    let zone := host.dropWhile (· ≠ '%')
    some (U.lowerStr (host.takeWhile (· ≠ '%')) ++ zone)

def hostOf (address : Str) : Except PyError Str := do
  let candidate := if "//".toList <:+: address then address else "//".toList ++ address
  let parsed ← urlparse nfkc candidate []
  return U.lowerStr ((hostname U parsed.netloc).getD address)

-- An address of digits, dots and colons alone is taken as a bare IP address.
def numeric (address : Str) : Bool :=
  let stripped := address.filter fun c => c ≠ '.' ∧ c ≠ ':'
  stripped ≠ [] && stripped.all isdigit

def unexpectedDomain (allowed : List Str) : List NetworkCall → Except PyError (Option NetworkCall)
  | [] => .ok none
  | call :: calls =>
    if numeric isdigit call.address then unexpectedDomain allowed calls
    else
      match hostOf U nfkc call.address with
      | .error e => .error e
      | .ok host => if host ∈ allowed then unexpectedDomain allowed calls else .ok (some call)

def unexpectedPath (allowed : List Str) (ops : List FileOperation) : Option FileOperation :=
  ops.find? fun op => !allowed.any fun p => fnmatch op.path p

-- A negative bound allows any number.
def exceeds (expected : Int) (count : Nat) : Bool := 0 ≤ expected ∧ expected < count

def outsideRange (range : Int × Int) (runtime : Int) : Bool :=
  (0 < range.1 ∨ 0 < range.2) ∧ (runtime < range.1 ∨ range.2 < runtime)

def domainsRestricted (b : Baseline) : Bool := b.allowedDomains ≠ [] ∧ ['*'] ∉ b.allowedDomains

def pathsRestricted (b : Baseline) : Bool := b.allowedPaths ≠ [] ∧ "**".toList ∉ b.allowedPaths

def domainFound (b : Baseline) (calls : List NetworkCall) : Except PyError (Option NetworkCall) :=
  if domainsRestricted b then unexpectedDomain U isdigit nfkc (b.allowedDomains.map U.lowerStr) calls else .ok none

def pathFound (b : Baseline) (ops : List FileOperation) : Option FileOperation :=
  if pathsRestricted b then unexpectedPath b.allowedPaths ops else none

def flag (raised : Bool) (text : Str) : List Str := if raised then [text] else []

def compareProfileToBaseline (profile : BehavioralProfile) (b : Baseline) : Except PyError DriftResult := do
  let count := fun (label : String) (n : Nat) (unit : String) (expected : Int) =>
    label.toList ++ ": ".toList ++ decimal n ++ ' ' :: unit.toList ++ " (expected ≤".toList ++ intText expected ++ [')']
  let network := exceeds b.expectedNetworkCalls profile.networkCalls.length
  let dns := exceeds b.expectedDnsQueries profile.dnsQueries.length
  let fs := exceeds b.expectedFsOps profile.fsOps.length
  let spawn := exceeds b.expectedSpawns profile.spawns.length
  let timing := outsideRange b.expectedRuntimeMsRange profile.totalRuntimeMs
  let domain ← domainFound U isdigit nfkc b profile.networkCalls
  let path := pathFound b profile.fsOps
  let networkDrift := network || domain.isSome
  let fsDrift := fs || path.isSome
  let flags :=
    flag network (count "Network" profile.networkCalls.length "calls" b.expectedNetworkCalls) ++
    flag dns (count "DNS" profile.dnsQueries.length "queries" b.expectedDnsQueries) ++
    flag fs (count "FS" profile.fsOps.length "operations" b.expectedFsOps) ++
    flag spawn (count "Spawns" profile.spawns.length "processes" b.expectedSpawns) ++
    flag timing ("Timing: ".toList ++ intText profile.totalRuntimeMs ++ "ms (expected ".toList ++
      intText b.expectedRuntimeMsRange.1 ++ '-' :: intText b.expectedRuntimeMsRange.2 ++ "ms)".toList) ++
    domain.toList.map (fun call => "Unexpected domain: ".toList ++ call.address) ++
    path.toList.map fun op => "Unexpected path: ".toList ++ op.path
  return {
    baselineName := b.name
    driftCount := [networkDrift, dns, fsDrift, spawn, timing].countP id
    networkDrift := networkDrift
    dnsDrift := dns
    fsDrift := fsDrift
    spawnDrift := spawn
    timingDrift := timing
    details := if flags = [] then "No drift detected".toList else "; ".toList.intercalate flags }

def matchesProfile (profile : BehavioralProfile) (b : Baseline) : Bool :=
  [['*'], profile.package, profile.entrypoint].contains b.package

-- The best score starts at the whole score, and a later baseline has to be below it.
def findBest (profile : BehavioralProfile) :
    Option (Baseline × DriftResult) → ℚ → List Baseline → Except PyError (Option (Baseline × DriftResult))
  | best, _, [] => .ok best
  | best, bestScore, b :: baselines =>
    if matchesProfile profile b then
      match compareProfileToBaseline U isdigit nfkc profile b with
      | .error e => .error e
      | .ok drift =>
        if drift.score < bestScore then findBest profile (some (b, drift)) drift.score baselines
        else findBest profile best bestScore baselines
    else findBest profile best bestScore baselines

def findBestBaseline (profile : BehavioralProfile) (baselines : Dict Str Baseline) :
    Except PyError (Option (Baseline × DriftResult)) :=
  findBest U isdigit nfkc profile none 1 (baselines.map Prod.snd)

def driftResults (profile : BehavioralProfile) (baselines : Dict Str Baseline) : Except PyError (List DriftResult) :=
  (findBestBaseline U isdigit nfkc profile baselines).map fun best => best.toList.map Prod.snd

end Compare

section Conditions

variable (U : Unicode) (isdigit : Char → Bool) (nfkc : Str → Str) (profile : BehavioralProfile) (b : Baseline)

def Expected (call : NetworkCall) : Prop :=
  numeric isdigit call.address = true ∨ ∃ host, hostOf U nfkc call.address = .ok host ∧ host ∈ b.allowedDomains.map U.lowerStr

def Unreadable : Prop :=
  domainsRestricted b = true ∧ ∃ before call after e, profile.networkCalls = before ++ call :: after ∧
    (∀ c ∈ before, Expected U isdigit nfkc b c) ∧ numeric isdigit call.address = false ∧
    hostOf U nfkc call.address = .error e

def DomainDrifts : Prop :=
  domainsRestricted b = true ∧ ∃ call ∈ profile.networkCalls, ¬Expected U isdigit nfkc b call

def PathDrifts : Prop :=
  pathsRestricted b = true ∧ ∃ op ∈ profile.fsOps, ∀ p ∈ b.allowedPaths, fnmatch op.path p = false

structure TotalDrift : Prop where
  network : exceeds b.expectedNetworkCalls profile.networkCalls.length = true ∨ DomainDrifts U isdigit nfkc profile b
  dns : exceeds b.expectedDnsQueries profile.dnsQueries.length = true
  fs : exceeds b.expectedFsOps profile.fsOps.length = true ∨ PathDrifts profile b
  spawns : exceeds b.expectedSpawns profile.spawns.length = true
  timing : outsideRange b.expectedRuntimeMsRange profile.totalRuntimeMs = true

variable {U isdigit nfkc profile b} {calls : List NetworkCall} {d : DriftResult}

theorem unexpectedDomain_error_iff :
    (∃ e, unexpectedDomain U isdigit nfkc (b.allowedDomains.map U.lowerStr) calls = .error e) ↔
      ∃ before call after e, calls = before ++ call :: after ∧ (∀ c ∈ before, Expected U isdigit nfkc b c) ∧
        numeric isdigit call.address = false ∧ hostOf U nfkc call.address = .error e := by
  induction calls with
  | nil =>
    constructor
    · rintro ⟨e,h⟩
      cases h
    · rintro ⟨before,call,after,e,h,-⟩
      exact absurd h.symm (List.append_ne_nil_of_right_ne_nil _ (List.cons_ne_nil _ _))
  | cons call calls ih =>
    have hcons : (∃ before c after e, call :: calls = before ++ c :: after ∧
        (∀ c ∈ before, Expected U isdigit nfkc b c) ∧ numeric isdigit c.address = false ∧
        hostOf U nfkc c.address = .error e) ↔
        (numeric isdigit call.address = false ∧ ∃ e, hostOf U nfkc call.address = .error e) ∨
          Expected U isdigit nfkc b call ∧ ∃ before c after e, calls = before ++ c :: after ∧
            (∀ c ∈ before, Expected U isdigit nfkc b c) ∧ numeric isdigit c.address = false ∧
            hostOf U nfkc c.address = .error e := by
      constructor
      · rintro ⟨before,c,after,e,heq,hbefore,hnumeric,herror⟩
        cases before with
        | nil =>
          cases heq
          exact .inl ⟨hnumeric, e, herror⟩
        | cons c' before =>
          cases heq
          exact .inr ⟨hbefore _ List.mem_cons_self, before, c, after, e, rfl,
            fun c hc => hbefore c (List.mem_cons_of_mem _ hc), hnumeric, herror⟩
      · rintro (⟨hnumeric,e,herror⟩ | ⟨hexpected,before,c,after,e,rfl,hbefore,hnumeric,herror⟩)
        · exact ⟨[], call, calls, e, rfl, fun _ h => absurd h List.not_mem_nil, hnumeric, herror⟩
        · refine ⟨call :: before, c, after, e, rfl, fun c hc => ?_, hnumeric, herror⟩
          rcases List.mem_cons.mp hc with rfl | hc
          · exact hexpected
          · exact hbefore c hc
    rw [hcons, unexpectedDomain]
    split
    · next hnumeric =>
      rw [ih]
      refine ⟨fun h => .inr ⟨.inl hnumeric, h⟩, ?_⟩
      rintro (⟨hfalse,-⟩ | ⟨-,h⟩)
      · cases hnumeric.symm.trans hfalse
      · exact h
    · next hnumeric =>
      have hnumeric := Bool.eq_false_iff.mpr hnumeric
      split
      · next e herror =>
        exact ⟨fun _ => .inl ⟨hnumeric, e, herror⟩, fun _ => ⟨e, rfl⟩⟩
      · next host hhost =>
        split
        · next hmem =>
          rw [ih]
          refine ⟨fun h => .inr ⟨.inr ⟨host, hhost, hmem⟩, h⟩, ?_⟩
          rintro (⟨-,e,herror⟩ | ⟨-,h⟩)
          · cases hhost.symm.trans herror
          · exact h
        · next hmem =>
          constructor
          · rintro ⟨e,h⟩
            cases h
          · rintro (⟨-,e,herror⟩ | ⟨hexpected | ⟨host',hhost',hmem'⟩,-⟩)
            · cases hhost.symm.trans herror
            · cases hnumeric.symm.trans hexpected
            · cases hhost.symm.trans hhost'
              exact absurd hmem' hmem

theorem isSome_unexpectedDomain {found : Option NetworkCall}
    (h : unexpectedDomain U isdigit nfkc (b.allowedDomains.map U.lowerStr) calls = .ok found) :
    found.isSome = true ↔ ∃ call ∈ calls, ¬Expected U isdigit nfkc b call := by
  induction calls with
  | nil =>
    cases h
    exact ⟨fun h => Bool.noConfusion h, fun ⟨_,h,_⟩ => absurd h List.not_mem_nil⟩
  | cons call calls ih =>
    rw [List.exists_mem_cons_iff]
    rw [unexpectedDomain] at h
    split at h
    · next hnumeric => rw [ih h, or_iff_right (not_not.mpr (.inl hnumeric))]
    · next hnumeric =>
      split at h
      · cases h
      · next host hhost =>
        split at h
        · next hmem => rw [ih h, or_iff_right (not_not.mpr (.inr ⟨host, hhost, hmem⟩))]
        · next hmem =>
          cases h
          refine ⟨fun _ => .inl ?_, fun _ => rfl⟩
          rintro (hexpected | ⟨host',hhost',hmem'⟩)
          · exact hnumeric hexpected
          · cases hhost.symm.trans hhost'
            exact hmem hmem'

theorem isSome_unexpectedPath {allowed : List Str} {ops : List FileOperation} :
    (unexpectedPath allowed ops).isSome = true ↔ ∃ op ∈ ops, ∀ p ∈ allowed, fnmatch op.path p = false := by
  rw [unexpectedPath, List.find?_isSome]
  simp only [Bool.not_eq_true', List.any_eq_false, Bool.not_eq_true]

structure Checked (U : Unicode) (isdigit : Char → Bool) (nfkc : Str → Str) (profile : BehavioralProfile) (b : Baseline)
    (d : DriftResult) : Prop where
  network : d.networkDrift = true ↔
    exceeds b.expectedNetworkCalls profile.networkCalls.length = true ∨ DomainDrifts U isdigit nfkc profile b
  dns : d.dnsDrift = exceeds b.expectedDnsQueries profile.dnsQueries.length
  fs : d.fsDrift = true ↔ exceeds b.expectedFsOps profile.fsOps.length = true ∨ PathDrifts profile b
  spawns : d.spawnDrift = exceeds b.expectedSpawns profile.spawns.length
  timing : d.timingDrift = outsideRange b.expectedRuntimeMsRange profile.totalRuntimeMs
  count : d.driftCount = [d.networkDrift, d.dnsDrift, d.fsDrift, d.spawnDrift, d.timingDrift].countP id

theorem isSome_domainFound {found : Option NetworkCall}
    (h : domainFound U isdigit nfkc b profile.networkCalls = .ok found) :
    found.isSome = true ↔ DomainDrifts U isdigit nfkc profile b := by
  rw [domainFound] at h
  rw [DomainDrifts]
  split at h
  · next hrestricted => rw [isSome_unexpectedDomain h, and_iff_right hrestricted]
  · next hrestricted =>
    cases h
    exact ⟨fun h => Bool.noConfusion h, fun h => absurd h.1 hrestricted⟩

theorem domainFound_error_iff : (∃ e, domainFound U isdigit nfkc b profile.networkCalls = .error e) ↔
    Unreadable U isdigit nfkc profile b := by
  rw [domainFound, Unreadable]
  split
  · next hrestricted => rw [unexpectedDomain_error_iff, and_iff_right hrestricted]
  · next hrestricted => exact ⟨fun ⟨_,h⟩ => (by cases h), fun h => absurd h.1 hrestricted⟩

theorem isSome_pathFound : (pathFound b profile.fsOps).isSome = true ↔ PathDrifts profile b := by
  rw [pathFound, PathDrifts]
  split
  · next hrestricted => rw [isSome_unexpectedPath, and_iff_right hrestricted]
  · next hrestricted => exact ⟨fun h => Bool.noConfusion h, fun h => absurd h.1 hrestricted⟩

theorem checked_of_compare (h : compareProfileToBaseline U isdigit nfkc profile b = .ok d) :
    Checked U isdigit nfkc profile b d := by
  rw [compareProfileToBaseline] at h
  obtain ⟨domain,hdomain,h⟩ := bind_eq_ok.mp h
  cases h
  exact {
    network := by rw [Bool.or_eq_true, isSome_domainFound hdomain]
    dns := rfl
    fs := by rw [Bool.or_eq_true, isSome_pathFound]
    spawns := rfl
    timing := rfl
    count := rfl }

theorem compare_error_iff :
    (∃ e, compareProfileToBaseline U isdigit nfkc profile b = .error e) ↔ Unreadable U isdigit nfkc profile b := by
  rw [← domainFound_error_iff, compareProfileToBaseline]
  cases domainFound U isdigit nfkc b profile.networkCalls with
  | error e => exact ⟨fun _ => ⟨e, rfl⟩, fun _ => ⟨e, rfl⟩⟩
  | ok domain => exact ⟨fun ⟨_,h⟩ => (by cases h), fun ⟨_,h⟩ => (by cases h)⟩

theorem Checked.total_iff (h : Checked U isdigit nfkc profile b d) :
    d.score < 1 ↔ ¬TotalDrift U isdigit nfkc profile b := by
  have hle : d.driftCount ≤ totalChecks := h.count ▸ List.countP_le_length
  have htotal : d.driftCount = totalChecks ↔ TotalDrift U isdigit nfkc profile b := by
    have hlength : totalChecks = [d.networkDrift, d.dnsDrift, d.fsDrift, d.spawnDrift, d.timingDrift].length := rfl
    rw [h.count, hlength, List.countP_eq_length]
    constructor
    · intro hall
      exact {
        network := h.network.mp (hall _ (by simp))
        dns := h.dns ▸ hall _ (by simp)
        fs := h.fs.mp (hall _ (by simp))
        spawns := h.spawns ▸ hall _ (by simp)
        timing := h.timing ▸ hall _ (by simp) }
    · intro htotal
      simp only [List.mem_cons, List.not_mem_nil, or_false, id]
      rintro flag (rfl | rfl | rfl | rfl | rfl)
      · exact h.network.mpr htotal.network
      · exact h.dns.trans htotal.dns
      · exact h.fs.mpr htotal.fs
      · exact h.spawns.trans htotal.spawns
      · exact h.timing.trans htotal.timing
  rw [← htotal, DriftResult.score, div_lt_one (by norm_num [totalChecks]), Nat.cast_lt]
  omega

end Conditions

section Search

variable {U : Unicode} {isdigit : Char → Bool} {nfkc : Str → Str} {profile : BehavioralProfile}
  {bs : List Baseline} {best : Option (Baseline × DriftResult)} {bestScore : ℚ}

variable (U isdigit nfkc profile) in
def Least (bs : List Baseline) (b : Baseline) (d : DriftResult) : Prop :=
  b ∈ bs ∧ matchesProfile profile b = true ∧ compareProfileToBaseline U isdigit nfkc profile b = .ok d ∧
    ∀ b' ∈ bs, matchesProfile profile b' = true → ∀ d', compareProfileToBaseline U isdigit nfkc profile b' = .ok d' →
      d.score ≤ d'.score

variable (U isdigit nfkc profile) in
def Readable (bs : List Baseline) : Prop :=
  ∀ b ∈ bs, matchesProfile profile b = true → ∃ d, compareProfileToBaseline U isdigit nfkc profile b = .ok d

theorem readable_cons {b : Baseline} : Readable U isdigit nfkc profile (b :: bs) ↔
    (matchesProfile profile b = true → ∃ d, compareProfileToBaseline U isdigit nfkc profile b = .ok d) ∧
      Readable U isdigit nfkc profile bs := by
  rw [Readable, List.forall_mem_cons]
  rfl

theorem findBest_isOk_iff : (∃ r, findBest U isdigit nfkc profile best bestScore bs = .ok r) ↔
    Readable U isdigit nfkc profile bs := by
  induction bs generalizing best bestScore with
  | nil => exact ⟨fun _ _ h => absurd h List.not_mem_nil, fun _ => ⟨best, rfl⟩⟩
  | cons b bs ih =>
    rw [readable_cons, findBest]
    split
    · next hmatch =>
      cases hcompare : compareProfileToBaseline U isdigit nfkc profile b with
      | error e =>
        constructor
        · rintro ⟨r,h⟩
          cases h
        · rintro ⟨h,-⟩
          obtain ⟨d,h⟩ := h hmatch
          cases h
      | ok d =>
        rw [and_iff_right fun _ => ⟨d, rfl⟩]
        dsimp only
        split
        · exact ih
        · exact ih
    · next hmatch => rw [ih, and_iff_right fun h => absurd h hmatch]

theorem findBest_spec {r : Option (Baseline × DriftResult)}
    (h : findBest U isdigit nfkc profile best bestScore bs = .ok r) :
    (r = best ∧ ∀ b ∈ bs, matchesProfile profile b = true → ∀ d,
        compareProfileToBaseline U isdigit nfkc profile b = .ok d → bestScore ≤ d.score) ∨
      ∃ b d, r = some (b, d) ∧ d.score < bestScore ∧ Least U isdigit nfkc profile bs b d := by
  induction bs generalizing best bestScore with
  | nil =>
    cases h
    exact .inl ⟨rfl, fun _ h => absurd h List.not_mem_nil⟩
  | cons b bs ih =>
    rw [findBest] at h
    split at h
    · next hmatch =>
      cases hcompare : compareProfileToBaseline U isdigit nfkc profile b with
      | error e =>
        rw [hcompare] at h
        cases h
      | ok d =>
        rw [hcompare] at h
        dsimp only at h
        split at h
        · next hlt =>
          right
          rcases ih h with ⟨rfl,hrest⟩ | ⟨b',d',rfl,hlt',hmem,hmatch',hcompare',hleast⟩
          · refine ⟨b, d, rfl, hlt, List.mem_cons_self, hmatch, hcompare, List.forall_mem_cons.mpr ⟨?_, hrest⟩⟩
            intro _ d' hd'
            cases hcompare.symm.trans hd'
            exact le_rfl
          · refine ⟨b', d', rfl, hlt'.trans hlt, List.mem_cons_of_mem _ hmem, hmatch', hcompare',
              List.forall_mem_cons.mpr ⟨?_, hleast⟩⟩
            intro _ d'' hd''
            cases hcompare.symm.trans hd''
            exact hlt'.le
        · next hge =>
          rcases ih h with ⟨rfl,hrest⟩ | ⟨b',d',rfl,hlt',hmem,hmatch',hcompare',hleast⟩
          · refine .inl ⟨rfl, List.forall_mem_cons.mpr ⟨?_, hrest⟩⟩
            intro _ d' hd'
            cases hcompare.symm.trans hd'
            exact not_lt.mp hge
          · refine .inr ⟨b', d', rfl, hlt', List.mem_cons_of_mem _ hmem, hmatch', hcompare',
              List.forall_mem_cons.mpr ⟨?_, hleast⟩⟩
            intro _ d'' hd''
            cases hcompare.symm.trans hd''
            exact hlt'.le.trans (not_lt.mp hge)
    · next hmatch =>
      rcases ih h with ⟨rfl,hrest⟩ | ⟨b',d',rfl,hlt',hmem,hmatch',hcompare',hleast⟩
      · exact .inl ⟨rfl, List.forall_mem_cons.mpr ⟨fun h => absurd h hmatch, hrest⟩⟩
      · exact .inr ⟨b', d', rfl, hlt', List.mem_cons_of_mem _ hmem, hmatch', hcompare',
          List.forall_mem_cons.mpr ⟨fun h => absurd h hmatch, hleast⟩⟩

end Search

section Growing

structure Extends (profile profile' : BehavioralProfile) : Prop where
  package : profile'.package = profile.package
  entrypoint : profile'.entrypoint = profile.entrypoint
  runtime : profile'.totalRuntimeMs = profile.totalRuntimeMs
  network : profile.networkCalls.Sublist profile'.networkCalls
  dns : profile.dnsQueries.Sublist profile'.dnsQueries
  fs : profile.fsOps.Sublist profile'.fsOps
  spawns : profile.spawns.Sublist profile'.spawns

variable {U : Unicode} {isdigit : Char → Bool} {nfkc : Str → Str} {profile profile' : BehavioralProfile} {b : Baseline}
  {d d' : DriftResult}

theorem countP_id_le {flags flags' : List Bool} (h : List.Forall₂ (fun f f' => f = true → f' = true) flags flags') :
    flags.countP id ≤ flags'.countP id := by
  induction h with
  | nil => exact Nat.le_refl 0
  | @cons f f' flags flags' hf _ ih =>
    cases f with
    | false =>
      rw [List.countP_cons_of_neg (by simp)]
      exact ih.trans (List.sublist_cons_self f' flags').countP_le
    | true =>
      rw [hf rfl, List.countP_cons_of_pos rfl, List.countP_cons_of_pos rfl]
      exact Nat.succ_le_succ ih

theorem exceeds_mono {expected : Int} {m n : Nat} (hmn : m ≤ n) (h : exceeds expected m = true) :
    exceeds expected n = true := by
  simp only [exceeds, decide_eq_true_eq] at h ⊢
  omega

theorem DomainDrifts.mono (hext : Extends profile profile') (h : DomainDrifts U isdigit nfkc profile b) :
    DomainDrifts U isdigit nfkc profile' b := by
  obtain ⟨hrestricted,call,hmem,hunexpected⟩ := h
  exact ⟨hrestricted, call, hext.network.subset hmem, hunexpected⟩

theorem PathDrifts.mono (hext : Extends profile profile') (h : PathDrifts profile b) : PathDrifts profile' b := by
  obtain ⟨hrestricted,op,hmem,hunexpected⟩ := h
  exact ⟨hrestricted, op, hext.fs.subset hmem, hunexpected⟩

theorem Checked.score_le (hext : Extends profile profile') (h : Checked U isdigit nfkc profile b d)
    (h' : Checked U isdigit nfkc profile' b d') : d.score ≤ d'.score := by
  have hnetwork : d.networkDrift = true → d'.networkDrift = true := fun hd => h'.network.mpr
    ((h.network.mp hd).imp (exceeds_mono hext.network.length_le) (DomainDrifts.mono hext))
  have hdns : d.dnsDrift = true → d'.dnsDrift = true := by
    rw [h.dns, h'.dns]
    exact exceeds_mono hext.dns.length_le
  have hfs : d.fsDrift = true → d'.fsDrift = true := fun hd => h'.fs.mpr
    ((h.fs.mp hd).imp (exceeds_mono hext.fs.length_le) (PathDrifts.mono hext))
  have hspawns : d.spawnDrift = true → d'.spawnDrift = true := by
    rw [h.spawns, h'.spawns]
    exact exceeds_mono hext.spawns.length_le
  have htiming : d.timingDrift = true → d'.timingDrift = true := by
    rw [h.timing, h'.timing, hext.runtime]
    exact id
  have hcount : d.driftCount ≤ d'.driftCount := by
    rw [h.count, h'.count]
    exact countP_id_le (.cons hnetwork (.cons hdns (.cons hfs (.cons hspawns (.cons htiming .nil)))))
  exact div_le_div_of_nonneg_right (Nat.cast_le.mpr hcount) (Nat.cast_nonneg totalChecks)

theorem Extends.matchesProfile_eq (hext : Extends profile profile') (b : Baseline) :
    matchesProfile profile' b = matchesProfile profile b := by
  rw [matchesProfile, hext.package, hext.entrypoint, matchesProfile]

variable {bs : List Baseline} {b' : Baseline}

theorem least_score_le (hext : Extends profile profile') (hreadable : Readable U isdigit nfkc profile bs)
    (h : Least U isdigit nfkc profile bs b d) (h' : Least U isdigit nfkc profile' bs b' d') : d.score ≤ d'.score := by
  obtain ⟨-,-,-,hleast⟩ := h
  obtain ⟨hmem,hmatch,hcompare,-⟩ := h'
  have hmatch := (hext.matchesProfile_eq b').symm.trans hmatch
  obtain ⟨d₁,hd₁⟩ := hreadable b' hmem hmatch
  exact (hleast b' hmem hmatch d₁ hd₁).trans
    ((checked_of_compare hd₁).score_le hext (checked_of_compare hcompare))

end Growing

section Reporting

variable (U : Unicode) (isdigit : Char → Bool) (nfkc : Str → Str) (profile : BehavioralProfile)
  (baselines : Dict Str Baseline)

def Reported : Prop :=
  ∃ b d, findBestBaseline U isdigit nfkc profile baselines = .ok (some (b, d)) ∧
    Least U isdigit nfkc profile (baselines.map Prod.snd) b d ∧
    driftResults U isdigit nfkc profile baselines = .ok [d]

def NeverLowered : Prop :=
  ∀ profile', Extends profile profile' → ∀ b d b' d',
    findBestBaseline U isdigit nfkc profile baselines = .ok (some (b, d)) →
    findBestBaseline U isdigit nfkc profile' baselines = .ok (some (b', d')) → d.score ≤ d'.score

variable {U isdigit nfkc profile baselines} {b : Baseline} {d : DriftResult}

theorem readable_iff : Readable U isdigit nfkc profile (baselines.map Prod.snd) ↔
    ∀ b ∈ baselines.map Prod.snd, matchesProfile profile b = true → ¬Unreadable U isdigit nfkc profile b := by
  refine forall_congr' fun b => imp_congr_right fun _ => imp_congr_right fun _ => ?_
  rw [← compare_error_iff]
  cases compareProfileToBaseline U isdigit nfkc profile b with
  | error e => exact ⟨fun ⟨_,h⟩ => (by cases h), fun h => absurd ⟨e, rfl⟩ h⟩
  | ok d => exact ⟨fun _ ⟨_,h⟩ => (by cases h), fun _ => ⟨d, rfl⟩⟩

theorem least_of_findBestBaseline (h : findBestBaseline U isdigit nfkc profile baselines = .ok (some (b, d))) :
    d.score < 1 ∧ Least U isdigit nfkc profile (baselines.map Prod.snd) b d := by
  rcases findBest_spec h with ⟨h,-⟩ | ⟨b',d',h,hlt,hleast⟩
  · cases h
  · cases h
    exact ⟨hlt, hleast⟩

theorem neverLowered : NeverLowered U isdigit nfkc profile baselines := by
  intro profile' hext b d b' d' h h'
  exact least_score_le hext (findBest_isOk_iff.mp ⟨_, h⟩) (least_of_findBestBaseline h).2
    (least_of_findBestBaseline h').2

theorem reported_iff : Reported U isdigit nfkc profile baselines ↔
    Readable U isdigit nfkc profile (baselines.map Prod.snd) ∧
      ∃ b ∈ baselines.map Prod.snd, matchesProfile profile b = true ∧ ¬TotalDrift U isdigit nfkc profile b := by
  constructor
  · rintro ⟨b,d,hfind,⟨hmem,hmatch,hcompare,-⟩,-⟩
    refine ⟨findBest_isOk_iff.mp ⟨_, hfind⟩, b, hmem, hmatch, ?_⟩
    exact (checked_of_compare hcompare).total_iff.mp (least_of_findBestBaseline hfind).1
  · rintro ⟨hreadable,b,hmem,hmatch,htotal⟩
    obtain ⟨r,hfind⟩ := findBest_isOk_iff.mpr hreadable
    rcases findBest_spec hfind with ⟨-,hall⟩ | ⟨b',d',rfl,hlt,hleast⟩
    · obtain ⟨d,hd⟩ := hreadable b hmem hmatch
      exact absurd ((checked_of_compare hd).total_iff.mpr htotal) (not_lt.mpr (hall b hmem hmatch d hd))
    · refine ⟨b', d', hfind, hleast, ?_⟩
      rw [driftResults, findBestBaseline, hfind]
      rfl

theorem drift_reported_iff (U : Unicode) (isdigit : Char → Bool) (nfkc : Str → Str) (profile : BehavioralProfile)
    (baselines : Dict Str Baseline) :
    Reported U isdigit nfkc profile baselines ∧ NeverLowered U isdigit nfkc profile baselines ↔
      (∀ b ∈ baselines.map Prod.snd, matchesProfile profile b = true → ¬Unreadable U isdigit nfkc profile b) ∧
      ∃ b ∈ baselines.map Prod.snd, matchesProfile profile b = true ∧ ¬TotalDrift U isdigit nfkc profile b := by
  rw [and_iff_left neverLowered, reported_iff, readable_iff]

end Reporting

section Miner

def minerProfile : BehavioralProfile where
  package := "left-pad".toList
  entrypoint := "install".toList
  networkCalls := [⟨"198.51.100.7".toList⟩]
  dnsQueries := ["pool.example".toList]
  fsOps := [⟨"/tmp/miner".toList⟩]
  spawns := ["miner".toList]
  totalRuntimeMs := 90000

def quietBaseline : Baseline where
  name := "quiet".toList
  package := "left-pad".toList
  expectedRuntimeMsRange := (1, 5000)

-- A run that drifts in all five checks from its only baseline is recorded with no drift at all.
theorem total_drift_unreported :
    matchesProfile minerProfile quietBaseline = true ∧
      findBestBaseline Unicode.basic Char.isDigit id minerProfile [("quiet".toList, quietBaseline)] = .ok none ∧
      driftResults Unicode.basic Char.isDigit id minerProfile [("quiet".toList, quietBaseline)] = .ok [] := by
  decide +kernel

end Miner

end PicoSentry.Sandbox.Drift
