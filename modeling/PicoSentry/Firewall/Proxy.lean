import PicoSentry.Foundation.Directory
import PicoSentry.Foundation.Unquote
import PicoSentry.Foundation.UrlResolve

namespace PicoSentry.Firewall.Proxy

open Foundation
open Foundation.Url

structure FirewallConfig where
  upstreamNpm : Str
  upstreamPypi : Str

def FirewallConfig.new (upstreamNpm upstreamPypi : Str) : FirewallConfig where
  upstreamNpm := PosixPath.rstripSlash upstreamNpm
  upstreamPypi := PosixPath.rstripSlash upstreamPypi

def FirewallConfig.default : FirewallConfig :=
  .new "https://registry.npmjs.org".toList "https://pypi.org".toList

def npm : Str := "npm".toList
def pypi : Str := "pypi".toList

def lstripSlash (s : Str) : Str := s.dropWhile (· = '/')

def dotDot : Str := ['.', '.']

section Upstream

variable (nfkc : Str → Str)

def safeUpstreamPath (path : Str) : Except PyError (Option Str) :=
  if ['/', '/'] <:+: path then .ok none
  else do
    let parts ← urlsplit nfkc path []
    let decoded := unquote parts.path
    if decoded.head? ≠ some '/' then return none
    else if dotDot ∈ decoded.splitOn '/' then return none
    else if dotDot ∈ (unquote decoded).splitOn '/' then return none
    else return some (decoded ++ if parts.query ≠ [] then '?' :: parts.query else [])

def underBase (base path : Str) : Except PyError (Option Str) := do
  let safePath ← safeUpstreamPath nfkc path
  match safePath with
  | none => return none
  | some safePath =>
    let url ← urljoin nfkc (base ++ ['/']) (lstripSlash safePath)
    return some url

def FirewallConfig.base (config : FirewallConfig) (ecosystem : Str) : Str :=
  if ecosystem = npm then config.upstreamNpm else config.upstreamPypi

def upstreamUrl (config : FirewallConfig) (ecosystem path : Str) : Except PyError (Option Str) :=
  underBase nfkc (config.base ecosystem) path

def FirewallConfig.guessedBase (config : FirewallConfig) (path : Str) : Str :=
  if "/pypi/".toList <+: path then config.upstreamPypi else config.upstreamNpm

def guessUpstream (config : FirewallConfig) (path : Str) : Except PyError (Option Str) :=
  underBase nfkc (config.guessedBase path) path

end Upstream

section Reference

variable (nfkc : Str → Str)

def HttpsBase (base : Str) : Prop :=
  ∃ b, urlsplit nfkc base [] = .ok b ∧ b.scheme = https ∧ b.netloc ≠ []

def reference (path : Str) : Str :=
  let parts := splitParts path []
  lstripSlash (unquote parts.path ++ queryText parts.query)

def Admitted (path : Str) : Prop := ∃ safePath, safeUpstreamPath nfkc path = .ok (some safePath)

end Reference

section Joined

variable {nfkc : Str → Str} {base path : Str}

theorem safeUpstreamPath_eq {safePath : Str} (h : safeUpstreamPath nfkc path = .ok (some safePath)) :
    lstripSlash safePath = reference path := by
  rw [safeUpstreamPath] at h
  split at h
  · cases h
  · obtain ⟨parts,hparts,h⟩ := bind_eq_ok.mp h
    have hparts := (urlsplit_ok.mp hparts).2
    dsimp only at h
    split at h
    · cases h
    · split at h
      · cases h
      · split at h
        · cases h
        · cases h
          rw [reference, hparts]
          rfl

theorem underBase_ok {url : Str} :
    underBase nfkc base path = .ok (some url) ↔
      Admitted nfkc path ∧ urljoin nfkc (base ++ ['/']) (reference path) = .ok url := by
  rw [underBase, bind_eq_ok]
  constructor
  · rintro ⟨safePath,hsafe,h⟩
    cases safePath with
    | none => cases h
    | some safePath =>
      obtain ⟨joined,hjoined,h⟩ := bind_eq_ok.mp h
      cases h
      rw [safeUpstreamPath_eq hsafe] at hjoined
      exact ⟨⟨safePath, hsafe⟩, hjoined⟩
  · rintro ⟨⟨safePath,hsafe⟩,hjoined⟩
    refine ⟨some safePath, hsafe, bind_eq_ok.mpr ⟨url, ?_, rfl⟩⟩
    rw [safeUpstreamPath_eq hsafe]
    exact hjoined

theorem urlsplit_base_slash {b : SplitResult} (h : urlsplit nfkc base [] = .ok b)
    (hn : b.netloc ≠ []) : ∃ d, urlsplit nfkc (base ++ ['/']) [] = .ok d ∧ d.scheme = b.scheme ∧
      d.netloc = b.netloc ∧ b.path <+: d.path := by
  obtain ⟨hok,rfl⟩ := urlsplit_ok.mp h
  obtain ⟨hs,hnet,hp⟩ := splitParts_slash hn
  exact ⟨_, urlsplit_ok.mpr ⟨by rwa [hnet], rfl⟩, hs, hnet, hp⟩

theorem httpsBase_default :
    HttpsBase id FirewallConfig.default.upstreamNpm ∧
      HttpsBase id FirewallConfig.default.upstreamPypi :=
  ⟨⟨splitParts "https://registry.npmjs.org".toList [], by decide, by decide, by decide⟩,
    ⟨splitParts "https://pypi.org".toList [], by decide, by decide, by decide⟩⟩

end Joined

end PicoSentry.Firewall.Proxy
