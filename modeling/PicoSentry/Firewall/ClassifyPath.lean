import PicoSentry.Firewall.Proxy
import PicoSentry.Firewall.VerdictCache

namespace PicoSentry.Firewall.Proxy

open Foundation
open Foundation.Url
open VerdictCache (Request)
open VerdictCache renaming latest → latestVersion

section Patterns

variable (U : Unicode)

def staticExts : List Str :=
  ["ico", "png", "jpg", "jpeg", "gif", "svg", "css", "js", "woff", "woff2", "ttf", "eot",
   "map"].map String.toList

-- What stands before a $: the whole text, and the text without its final line break.
def lineEnds (s : Str) : List Str := s :: if s.getLast? = some '\n' then [s.dropLast] else []

def matchesIgnoringCase : Str → Str → Bool
  | [], [] => true
  | c :: pattern, d :: text => U.sameIgnoringCase c d && matchesIgnoringCase pattern text
  | _, _ => false

def staticExtension (path : Str) : Bool :=
  (lineEnds path).any fun s => staticExts.any fun ext =>
    matchesIgnoringCase U ('.' :: ext) (s.drop (s.length - (ext.length + 1)))

def json : Str := "json".toList

def hasScope (seg : Str) : Bool := seg.head? = some '@' && 1 < seg.length

def npmSegments : List Str → Option Request
  | [name] => if name ≠ [] then some ⟨npm, name, latestVersion⟩ else none
  | [a, b] =>
    if a = [] ∨ b = [] then none
    else if hasScope a then some ⟨npm, a ++ '/' :: b, latestVersion⟩
    else some ⟨npm, a, b⟩
  | [a, b, version] =>
    if hasScope a ∧ b ≠ [] ∧ version ≠ [] then some ⟨npm, a ++ '/' :: b, version⟩ else none
  | _ => none

def pypiSegments : List Str → Option Request
  | [a, name, last] =>
    if a = pypi ∧ name ≠ [] ∧ json ∈ lineEnds last then some ⟨pypi, name, latestVersion⟩ else none
  | [a, name, version, last] =>
    if a = pypi ∧ name ≠ [] ∧ version ≠ [] ∧ json ∈ lineEnds last then some ⟨pypi, name, version⟩
    else none
  | _ => none

def matchSegments (pattern : List Str → Option Request) : Str → Option Request
  | '/' :: rest => pattern (rest.splitOn '/')
  | _ => none

def npmPackage (path : Str) : Option Request := matchSegments npmSegments path

def pypiPackage (path : Str) : Option Request := matchSegments pypiSegments path

end Patterns

section DoGet

variable (U : Unicode) (nfkc : Str → Str)

def classifyPath (path : Str) : Except PyError (Option Request) := do
  let parts ← urlsplit nfkc path []
  let path := PosixPath.rstripSlash parts.path
  if staticExtension U path then return none
  else
    let path := unquote path
    match pypiPackage path with
    | some request => return some request
    | none => return npmPackage path

def requestedUrl (config : FirewallConfig) (path : Str) : Except PyError (Option Str) := do
  let parsed ← classifyPath U nfkc path
  match parsed with
  | none => guessUpstream nfkc config path
  | some request => upstreamUrl nfkc config request.ecosystem path

end DoGet

example : classifyPath .basic id "/%40babel%2Fcore/7.0.0?refresh=1".toList =
    .ok (some ⟨npm, "@babel/core".toList, "7.0.0".toList⟩) := by decide

end PicoSentry.Firewall.Proxy
