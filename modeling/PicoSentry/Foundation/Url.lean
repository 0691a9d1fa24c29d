import PicoSentry.Foundation.IpAddress
import PicoSentry.Foundation.Result

namespace PicoSentry.Foundation.Url

section Split

def unsafeChars : List Char := ['\t', '\r', '\n']

-- Leading controls and spaces go, and tabs and line breaks wherever they stand.
def clean (url : Str) : Str :=
  (url.dropWhile fun c => c.toNat ≤ 32).filter fun c => !unsafeChars.contains c

def asciiLetter (c : Char) : Bool := ('a' ≤ c ∧ c ≤ 'z') ∨ ('A' ≤ c ∧ c ≤ 'Z')

def schemeChar (c : Char) : Bool := asciiLetter c || isDigit c || c = '+' || c = '-' || c = '.'

-- s.partition(c), without the separator itself.
def partition (c : Char) (s : Str) : Str × Str :=
  (s.takeWhile fun d => d ≠ c, (s.dropWhile fun d => d ≠ c).drop 1)

def splitScheme (url : Str) : Option (Str × Str) :=
  let front := url.takeWhile fun c => c ≠ ':'
  if url.contains ':' && (front.head?.any asciiLetter) && front.all schemeChar then
    some (front.map Char.toLower, (partition ':' url).2)
  else none

def netlocEnd (c : Char) : Bool := c = '/' || c = '?' || c = '#'

def splitNetloc (url : Str) : Str × Str :=
  if url.take 2 = ['/', '/'] then
    ((url.drop 2).takeWhile fun c => !netlocEnd c, (url.drop 2).dropWhile fun c => !netlocEnd c)
  else ([], url)

def hexLetter (c : Char) : Bool := isDigit c || ('a' ≤ c ∧ c ≤ 'f') || ('A' ≤ c ∧ c ≤ 'F')

def checkBracketedHost (hostname : Str) : Bool :=
  match hostname with
  | 'v' :: rest =>
    let digits := rest.takeWhile hexLetter
    match rest.drop digits.length with
    | '.' :: tail => digits ≠ [] && tail ≠ []
    | _ => false
  | _ =>
    match IpAddress.parse hostname with
    | some (.v6 _) => true
    | _ => false

def checkBracketedNetloc (netloc : Str) : Bool :=
  let hostnameAndPort := (netloc.reverse.takeWhile fun c => c ≠ '@').reverse
  if hostnameAndPort.contains '[' then
    let (before, bracketed) := partition '[' hostnameAndPort
    let (hostname, port) := partition ']' bracketed
    before = [] && (port = [] || port.head? = some ':') && checkBracketedHost hostname
  else checkBracketedHost (partition ':' hostnameAndPort).1

variable (nfkc : Str → Str)

def checkNetloc (netloc : Str) : Bool :=
  let kept := netloc.filter fun c => !(['@', ':', '#', '?'].contains c)
  netloc.all (fun c => c.toNat < 128) || nfkc kept = kept ||
    !(nfkc kept).any fun c => ['/', '?', '#', '@', ':'].contains c

def netlocAccepted (netloc : Str) : Bool :=
  netloc.contains '[' = netloc.contains ']' &&
    (!netloc.contains '[' || checkBracketedNetloc netloc) && checkNetloc nfkc netloc

structure SplitResult where
  scheme : Str
  netloc : Str
  path : Str
  query : Str
  fragment : Str
deriving DecidableEq

def splitParts (url scheme : Str) : SplitResult :=
  let (scheme, url) := (splitScheme (clean url)).getD (scheme, clean url)
  let (netloc, url) := splitNetloc url
  let (url, fragment) := partition '#' url
  let (path, query) := partition '?' url
  { scheme, netloc, path, query, fragment }

def urlsplit (url scheme : Str) : Except PyError SplitResult :=
  let parts := splitParts url scheme
  if netlocAccepted nfkc parts.netloc then .ok parts else .error .valueError

end Split

section Join

def usesRelative : List Str :=
  ["", "ftp", "http", "gopher", "nntp", "imap", "wais", "file", "https", "shttp", "mms", "prospero",
   "rtsp", "rtsps", "rtspu", "sftp", "svn", "svn+ssh", "ws", "wss"].map String.toList

def usesNetloc : List Str :=
  ["", "ftp", "http", "gopher", "nntp", "telnet", "imap", "wais", "file", "mms", "https", "shttp",
   "snews", "prospero", "rtsp", "rtsps", "rtspu", "rsync", "svn", "svn+ssh", "sftp", "nfs", "git",
   "git+ssh", "ws", "wss", "itms-services"].map String.toList

def usesParams : List Str :=
  ["", "ftp", "hdl", "prospero", "http", "imap", "https", "shttp", "rtsp", "rtsps", "rtspu", "sip",
   "sips", "mms", "sftp", "tel"].map String.toList

structure ParseResult extends SplitResult where
  params : Str
deriving DecidableEq

def splitParams (url : Str) : Str × Str :=
  let last := (url.reverse.takeWhile fun c => c ≠ '/').reverse
  let front := (url.reverse.dropWhile fun c => c ≠ '/').reverse
  (front ++ (partition ';' last).1, (partition ';' last).2)

def SplitResult.withParams (s : SplitResult) : ParseResult :=
  let (path, params) := if usesParams.contains s.scheme then splitParams s.path else (s.path, [])
  { s with path, params }

def ParseResult.fullPath (r : ParseResult) : Str :=
  if r.params ≠ [] then r.path ++ ';' :: r.params else r.path

variable (nfkc : Str → Str)

def urlparse (url scheme : Str) : Except PyError ParseResult :=
  (urlsplit nfkc url scheme).map SplitResult.withParams

def slashed (url : Str) : Str := if url ≠ [] ∧ url.head? ≠ some '/' then '/' :: url else url

def urlunsplit (s : SplitResult) : Str :=
  let url :=
    if s.netloc ≠ [] ∨ (s.scheme ≠ [] ∧ s.scheme ∈ usesNetloc ∧ s.path.take 2 ≠ ['/', '/']) then
      '/' :: '/' :: s.netloc ++ slashed s.path
    else s.path
  let url := if s.scheme ≠ [] then s.scheme ++ ':' :: url else url
  let url := if s.query ≠ [] then url ++ '?' :: s.query else url
  if s.fragment ≠ [] then url ++ '#' :: s.fragment else url

def urlunparse (r : ParseResult) : Str := urlunsplit { r.toSplitResult with path := r.fullPath }

def dropInnerEmpty : List Str → List Str
  | [] => []
  | first :: rest =>
    match rest.getLast? with
    | none => [first]
    | some last => first :: rest.dropLast.filter (· ≠ []) ++ [last]

def resolveSegment (resolved : List Str) (seg : Str) : List Str :=
  if seg = ['.', '.'] then resolved.dropLast
  else if seg = ['.'] then resolved
  else resolved ++ [seg]

def resolve (segments : List Str) : List Str :=
  let resolved := segments.foldl resolveSegment []
  if segments.getLast? = some ['.'] ∨ segments.getLast? = some ['.', '.'] then resolved ++ [[]]
  else resolved

def directory (basePath : Str) : List Str :=
  let parts := basePath.splitOn '/'
  if parts.getLast? ≠ some [] then parts.dropLast else parts

def mergeSegments (basePath path : Str) : List Str :=
  if path.head? = some '/' then path.splitOn '/'
  else dropInnerEmpty (directory basePath ++ path.splitOn '/')

def mergePath (basePath path : Str) : Str :=
  let joined := ['/'].intercalate (resolve (mergeSegments basePath path))
  if joined = [] then ['/'] else joined

def joinParsed (b r : ParseResult) (url : Str) : Str :=
  if r.scheme ≠ b.scheme ∨ r.scheme ∉ usesRelative then url
  else if r.scheme ∈ usesNetloc ∧ r.netloc ≠ [] then urlunparse r
  else
    let netloc := if r.scheme ∈ usesNetloc then b.netloc else r.netloc
    if r.path = [] ∧ r.params = [] then
      urlunparse { r with
        netloc, path := b.path, params := b.params
        query := if r.query = [] then b.query else r.query }
    else urlunparse { r with netloc, path := mergePath b.path r.path }

def urljoin (base url : Str) : Except PyError Str :=
  if base = [] then .ok url
  else if url = [] then .ok base
  else do
    let b ← urlparse nfkc base []
    let r ← urlparse nfkc url b.scheme
    return joinParsed b r url

end Join

end PicoSentry.Foundation.Url
