import Mathlib.Data.Nat.Bitwise
import Mathlib.Data.List.Lex
import PicoSentry.Foundation.Dict
import PicoSentry.Foundation.Directory
import PicoSentry.Foundation.Result
import PicoSentry.Foundation.SortedBy
import PicoSentry.Sandbox.Policy

namespace PicoSentry.Sandbox.Landlock

open Foundation

def accessFsExecute : Nat := 1 <<< 0
def accessFsReadFile : Nat := 1 <<< 2
def accessFsReadDir : Nat := 1 <<< 3

def accessNetBindTcp : Nat := 1 <<< 0
def accessNetConnectTcp : Nat := 1 <<< 1

def netAbi : Nat := 4

-- a & ~b
def andNot (a b : Nat) : Nat := a ^^^ (a &&& b)

theorem testBit_andNot (a b i : Nat) :
    (andNot a b).testBit i = (a.testBit i && !b.testBit i) := by
  rw [andNot, Nat.testBit_xor, Nat.testBit_and]
  cases a.testBit i <;> cases b.testBit i <;> rfl

def targetDeniedBy (target : RuleTarget) (default : SyscallAction) : List PolicyRule → Bool
  | [] => default.denies
  | rule :: rules =>
    if rule.target = target then
      if rule.action = .allow then false
      else if rule.action.denies then true
      else targetDeniedBy target default rules
    else targetDeniedBy target default rules

def targetDenied (policy : Policy) (target : RuleTarget) : Bool :=
  targetDeniedBy target policy.defaultAction policy.rules

def explicitlyDenied (policy : Policy) (target : RuleTarget) : Bool :=
  policy.rules.any fun rule => rule.target = target && rule.action.denies

def netHandling (policy : Policy) (abi : Nat) : Nat × List Str :=
  let handled :=
    (if targetDenied policy .networkOut then accessNetConnectTcp else 0) |||
      (if targetDenied policy .networkBind then accessNetBindTcp else 0)
  let inbound :=
    (if explicitlyDenied policy .networkIn then
      ["network_in (landlock cannot restrict inbound/accept)".toList] else []) ++
    (if explicitlyDenied policy .dnsQuery then
      ["dns_query (landlock cannot restrict UDP)".toList] else [])
  if netAbi ≤ abi then (handled, inbound)
  else (0,
    (if explicitlyDenied policy .networkOut then
      ["network_out (needs kernel >= 6.7)".toList] else []) ++
    (if explicitlyDenied policy .networkBind then
      ["network_bind (needs kernel >= 6.7)".toList] else []) ++ inbound)

def isGlobChar (c : Char) : Bool := c = '*' || c = '?' || c = '['

def globAnchor (pattern : Str) : Option Str :=
  if pattern.take 2 = ['*', '*'] then none
  else
    let anchor := PosixPath.rstripSlash (pattern.takeWhile fun c => !isGlobChar c)
    if anchor = [] then none else some anchor

def hasGlobChars (pattern : Str) : Bool := pattern.any isGlobChar

def isAncestorOrEq (ancestor path : Str) : Bool :=
  ancestor = ['/'] || path = ancestor || (ancestor ++ ['/']).isPrefixOf path

-- The file system the grants are resolved in; resolving a path twice changes nothing.
structure FileSystem where
  realpath : Str → Str
  which : Str → Option Str
  glob : Str → List Str
  getcwd : Str
  realpath_realpath : ∀ p, realpath (realpath p) = realpath p
  realpath_abs : ∀ p, PosixPath.isAbs (realpath p) = true

structure Workspace (fs : FileSystem) where
  root : Str
  absolute : PosixPath.isAbs root = true
  resolved : fs.realpath root = root

section

variable (fs : FileSystem)

def absolute (workspaceRoot path : Str) : Str :=
  if PosixPath.isAbs path then path else PosixPath.join workspaceRoot path

def abspath (path : Str) : Str := PosixPath.normpath (absolute fs.getcwd path)

def procSelf : Str := "/proc/self".toList

def grantKey (workspaceRoot path : Str) : Str :=
  let path := absolute workspaceRoot path
  if procSelf.isPrefixOf path then path else fs.realpath path

def grant (workspaceRoot : Str) (handledFs : Nat) (grants : Dict Str Nat) (call : Str × Nat) :
    Dict Str Nat :=
  let key := grantKey fs workspaceRoot call.1
  grants.set key ((grants.get? key).getD 0 ||| (call.2 &&& handledFs))

def ro : Nat := accessFsReadFile ||| accessFsReadDir

def runtimeTree : List Str :=
  ["/usr".toList, "/lib".toList, "/lib64".toList, "/bin".toList, "/sbin".toList]

def commandGrants (chain : Str) : List (Str × Nat) :=
  let binDir := PosixPath.dirname chain
  let parent := PosixPath.dirname binDir
  (binDir, ro ||| accessFsExecute) :: (if parent = [] ∨ parent = ['/'] then [] else [(parent, ro)])

def readRuleGrants (rule : PolicyRule) : List (Str × Nat) :=
  if rule.target = .fileRead ∧ rule.action = .allow then
    if rule.paths = [] then [(['/'], ro)]
    else rule.paths.filterMap fun p => (globAnchor p).map fun anchor => (anchor, ro)
  else []

def containsDoubleStar (p : Str) : Bool := p.tails.any fun t => t.take 2 = ['*', '*']

def execRuleGrants (rule : PolicyRule) : List (Str × Nat) :=
  if rule.target = .fileExec ∧ rule.action = .allow then
    rule.paths.flatMap fun p =>
      if containsDoubleStar p then []
      else
        (if hasGlobChars p then ascending id (fs.glob p) else [p]).map fun m =>
          (m, accessFsExecute ||| accessFsReadFile)
  else []

def writeRuleGrants (workspaceRoot : Str) (rw : Nat) (rule : PolicyRule) : List (Str × Nat) :=
  if rule.target = .fileWrite ∧ rule.action = .allow then
    rule.paths.filterMap fun p => (globAnchor p).map fun anchor =>
      let target := fs.realpath (absolute workspaceRoot anchor)
      if isAncestorOrEq target workspaceRoot then (workspaceRoot, rw) else (target, rw)
  else []

def readGrants (policy : Policy) (command : List Str) : Except PyError (List (Str × Nat)) :=
  if targetDenied policy .fileRead then .ok []
  else match command with
    | [] => .error .indexError
    | program :: _ =>
      let cmdPath := match fs.which program with
        | some found => if found = [] then program else found
        | none => program
      .ok ((runtimeTree.map fun p => (p, ro ||| accessFsExecute)) ++ [("/etc".toList, ro)] ++
        commandGrants (fs.realpath cmdPath) ++ commandGrants (abspath fs cmdPath) ++
        policy.rules.flatMap readRuleGrants)

def execGrants (policy : Policy) : List (Str × Nat) := policy.rules.flatMap (execRuleGrants fs)

def writeGrants (policy : Policy) (workspaceRoot : Str) (handledFs : Nat) : List (Str × Nat) :=
  if targetDenied policy .fileWrite then []
  else
    let rw := andNot handledFs accessFsExecute
    (workspaceRoot, rw) :: policy.rules.flatMap (writeRuleGrants fs workspaceRoot rw)

def sortedItems (grants : Dict Str Nat) : List (Str × Nat) := ascending (fun p => p.1) grants

-- The calls to grant in the order the source makes them, folded into the dict of grants.
def buildGrants (policy : Policy) (command : List Str) (workspaceRoot : Str) (handledFs : Nat) :
    Except PyError (List (Str × Nat)) := do
  let reads ← readGrants fs policy command
  let calls := reads ++ execGrants fs policy ++ writeGrants fs policy workspaceRoot handledFs
  return sortedItems (calls.foldl (grant fs workspaceRoot handledFs) [])

end

end PicoSentry.Sandbox.Landlock
