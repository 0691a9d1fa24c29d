import Mathlib.Data.List.Lex
import PicoSentry.Foundation.Decimal
import PicoSentry.Foundation.Json
import PicoSentry.Foundation.Directory
import PicoSentry.Foundation.SortedBy
import PicoSentry.Foundation.TaggedRecords
import PicoSentry.Scan.EcosystemDetection

namespace PicoSentry.Scan.InputHash

open Foundation EcosystemDetection

structure Name where
  text : Str
  ne_nil : text ≠ []
  no_slash : '/' ∉ text
  no_nul : '\x00' ∉ text

-- What rglob lists below a directory; reading the data raises where there is none.
structure FileEntry where
  path : List Name
  isFile : Bool := true
  isSymlink : Bool := false
  data : Option Bytes

structure Package where
  name : Name
  isDir : Bool := true
  files : List FileEntry

structure NmChild extends Package where
  packages : List Package := []

structure Directory where
  parts : List Str
  files : List FileEntry
  -- None where node_modules is no directory.
  nodeModules : Option (List NmChild)
  scandir : Tree

inductive Target where
  | file (data : Option Bytes)
  | directory (d : Directory)
  | missing

structure Sha256 where
  digest : Bytes → Bytes
  length_digest : ∀ data, (digest data).length = 32

def Sha256.hexdigest (sha : Sha256) (data : Bytes) : Str :=
  (sha.digest data).flatMap fun byte => [Json.hexDigit (byte.toNat / 16), Json.hexDigit (byte.toNat % 16)]

def skippedDirs : List Str :=
  [".git".toList, "__pycache__".toList, ".cache".toList, ".hg".toList, ".svn".toList,
   "node_modules".toList]

def relevantExtensions : List Str :=
  [".json".toList, ".js".toList, ".mjs".toList, ".cjs".toList, ".ts".toList, ".tsx".toList,
   ".jsx".toList, ".yaml".toList, ".yml".toList, ".lock".toList, ".npmrc".toList, ".env".toList,
   ".py".toList, ".toml".toList, ".cfg".toList, ".ini".toList, ".go".toList, ".xml".toList,
   ".gradle".toList, ".rb".toList, ".gemspec".toList, ".csproj".toList, ".sln".toList]

def relevantFileNames : List Str :=
  ["package.json".toList, "package-lock.json".toList, "pnpm-lock.yaml".toList, "yarn.lock".toList,
   ".npmrc".toList, "pnpm-workspace.yaml".toList, "requirements.txt".toList, "pyproject.toml".toList,
   "setup.cfg".toList, "setup.py".toList, "poetry.lock".toList, "uv.lock".toList, "Pipfile".toList,
   "Pipfile.lock".toList, "METADATA".toList, "PKG-INFO".toList, "go.mod".toList, "go.sum".toList,
   "go.env".toList, "pom.xml".toList, "build.gradle".toList, "Gemfile".toList, "Gemfile.lock".toList,
   "packages.config".toList, "packages.lock.json".toList, "nuget.config".toList]

def buildHookMarkers : List Str :=
  [".csproj".toList, ".gemspec".toList, ".go".toList, ".mod".toList, ".nuspec".toList,
   ".props".toList, ".ps1".toList, ".rb".toList, ".rs".toList, ".targets".toList, ".toml".toList,
   ".xml".toList, "build.rs".toList, "cargo.toml".toList, "extconf.rb".toList, "gemfile".toList,
   "go.mod".toList, "pom.xml".toList, "rakefile".toList]

def nmJsExtensions : List Str :=
  [".js".toList, ".mjs".toList, ".cjs".toList, ".ts".toList, ".tsx".toList]

def nmInnerSkipDirs : List Str :=
  [".git".toList, ".hg".toList, ".svn".toList, "__pycache__".toList, ".cache".toList, "dist".toList,
   "build".toList, "out".toList]

def maxInputFiles : Nat := 2048

def maxInputBytes : Nat := 64 * 1024 * 1024

def nmMaxFilesPerPkg : Nat := 200

def nmContentBudgetBytes : Nat := 32 * 1024 * 1024

def parts (path : List Name) : List Str := path.map Name.text

def asPosix (path : List Name) : Str := ['/'].intercalate (parts path)

def fileName (path : List Name) : Str := (parts path).getLastD []

def nodeModulesName : Name := ⟨"node_modules".toList, by decide, by decide, by decide⟩

section Inputs

variable (U : Unicode)

def isScanInput (path : List Name) : Bool :=
  if "node_modules".toList ∈ parts path then fileName path = "package.json".toList
  else if ∃ part ∈ parts path, part ∈ skippedDirs then false
  else
    decide (PosixPath.suffix (fileName path) ∈ relevantExtensions) ||
      decide (fileName path ∈ relevantFileNames) ||
      buildHookMarkers.any fun marker => marker.isSuffixOf (U.lowerStr (fileName path))

def inputFiles : Target → List (Str × Option Bytes)
  | .file data => [(".".toList, data)]
  | .directory d =>
    (d.files.filter fun file => file.isFile && !file.isSymlink && isScanInput U file.path).map
      fun file => (asPosix file.path, file.data)
  | .missing => []

def sortedInputs (t : Target) : List (Str × Option Bytes) := ascending Prod.fst (inputFiles U t)

end Inputs

structure Hashed where
  files : List (Str × Bytes) := []
  total : Nat := 0
  truncated : Bool

def hashFiles (h : Hashed) : List (Str × Option Bytes) → Hashed
  | [] => h
  | (_, none) :: rest => hashFiles h rest
  | (path, some data) :: rest =>
    let files := h.files ++ [(path, data)]
    let total := h.total + data.length
    if maxInputBytes < total then ⟨files, total, true⟩
    else hashFiles ⟨files, total, h.truncated⟩ rest

section NodeModules

structure Walk where
  files : List (Str × Bytes) := []
  total : Nat := 0
  budgetLeft : Int := nmContentBudgetBytes

def Walk.add (w : Walk) (path : List Name) (data : Bytes) : Walk :=
  ⟨w.files ++ [(asPosix path, data)], w.total + data.length, w.budgetLeft - data.length⟩

def isSampled (directory : List Str) (path : List Name) (file : FileEntry) : Bool :=
  !file.isSymlink && file.isFile && decide (PosixPath.suffix (fileName path) ∈ nmJsExtensions) &&
    !decide (∃ part ∈ directory ++ parts path, part ∈ nmInnerSkipDirs)

variable (directory : List Str)

def walkFiles (pkg : List Name) : Nat → Walk → List FileEntry → Walk
  | _, w, [] => w
  | count, w, file :: rest =>
    if nmMaxFilesPerPkg ≤ count ∨ w.budgetLeft ≤ 0 then w
    else if isSampled directory (pkg ++ file.path) file then
      match file.data with
      | none => walkFiles pkg count w rest
      | some data => walkFiles pkg (count + 1) (w.add (pkg ++ file.path) data) rest
    else walkFiles pkg count w rest

def walkPkg (pkg : List Name) (w : Walk) (files : List FileEntry) : Walk :=
  if w.budgetLeft ≤ 0 then w
  else walkFiles directory pkg 0 w (ascending (fun file => parts file.path) files)

def walkScoped (child : Name) (w : Walk) (pkg : Package) : Walk :=
  if pkg.isDir then walkPkg directory [nodeModulesName, child, pkg.name] w pkg.files else w

def walkChildren (w : Walk) : List NmChild → Walk
  | [] => w
  | child :: rest =>
    if w.budgetLeft ≤ 0 then w
    else if !child.isDir || decide (child.name.text.head? = some '.') then walkChildren w rest
    else if child.name.text.head? = some '@' then
      walkChildren ((ascending (fun pkg => pkg.name.text) child.packages).foldl
        (walkScoped directory child.name) w) rest
    else walkChildren (walkPkg directory [nodeModulesName, child.name] w child.files) rest

def walkNodeModules (children : List NmChild) : Walk :=
  walkChildren directory {} (ascending (fun child => child.name.text) children)

end NodeModules

def nodeModulesWalk : Target → Option Walk
  | .directory d => d.nodeModules.map (walkNodeModules d.parts)
  | _ => none

def detected : Target → List Str
  | .directory d => ascending id (detectEcosystems d.scandir)
  | _ => []

section Fed

variable (U : Unicode) (sha : Sha256)

def fileRecords (files : List (Str × Bytes)) : Bytes :=
  records (files.map fun file => (utf8 file.1, sha.digest file.2))

def nmContentMarker : Bytes := utf8 "nm-content:".toList

def ecosystemsMarker : Bytes := utf8 "ecosystems:".toList

def nmTruncated (total : Nat) : Bytes :=
  if nmContentBudgetBytes ≤ total then utf8 ("nm-truncated:".toList ++ decimal total) else []

def nodeModulesFed (t : Target) : Bytes :=
  match nodeModulesWalk t with
  | none => []
  | some w => nmContentMarker ++ 0 :: (fileRecords sha w.files ++ nmTruncated w.total)

def nodeModulesBytes (t : Target) : Nat := ((nodeModulesWalk t).map Walk.total).getD 0

def ecosystemFed (t : Target) : Bytes :=
  if detected t = [] then [] else ecosystemsMarker ++ 0 :: utf8 ([','].intercalate (detected t))

-- The bytes fed to the hash, and whether a digest of them is returned at all.
def hashInput (t : Target) : Bytes × Bool :=
  if inputFiles U t = [] then
    if nodeModulesBytes t = 0 then
      (nodeModulesFed sha t ++ ecosystemFed t, decide (detected t ≠ []))
    else
      (nodeModulesFed sha t ++ utf8 ("nm-only:".toList ++ decimal (nodeModulesBytes t)) ++
        ecosystemFed t, true)
  else
    let h := hashFiles { truncated := maxInputFiles < (inputFiles U t).length }
      ((sortedInputs U t).take maxInputFiles)
    let truncated := if h.truncated then
        utf8 ("truncated:".toList ++ decimal (inputFiles U t).length ++ ":".toList ++ decimal h.total)
      else []
    (fileRecords sha h.files ++ truncated ++ nodeModulesFed sha t ++ ecosystemFed t, true)

def hashTargetInputs (t : Target) : Str :=
  if (hashInput U sha t).2 then (sha.hexdigest (hashInput U sha t).1).take 16 else []

end Fed

end PicoSentry.Scan.InputHash
