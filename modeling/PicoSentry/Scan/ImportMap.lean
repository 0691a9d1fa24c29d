import Mathlib.Data.List.Perm.Basic
import PicoSentry.Foundation.FindAll
import PicoSentry.Foundation.Directory
import PicoSentry.Scan.AdvisoryFindings

namespace PicoSentry.Scan.ImportMap

open Foundation AdvisoryFindings

-- What rglob lists below the target: the parts of the relative path, and the text of the file, none
-- where reading it raises.
structure Entry where
  path : List Str
  isFile : Bool := true
  isSymlink : Bool := false
  text : Option Str
  deriving DecidableEq

def skipReachabilityDirs : List Str :=
  ["node_modules".toList, ".venv".toList, "venv".toList, ".git".toList, "__pycache__".toList,
   ".tox".toList, ".cache".toList, ".hg".toList, ".svn".toList, "dist".toList, "build".toList]

def sourceExtensions : List Str :=
  [".py".toList, ".js".toList, ".mjs".toList, ".cjs".toList, ".ts".toList, ".tsx".toList,
   ".jsx".toList, ".go".toList, ".rs".toList, ".java".toList, ".kt".toList, ".rb".toList,
   ".cs".toList, ".csproj".toList, ".gradle".toList, ".xml".toList, ".toml".toList, ".yaml".toList,
   ".yml".toList]

def npmExtensions : List Str :=
  [".js".toList, ".mjs".toList, ".cjs".toList, ".ts".toList, ".tsx".toList, ".jsx".toList]

section Extract

variable (U : Unicode) (wordChar : Char → Bool)

-- An import or a from clause at the start of a line.
def pyImportRe : Matcher Str := fun before text =>
  if before = none ∨ before = some '\n' then
    let line := text.dropWhile U.space
    match literal "import".toList line with
    | some rest => do
      let rest ← spaces U.space rest
      unspaced U.space rest
    | none => do
      let rest ← literal "from".toList line
      let rest ← spaces U.space rest
      let (mod, rest) ← unspaced U.space rest
      let rest ← spaces U.space rest
      let rest ← literal "import".toList rest
      pure (mod, rest)
  else none

def rootModule (mod : Str) : Str :=
  U.lowerStr ((mod.takeWhile (· ≠ '.')).map fun c => if c = '-' ∨ c = ' ' then '_' else c)

def extractPyImports (text : Str) : List Str := (finditer (pyImportRe U) text).map (rootModule U)

-- The module in quotes after a call of require, after from or after import.
def npmImportRe : Matcher Str := fun _ text =>
  match literal "require(".toList text with
  | some rest => do
    let (name, rest) ← quoted (rest.dropWhile U.space)
    let rest ← literal ")".toList (rest.dropWhile U.space)
    pure (name, rest)
  | none => do
    let rest ← (literal "from".toList text).or (literal "import".toList text)
    let rest ← spaces U.space rest
    quoted rest

def npmName (name : Str) : Str :=
  if name.head? = some '@' then U.lowerStr name else U.lowerStr (name.takeWhile (· ≠ '/'))

def extractNpmImports (text : Str) : List Str := (finditer (npmImportRe U) text).map (npmName U)

def boundary (before after : Option Char) : Bool :=
  before.any wordChar != after.any wordChar

-- A letter or underscore at a word boundary and its run; dots and hyphens at the end are given back.
def wordRe : Matcher Str := fun before text =>
  match text with
  | [] => none
  | c :: rest =>
    if boundary wordChar before (some c) ∧ (c.isAlpha ∨ c = '_') then
      let run := rest.takeWhile fun d => wordChar d || d = '.' || d = '-'
      let word := c :: (run.reverse.dropWhile fun d => !wordChar d).reverse
      some (word, text.drop word.length)
    else none

def words (text : Str) : List Str := finditer (wordRe wordChar) text

structure Imports where
  pypi : List Str := []
  npm : List Str := []
  word : List Str := []
  deriving DecidableEq

def Imports.update (imports : Imports) (ext text : Str) : Imports :=
  let found := imports.word ++ words wordChar text
  if ext = ".py".toList then ⟨imports.pypi ++ extractPyImports U text, imports.npm, found⟩
  else if ext ∈ npmExtensions then ⟨imports.pypi, imports.npm ++ extractNpmImports U text, found⟩
  else ⟨imports.pypi, imports.npm, found⟩

def Excluded (parts : List Str) : Prop := ∃ part ∈ parts, part ∈ skipReachabilityDirs

instance (parts : List Str) : Decidable (Excluded parts) :=
  inferInstanceAs (Decidable (∃ part ∈ parts, part ∈ skipReachabilityDirs))

def Entry.suffix (entry : Entry) : Str := PosixPath.suffix (entry.path.getLastD [])

-- The parts of a file's path begin with those of the target.
def collect (directory : List Str) (imports : Imports) (entry : Entry) : Imports :=
  if !entry.isFile || entry.isSymlink then imports
  else if Excluded (directory ++ entry.path) then imports
  else if entry.suffix ∉ sourceExtensions then imports
  else
    match entry.text with
    | none => imports
    | some text => imports.update U wordChar entry.suffix text

def collectAll (directory : List Str) (tree : List Entry) : Imports :=
  tree.foldl (collect U wordChar directory) {}

def Imports.result (imports : Imports) : Dict Str (List Str) :=
  [("pypi".toList, imports.pypi), ("npm".toList, imports.npm), ("go".toList, imports.word),
   ("cargo".toList, imports.word), ("maven".toList, imports.word), ("nuget".toList, imports.word),
   ("rubygems".toList, imports.word)]

def importMap (directory : List Str) (tree : List Entry) : Dict Str (List Str) :=
  (collectAll U wordChar directory tree).result

def target (directory : List Str) (tree : List Entry) : Target :=
  ⟨true, importMap U wordChar directory tree⟩

end Extract

section Collected

variable (U : Unicode) (wordChar : Char → Bool)

def Entry.imports (directory : List Str) (entry : Entry) : Imports :=
  collect U wordChar directory {} entry

structure Source (entry : Entry) (text : Str) : Prop where
  file : entry.isFile = true
  link : entry.isSymlink = false
  kept : ¬Excluded entry.path
  source : entry.suffix ∈ sourceExtensions
  read : entry.text = some text

def ImportsSomething (tree : List Entry) : Prop :=
  ∃ entry ∈ tree, ∃ text, Source entry text ∧ Imports.update U wordChar {} entry.suffix text ≠ {}

variable {U wordChar} {directory : List Str} {entry : Entry} {tree : List Entry}

theorem excluded_append {parts rest : List Str} :
    Excluded (parts ++ rest) ↔ Excluded parts ∨ Excluded rest := by
  simp only [Excluded, List.mem_append, or_and_right, exists_or]

theorem update_eq (imports : Imports) (ext text : Str) :
    imports.update U wordChar ext text =
      let found := Imports.update U wordChar {} ext text
      ⟨imports.pypi ++ found.pypi, imports.npm ++ found.npm, imports.word ++ found.word⟩ := by
  unfold Imports.update
  split_ifs <;> simp

theorem collect_eq (imports : Imports) : collect U wordChar directory imports entry =
    let found := entry.imports U wordChar directory
    ⟨imports.pypi ++ found.pypi, imports.npm ++ found.npm, imports.word ++ found.word⟩ := by
  unfold Entry.imports collect
  split_ifs
  · simp
  · simp
  · cases entry.text with
    | none => simp
    | some text => exact update_eq imports _ text
  · simp

theorem foldl_collect (imports : Imports) : tree.foldl (collect U wordChar directory) imports =
    ⟨imports.pypi ++ tree.flatMap fun entry => (entry.imports U wordChar directory).pypi,
      imports.npm ++ tree.flatMap fun entry => (entry.imports U wordChar directory).npm,
      imports.word ++ tree.flatMap fun entry => (entry.imports U wordChar directory).word⟩ := by
  induction tree generalizing imports with
  | nil => simp
  | cons entry tree ih => rw [List.foldl_cons, ih, collect_eq]; simp

theorem imports_of_excluded (h : Excluded directory) : entry.imports U wordChar directory = {} := by
  unfold Entry.imports collect
  rw [if_pos (excluded_append.mpr (.inl h))]
  split <;> rfl

theorem imports_of_not_excluded (h : ¬Excluded directory) :
    entry.imports U wordChar directory = entry.imports U wordChar [] := by
  have hparts : Excluded (directory ++ entry.path) ↔ Excluded ([] ++ entry.path) := by
    rw [excluded_append, or_iff_right h, List.nil_append]
  unfold Entry.imports collect
  simp only [hparts]

theorem imports_ne_empty_iff : entry.imports U wordChar [] ≠ {} ↔
    ∃ text, Source entry text ∧ Imports.update U wordChar {} entry.suffix text ≠ {} := by
  constructor
  · intro hne
    unfold Entry.imports collect at hne
    split at hne
    · exact absurd rfl hne
    next hfile =>
    split at hne
    · exact absurd rfl hne
    next hkept =>
    split at hne
    · exact absurd rfl hne
    next hsource =>
    split at hne
    · exact absurd rfl hne
    next text htext =>
    obtain ⟨hisFile,hlink⟩ : entry.isFile = true ∧ entry.isSymlink = false := by simpa using hfile
    exact ⟨text, ⟨hisFile, hlink, hkept, not_not.mp hsource, htext⟩, hne⟩
  · rintro ⟨text,hsource,hne⟩
    unfold Entry.imports collect
    rw [if_neg (by simp [hsource.file, hsource.link]), if_neg (show ¬Excluded ([] ++ entry.path) from hsource.kept),
      if_neg (not_not.mpr hsource.source), hsource.read]
    exact hne

theorem importsSomething_iff :
    ImportsSomething U wordChar tree ↔ collectAll U wordChar [] tree ≠ {} := by
  have hempty : collectAll U wordChar [] tree = {} ↔ ∀ entry ∈ tree, entry.imports U wordChar [] = {} := by
    rw [collectAll, foldl_collect]
    simp only [List.nil_append, Imports.mk.injEq, List.flatMap_eq_nil_iff, ← forall_and]
    exact forall₂_congr fun entry _ => by rw [← Imports.mk.injEq]
  rw [Ne, hempty, ImportsSomething]
  push Not
  exact exists_congr fun entry => and_congr_right fun _ => imports_ne_empty_iff.symm

theorem collectAll_of_excluded (h : Excluded directory) : collectAll U wordChar directory tree = {} := by
  rw [collectAll, foldl_collect]
  simp [imports_of_excluded h]

theorem collectAll_of_not_excluded (h : ¬Excluded directory) :
    collectAll U wordChar directory tree = collectAll U wordChar [] tree := by
  rw [collectAll, collectAll, foldl_collect, foldl_collect]
  simp [imports_of_not_excluded h]

end Collected

section Located

variable (U : Unicode) (wordChar : Char → Bool)

def SameNames (names names' : List Str) : Prop := ∀ name, name ∈ names ↔ name ∈ names'

def SameImports (imports imports' : Dict Str (List Str)) : Prop :=
  ∀ ecosystem, Option.Rel SameNames (imports.get? ecosystem) (imports'.get? ecosystem)

structure Imports.Same (imports imports' : Imports) : Prop where
  pypi : SameNames imports.pypi imports'.pypi
  npm : SameNames imports.npm imports'.npm
  word : SameNames imports.word imports'.word

variable {U wordChar} {imports imports' : Imports} {directory directory' : List Str}
  {tree tree' : List Entry}

theorem sameNames_nil {names : List Str} (h : SameNames names []) : names = [] :=
  List.eq_nil_iff_forall_not_mem.mpr fun name hname => absurd ((h name).mp hname) List.not_mem_nil

theorem same_empty (h : imports.Same {}) : imports = {} := by
  cases imports with
  | mk pypi npm word =>
    obtain rfl : pypi = [] := sameNames_nil h.pypi
    obtain rfl : npm = [] := sameNames_nil h.npm
    obtain rfl : word = [] := sameNames_nil h.word
    rfl

theorem Imports.Same.refl (imports : Imports) : imports.Same imports :=
  ⟨fun _ => Iff.rfl, fun _ => Iff.rfl, fun _ => Iff.rfl⟩

theorem Imports.Same.symm (h : imports.Same imports') : imports'.Same imports :=
  ⟨fun name => (h.pypi name).symm, fun name => (h.npm name).symm, fun name => (h.word name).symm⟩

theorem same_empty_iff : imports.Same {} ↔ imports = {} :=
  ⟨same_empty, fun h => h ▸ .refl _⟩

theorem empty_same_iff (h : imports.Same imports') : Imports.Same {} imports' ↔ imports = {} := by
  constructor
  · intro hempty
    obtain rfl := same_empty hempty.symm
    exact same_empty h
  · rintro rfl
    exact h

theorem rel_get? {found found' : Dict Str (List Str)}
    (h : List.Forall₂ (fun p q : Str × List Str => p.1 = q.1 ∧ SameNames p.2 q.2) found found')
    (ecosystem : Str) : Option.Rel SameNames (found.get? ecosystem) (found'.get? ecosystem) := by
  induction h with
  | nil => exact .none
  | @cons p q found found' hpq _ ih =>
    obtain ⟨k,names⟩ := p
    obtain ⟨k',names'⟩ := q
    obtain ⟨rfl,hnames⟩ : k = k' ∧ SameNames names names' := hpq
    simp only [Dict.get?]
    split
    · exact .some hnames
    · exact ih

theorem sameImports_iff : SameImports imports.result imports'.result ↔ imports.Same imports' := by
  constructor
  · intro h
    have hpypi : Option.Rel SameNames (some imports.pypi) (some imports'.pypi) := h "pypi".toList
    have hnpm : Option.Rel SameNames (some imports.npm) (some imports'.npm) := h "npm".toList
    have hgo : Option.Rel SameNames (some imports.word) (some imports'.word) := h "go".toList
    exact ⟨Option.rel_some_some.mp hpypi, Option.rel_some_some.mp hnpm, Option.rel_some_some.mp hgo⟩
  · intro h ecosystem
    refine rel_get? ?_ ecosystem
    simp only [Imports.result, List.forall₂_cons, List.Forall₂.nil, h.pypi, h.npm, h.word, and_self]

theorem collectAll_perm (h : tree.Perm tree') :
    (collectAll U wordChar directory tree).Same (collectAll U wordChar directory tree') := by
  rw [collectAll, collectAll, foldl_collect, foldl_collect]
  exact ⟨fun _ => ((h.flatMap_right _).append_left _).mem_iff,
    fun _ => ((h.flatMap_right _).append_left _).mem_iff,
    fun _ => ((h.flatMap_right _).append_left _).mem_iff⟩

theorem packageInImports_congr {names names' : List Str} (h : SameNames names names')
    (pkgName ecosystem : Str) :
    packageInImports U pkgName ecosystem names = packageInImports U pkgName ecosystem names' := by
  simp only [packageInImports, h _]

theorem reachable_congr {found found' : Dict Str (List Str)} (h : SameImports found found')
    (pkgName ecosystem : Str) : isPackageReachable U ⟨true, found⟩ pkgName ecosystem =
      isPackageReachable U ⟨true, found'⟩ pkgName ecosystem := by
  have hrel := h ecosystem
  simp only [isPackageReachable, if_true]
  generalize found.get? ecosystem = names at hrel ⊢
  generalize found'.get? ecosystem = names' at hrel ⊢
  cases hrel with
  | some hnames => exact packageInImports_congr hnames pkgName ecosystem
  | none => rfl

theorem reachability_same_iff (U : Unicode) (wordChar : Char → Bool) (directory directory' : List Str)
    (tree tree' : List Entry) (h : tree.Perm tree') :
    (SameImports (importMap U wordChar directory tree) (importMap U wordChar directory' tree') ∧
      ∀ pkgName ecosystem,
        isPackageReachable U (target U wordChar directory tree) pkgName ecosystem =
          isPackageReachable U (target U wordChar directory' tree') pkgName ecosystem) ↔
      ((Excluded directory ↔ Excluded directory') ∨ ¬ImportsSomething U wordChar tree) := by
  have hsame : SameImports (importMap U wordChar directory tree) (importMap U wordChar directory' tree') ↔
      ((Excluded directory ↔ Excluded directory') ∨ ¬ImportsSomething U wordChar tree) := by
    have hperm : (collectAll U wordChar [] tree).Same (collectAll U wordChar [] tree') := collectAll_perm h
    rw [importMap, importMap, sameImports_iff, importsSomething_iff, not_not]
    by_cases hexcluded : Excluded directory <;> by_cases hexcluded' : Excluded directory'
    · rw [collectAll_of_excluded hexcluded, collectAll_of_excluded hexcluded']
      simp only [hexcluded, hexcluded', true_or, iff_true]
      exact .refl _
    · rw [collectAll_of_excluded hexcluded, collectAll_of_not_excluded hexcluded', empty_same_iff hperm]
      simp only [hexcluded, hexcluded', iff_false, not_true, false_or]
    · rw [collectAll_of_not_excluded hexcluded, collectAll_of_excluded hexcluded', same_empty_iff]
      simp only [hexcluded, hexcluded', iff_true, false_or]
    · rw [collectAll_of_not_excluded hexcluded, collectAll_of_not_excluded hexcluded']
      simp only [hexcluded, hexcluded', true_or, iff_true]
      exact hperm
  exact ⟨fun hboth => hsame.mp hboth.1, fun hcond => ⟨hsame.mpr hcond, reachable_congr (hsame.mpr hcond)⟩⟩

def asciiWord (c : Char) : Bool := c.isAlphanum || c = '_'

def importsRequests : List Entry :=
  [{ path := ["app.py".toList], text := some "import requests\n".toList }]

def ciApp : List Str := ["/".toList, "home".toList, "ci".toList, "app".toList]

def ciBuildApp : List Str := ["/".toList, "home".toList, "ci".toList, "build".toList, "app".toList]

theorem reachability_same_at_root :
    SameImports (importMap Unicode.basic asciiWord ciApp importsRequests)
        (importMap Unicode.basic asciiWord ["/".toList, "app".toList] importsRequests) ∧
      ∀ pkgName ecosystem,
        isPackageReachable Unicode.basic (target Unicode.basic asciiWord ciApp importsRequests)
            pkgName ecosystem =
          isPackageReachable Unicode.basic
            (target Unicode.basic asciiWord ["/".toList, "app".toList] importsRequests) pkgName ecosystem :=
  (reachability_same_iff Unicode.basic asciiWord ciApp ["/".toList, "app".toList] importsRequests
    importsRequests (.refl _)).mpr (.inl (by decide))

-- The parts of the path above the target are searched for excluded directories too.
theorem build_above_target_excluded :
    isPackageReachable Unicode.basic (target Unicode.basic asciiWord ciApp importsRequests)
        "requests".toList "pypi".toList = true ∧
      isPackageReachable Unicode.basic (target Unicode.basic asciiWord ciBuildApp importsRequests)
        "requests".toList "pypi".toList = false := by
  decide

end Located

end PicoSentry.Scan.ImportMap
