import PicoSentry.Foundation.Result
import PicoSentry.Foundation.Xml
import PicoSentry.Scan.GradleBuild

namespace PicoSentry.Scan.MavenPackages

open Foundation
open Xml (Element)
open GradleBuild (SourceFile Build parseText)
open Models (splitLines)

section Properties

-- str.replace of a text that is not empty; the count passes over the rest of an occurrence.
def replaceAll (old new : Str) : Nat → Str → Str
  | _, [] => []
  | skip + 1, _ :: rest => replaceAll old new skip rest
  | 0, c :: rest =>
    if old <+: c :: rest then new ++ replaceAll old new (old.length - 1) rest
    else c :: replaceAll old new 0 rest

def reference (name : Str) : Str := "$\x7b".toList ++ name ++ ['\x7d']

-- A dollar sign, an opening brace, a name without closing braces that is not empty and such a brace.
def referenceMatch : Matcher Str := fun _ text => do
  let rest ← literal "$\x7b".toList text
  match rest.dropWhile (· ≠ '\x7d') with
  | [] => none
  | _ :: after =>
    if rest.takeWhile (· ≠ '\x7d') = [] then none else return (rest.takeWhile (· ≠ '\x7d'), after)

def resolveProperty (properties : Dict Str Str) (text : Str) : Str :=
  (finditer referenceMatch text).foldl
    (fun result name =>
      match properties.get? name with
      | none => result
      | some value => replaceAll (reference name) value 0 result) text

end Properties

section Pom

def namespaced (tag : String) : Str := "\x7bhttp://maven.apache.org/POM/4.0.0\x7d".toList ++ tag.toList

def find (parent : Element) (tag : String) : Option Element :=
  (parent.find (namespaced tag)).or (parent.find tag.toList)

def findall (parent : Element) (tag : String) : List Element :=
  if parent.findall (namespaced tag) = [] then parent.findall tag.toList else parent.findall (namespaced tag)

-- The text of a child; a missing child and one without text give the same.
def textOf (parent : Element) (tag : String) : Str := ((find parent tag).map Element.text).getD []

structure Coordinates where
  groupId : Str
  artifactId : Str
  version : Str

structure Pom where
  groupId : Str
  artifactId : Str
  version : Str
  dependencies : List (List Str)
  dependencyManagement : List (List Str)
  repositories : List (List Str)
  properties : Dict Str Str
  parent : Option Coordinates

def propertyName (tag : Str) : Str := if '\x7d' ∈ tag then (tag.dropWhile (· ≠ '\x7d')).tail else tag

def propertiesOf (root : Element) : Dict Str Str :=
  match find root "properties" with
  | none => []
  | some properties =>
    properties.children.foldl (fun d property => d.set (propertyName property.tag) property.text) []

def resolvedText (properties : Dict Str Str) (parent : Element) (tag : String) : Str :=
  resolveProperty properties (textOf parent tag)

def scopeOf (dep : Element) : Str :=
  if textOf dep "scope" = [] then "compile".toList else textOf dep "scope"

def dependencyTuple (properties : Dict Str Str) (dep : Element) : Option (List Str) :=
  let group := resolvedText properties dep "groupId"
  let artifact := textOf dep "artifactId"
  if group ≠ [] ∧ artifact ≠ [] then some [group, artifact, resolvedText properties dep "version", scopeOf dep]
  else none

def managedTuple (properties : Dict Str Str) (dep : Element) : Option (List Str) :=
  let group := resolvedText properties dep "groupId"
  let artifact := textOf dep "artifactId"
  if group ≠ [] ∧ artifact ≠ [] then some [group, artifact, resolvedText properties dep "version"] else none

def repositoryTuple (repository : Element) : Option (List Str) :=
  if textOf repository "id" ≠ [] ∧ textOf repository "url" ≠ [] then
    some [textOf repository "id", textOf repository "url"]
  else none

def entriesOf (parent : Option Element) (tag : String) (read : Element → Option (List Str)) : List (List Str) :=
  match parent with
  | none => []
  | some parent => (findall parent tag).filterMap read

def parentOf (root : Element) : Option Coordinates :=
  (find root "parent").map fun parent =>
    { groupId := textOf parent "groupId"
      artifactId := textOf parent "artifactId"
      version := textOf parent "version" }

def pomOf (root : Element) : Pom :=
  let properties := propertiesOf root
  let inherited (field : Coordinates → Str) : Str := ((parentOf root).map field).getD []
  { groupId := if (find root "groupId").isSome then resolvedText properties root "groupId"
      else inherited Coordinates.groupId
    artifactId := textOf root "artifactId"
    version := if (find root "version").isSome then resolvedText properties root "version"
      else inherited Coordinates.version
    dependencies := entriesOf (find root "dependencies") "dependency" (dependencyTuple properties)
    dependencyManagement := entriesOf ((find root "dependencyManagement").bind fun management =>
      find management "dependencies") "dependency" (managedTuple properties)
    repositories := entriesOf (find root "repositories") "repository" repositoryTuple
    properties := properties
    parent := parentOf root }

-- What ET.parse makes of a pom.xml; an encoding that it does not know raises another error than ParseError.
inductive PomFile where
  | missing
  | parsed (root : Element)
  | parseError
  | osError
  | raised (error : PyError)

def parsePomXml : PomFile → Except PyError (Option Pom)
  | .missing => .ok none
  | .parsed root => .ok (some (pomOf root))
  | .parseError => .ok none
  | .osError => .ok none
  | .raised error => .error error

end Pom

section Collection

structure Project where
  pom : PomFile
  buildGradle : SourceFile
  buildGradleKts : SourceFile

structure MavenPackage where
  key : Str
  version : Str
  label : Str
  file : Str
  deriving DecidableEq

structure Collected where
  packages : List MavenPackage := []
  seen : List (Str × Str) := []

def Collected.add (s : Collected) (package : MavenPackage) : Collected :=
  if package.key ≠ [] ∧ package.version ≠ [] ∧ (package.key, package.version) ∉ s.seen then
    { packages := s.packages ++ [package], seen := s.seen ++ [(package.key, package.version)] }
  else s

def packageKey (group artifact : Str) : Str := group ++ ':' :: artifact

-- A tuple of four is unpacked as it is, another one by its first three items.
def pomFields : List Str → Except PyError (Str × Str × Str)
  | [group, artifact, version, _] => .ok (group, artifact, version)
  | group :: artifact :: version :: _ => .ok (group, artifact, version)
  | _ => .error .indexError

-- A tuple of three or more is unpacked into three names.
def gradleFields : List Str → Except PyError (Str × Str × Str)
  | [group, artifact, version] => .ok (group, artifact, version)
  | _ :: _ :: _ :: _ => .error .valueError
  | [group, artifact] => .ok (group, artifact, [])
  | _ => .error .indexError

def addPomDependency (s : Collected) (dep : List Str) : Except PyError Collected := do
  let (group, artifact, version) ← pomFields dep
  let label := packageKey group artifact ++ '@' :: version
  return [packageKey group artifact, artifact].foldl
    (fun s key => s.add { key := key, version := version, label := label, file := "pom.xml".toList }) s

def addGradleDependency (s : Collected) (dep : List Str) : Except PyError Collected := do
  let (group, artifact, version) ← gradleFields dep
  return s.add {
    key := packageKey group artifact
    version := version
    label := packageKey group artifact ++ '@' :: version
    file := "build.gradle".toList }

variable (U : Unicode)

def gradleBuild (p : Project) : Option Build := GradleBuild.parseGradleBuild U p.buildGradle p.buildGradleKts

def pomDependencies (pom : Option Pom) : List (List Str) := (pom.map Pom.dependencies).getD []

def gradleDependencies (build : Option Build) : List (List Str) := (build.map Build.dependencies).getD []

def collectMavenPackages (p : Project) : Except PyError (List MavenPackage) := do
  let pom ← parsePomXml p.pom
  let s ← (pomDependencies pom).foldlM addPomDependency {}
  let s ← (gradleDependencies (gradleBuild U p)).foldlM addGradleDependency s
  return s.packages

end Collection

section Growth

variable {s s' s'' : Collected} {package : MavenPackage}

def Covers (s : Collected) : Prop :=
  ∀ pair ∈ s.seen, ∃ package ∈ s.packages, package.key = pair.1 ∧ package.version = pair.2

structure Grows (s s' : Collected) : Prop where
  covers : Covers s → Covers s'
  seen : s.seen ⊆ s'.seen

theorem Grows.refl (s : Collected) : Grows s s := ⟨id, List.Subset.refl _⟩

theorem Grows.trans (h : Grows s s') (h' : Grows s' s'') : Grows s s'' :=
  ⟨h'.covers ∘ h.covers, List.Subset.trans h.seen h'.seen⟩

theorem grows_add (s : Collected) (package : MavenPackage) : Grows s (s.add package) := by
  rw [Collected.add]
  split
  · constructor
    · intro h pair hpair
      rcases List.mem_append.mp hpair with hold | hnew
      · obtain ⟨old,hmem,heq⟩ := h pair hold
        exact ⟨old, List.mem_append_left _ hmem, heq⟩
      · obtain rfl := List.mem_singleton.mp hnew
        exact ⟨package, by simp, rfl, rfl⟩
    · exact List.subset_append_left _ _
  · exact Grows.refl s

theorem mem_seen_add (s : Collected) (hkey : package.key ≠ []) (hversion : package.version ≠ []) :
    (package.key, package.version) ∈ (s.add package).seen := by
  rw [Collected.add]
  split
  · simp
  · next h => exact not_not.mp fun hnew => h ⟨hkey, hversion, hnew⟩

theorem packageKey_ne_nil (group artifact : Str) : packageKey group artifact ≠ [] := by
  simp [packageKey]

theorem addPomDependency_ok (s : Collected) (group artifact version scope : Str) :
    ∃ s', addPomDependency s [group, artifact, version, scope] = .ok s' ∧ Grows s s' ∧
      (version ≠ [] → (packageKey group artifact, version) ∈ s'.seen) := by
  refine ⟨_, rfl, (grows_add _ _).trans (grows_add _ _), fun hversion => ?_⟩
  exact (grows_add _ _).seen (mem_seen_add s (packageKey_ne_nil group artifact) hversion)

theorem foldlM_pom {deps : List (List Str)}
    (hshape : ∀ dep ∈ deps, ∃ group artifact version scope, dep = [group, artifact, version, scope])
    (s : Collected) : ∃ s', deps.foldlM addPomDependency s = .ok s' ∧ Grows s s' ∧
      ∀ group artifact version scope, [group, artifact, version, scope] ∈ deps → version ≠ [] →
        (packageKey group artifact, version) ∈ s'.seen := by
  induction deps generalizing s with
  | nil => exact ⟨s, rfl, Grows.refl s, fun _ _ _ _ h => absurd h List.not_mem_nil⟩
  | cons dep deps ih =>
    obtain ⟨⟨group,artifact,version,scope,rfl⟩,hdeps⟩ := List.forall_mem_cons.mp hshape
    obtain ⟨t,hstep,hgrows,hpair⟩ := addPomDependency_ok s group artifact version scope
    obtain ⟨s',hfold,hmore,hpairs⟩ := ih hdeps t
    refine ⟨s', ?_, hgrows.trans hmore, ?_⟩
    · rw [List.foldlM_cons, hstep]
      exact hfold
    · intro g a v sc hmem hversion
      rcases List.mem_cons.mp hmem with heq | hmem
      · cases heq
        exact hmore.seen (hpair hversion)
      · exact hpairs g a v sc hmem hversion

theorem exists_of_mem_entriesOf {parent : Option Element} {tag : String}
    {read : Element → Option (List Str)} {entry : List Str} (h : entry ∈ entriesOf parent tag read) :
    ∃ element, read element = some entry := by
  cases parent with
  | none => exact absurd h List.not_mem_nil
  | some parent =>
    obtain ⟨element,_,helement⟩ := List.mem_filterMap.mp h
    exact ⟨element, helement⟩

theorem pom_dependency_shape {root : Element} {dep : List Str} (h : dep ∈ (pomOf root).dependencies) :
    ∃ group artifact version scope, dep = [group, artifact, version, scope] := by
  obtain ⟨entry,hentry⟩ := exists_of_mem_entriesOf h
  rw [dependencyTuple] at hentry
  split at hentry
  · cases hentry
    exact ⟨_, _, _, _, rfl⟩
  · cases hentry

theorem parsePomXml_shape {file : PomFile} {pom : Option Pom} (h : parsePomXml file = .ok pom)
    {dep : List Str} (hdep : dep ∈ pomDependencies pom) :
    ∃ group artifact version scope, dep = [group, artifact, version, scope] := by
  cases file with
  | parsed root =>
    cases h
    exact pom_dependency_shape hdep
  | raised error => cases h
  | missing | parseError | osError =>
    cases h
    exact absurd hdep List.not_mem_nil

end Growth

section Totality

variable (U : Unicode)

def gradleText (p : Project) : Option Str :=
  match if p.buildGradle matches .missing then p.buildGradleKts else p.buildGradle with
  | .text content => some content
  | _ => none

def Reported (U : Unicode) (p : Project) (dep : List Str) : Prop :=
  (∃ pom, parsePomXml p.pom = .ok pom ∧ dep ∈ pomDependencies pom) ∨ dep ∈ gradleDependencies (gradleBuild U p)

def TotalAndComplete (p : Project) : Prop :=
  ∃ packages, collectMavenPackages U p = .ok packages ∧
    ∀ group artifact version rest, Reported U p (group :: artifact :: version :: rest) →
      group ≠ [] → artifact ≠ [] → version ≠ [] →
      ∃ package ∈ packages, package.key = packageKey group artifact ∧ package.version = version

def NoGradleDependency (p : Project) : Prop :=
  ∀ text, gradleText p = some text → ∀ lines line behind found, splitLines [] text = lines ++ line :: behind →
    ¬GradleBuild.Collects U lines line found

variable {U}

theorem gradleBuild_eq (p : Project) : gradleBuild U p = (gradleText p).map (parseText U) := by
  obtain ⟨_,buildGradle,buildGradleKts⟩ := p
  cases buildGradle with
  | missing => cases buildGradleKts <;> rfl
  | unreadable | text => rfl

theorem mem_gradleDependencies {p : Project} {dep : List Str} :
    dep ∈ gradleDependencies (gradleBuild U p) ↔ ∃ text, gradleText p = some text ∧
      ∃ lines line behind found, splitLines [] text = lines ++ line :: behind ∧
        GradleBuild.Collects U lines line found ∧ dep = found.tuple := by
  rw [gradleBuild_eq, gradleDependencies]
  cases gradleText p with
  | none => simp
  | some text =>
    simp only [Option.map_some, Option.getD_some, Option.some.injEq, exists_eq_left']
    exact GradleBuild.mem_dependencies_iff

theorem gradleDependencies_nil_iff {p : Project} :
    gradleDependencies (gradleBuild U p) = [] ↔ NoGradleDependency U p := by
  rw [List.eq_nil_iff_forall_not_mem]
  constructor
  · intro h text htext lines line behind found hlines hcollects
    exact h _ (mem_gradleDependencies.mpr ⟨text, htext, lines, line, behind, found, hlines, hcollects, rfl⟩)
  · intro h dep hdep
    obtain ⟨text,htext,lines,line,behind,found,hlines,hcollects,_⟩ := mem_gradleDependencies.mp hdep
    exact h text htext lines line behind found hlines hcollects

theorem gradle_raises {p : Project} (h : gradleDependencies (gradleBuild U p) ≠ []) (s : Collected) :
    (gradleDependencies (gradleBuild U p)).foldlM addGradleDependency s = .error .valueError := by
  cases hdeps : gradleDependencies (gradleBuild U p) with
  | nil => exact absurd hdeps h
  | cons dep deps =>
    have hdep : dep ∈ gradleDependencies (gradleBuild U p) := hdeps ▸ List.mem_cons_self
    obtain ⟨text,_,lines,line,behind,found,_,_,rfl⟩ := mem_gradleDependencies.mp hdep
    rw [List.foldlM_cons]
    rfl

theorem collectMavenPackages_of_parse {p : Project} {pom : Option Pom} (h : parsePomXml p.pom = .ok pom) :
    ∃ s, Covers s ∧ (∀ group artifact version scope, [group, artifact, version, scope] ∈ pomDependencies pom →
        version ≠ [] → (packageKey group artifact, version) ∈ s.seen) ∧
      collectMavenPackages U p = ((gradleDependencies (gradleBuild U p)).foldlM addGradleDependency s).map
        Collected.packages := by
  obtain ⟨s,hfold,hgrows,hseen⟩ := foldlM_pom (fun _ hdep => parsePomXml_shape h hdep) {}
  refine ⟨s, hgrows.covers fun _ hpair => absurd hpair List.not_mem_nil, hseen, ?_⟩
  rw [collectMavenPackages, h]
  change (pomDependencies pom).foldlM addPomDependency {} >>= _ = _
  rw [hfold]
  rfl

theorem collection_total_iff (U : Unicode) (p : Project) :
    TotalAndComplete U p ↔ (∀ error, p.pom ≠ .raised error) ∧ NoGradleDependency U p := by
  rw [← gradleDependencies_nil_iff]
  constructor
  · rintro ⟨packages,hcollect,-⟩
    obtain ⟨pom,hpom,hrest⟩ := bind_eq_ok.mp hcollect
    constructor
    · intro error herror
      rw [herror] at hpom
      cases hpom
    · by_contra hnot
      obtain ⟨s,_,hgradle⟩ := bind_eq_ok.mp hrest
      obtain ⟨s',hs',_⟩ := bind_eq_ok.mp hgradle
      rw [gradle_raises hnot] at hs'
      cases hs'
  · rintro ⟨hpom,hgradle⟩
    obtain ⟨pom,hparse⟩ : ∃ pom, parsePomXml p.pom = .ok pom := by
      cases hfile : p.pom with
      | raised error => exact absurd hfile (hpom error)
      | _ => exact ⟨_, rfl⟩
    obtain ⟨s,hcovers,hseen,hcollect⟩ := collectMavenPackages_of_parse (U := U) hparse
    refine ⟨s.packages, ?_, ?_⟩
    · rw [hcollect, hgradle]
      rfl
    · rintro group artifact version rest (⟨pom',hparse',hdep⟩ | hdep) - - hversion
      · cases hparse.symm.trans hparse'
        obtain ⟨_,_,_,scope,heq⟩ := parsePomXml_shape hparse hdep
        cases heq
        exact hcovers _ (hseen group artifact version scope hdep hversion)
      · rw [hgradle] at hdep
        exact absurd hdep List.not_mem_nil

def gradleProject : Project where
  pom := .missing
  buildGradle := .text "dependencies \x7b\n  api 'a:b:1'\n\x7d\n".toList
  buildGradleKts := .missing

-- One dependency line is enough: its tuple of four is unpacked into three names.
theorem gradle_dependency_raises : ¬∀ (U : Unicode) (p : Project), TotalAndComplete U p := by
  intro h
  obtain ⟨packages,hcollect,_⟩ := h .basic gradleProject
  have hraises : collectMavenPackages .basic gradleProject = .error .valueError := by decide
  rw [hraises] at hcollect
  cases hcollect

end Totality

end PicoSentry.Scan.MavenPackages
