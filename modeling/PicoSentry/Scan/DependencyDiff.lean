import PicoSentry.Foundation.Cut
import PicoSentry.Foundation.IndentedJson
import PicoSentry.Scan.VersionDiff

namespace PicoSentry.Scan.VersionDiff

open Foundation

structure DependencyChange where
  name : Str
  oldVersion : Str := []
  newVersion : Str := []
  deriving DecidableEq

structure DependencyDelta where
  addedDependencies : List DependencyChange := []
  removedDependencies : List DependencyChange := []
  changedDependencies : List DependencyChange := []
  deriving DecidableEq

inductive DependencySection where
  | dependencies
  | devDependencies
  | peerDependencies
  | optionalDependencies
  | requiresDist
  deriving DecidableEq

section Extraction

variable (U : Unicode) (reprOf : Json → Str)

-- str of a specifier; reprOf is what str gives for a list and for a dict.
def specifierText : Json → Str
  | .str text => text
  | .int n => intText n
  | .float text => text
  | .bool b => if b then "True".toList else "False".toList
  | .null => "None".toList
  | .arr items => reprOf (.arr items)
  | .obj fields => reprOf (.obj fields)

def requirementOperators : List Str := [">=", "<=", "!=", "==", "~=", ">=", "<="].map String.toList

def requirementEntry (entry : Str) : Str × Str :=
  let parts := U.strip (entry.takeWhile (· ≠ ';'))
  match requirementOperators.findSome? fun op => splitOnce op parts with
  | some (name, _) => (U.strip name, parts)
  | none => (parts, "*".toList)

def sectionItems (value : Option Json) : List (Str × Json) :=
  match value with
  | some (.obj fields) => Dict.ofPairs fields.toList
  | _ => []

def requiresDistEntries (manifest : Dict Str Json) : List (Str × Json) :=
  let requires := match manifest.get? "requires_dist".toList with
    | some value => if value.truthy then some value else manifest.get? "Requires-Dist".toList
    | none => manifest.get? "Requires-Dist".toList
  match requires with
  | some (.arr items) => items.toList.filterMap fun entry =>
      match entry with
      | .str text => some ((requirementEntry U text).1, .str (requirementEntry U text).2)
      | _ => none
  | _ => []

def sectionEntries (manifest : Dict Str Json) : DependencySection → List (Str × Json)
  | .dependencies => sectionItems (manifest.get? "dependencies".toList)
  | .devDependencies => sectionItems (manifest.get? "devDependencies".toList)
  | .peerDependencies => sectionItems (manifest.get? "peerDependencies".toList)
  | .optionalDependencies => sectionItems (manifest.get? "optionalDependencies".toList)
  | .requiresDist => requiresDistEntries U manifest

def dependencySections : List DependencySection :=
  [.dependencies, .devDependencies, .peerDependencies, .optionalDependencies, .requiresDist]

def dependencyEntries (manifest : Dict Str Json) : List (Str × Str) :=
  (dependencySections.flatMap (sectionEntries U manifest)).map
    fun entry => (entry.1, specifierText reprOf entry.2)

def extractDeps (manifest : Dict Str Json) : Dict Str Str :=
  ascending Prod.fst (Dict.ofPairs (dependencyEntries U reprOf manifest))

end Extraction

section Diff

variable (U : Unicode) (reprOf : Json → Str)

def version (deps : Dict Str Str) (name : Str) : Str := (deps.get? name).getD []

def diffDeps (old new : Dict Str Str) : DependencyDelta :=
  let names := sortedNames (old.keys ++ new.keys)
  { addedDependencies := (names.filter (· ∉ old.keys)).map
      fun name => { name := name, newVersion := version new name }
    removedDependencies := (names.filter fun name => name ∈ old.keys ∧ name ∉ new.keys).map
      fun name => { name := name, oldVersion := version old name }
    changedDependencies := (names.filter fun name => name ∈ old.keys ∧ name ∈ new.keys ∧
        version old name ≠ version new name).map
      fun name => { name := name, oldVersion := version old name, newVersion := version new name } }

def diffManifestDeps (old new : Dict Str Json) : DependencyDelta :=
  diffDeps (extractDeps U reprOf old) (extractDeps U reprOf new)

def DependencyDelta.changes (delta : DependencyDelta) : List DependencyChange :=
  delta.addedDependencies ++ (delta.removedDependencies ++ delta.changedDependencies)

def DependencyDelta.Reports (delta : DependencyDelta) (name : Str) : Prop :=
  ∃ change ∈ delta.changes, change.name = name

end Diff

section Reports

variable {U : Unicode} {reprOf : Json → Str} {old new : Dict Str Str} {name : Str}

theorem get?_version {deps : Dict Str Str} (h : name ∈ deps.keys) :
    deps.get? name = some (version deps name) := by
  obtain ⟨text,htext⟩ := Dict.exists_get?_of_mem_keys h
  rw [version, htext]
  rfl

theorem reports_diffDeps_iff : (diffDeps old new).Reports name ↔ old.get? name ≠ new.get? name := by
  simp only [DependencyDelta.Reports, DependencyDelta.changes, diffDeps, List.mem_append, List.mem_map,
    List.mem_filter, mem_sortedNames, decide_eq_true_eq]
  constructor
  · rintro ⟨change,⟨dep,⟨hmem,hold⟩,rfl⟩ | ⟨dep,⟨_,hold,hnew⟩,rfl⟩ | ⟨dep,⟨_,hold,hnew,hne⟩,rfl⟩,rfl⟩
    · rw [Dict.not_mem_keys_iff.mp hold, get?_version (hmem.resolve_left hold)]
      exact Option.some_ne_none _ ∘ Eq.symm
    · rw [Dict.not_mem_keys_iff.mp hnew, get?_version hold]
      exact Option.some_ne_none _
    · rw [get?_version hold, get?_version hnew]
      exact fun h => hne (Option.some.inj h)
  · intro hne
    by_cases hold : name ∈ old.keys
    · by_cases hnew : name ∈ new.keys
      · rw [get?_version hold, get?_version hnew] at hne
        exact ⟨_, .inr (.inr ⟨name, ⟨.inl hold, hold, hnew, fun h => hne (congrArg some h)⟩, rfl⟩), rfl⟩
      · exact ⟨_, .inr (.inl ⟨name, ⟨.inl hold, hold, hnew⟩, rfl⟩), rfl⟩
    · have hnew : name ∈ new.keys := by
        by_contra hnew
        rw [Dict.not_mem_keys_iff.mp hold, Dict.not_mem_keys_iff.mp hnew] at hne
        exact hne rfl
      exact ⟨_, .inl ⟨name, ⟨.inr hnew, hold⟩, rfl⟩, rfl⟩

def lastSpecifier (U : Unicode) (reprOf : Json → Str) (manifest : Dict Str Json) (name : Str) : Option Str :=
  Dict.lastOf (dependencyEntries U reprOf manifest) name

theorem get?_extractDeps (manifest : Dict Str Json) (name : Str) :
    (extractDeps U reprOf manifest).get? name = lastSpecifier U reprOf manifest name := by
  have hempty : (Dict.keys ([] : Dict Str Str)).Nodup := List.nodup_nil
  have hnodup : (Dict.ofPairs (dependencyEntries U reprOf manifest)).keys.Nodup :=
    Dict.keys_setAll_nodup hempty _
  rw [extractDeps, lastSpecifier, ← Dict.get?_ofPairs]
  exact (Dict.get?_perm hnodup (perm_ascending _ _).symm name).symm

end Reports

section Completeness

-- The specifiers of a name in one section; only requires_dist can hold more than one.
def specifiers (U : Unicode) (manifest : Dict Str Json) (place : DependencySection) (name : Str) : List Json :=
  ((sectionEntries U manifest place).filter fun entry => entry.1 = name).map Prod.snd

theorem dependency_change_reported_iff (U : Unicode) (reprOf : Json → Str) (old new : Dict Str Json)
    (place : DependencySection) (name : Str) :
    (specifiers U old place name ≠ specifiers U new place name → (diffManifestDeps U reprOf old new).Reports name) ↔
      (specifiers U old place name ≠ specifiers U new place name →
        lastSpecifier U reprOf old name ≠ lastSpecifier U reprOf new name) := by
  rw [diffManifestDeps, reports_diffDeps_iff, get?_extractDeps, get?_extractDeps]

def manifestOf (runtime : String) : Dict Str Json :=
  [("dependencies".toList, .obj (.cons "left-pad".toList (.str runtime.toList) .nil)),
   ("devDependencies".toList, .obj (.cons "left-pad".toList (.str "1.0.0".toList) .nil))]

theorem masked_dependency_not_reported :
    ¬∀ (U : Unicode) (reprOf : Json → Str) (old new : Dict Str Json) (place : DependencySection) (name : Str),
      specifiers U old place name ≠ specifiers U new place name →
        (diffManifestDeps U reprOf old new).Reports name := by
  intro h
  have hreported := h .basic (fun _ => []) (manifestOf "1.0.0") (manifestOf "9.9.9") .dependencies
    "left-pad".toList
    (fun heq => by
      have hspec := List.cons.inj heq
      exact absurd (Json.str.inj hspec.1) (by decide))
  have hdelta : diffManifestDeps .basic (fun _ => []) (manifestOf "1.0.0") (manifestOf "9.9.9") = {} := by
    decide
  rw [hdelta] at hreported
  obtain ⟨change,hmem,_⟩ := hreported
  cases hmem

end Completeness

end PicoSentry.Scan.VersionDiff
