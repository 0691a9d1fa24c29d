import PicoSentry.Foundation.Run
import PicoSentry.Sandbox.PolicyStoreFiles

namespace PicoSentry.Sandbox.PolicyStore

open Foundation Foundation.Run

section Names

theorem versionFile_inj {n m : Int} (h : versionFile n = versionFile m) : n = m :=
  Json.intText_inj (List.append_cancel_right (List.cons.inj h).2)

theorem file_ne_latest (version : VersionNumber) : version.file ≠ latestFile :=
  fun h => absurd (List.cons.inj h).1 (by decide)

theorem last_file (version : VersionNumber) : version.file.getLast? = some 'n' := by
  have hne : ".json".toList ≠ [] := by decide
  rw [VersionNumber.file, List.getLast?_append_of_ne_nil _ hne]
  rfl

theorem isVersionFile_versionFile (n : Int) : isVersionFile (versionFile n) = true := by
  have hsuffix : ".json".toList <:+ versionFile n := List.suffix_append ('v' :: intText n) _
  have hhead : (versionFile n).head? = some 'v' := rfl
  have hlatest : versionFile n ≠ latestFile := file_ne_latest (.int n)
  simp only [isVersionFile, hhead, hsuffix, hlatest, ne_eq, not_false_eq_true,
    decide_true, Bool.and_self]

def Loadable (file : Str) : Prop := file = latestFile ∨ ∃ n, file = versionFile n

theorem Loadable.last {file : Str} (h : Loadable file) : file.getLast? = some 'n' := by
  rcases h with rfl | ⟨n,rfl⟩
  · rfl
  · exact last_file (.int n)

theorem companion_ne_of_last {file file' : Str} (h : file.getLast? = some 'n') : companion file' ≠ file := by
  intro heq
  have hne : ".sig".toList ≠ [] := by decide
  rw [← heq, companion, List.getLast?_append_of_ne_nil _ hne] at h
  exact absurd h (by decide)

theorem companion_ne {file file' : Str} (h : Loadable file) : companion file' ≠ file :=
  companion_ne_of_last h.last

theorem companion_inj {file file' : Str} (h : companion file = companion file') : file = file' :=
  List.append_cancel_right h

end Names

section Calls

variable {env : Env} {files files' : Files} {policy : StoredPolicy} {pv : PolicyVersion}
  {name author changeDescription timestamp : Str} {version : VersionNumber} {n : Int}

theorem saved_of_save (h : save env files policy author changeDescription timestamp =
    .ok (files', pv)) :
    ∃ name version text, policyName policy.name = .ok name ∧
      nextVersion env files name = .ok version ∧ pv.policy = policy ∧ pv.version = version.json ∧
      IsText pv text ∧ files' = writeVersion env files name version text timestamp := by
  obtain ⟨name,hname,h⟩ := bind_eq_ok.mp h
  obtain ⟨version,hversion,h⟩ := bind_eq_ok.mp h
  obtain ⟨policyDict,hpolicy,h⟩ := bind_eq_ok.mp h
  obtain ⟨pvDict,hpv,h⟩ := bind_eq_ok.mp h
  cases h
  exact ⟨name, version, _, hname, hversion, rfl, rfl, ⟨pvDict, hpv, rfl⟩, rfl⟩

theorem held_oneAbove {j : Json} (h : oneAbove env j = .ok version) :
    Json.Held env.repr version.json := by
  cases j with
  | int n =>
    cases h
    exact Json.held_int _
  | bool b =>
    cases h
    exact Json.held_int _
  | float text =>
    cases h
    exact ⟨⟨env.floatText_repr _, trivial⟩, congrArg Json.float (env.repr_repr _)⟩
  | _ => cases h

theorem held_next (h : nextVersion env files name = .ok version) : Json.Held env.repr version.json := by
  obtain ⟨pvs,-,h⟩ := bind_eq_ok.mp h
  cases pvs with
  | nil =>
    cases h
    exact Json.held_int 1
  | cons pv pvs =>
    obtain ⟨top,-,h⟩ := bind_eq_ok.mp h
    exact held_oneAbove h

theorem plain_of_save {p : Policy} (h : save env files (.ofPolicy p) author changeDescription
    timestamp = .ok (files', pv)) : Plain env pv := by
  obtain ⟨name,hname,h⟩ := bind_eq_ok.mp h
  obtain ⟨version,hversion,h⟩ := bind_eq_ok.mp h
  obtain ⟨policyDict,hpolicy,h⟩ := bind_eq_ok.mp h
  obtain ⟨pvDict,hpv,h⟩ := bind_eq_ok.mp h
  cases h
  exact ⟨p, version, author, timestamp, changeDescription, _, held_next hversion, rfl⟩

def versionText (p : Policy) (version : VersionNumber) (author timestamp changeDescription contentHash : Str) :
    Str :=
  (plainDict p version author timestamp changeDescription contentHash).dumpsIndented

theorem isText_plain (p : Policy) (version : VersionNumber)
    (author timestamp changeDescription contentHash : Str) :
    IsText (plainVersion p version author timestamp changeDescription contentHash)
      (versionText p version author timestamp changeDescription contentHash) :=
  ⟨_, toDict_plain p version author timestamp changeDescription contentHash, rfl⟩

def policyHash (env : Env) (p : Policy) : Str := env.sha256 (policyDict p).dumps

theorem save_ofPolicy {p : Policy} (hname : validName p.name = true)
    (hversion : nextVersion env files p.name = .ok version) :
    save env files (.ofPolicy p) author changeDescription timestamp =
      .ok (writeVersion env files p.name version
          (versionText p version author timestamp changeDescription (policyHash env p)) timestamp,
        plainVersion p version author timestamp changeDescription (policyHash env p)) := by
  have hpolicy : policyName (StoredPolicy.ofPolicy p).name = .ok p.name := by
    rw [StoredPolicy.ofPolicy, policyName, validatePolicyName, if_pos hname]
    rfl
  have hdict := toDict_plain p version author timestamp changeDescription (policyHash env p)
  rw [plainVersion, policyHash] at hdict
  rw [save, bind_of_eq_ok hpolicy, bind_of_eq_ok hversion, bind_of_eq_ok (toDict_ofPolicy p)]
  dsimp only
  rw [bind_of_eq_ok hdict]
  rfl

theorem policyName_ok {j : Json} (h : policyName j = .ok name) :
    j = .str name ∧ validName name = true := by
  cases j with
  | str s =>
    obtain ⟨_,hvalid,h⟩ := bind_eq_ok.mp h
    cases h
    refine ⟨rfl, ?_⟩
    by_contra hnot
    rw [validatePolicyName, if_neg hnot] at hvalid
    cases hvalid
  | _ => cases h

theorem target_of_rollback (h : rollback env files name n author timestamp =
    .ok (files', some pv)) :
    ∃ target, load env files name (some n) = .ok (some target) ∧
      save env files target.policy author ("Rollback to v".toList ++ intText n) timestamp =
        .ok (files', pv) := by
  obtain ⟨found,hload,h⟩ := bind_eq_ok.mp h
  cases found with
  | none => cases h
  | some target =>
    obtain ⟨⟨files'',pv'⟩,hsave,h⟩ := bind_eq_ok.mp h
    cases h
    exact ⟨target, hload, hsave⟩

theorem load_version (h : load env files name (some n) = .ok (some pv)) : ∃ content,
    Dict.get? files (name, versionFile n) = some content ∧
      loadFile env files name (versionFile n) content = .ok (some pv) := by
  obtain ⟨_,-,h⟩ := bind_eq_ok.mp h
  dsimp only at h
  split at h
  · next content hget => exact ⟨content, hget, h⟩
  · cases h

theorem rollback_of_load {target : PolicyVersion}
    (hload : load env files name (some n) = .ok (some target))
    (hsave : save env files target.policy author ("Rollback to v".toList ++ intText n)
      timestamp = .ok (files', pv)) :
    rollback env files name n author timestamp = .ok (files', some pv) := by
  rw [rollback, bind_of_eq_ok hload]
  dsimp only
  rw [bind_of_eq_ok hsave]
  rfl

theorem loadFile_ok {file : Str} {content : FileContent}
    (h : loadFile env files name file content = .ok (some pv)) :
    verifyCompanion env content (Dict.get? files (name, companion file)) = .ok true ∧
      readVersionFile env content = .ok (some pv) := by
  obtain ⟨verified,hverify,h⟩ := bind_eq_ok.mp h
  cases verified with
  | true => exact ⟨hverify, h⟩
  | false => cases h

theorem mem_versionFiles {file : Str} {content : FileContent} :
    (file, content) ∈ (ascending Prod.fst (directory files name)).filter (fun e => isVersionFile e.1) ↔
      ((name, file), content) ∈ files ∧ isVersionFile file = true := by
  rw [List.mem_filter, (perm_ascending Prod.fst _).mem_iff, directory, List.mem_map]
  refine and_congr_left fun _ => ⟨?_, fun hmem => ?_⟩
  · rintro ⟨⟨⟨name',file'⟩,content'⟩,hfilter,heq⟩
    obtain ⟨hmem,hname⟩ := List.mem_filter.mp hfilter
    cases heq
    rwa [← show name' = name from of_decide_eq_true hname]
  · exact ⟨((name, file), content), List.mem_filter.mpr ⟨hmem, decide_eq_true rfl⟩, rfl⟩

theorem mem_listVersions {pvs : List PolicyVersion} (h : listVersions env files name = .ok pvs) :
    pv ∈ pvs ↔ ∃ file content, ((name, file), content) ∈ files ∧ isVersionFile file = true ∧
      readVersionFile env content = .ok (some pv) := by
  obtain ⟨found,hfound,h⟩ := bind_eq_ok.mp h
  cases h
  rw [List.mem_filterMap]
  simp only [mem_mapM hfound, id, Prod.exists, mem_versionFiles]
  constructor
  · rintro ⟨_,⟨file,content,⟨hmem,hversion⟩,hread⟩,rfl⟩
    exact ⟨file, content, hmem, hversion, hread⟩
  · rintro ⟨file,content,hmem,hversion,hread⟩
    exact ⟨some pv, ⟨file, content, ⟨hmem, hversion⟩, hread⟩, rfl⟩

end Calls

section Written

variable {env : Env} {files : Files} {name name' file text timestamp : Str} {version : VersionNumber}

def Fresh (name : Str) (version : VersionNumber) (name' file : Str) : Prop :=
  name' = name ∧ (file = version.file ∨ file = latestFile)

theorem get?_pair (d : Files) (n n' f f' : Str) (content : FileContent) :
    Dict.get? (Dict.set d (n, f) content) (n', f') =
      if n' = n ∧ f' = f then some content else Dict.get? d (n', f') := by
  rw [Dict.get?_set]
  simp only [Prod.mk.injEq, eq_comm]

theorem get?_written_fresh (hfile : Loadable file) (h : Fresh name version name' file) :
    Dict.get? (writeVersion env files name version text timestamp) (name', file) =
      some (.text text) := by
  have hne : ∀ file', file ≠ companion file' := fun file' heq => companion_ne hfile heq.symm
  obtain ⟨rfl,hfresh⟩ := h
  rw [writeVersion]
  cases env.key with
  | none => rcases hfresh with rfl | rfl <;> simp [get?_pair, file_ne_latest]
  | some mac => rcases hfresh with rfl | rfl <;> simp [get?_pair, hne, file_ne_latest]

theorem get?_written_other (hfile : Loadable file) (h : ¬Fresh name version name' file) :
    Dict.get? (writeVersion env files name version text timestamp) (name', file) =
        Dict.get? files (name', file) ∧
      Dict.get? (writeVersion env files name version text timestamp) (name', companion file) =
        Dict.get? files (name', companion file) := by
  have hne : ∀ file', file ≠ companion file' := fun file' heq => companion_ne hfile heq.symm
  have hversion : companion file ≠ version.file := companion_ne_of_last (last_file version)
  have hlatest : companion file ≠ latestFile := companion_ne (.inl rfl)
  have hcompanion : ∀ file', companion file = companion file' ↔ file = file' :=
    fun _ => ⟨companion_inj, congrArg companion⟩
  rw [Fresh, not_and_or, not_or] at h
  rw [writeVersion]
  cases env.key with
  | none => rcases h with h | ⟨h,h'⟩ <;> simp [get?_pair, *]
  | some mac => rcases h with h | ⟨h,h'⟩ <;> simp [get?_pair, *]

theorem get?_written_signature {mac : Str → Str} (hkey : env.key = some mac)
    (h : Fresh name version name' file) :
    Dict.get? (writeVersion env files name version text timestamp) (name', companion file) =
      some (.text (signature mac text timestamp file)) := by
  have hcompanion : ∀ f f', companion f = companion f' ↔ f = f' :=
    fun _ _ => ⟨companion_inj, congrArg companion⟩
  obtain ⟨rfl,hfresh⟩ := h
  rw [writeVersion, hkey]
  rcases hfresh with rfl | rfl <;> simp [get?_pair, hcompanion, file_ne_latest]

end Written

section Runs

structure World where
  files : Files := []
  -- the versions that save has made, also for a rollback
  produced : List PolicyVersion := []

inductive Step where
  | save (policy : Policy) (author changeDescription timestamp : Str)
  | rollback (name : Str) (version : Int) (author timestamp : Str)
  | write (name file : Str) (content : FileContent)
  | remove (name file : Str)

def step (env : Env) (w : World) : Step → Option (World × List PolicyVersion)
  | .save policy author changeDescription timestamp =>
    match save env w.files (.ofPolicy policy) author changeDescription timestamp with
    | .ok (files, pv) => some (⟨files, w.produced ++ [pv]⟩, [pv])
    | .error _ => some (w, [])
  | .rollback name version author timestamp =>
    match rollback env w.files name version author timestamp with
    | .ok (files, some pv) => some (⟨files, w.produced ++ [pv]⟩, [pv])
    | _ => some (w, [])
  | .write name file content => some (⟨w.files.set (name, file) content, w.produced⟩, [])
  | .remove name file => some (⟨Dict.erase w.files (name, file), w.produced⟩, [])

theorem step_call {env : Env} {w w' : World} {s : Step} {es : List PolicyVersion}
    (h : step env w s = some (w', es)) :
    (∃ name file content, s = .write name file content ∧
      w' = ⟨w.files.set (name, file) content, w.produced⟩) ∨
    (∃ name file, s = .remove name file ∧ w' = ⟨Dict.erase w.files (name, file), w.produced⟩) ∨
    w' = w ∨
    (∃ policy author changeDescription timestamp files pv,
      save env w.files (.ofPolicy policy) author changeDescription timestamp = .ok (files, pv) ∧
        s = .save policy author changeDescription timestamp ∧ w' = ⟨files, w.produced ++ [pv]⟩) ∨
    ∃ name version author timestamp files pv,
      rollback env w.files name version author timestamp = .ok (files, some pv) ∧
        s = .rollback name version author timestamp ∧ w' = ⟨files, w.produced ++ [pv]⟩ := by
  cases s with
  | save policy author changeDescription timestamp =>
    rw [step] at h
    split at h
    · next files pv hsave =>
      cases h
      exact .inr (.inr (.inr (.inl ⟨_, _, _, _, _, _, hsave, rfl, rfl⟩)))
    · cases h
      exact .inr (.inr (.inl rfl))
  | rollback name version author timestamp =>
    rw [step] at h
    split at h
    · next files pv hrollback =>
      cases h
      exact .inr (.inr (.inr (.inr ⟨_, _, _, _, _, _, hrollback, rfl, rfl⟩)))
    · cases h
      exact .inr (.inr (.inl rfl))
  | write name file content =>
    cases h
    exact .inl ⟨_, _, _, rfl, rfl⟩
  | remove name file =>
    cases h
    exact .inr (.inl ⟨_, _, rfl, rfl⟩)

end Runs

end PicoSentry.Sandbox.PolicyStore
