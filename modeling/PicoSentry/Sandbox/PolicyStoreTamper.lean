import PicoSentry.Sandbox.PolicyStoreRuns

namespace PicoSentry.Sandbox.PolicyStore

open Foundation Foundation.Run

section Authentic

variable {env : Env} {mac : Str → Str} {w w' : World} {es : List PolicyVersion} {name : Str}

def Backed (env : Env) (files : Files) (produced : List PolicyVersion) : Prop :=
  ∀ name file c, Loadable file → Dict.get? files (name, file) = some (.text c) →
    verifyCompanion env (.text c) (Dict.get? files (name, companion file)) = .ok true →
      ∃ pv ∈ produced, IsText pv c

def Unforged (env : Env) (w : World) : Step → Prop
  | .write name file content => Backed env (w.files.set (name, file) content) w.produced
  | _ => True

structure Sound (env : Env) (w : World) : Prop where
  backed : Backed env w.files w.produced
  plain : ∀ pv ∈ w.produced, Plain env pv

theorem checkSignature_text {content : FileContent} {sigData : Record}
    (h : checkSignature mac content sigData = .ok true) : ∃ c, content = .text c := by
  cases content with
  | text c => exact ⟨c, rfl⟩
  | _ =>
    rw [checkSignature] at h
    split_ifs at h <;> cases h

theorem verifyCompanion_text (hkey : env.key = some mac) {content : FileContent}
    {sig : Option FileContent} (h : verifyCompanion env content sig = .ok true) :
    ∃ c, content = .text c := by
  rw [verifyCompanion.eq_def, hkey] at h
  cases sig with
  | none => cases h
  | some sig =>
    dsimp only at h
    rw [verifyPolicyCompanion.eq_def] at h
    split at h
    · cases h
    · cases h
    · split at h
      · cases h
      · obtain ⟨sigData,-,h⟩ := bind_eq_ok.mp h
        exact checkSignature_text h

theorem verifyCompanion_missing (hkey : env.key = some mac) (content : FileContent) :
    verifyCompanion env content none = .ok false := by
  rw [verifyCompanion.eq_def, hkey]

theorem Backed.erase (hkey : env.key = some mac) {files : Files} {produced : List PolicyVersion}
    (h : Backed env files produced) (name file : Str) :
    Backed env (Dict.erase files (name, file)) produced := by
  intro name' file' c hfile hget hverify
  rw [Dict.get?_erase] at hget hverify
  split at hget
  · cases hget
  · split at hverify
    · rw [verifyCompanion_missing hkey] at hverify
      cases hverify
    · exact h name' file' c hfile hget hverify

theorem Backed.unsigned (hkey : env.key = some mac) {files : Files}
    {produced : List PolicyVersion} (h : Backed env files produced) {name file : Str}
    (hfile : Loadable file) (hnone : Dict.get? files (name, companion file) = none)
    (content : FileContent) : Backed env (Dict.set files (name, file) content) produced := by
  intro name' file' c hfile' hget hverify
  have hne : file ≠ companion file' := fun heq => companion_ne hfile heq.symm
  rw [get?_pair] at hget hverify
  rw [if_neg fun heq => hne heq.2.symm] at hverify
  split at hget
  · next heq =>
    obtain ⟨rfl,rfl⟩ := heq
    rw [hnone, verifyCompanion_missing hkey] at hverify
    cases hverify
  · exact h name' file' c hfile' hget hverify

theorem Sound.loadFile (hkey : env.key = some mac) (h : Sound env w) {file : Str}
    {content : FileContent} {pv : PolicyVersion} (hfile : Loadable file)
    (hget : Dict.get? w.files (name, file) = some content)
    (hload : loadFile env w.files name file content = .ok (some pv)) :
    pv ∈ w.produced ∧ ∃ c, content = .text c ∧ IsText pv c := by
  obtain ⟨hverify,hread⟩ := loadFile_ok hload
  obtain ⟨c,rfl⟩ := verifyCompanion_text hkey hverify
  obtain ⟨pv',hpv',htext⟩ := h.backed name file c hfile hget hverify
  rw [readVersionFile_text (h.plain pv' hpv') htext] at hread
  cases hread
  exact ⟨hpv', c, rfl, htext⟩

theorem Sound.written {files : Files} {policy : Policy} {pv : PolicyVersion}
    {author changeDescription timestamp : Str} (h : Sound env w)
    (hsave : save env w.files (.ofPolicy policy) author changeDescription timestamp =
      .ok (files, pv)) : Sound env ⟨files, w.produced ++ [pv]⟩ := by
  have hplain := plain_of_save hsave
  obtain ⟨name,version,text,-,-,-,-,htext,rfl⟩ := saved_of_save hsave
  refine ⟨fun name' file c hfile hget hverify => ?_, fun q hq => ?_⟩
  · by_cases hfresh : Fresh name version name' file
    · rw [get?_written_fresh hfile hfresh] at hget
      cases hget
      exact ⟨pv, List.mem_append_right _ List.mem_cons_self, htext⟩
    · obtain ⟨hsame,hsig⟩ :=
        @get?_written_other env w.files name name' file text timestamp version hfile hfresh
      rw [hsame] at hget
      rw [hsig] at hverify
      obtain ⟨q,hq,hqtext⟩ := h.backed name' file c hfile hget hverify
      exact ⟨q, List.mem_append_left _ hq, hqtext⟩
  · rcases List.mem_append.mp hq with hq | hq
    · exact h.plain q hq
    · exact List.mem_singleton.mp hq ▸ hplain

theorem Sound.step (hkey : env.key = some mac) {s : Step} (h : Sound env w)
    (hs : Unforged env w s) (hstep : step env w s = some (w', es)) : Sound env w' := by
  rcases step_call hstep with ⟨name,file,content,rfl,rfl⟩ | ⟨name,file,rfl,rfl⟩ | rfl |
    ⟨policy,_,_,_,files,pv,hsave,rfl,rfl⟩ | ⟨name,version,_,_,files,pv,hrollback,rfl,rfl⟩
  · exact ⟨hs, h.plain⟩
  · exact ⟨h.backed.erase hkey name file, h.plain⟩
  · exact h
  · exact h.written hsave
  · obtain ⟨target,hload,hsave⟩ := target_of_rollback hrollback
    obtain ⟨content,hget,hfile⟩ := load_version hload
    obtain ⟨htarget,-⟩ := h.loadFile hkey (.inr ⟨version, rfl⟩) hget hfile
    obtain ⟨p,_,_,_,_,_,-,rfl⟩ := h.plain target htarget
    exact h.written hsave

theorem sound_of_run (hkey : env.key = some mac) {steps : List Step} (h : Sound env w)
    (hunforged : Meets (step env) (Unforged env) w steps)
    (hrun : exec (step env) w steps = some (w', es)) : Sound env w' := by
  have hkeep : ∀ (past : List PolicyVersion) v s v' es, Sound env v → Unforged env v s →
      PolicyStore.step env v s = some (v', es) → Sound env v' :=
    fun _ _ _ _ _ hv hs hstep => hv.step hkey hs hstep
  exact exec_invariant hkeep [] h hunforged hrun

theorem sound_start : Sound env {} :=
  ⟨fun _ _ _ _ hget => absurd hget.symm (Option.some_ne_none _),
    fun _ hpv => absurd hpv List.not_mem_nil⟩

def openedFile (version : Option Int) : Str := version.elim latestFile versionFile

-- What stands in the file that load opens, if it was saved, was saved there. And where there is no
-- latest file, every version file that reads as a version was saved under that name.
structure Placed (env : Env) (w : World) (name : Str) (version : Option Int) : Prop where
  own : ∀ c, Dict.get? w.files (name, openedFile version) = some (.text c) →
    ∀ pv ∈ w.produced, IsText pv c →
      pv.policy.name = .str name ∧ ∀ n, version = some n → pv.version = .int n
  fallback : version = none → Dict.get? w.files (name, latestFile) = none →
    ∀ file content read, ((name, file), content) ∈ w.files → isVersionFile file = true →
      readVersionFile env content = .ok (some read) →
        ∃ c, content = .text c ∧ ∃ pv ∈ w.produced, IsText pv c ∧ pv.policy.name = .str name

def Authentic (produced : List PolicyVersion) (name : Str) (version : Option Int)
    (outcome : Except PyError (Option PolicyVersion)) : Prop :=
  ∀ pv, outcome = .ok (some pv) → pv ∈ produced ∧ pv.policy.name = .str name ∧
    ∀ n, version = some n → pv.version = .int n

theorem mem_of_greatest {best top : PolicyVersion} {pvs : List PolicyVersion}
    (h : greatest env best pvs = .ok top) : top ∈ best :: pvs := by
  induction pvs generalizing best with
  | nil =>
    cases h
    exact List.mem_singleton_self _
  | cons pv pvs ih =>
    obtain ⟨above,-,h⟩ := bind_eq_ok.mp h
    cases above with
    | true => exact List.mem_cons_of_mem best (ih h)
    | false =>
      rcases List.mem_cons.mp (ih h) with rfl | hmem
      · exact List.mem_cons_self
      · exact List.mem_cons_of_mem best (List.mem_cons_of_mem pv hmem)

theorem mem_of_newest {pvs : List PolicyVersion} {pv : PolicyVersion}
    (h : newest env pvs = .ok (some pv)) : pv ∈ pvs := by
  cases pvs with
  | nil => cases h
  | cons first pvs =>
    obtain ⟨top,htop,h⟩ := bind_eq_ok.mp h
    cases h
    exact mem_of_greatest htop

theorem authentic_load (hkey : env.key = some mac) (h : Sound env w) {version : Option Int}
    (hplaced : Placed env w name version) :
    Authentic w.produced name version (load env w.files name version) := by
  intro pv hload
  cases version with
  | some n =>
    obtain ⟨content,hget,hfile⟩ := load_version hload
    obtain ⟨hpv,c,rfl,htext⟩ := h.loadFile hkey (.inr ⟨n, rfl⟩) hget hfile
    exact ⟨hpv, hplaced.own c hget pv hpv htext⟩
  | none =>
    obtain ⟨_,-,hload⟩ := bind_eq_ok.mp hload
    dsimp only at hload
    split at hload
    · next content hget =>
      obtain ⟨hpv,c,rfl,htext⟩ := h.loadFile hkey (.inl rfl) hget hload
      exact ⟨hpv, hplaced.own c hget pv hpv htext⟩
    · next hget =>
      obtain ⟨pvs,hlist,hnewest⟩ := bind_eq_ok.mp hload
      obtain ⟨file,content,hmem,hfile,hread⟩ :=
        (mem_listVersions hlist).mp (mem_of_newest hnewest)
      obtain ⟨c,rfl,q,hq,htext,hname⟩ := hplaced.fallback rfl hget file content pv hmem hfile hread
      rw [readVersionFile_text (h.plain q hq) htext] at hread
      cases hread
      exact ⟨hq, hname, fun n hn => absurd hn.symm (Option.some_ne_none n)⟩

theorem loaded_versions_authentic (hkey : env.key = some mac) {steps : List Step}
    (hunforged : Meets (step env) (Unforged env) {} steps)
    (hrun : exec (step env) {} steps = some (w, es)) {version : Option Int}
    (hplaced : Placed env w name version) :
    Authentic w.produced name version (load env w.files name version) :=
  authentic_load hkey (sound_of_run hkey sound_start hunforged hrun) hplaced

def webPolicy : Policy := { name := "web".toList }

def openPolicy : Policy := { name := "web".toList, defaultAction := .allow }

def sampleEnv : Env := .half (some id)

def saveWeb : Step := .save webPolicy "alice".toList [] "t".toList

def forgedText : Str := versionText openPolicy (.int 2) "mallory".toList [] [] []

-- The pointer is deleted and an unsigned version written beside the signed one.
def forgeVersion : List Step :=
  [saveWeb, .remove "web".toList latestFile, .write "web".toList (versionFile 2) (.text forgedText)]

def webText : Str := versionText webPolicy (.int 1) "alice".toList "t".toList [] []

def webVersion : PolicyVersion := plainVersion webPolicy (.int 1) "alice".toList "t".toList [] []

def forgedVersion : PolicyVersion := plainVersion openPolicy (.int 2) "mallory".toList [] [] []

def savedFiles (text : Str) : Files := writeVersion sampleEnv [] "web".toList (.int 1) text "t".toList

def forgedFiles (text forged : Str) : Files :=
  Dict.set (Dict.erase (savedFiles text) ("web".toList, latestFile)) ("web".toList, versionFile 2)
    (.text forged)

theorem step_saveWeb : step sampleEnv {} saveWeb =
    some (⟨savedFiles webText, [webVersion]⟩, [webVersion]) := by
  have hversion : nextVersion sampleEnv [] webPolicy.name = .ok (.int 1) := rfl
  have hname : validName webPolicy.name = true := by decide
  rw [saveWeb, step, save_ofPolicy hname hversion]
  rfl

theorem exec_forgeVersion : exec (step sampleEnv) {} forgeVersion =
    some (⟨forgedFiles webText forgedText, [webVersion]⟩, [webVersion]) := by
  rw [forgeVersion, exec, step_saveWeb]
  rfl

theorem listed_forged (text forged : Str) :
    (ascending Prod.fst (directory (forgedFiles text forged) "web".toList)).filter
        (fun e => isVersionFile e.1) =
      [(versionFile 1, .text text), (versionFile 2, .text forged)] := by
  rfl

theorem load_forged : load sampleEnv (forgedFiles webText forgedText) "web".toList none =
    .ok (some forgedVersion) := by
  have hweb : readVersionFile sampleEnv (.text webText) = .ok (some webVersion) :=
    readVersionFile_text ⟨_, _, _, _, _, _, Json.held_int _, rfl⟩ (isText_plain _ _ _ _ _ _)
  have hforged : readVersionFile sampleEnv (.text forgedText) = .ok (some forgedVersion) :=
    readVersionFile_text ⟨_, _, _, _, _, _, Json.held_int _, rfl⟩ (isText_plain _ _ _ _ _ _)
  have hread : [(versionFile 1, FileContent.text webText), (versionFile 2, .text forgedText)].mapM
      (fun e => readVersionFile sampleEnv e.2) = .ok [some webVersion, some forgedVersion] := by
    rw [List.mapM_cons, List.mapM_cons, hweb, hforged]
    rfl
  have hlist : listVersions sampleEnv (forgedFiles webText forgedText) "web".toList =
      .ok [webVersion, forgedVersion] := by
    rw [listVersions, listed_forged, hread]
    rfl
  have hlatest : Dict.get? (forgedFiles webText forgedText) ("web".toList, latestFile) = none := rfl
  have hname : validatePolicyName "web".toList = .ok () := rfl
  rw [load, bind_of_eq_ok hname, hlatest, bind_of_eq_ok hlist]
  rfl

theorem unsigned_version_served : ∃ w es,
    Meets (step sampleEnv) (Unforged sampleEnv) {} forgeVersion ∧
      exec (step sampleEnv) {} forgeVersion = some (w, es) ∧
      ¬Authentic w.produced "web".toList none (load sampleEnv w.files "web".toList none) := by
  have hkey : sampleEnv.key = some id := rfl
  have hsave : Unforged sampleEnv {} saveWeb := trivial
  have hsound : Sound sampleEnv ⟨savedFiles webText, [webVersion]⟩ :=
    sound_start.step hkey hsave step_saveWeb
  have hnone : Dict.get? (Dict.erase (savedFiles webText) ("web".toList, latestFile))
      ("web".toList, companion (versionFile 2)) = none := rfl
  have hforged : Backed sampleEnv (forgedFiles webText forgedText) [webVersion] :=
    (hsound.backed.erase hkey _ _).unsigned hkey (.inr ⟨2, rfl⟩) hnone (.text forgedText)
  refine ⟨_, _, ⟨hsave, ?_⟩, exec_forgeVersion, ?_⟩
  · intro r hr
    rw [step_saveWeb] at hr
    cases hr
    refine ⟨trivial, ?_⟩
    rintro r ⟨⟩
    exact ⟨hforged, fun _ _ => trivial⟩
  · intro hauthentic
    have hmem := (hauthentic forgedVersion load_forged).1
    have hversion := congrArg PolicyVersion.version (List.mem_singleton.mp hmem)
    exact absurd (Json.int.inj hversion) (by decide)

-- A party without the key writes a version of its own beside the saved one.
def forgeBeside : List Step := [saveWeb, .write "web".toList (versionFile 2) (.text forgedText)]

def besideFiles (text forged : Str) : Files :=
  Dict.set (savedFiles text) ("web".toList, versionFile 2) (.text forged)

theorem exec_forgeBeside : exec (step sampleEnv) {} forgeBeside =
    some (⟨besideFiles webText forgedText, [webVersion]⟩, [webVersion]) := by
  rw [forgeBeside, exec, step_saveWeb]
  rfl

theorem placed_beside :
    Placed sampleEnv ⟨besideFiles webText forgedText, [webVersion]⟩ "web".toList none where
  own := by
    intro c hget pv hpv htext
    obtain rfl := List.mem_singleton.mp hpv
    exact ⟨rfl, fun n hn => absurd hn.symm (Option.some_ne_none n)⟩
  fallback := fun _ hnone => absurd hnone.symm (Option.some_ne_none _).symm

theorem saved_version_authentic : ∃ w es,
    exec (step sampleEnv) {} forgeBeside = some (w, es) ∧
      Authentic w.produced "web".toList none (load sampleEnv w.files "web".toList none) := by
  have hkey : sampleEnv.key = some id := rfl
  have hsound : Sound sampleEnv ⟨savedFiles webText, [webVersion]⟩ :=
    sound_start.step hkey (s := saveWeb) trivial step_saveWeb
  have hnone : Dict.get? (savedFiles webText) ("web".toList, companion (versionFile 2)) = none := rfl
  have hunforged : Meets (step sampleEnv) (Unforged sampleEnv) {} forgeBeside := by
    refine ⟨trivial, fun r hr => ?_⟩
    cases step_saveWeb.symm.trans hr
    exact ⟨hsound.backed.unsigned hkey (.inr ⟨2, rfl⟩) hnone (.text forgedText), fun _ _ => trivial⟩
  exact ⟨_, _, exec_forgeBeside,
    loaded_versions_authentic hkey hunforged exec_forgeBeside placed_beside⟩

end Authentic

end PicoSentry.Sandbox.PolicyStore
