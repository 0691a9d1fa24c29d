import PicoSentry.Foundation.UrlResolve
import PicoSentry.Scan.InputHash

namespace PicoSentry.Scan.InputHash

open Foundation EcosystemDetection

section Paths

variable {path : List Name} {U : Unicode}

theorem nul_not_mem_asPosix : '\x00' ∉ asPosix path := by
  intro hmem
  rcases Url.mem_intercalate hmem with hslash | ⟨part,hpart,hc⟩
  · exact absurd hslash (by decide)
  · obtain ⟨name,_,rfl⟩ := List.mem_map.mp hpart
    exact name.no_nul hc

theorem asPosix_cons_cons (name next : Name) (rest : List Name) :
    asPosix (name :: next :: rest) = name.text ++ '/' :: asPosix (next :: rest) := by
  rw [asPosix, parts, List.map_cons, List.map_cons, List.intercalate_cons_cons, List.append_assoc]
  rfl

theorem path_of_no_slash (hne : path ≠ []) (h : '/' ∉ asPosix path) :
    ∃ name, path = [name] ∧ name.text = asPosix path := by
  match path, hne with
  | [name], _ => exact ⟨name, rfl, (List.intercalate_singleton ..).symm⟩
  | name :: next :: rest, _ =>
    rw [asPosix_cons_cons] at h
    exact absurd (List.mem_append_right _ List.mem_cons_self) h

theorem isScanInput_nil : isScanInput U [] = false := by
  have hlower : U.lowerStr (fileName []) = [] := rfl
  rw [isScanInput, hlower]
  decide

theorem isScanInput_marker {name : Name} (hname : name.text = "nm-content:".toList ∨ name.text = "ecosystems:".toList) :
    isScanInput U [name] = false := by
  have hascii : ∀ c ∈ name.text, c.toNat < 128 := by
    rcases hname with h | h <;> rw [h] <;> simp
  have hlower : U.lowerStr (fileName [name]) = name.text.map Char.toLower := Unicode.lowerStr_ascii hascii
  rw [isScanInput, hlower]
  have hfile : fileName [name] = name.text := rfl
  have hparts : parts [name] = [name.text] := rfl
  rw [hfile, hparts]
  rcases hname with h | h <;> rw [h] <;> decide

end Paths

section Sampled

structure Walk.Sound (w : Walk) : Prop where
  inside : ∀ file ∈ w.files, ∃ pkg rest, file.1 = asPosix (nodeModulesName :: pkg :: rest)
  total : w.total = (w.files.map fun file => file.2.length).sum

variable {directory : List Str} {w : Walk}

theorem Walk.Sound.add (h : w.Sound) (pkg : Name) (rest : List Name) (data : Bytes) :
    (w.add (nodeModulesName :: pkg :: rest) data).Sound where
  inside file hfile := by
    rcases List.mem_append.mp hfile with hfile | hfile
    · exact h.inside file hfile
    · rw [List.mem_singleton.mp hfile]
      exact ⟨pkg, rest, rfl⟩
  total := by
    rw [Walk.add, List.map_append, List.sum_append, h.total]
    rfl

theorem Walk.Sound.walkFiles (h : w.Sound) (pkg : Name) (path : List Name) (count : Nat)
    (files : List FileEntry) :
    (walkFiles directory (nodeModulesName :: pkg :: path) count w files).Sound := by
  induction files generalizing count w with
  | nil => exact h
  | cons file files ih =>
    rw [InputHash.walkFiles]
    split_ifs
    · exact h
    · split
      · exact ih h count
      · next data _ => exact ih (h.add pkg (path ++ file.path) data) (count + 1)
    · exact ih h count

theorem Walk.Sound.walkPkg (h : w.Sound) (pkg : Name) (path : List Name) (files : List FileEntry) :
    (walkPkg directory (nodeModulesName :: pkg :: path) w files).Sound := by
  rw [InputHash.walkPkg]
  split_ifs
  · exact h
  · exact h.walkFiles pkg path 0 _

theorem Walk.Sound.walkScoped (h : w.Sound) (child : Name) (pkgs : List Package) :
    (pkgs.foldl (walkScoped directory child) w).Sound := by
  induction pkgs generalizing w with
  | nil => exact h
  | cons pkg pkgs ih =>
    refine ih ?_
    rw [InputHash.walkScoped]
    split_ifs
    · exact h.walkPkg child [pkg.name] _
    · exact h

theorem Walk.Sound.walkChildren (h : w.Sound) (children : List NmChild) :
    (walkChildren directory w children).Sound := by
  induction children generalizing w with
  | nil => exact h
  | cons child children ih =>
    rw [InputHash.walkChildren]
    split_ifs
    · exact h
    · exact ih h
    · exact ih (h.walkScoped child.name _)
    · exact ih (h.walkPkg child.name [] _)

theorem sound_of_nodeModulesWalk {t : Target} (h : nodeModulesWalk t = some w) : w.Sound := by
  have hempty : Walk.Sound {} := ⟨fun _ hfile => absurd hfile List.not_mem_nil, rfl⟩
  cases t with
  | directory d =>
    obtain ⟨children,_,rfl⟩ := Option.map_eq_some_iff.mp h
    exact hempty.walkChildren _
  | file => cases h
  | missing => cases h

end Sampled

section Inputs

variable (U : Unicode)

def readable (files : List (Str × Option Bytes)) : List (Str × Bytes) :=
  files.filterMap fun file => file.2.map fun data => (file.1, data)

def size (files : List (Str × Bytes)) : Nat := (files.map fun file => file.2.length).sum

def scanInputs (t : Target) : List (Str × Bytes) := readable (sortedInputs U t)

def sampledFiles (t : Target) : List (Str × Bytes) := ((nodeModulesWalk t).map Walk.files).getD []

structure BelowCaps (t : Target) : Prop where
  files : (inputFiles U t).length ≤ maxInputFiles
  bytes : size (scanInputs U t) ≤ maxInputBytes
  sampled : nodeModulesBytes t < nmContentBudgetBytes

variable {U} {t : Target}

theorem hashFiles_eq (h : Hashed) (files : List (Str × Option Bytes))
    (hbytes : h.total + size (readable files) ≤ maxInputBytes) :
    hashFiles h files = ⟨h.files ++ readable files, h.total + size (readable files), h.truncated⟩ := by
  induction files generalizing h with
  | nil => simp [hashFiles, readable, size]
  | cons file files ih =>
    obtain ⟨path,data?⟩ := file
    cases data? with
    | none => exact ih h hbytes
    | some data =>
      have hread : readable ((path, some data) :: files) = (path, data) :: readable files := rfl
      have hsize : size ((path, data) :: readable files) = data.length + size (readable files) := rfl
      rw [hread, hsize, ← Nat.add_assoc] at hbytes
      have hle : ¬maxInputBytes < h.total + data.length := by omega
      rw [hashFiles, if_neg hle, ih _ hbytes, hread, hsize, List.append_assoc, Nat.add_assoc]
      rfl

theorem scanInputs_path {file : Str × Bytes} (h : file ∈ scanInputs U t) :
    '\x00' ∉ file.1 ∧ file.1 ∉ [[], "nm-content:".toList, "ecosystems:".toList] := by
  obtain ⟨entry,hentry,hread⟩ := List.mem_filterMap.mp h
  obtain ⟨data,_,rfl⟩ := Option.map_eq_some_iff.mp hread
  have hinput : entry ∈ inputFiles U t := (perm_ascending Prod.fst _).mem_iff.mp hentry
  cases t with
  | file data =>
    have hdot : '\x00' ∉ ".".toList ∧ ".".toList ∉ [[], "nm-content:".toList, "ecosystems:".toList] := by
      decide
    rw [List.mem_singleton.mp hinput]
    exact hdot
  | missing => cases hinput
  | directory d =>
    obtain ⟨f,hf,rfl⟩ := List.mem_map.mp hinput
    refine ⟨nul_not_mem_asPosix, fun hmem => ?_⟩
    have hscan : isScanInput U f.path = true := by
      have := (List.mem_filter.mp hf).2
      simp only [Bool.and_eq_true] at this
      exact this.2
    have hne : f.path ≠ [] := by
      intro hnil
      rw [hnil, isScanInput_nil] at hscan
      cases hscan
    have hslash : '/' ∉ asPosix f.path := by
      have hmarkers : ∀ text ∈ [[], "nm-content:".toList, "ecosystems:".toList], '/' ∉ text := by decide
      exact hmarkers _ hmem
    obtain ⟨name,hpath,hname⟩ := path_of_no_slash hne hslash
    rw [← hname] at hmem
    have hmarker := (List.mem_cons.mp hmem).resolve_left name.ne_nil
    rw [hpath, isScanInput_marker (by simpa using hmarker)] at hscan
    cases hscan

end Inputs

section Stream

variable {U : Unicode} {sha : Sha256} {t t' : Target}

-- The text between the node_modules records and the ecosystems where no file is an input.
def onlyFed (U : Unicode) (t : Target) : Bytes :=
  if inputFiles U t = [] ∧ nodeModulesBytes t ≠ 0 then
    utf8 ("nm-only:".toList ++ decimal (nodeModulesBytes t))
  else []

theorem hashInput_eq (h : BelowCaps U t) : (hashInput U sha t).1 =
    fileRecords sha (scanInputs U t) ++ (nodeModulesFed sha t ++ (onlyFed U t ++ ecosystemFed t)) := by
  rw [hashInput, onlyFed]
  by_cases hfiles : inputFiles U t = []
  · have hnone : scanInputs U t = [] := by rw [scanInputs, sortedInputs, hfiles]; rfl
    rw [if_pos hfiles, hnone]
    by_cases hbytes : nodeModulesBytes t = 0
    · simp [hfiles, hbytes, fileRecords, records]
    · simp [hfiles, hbytes, fileRecords, records]
  · have htake : (sortedInputs U t).take maxInputFiles = sortedInputs U t := by
      refine List.take_of_length_le ?_
      rw [sortedInputs, (perm_ascending Prod.fst _).length_eq]
      exact h.files
    have hhash := hashFiles_eq { truncated := decide (maxInputFiles < (inputFiles U t).length) }
      (sortedInputs U t) (by rw [Nat.zero_add]; exact h.bytes)
    have hnot : decide (maxInputFiles < (inputFiles U t).length) = false :=
      decide_eq_false (not_lt.mpr h.files)
    rw [if_neg hfiles]
    dsimp only
    rw [htake, hhash, hnot]
    simp [hfiles, scanInputs]

def InputKey (key : Bytes) : Prop := key ∉ [[], nmContentMarker, ecosystemsMarker]

def InsideKey (key : Bytes) : Prop := utf8 "node_modules/".toList <+: key

theorem tagged_files {P : Bytes → Prop} {files : List (Str × Bytes)}
    (h : ∀ file ∈ files, '\x00' ∉ file.1 ∧ P (utf8 file.1)) :
    ∀ p ∈ files.map fun file => (utf8 file.1, sha.digest file.2), Tagged P 32 p := by
  intro p hp
  obtain ⟨file,hfile,rfl⟩ := List.mem_map.mp hp
  exact ⟨zero_not_mem_utf8 (h file hfile).1, (h file hfile).2, sha.length_digest _⟩

theorem tagged_inputs : ∀ p ∈ (scanInputs U t).map fun file => (utf8 file.1, sha.digest file.2),
    Tagged InputKey 32 p := by
  refine tagged_files fun file hfile => ?_
  obtain ⟨hnul,hmarker⟩ := scanInputs_path hfile
  refine ⟨hnul, fun hkey => hmarker ?_⟩
  have hmarkers : [[], nmContentMarker, ecosystemsMarker] =
      [[], "nm-content:".toList, "ecosystems:".toList].map utf8 := rfl
  rw [hmarkers] at hkey
  exact (List.mem_map_of_injective utf8_injective).mp hkey

theorem tagged_sampled {w : Walk} (h : nodeModulesWalk t = some w) :
    ∀ p ∈ w.files.map fun file => (utf8 file.1, sha.digest file.2), Tagged InsideKey 32 p := by
  refine tagged_files fun file hfile => ?_
  obtain ⟨pkg,rest,hpath⟩ := (sound_of_nodeModulesWalk h).inside file hfile
  rw [hpath]
  refine ⟨nul_not_mem_asPosix, ?_⟩
  have hposix : asPosix (nodeModulesName :: pkg :: rest) =
      "node_modules/".toList ++ asPosix (pkg :: rest) := asPosix_cons_cons _ _ _
  rw [hposix, utf8_append]
  exact List.prefix_append _ _

theorem token_marker {marker : Str} (h : '\x00' ∉ marker) (rest : Bytes) :
    token (utf8 marker ++ 0 :: rest) = utf8 marker :=
  token_append_zero (zero_not_mem_utf8 h) rest

theorem token_ecosystemFed (t : Target) : token (ecosystemFed t) = [] ∨ token (ecosystemFed t) = ecosystemsMarker := by
  rw [ecosystemFed]
  split_ifs
  · exact .inl rfl
  · exact .inr (token_marker (by decide) _)

theorem nodeModulesFed_of_none (h : nodeModulesWalk t = none) : nodeModulesFed sha t = [] := by
  rw [nodeModulesFed, h]

theorem nodeModulesFed_of_some (hcaps : BelowCaps U t) {w : Walk} (h : nodeModulesWalk t = some w) :
    nodeModulesFed sha t = nmContentMarker ++ 0 :: fileRecords sha w.files := by
  have hbytes : nodeModulesBytes t = w.total := by rw [nodeModulesBytes, h]; rfl
  have hcut : nmTruncated w.total = [] := if_neg (not_le.mpr (hbytes ▸ hcaps.sampled))
  rw [nodeModulesFed, h]
  simp [hcut]

theorem onlyFed_of_none (h : nodeModulesWalk t = none) : onlyFed U t = [] := by
  have hbytes : nodeModulesBytes t = 0 := by rw [nodeModulesBytes, h]; rfl
  rw [onlyFed, if_neg fun hboth => hboth.2 hbytes]

theorem token_after_inputs (hcaps : BelowCaps U t) :
    ¬InputKey (token (nodeModulesFed sha t ++ (onlyFed U t ++ ecosystemFed t))) := by
  rw [InputKey, not_not]
  cases h : nodeModulesWalk t with
  | none =>
    rw [nodeModulesFed_of_none h, onlyFed_of_none h, List.nil_append, List.nil_append]
    rcases token_ecosystemFed t with heq | heq <;> rw [heq] <;> simp
  | some w =>
    rw [nodeModulesFed_of_some hcaps h, List.append_assoc, List.cons_append, nmContentMarker,
      token_marker (by decide)]
    simp

theorem only_text (n : Nat) (rest : Bytes) : utf8 ("nm-only:".toList ++ decimal n) ++ rest =
    110 :: 109 :: (utf8 ("-only:".toList ++ decimal n) ++ rest) := rfl

theorem token_after_sampled (U : Unicode) (t : Target) : ¬InsideKey (token (onlyFed U t ++ ecosystemFed t)) := by
  rw [onlyFed]
  split_ifs
  · have hkey : token (utf8 ("nm-only:".toList ++ decimal (nodeModulesBytes t)) ++ ecosystemFed t) =
        110 :: 109 :: token (utf8 ("-only:".toList ++ decimal (nodeModulesBytes t)) ++ ecosystemFed t) := by
      rw [only_text]
      rfl
    rw [hkey]
    rintro ⟨rest,hrest⟩
    have hinside : utf8 "node_modules/".toList ++ rest = 110 :: 111 :: (utf8 "de_modules/".toList ++ rest) := rfl
    rw [hinside] at hrest
    exact absurd (List.cons.inj (List.cons.inj hrest).2).1 (by decide)
  · rw [List.nil_append]
    rcases token_ecosystemFed t with heq | heq <;> rw [heq] <;> unfold InsideKey <;> decide

theorem nodeModulesFed_inj (hcaps : BelowCaps U t) (hcaps' : BelowCaps U t')
    (h : nodeModulesFed sha t ++ (onlyFed U t ++ ecosystemFed t) =
      nodeModulesFed sha t' ++ (onlyFed U t' ++ ecosystemFed t')) :
    ((sampledFiles t).map fun file => (utf8 file.1, sha.digest file.2)) =
      ((sampledFiles t').map fun file => (utf8 file.1, sha.digest file.2)) ∧
      onlyFed U t ++ ecosystemFed t = onlyFed U t' ++ ecosystemFed t' := by
  have hmarker : ∀ {a b : Target} {w : Walk}, nodeModulesWalk a = none → nodeModulesWalk b = some w →
      BelowCaps U b → nodeModulesFed sha a ++ (onlyFed U a ++ ecosystemFed a) ≠
        nodeModulesFed sha b ++ (onlyFed U b ++ ecosystemFed b) := by
    intro a b w ha hb hb' heq
    have htoken := congrArg token heq
    rw [nodeModulesFed_of_none ha, onlyFed_of_none ha, nodeModulesFed_of_some hb' hb, List.nil_append,
      List.nil_append, List.append_assoc, List.cons_append, nmContentMarker, token_marker (by decide)] at htoken
    rcases token_ecosystemFed a with hempty | heco
    · rw [hempty] at htoken
      revert htoken
      decide
    · rw [heco] at htoken
      revert htoken
      decide
  cases hw : nodeModulesWalk t with
  | none =>
    cases hw' : nodeModulesWalk t' with
    | none =>
      rw [nodeModulesFed_of_none hw, nodeModulesFed_of_none hw', List.nil_append, List.nil_append] at h
      exact ⟨by rw [sampledFiles, sampledFiles, hw, hw'], h⟩
    | some w' => exact absurd h (hmarker hw hw' hcaps')
  | some w =>
    cases hw' : nodeModulesWalk t' with
    | none => exact absurd h.symm (hmarker hw' hw hcaps)
    | some w' =>
      rw [nodeModulesFed_of_some hcaps hw, nodeModulesFed_of_some hcaps' hw', List.append_assoc,
        List.append_assoc, List.cons_append, List.cons_append] at h
      have hrecords := (List.cons.inj (List.append_cancel_left h)).2
      rw [sampledFiles, sampledFiles, hw, hw']
      exact records_append_inj (tagged_sampled hw) (tagged_sampled hw') (token_after_sampled U t)
        (token_after_sampled U t') hrecords

theorem ecosystemFed_inj (hbytes : nodeModulesBytes t = nodeModulesBytes t')
    (h : onlyFed U t ++ ecosystemFed t = onlyFed U t' ++ ecosystemFed t') :
    ecosystemFed t = ecosystemFed t' := by
  have hhead : ∀ (n : Nat) (a b : Target),
      utf8 ("nm-only:".toList ++ decimal n) ++ ecosystemFed a ≠ ecosystemFed b := by
    intro n a b heq
    have htoken := congrArg token heq
    rw [only_text] at htoken
    rcases token_ecosystemFed b with hempty | heco
    · exact absurd (htoken.trans hempty) (List.cons_ne_nil _ _)
    · exact absurd (List.cons.inj (htoken.trans heco)).1 (by decide)
  simp only [onlyFed] at h
  split_ifs at h
  · rw [hbytes] at h
    exact List.append_cancel_left h
  · exact absurd h (hhead _ _ _)
  · exact absurd h.symm (hhead _ _ _)
  · exact h

theorem detected_of_ecosystemFed (h : ecosystemFed t = ecosystemFed t') : detected t = detected t' := by
  have hcomma : ∀ (a : Target), ∀ eco ∈ detected a, ',' ∉ eco := by
    intro a eco heco
    cases a with
    | directory d =>
      obtain ⟨marker,hmarker,rfl,_⟩ :=
        (mem_detectEcosystems_iff eco).mp ((perm_ascending id _).mem_iff.mp heco)
      have hnames : ∀ marker ∈ ecoManifestMarkers, ',' ∉ marker.1 := by decide
      exact hnames marker hmarker
    | file => cases heco
    | missing => cases heco
  simp only [ecosystemFed] at h
  split_ifs at h with hnil hnil' hnil'
  · rw [hnil, hnil']
  · exact absurd h.symm (List.append_ne_nil_of_right_ne_nil _ (List.cons_ne_nil _ _))
  · exact absurd h (List.append_ne_nil_of_right_ne_nil _ (List.cons_ne_nil _ _))
  · have hjoined := utf8_injective (List.cons.inj (List.append_cancel_left h)).2
    rw [← List.splitOn_intercalate ',' (hcomma t) hnil, hjoined, List.splitOn_intercalate ',' (hcomma t') hnil']

def contents (U : Unicode) (t : Target) : List Bytes :=
  (scanInputs U t ++ sampledFiles t).map Prod.snd

def NoCollision (U : Unicode) (sha : Sha256) (t t' : Target) : Prop :=
  ∀ data ∈ contents U t, ∀ data' ∈ contents U t', sha.digest data = sha.digest data' → data = data'

theorem files_of_records {files files' : List (Str × Bytes)}
    (hdigest : ∀ file ∈ files, ∀ file' ∈ files', sha.digest file.2 = sha.digest file'.2 → file.2 = file'.2)
    (h : (files.map fun file => (utf8 file.1, sha.digest file.2)) =
      files'.map fun file => (utf8 file.1, sha.digest file.2)) : files = files' := by
  induction files generalizing files' with
  | nil => exact (List.map_eq_nil_iff.mp h.symm).symm
  | cons file files ih =>
    cases files' with
    | nil => cases h
    | cons file' files' =>
      obtain ⟨hfirst,hrest⟩ := List.cons.inj h
      obtain ⟨hpath,hdata⟩ := Prod.mk.inj hfirst
      have hfile : file = file' := Prod.ext (utf8_injective hpath)
        (hdigest file List.mem_cons_self file' List.mem_cons_self hdata)
      rw [hfile, ih (fun f hf f' hf' => hdigest f (List.mem_cons_of_mem _ hf) f' (List.mem_cons_of_mem _ hf')) hrest]

theorem stream_determines_inputs (U : Unicode) (sha : Sha256) (t t' : Target) (hcaps : BelowCaps U t)
    (hcaps' : BelowCaps U t') (hdigest : NoCollision U sha t t')
    (h : (hashInput U sha t).1 = (hashInput U sha t').1) :
    scanInputs U t = scanInputs U t' ∧ sampledFiles t = sampledFiles t' ∧ detected t = detected t' := by
  rw [hashInput_eq hcaps, hashInput_eq hcaps'] at h
  obtain ⟨hinputs,hrest⟩ := records_append_inj tagged_inputs tagged_inputs (token_after_inputs hcaps)
    (token_after_inputs hcaps') h
  obtain ⟨hsampled,honly⟩ := nodeModulesFed_inj hcaps hcaps' hrest
  have hmem : ∀ {a : Target} {file : Str × Bytes}, file ∈ scanInputs U a ∨ file ∈ sampledFiles a →
      file.2 ∈ contents U a := fun hfile => List.mem_map_of_mem (List.mem_append.mpr hfile)
  have hsame : scanInputs U t = scanInputs U t' := files_of_records
    (fun file hf file' hf' => hdigest _ (hmem (.inl hf)) _ (hmem (.inl hf'))) hinputs
  have hfiles : sampledFiles t = sampledFiles t' := files_of_records
    (fun file hf file' hf' => hdigest _ (hmem (.inr hf)) _ (hmem (.inr hf'))) hsampled
  have hbytes : ∀ a, nodeModulesBytes a = size (sampledFiles a) := by
    intro a
    rw [nodeModulesBytes, sampledFiles]
    cases hw : nodeModulesWalk a with
    | none => rfl
    | some w => exact (sound_of_nodeModulesWalk hw).total
  refine ⟨hsame, hfiles, detected_of_ecosystemFed (ecosystemFed_inj (U := U) ?_ honly)⟩
  rw [hbytes, hbytes, hfiles]

end Stream

section Example

-- The digests of no data and of an empty object.
def sampleDigest (data : Bytes) : Bytes :=
  if data = [] then
    [227, 176, 196, 66, 152, 252, 28, 20, 154, 251, 244, 200, 153, 111, 185, 36, 39, 174, 65, 228,
     100, 155, 147, 76, 164, 149, 153, 27, 120, 82, 184, 85]
  else if data = [123, 125] then
    [68, 19, 111, 163, 85, 179, 103, 138, 17, 70, 173, 22, 247, 232, 100, 158, 148, 251, 79, 194, 31,
     231, 126, 131, 16, 192, 96, 246, 28, 170, 255, 138]
  else List.replicate 32 0

def sampleSha : Sha256 where
  digest := sampleDigest
  length_digest data := by
    rw [sampleDigest]
    split_ifs <;> rfl

def packageJson : FileEntry :=
  { path := [⟨"package.json".toList, by decide, by decide, by decide⟩], data := some [123, 125] }

def indexJs : FileEntry :=
  { path := [⟨"index.js".toList, by decide, by decide, by decide⟩], data := some [] }

def project (files : List FileEntry) : Target :=
  .directory ⟨["/".toList, "home".toList, "ci".toList, "app".toList], files, none,
    fun path => if path = [] then some [{ name := "package.json".toList }] else none⟩

theorem belowCaps_project {files : List FileEntry} (hfiles : files ∈ [[packageJson, indexJs], [indexJs, packageJson]]) :
    BelowCaps Unicode.basic (project files) := by
  rcases List.mem_pair.mp hfiles with rfl | rfl
  · exact ⟨by decide, by decide, by decide⟩
  · exact ⟨by decide, by decide, by decide⟩

theorem stream_determines_inputs_reordered :
    scanInputs Unicode.basic (project [packageJson, indexJs]) =
        scanInputs Unicode.basic (project [indexJs, packageJson]) ∧
      sampledFiles (project [packageJson, indexJs]) = sampledFiles (project [indexJs, packageJson]) ∧
      detected (project [packageJson, indexJs]) = detected (project [indexJs, packageJson]) :=
  stream_determines_inputs Unicode.basic sampleSha _ _ (belowCaps_project (by simp))
    (belowCaps_project (by simp)) (by unfold NoCollision; decide) (by
      rw [hashInput_eq (belowCaps_project (by simp)), hashInput_eq (belowCaps_project (by simp))]
      have hrecords : fileRecords sampleSha (scanInputs Unicode.basic (project [packageJson, indexJs])) =
          fileRecords sampleSha (scanInputs Unicode.basic (project [indexJs, packageJson])) := by decide
      rw [hrecords]
      rfl)

end Example

end PicoSentry.Scan.InputHash
