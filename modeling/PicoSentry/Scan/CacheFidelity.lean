import PicoSentry.Scan.CachedResult

namespace PicoSentry.Scan.Models

open Foundation Json

section RoundTrip

variable {sha256 : Str → Str}

def ScanResult.restored (r : ScanResult) : ScanResult :=
  { r with
    findings := ScanResult.sortedFindings r.findings
    stats := r.stats.sorted
    packageIntel := r.packageIntel.map fun e => (.text e.1.json, e.2) }

-- What the engine makes: one execution for each rule, a dict of package intelligence whose number
-- keys have one text for each value, and no policy result yet.
structure ScanResult.Produced (r : ScanResult) : Prop where
  wellFormed : r.WellFormed
  scanner : r.scannerVersion ≠ []
  policy : r.policyResult = none
  evidence : r.behavioralEvidence ≠ some .null
  executions : (r.ruleExecutions.map RuleExecution.ruleId).Nodup
  keys : (Dict.keys r.packageIntel).Nodup
  numerals : ∀ k ∈ Dict.keys r.packageIntel, ∀ k' ∈ Dict.keys r.packageIntel,
    k.isText = false → k'.isText = false → (k.value = k'.value ↔ k.json = k'.json)

theorem ruleStatus_eq {r : ScanResult} (h : (r.ruleExecutions.map RuleExecution.ruleId).Nodup) :
    r.ruleStatus false =
      .obj (.ofList (r.ruleExecutions.map fun e => (e.ruleId, e.toDict false))) := by
  rw [ScanResult.ruleStatus, Dict.ofPairs_of_nodup]
  rwa [Dict.keys, List.map_map]

theorem mapM_executionOf (es : List RuleExecution) :
    (es.map fun e => e.toDict false).mapM executionOf = some es := by
  induction es with
  | nil => rfl
  | cons e es ih =>
    rw [List.map_cons, List.mapM_cons, executionOf_toDict, ih]
    rfl

theorem mapM_findingOf (fs : List Finding) :
    (fs.map Finding.toDict).mapM findingOf = some fs := by
  induction fs with
  | nil => rfl
  | cons f fs ih =>
    rw [List.map_cons, List.mapM_cons, findingOf_toDict, ih]
    rfl

theorem evidence?_of_ne {j : Json} (h : j ≠ .null) : evidence? j = some (some j) := by
  cases j with
  | null => exact absurd rfl h
  | _ => rfl

variable (sha256)

def cacheFields (r : ScanResult) : Dict Str Json :=
  sortedItems (Dict.present (r.entries sha256 false) ++
    ScanResult.intelEntry (r.packageIntel.map fun e => (e.1.json, e.2)))

theorem entries_nodup (r : ScanResult) : (Dict.keys (r.entries sha256 false)).Nodup :=
  show ScanResult.topKeys.Nodup by decide

theorem optional_cacheFields {α : Type} {read : Json → Option α} {default : α} (r : ScanResult)
    {key : String} (hk : key.toList ≠ "package_intel".toList) :
    optional read default (cacheFields sha256 r) key =
      optional read default (Dict.present (r.entries sha256 false)) key := by
  apply optional_congr
  have hget := r.get?_fields sha256 id (r.packageIntel.map fun e => (e.1.json, e.2)) false hk
  rw [Option.map_id, id, ← Dict.get?_present (entries_nodup sha256 r)] at hget
  rw [← hget, cacheFields]
  simp

theorem optional_intel (r : ScanResult) :
    optional dict? [] (cacheFields sha256 r) "package_intel" =
      some (r.packageIntel.map fun e => (e.1.json, e.2)) := by
  have hget := r.get?_intel sha256 id (r.packageIntel.map fun e => (e.1.json, e.2))
  simp only [id, List.map_id'] at hget
  rw [Json.optional, cacheFields, hget]
  split
  · next h =>
    split at h
    · next hnil => rw [hnil]
    · cases h
  · next j h =>
    split at h
    · cases h
    · cases h
      rw [dict?, toList_ofList]

theorem optional_audit (r : ScanResult) {key : String} {s default : Str}
    (hs : Dict.get? r.auditEntries key.toList = some (ScanResult.givenText s))
    (hdefault : s = [] → s = default) : optional text? default r.audit key = some s := by
  have hnodup : (Dict.keys r.auditEntries).Nodup :=
    show (["started_at".toList, "completed_at".toList, "config_digest".toList,
      "policy_digest".toList, "scanner_version".toList] : List Str).Nodup by decide
  exact optional_unless hnodup hdefault hs rfl

theorem stats_ne_nil (stats : ScanStats) :
    sortedItems (Dict.present (stats.entries false)) ≠ [] := by
  have hmem : ("packages_scanned".toList, Json.int stats.packagesScanned) ∈
      sortedItems (Dict.present (stats.entries false)) :=
    (perm_ascending Prod.fst _).mem_iff.mpr (Dict.mem_present.mpr List.mem_cons_self)
  exact List.ne_nil_of_mem hmem

variable {sha256} in
theorem scanResultFromCache_toDict {r : ScanResult} (h : r.Produced) (version target : Str) :
    scanResultFromCache version target (r.toDict sha256 false) = some r.restored := by
  have hread : ∀ {α : Type} {read : Json → Option α} {default x : α} {key : String},
      key.toList ≠ "package_intel".toList →
      optional read default (Dict.present (r.entries sha256 false)) key = some x →
        optional read default (cacheFields sha256 r) key = some x :=
    fun hk hx => (optional_cacheFields sha256 r hk).trans hx
  have hnodup := entries_nodup sha256 r
  have hdict : dict? (r.toDict sha256 false) = some (cacheFields sha256 r) :=
    congrArg some (toList_ofList _)
  have hstats : optional dict? [] (cacheFields sha256 r) "stats" =
      some (sortedItems (Dict.present (r.stats.entries false))) :=
    hread (by decide) (optional_some hnodup rfl (congrArg some (toList_ofList _)))
  have hfindings : optional list? [] (cacheFields sha256 r) "findings" =
      some ((ScanResult.sortedFindings r.findings).map Finding.toDict) :=
    hread (by decide) (optional_some hnodup rfl (congrArg some (toList_ofItems _)))
  have hstatus : optional dict? [] (cacheFields sha256 r) "rule_status" =
      some (r.ruleExecutions.map fun e => (e.ruleId, e.toDict false)) := by
    refine hread (by decide) (optional_unless hnodup (fun hnil => ?_) rfl ?_)
    · rw [hnil, List.map_nil]
    · rw [ruleStatus_eq h.executions]
      exact congrArg some (toList_ofList _)
  have hexecutions : ((r.ruleExecutions.map fun e => (e.ruleId, e.toDict false)).map
      Prod.snd).mapM executionOf = some r.ruleExecutions := by
    rw [List.map_map]
    exact mapM_executionOf r.ruleExecutions
  have haudit : optional dict? [] (cacheFields sha256 r) "audit" = some r.audit := by
    refine hread (by decide) (optional_unless hnodup (fun hc => ?_) rfl
      (congrArg some (toList_ofList r.audit)))
    exact List.isEmpty_iff.mp (hc.resolve_left Bool.false_ne_true)
  have hengine : optional text? version (cacheFields sha256 r) "engine_version" =
      some r.engineVersion :=
    hread (by decide) (optional_some (j := .str r.engineVersion) hnodup rfl rfl)
  have htarget : optional text? target (cacheFields sha256 r) "target" = some r.target :=
    hread (by decide) (optional_some (j := .str r.target) hnodup rfl rfl)
  have hcorpus : optional text? [] (cacheFields sha256 r) "corpus_version" =
      some r.corpusVersion :=
    hread (by decide) (optional_some (j := .str r.corpusVersion) hnodup rfl rfl)
  have hevidence : optional evidence? none (cacheFields sha256 r) "behavioral_evidence" =
      some r.behavioralEvidence := by
    refine hread (by decide) ?_
    rw [optional_present (v := r.behavioralEvidence) hnodup rfl]
    cases hj : r.behavioralEvidence with
    | none => rfl
    | some j => exact evidence?_of_ne fun hnull => h.evidence (hj.trans (congrArg some hnull))
  have hcomponents : optional int? 0 (cacheFields sha256 r) "unscannable_components" =
      some r.unscannableComponents :=
    hread (by decide) (optional_unless (j := .int r.unscannableComponents) hnodup id rfl rfl)
  have hstarted : optional text? [] r.audit "started_at" = some r.startedAt :=
    optional_audit r rfl id
  have hcompleted : optional text? [] r.audit "completed_at" = some r.completedAt :=
    optional_audit r rfl id
  have hconfig : optional text? [] r.audit "config_digest" = some r.configDigest :=
    optional_audit r rfl id
  have hpolicy : optional text? [] r.audit "policy_digest" = some r.policyDigest :=
    optional_audit r rfl id
  have hscanner : optional text? r.engineVersion r.audit "scanner_version" =
      some r.scannerVersion := optional_audit r rfl fun hnil => absurd hnil h.scanner
  rw [scanResultFromCache, bind_of_eq_some hdict, bind_of_eq_some hstats,
    bind_of_eq_some hfindings, bind_of_eq_some (mapM_findingOf _), bind_of_eq_some hstatus,
    bind_of_eq_some hexecutions, bind_of_eq_some haudit, bind_of_eq_some hengine,
    bind_of_eq_some (optional_intel sha256 r), bind_of_eq_some htarget, bind_of_eq_some hcorpus,
    if_neg (stats_ne_nil r.stats), bind_of_eq_some (statsOf_toDict r.stats)]
  beta_reduce
  rw [bind_of_eq_some hstarted, bind_of_eq_some hcompleted, bind_of_eq_some hconfig,
    bind_of_eq_some hpolicy, bind_of_eq_some hscanner, bind_of_eq_some hevidence,
    bind_of_eq_some hcomponents]
  simp only [ScanResult.restored, List.map_map, h.policy]
  rfl

end RoundTrip

section Same

variable (U : Unicode) (sha256 : Str → Str)

def IntelOrder (intel : Dict IntelKey Json) : Prop :=
  (∀ k ∈ Dict.keys intel, k.isText = true) ∨
    (∀ k ∈ Dict.keys intel, k.isText = false) ∧
      ∀ k ∈ Dict.keys intel, ∀ k' ∈ Dict.keys intel, k.value < k'.value → k.json < k'.json

def intelByText (intel : Dict IntelKey Json) : Dict Str Json :=
  (ascending (fun e => e.1.json) intel).map fun e => (e.1.json, sortKeys e.2)

theorem sortedIntel_restored (r : ScanResult) :
    ScanResult.sortedIntel r.restored.packageIntel = some (intelByText r.packageIntel) := by
  have hall : r.restored.packageIntel.all (fun e => e.1.isText) = true := by
    simp [ScanResult.restored, IntelKey.isText]
  rw [ScanResult.sortedIntel, if_pos hall]
  simp only [ScanResult.restored, ascending_map, List.map_map, intelByText]
  rfl

theorem counts_sortedItems (d : Dict Str Int) : counts (sortedItems d) = counts d := by
  rw [counts, sortedItems, sortedItems, ascending_ascending, ← sortedItems, ← counts]

theorem sortedItems_eq_nil {d : Dict Str Int} : sortedItems d = [] ↔ d = [] := by
  rw [← List.length_eq_zero_iff, sortedItems, (perm_ascending Prod.fst d).length_eq,
    List.length_eq_zero_iff]

theorem stats_sorted (stats : ScanStats) : stats.sorted.toDict false = stats.toDict false := by
  simp only [ScanStats.toDict, ScanStats.entries, ScanStats.sorted, counts_sortedItems,
    sortedItems_eq_nil]

theorem entries_restored (r : ScanResult) :
    r.restored.entries sha256 false = r.entries sha256 false := by
  have hfindings : r.restored.findingDicts = r.findingDicts := by
    simp only [ScanResult.findingDicts, ScanResult.restored, ScanResult.sortedFindings,
      ascending_ascending]
  have hstats : r.restored.stats.toDict false = r.stats.toDict false := stats_sorted r.stats
  simp only [ScanResult.entries, hfindings, hstats]
  rfl

theorem toJson_restored (r : ScanResult) :
    r.restored.toJson sha256 false =
      some (renderIndented 0 (.obj (.ofList (sortedItems
        ((Dict.present (r.entries sha256 false)).map (fun e => (e.1, sortKeys e.2)) ++
          ScanResult.intelEntry (intelByText r.packageIntel)))))) := by
  have hshown : r.restored.shownIntel false = r.restored.packageIntel := rfl
  rw [ScanResult.toJson, ScanResult.sortedDict, hshown, sortedIntel_restored, entries_restored]
  rfl

variable {sha256}

theorem intel_of_sortedItems_eq {r : ScanResult} {f : Json → Json} {intel intel' : Dict Str Json}
    (h : sortedItems ((Dict.present (r.entries sha256 false)).map (fun e => (e.1, f e.2)) ++
        ScanResult.intelEntry intel) =
      sortedItems ((Dict.present (r.entries sha256 false)).map (fun e => (e.1, f e.2)) ++
        ScanResult.intelEntry intel')) : intel = intel' := by
  have hget := r.get?_intel sha256 f intel
  rw [h, r.get?_intel sha256 f intel'] at hget
  split at hget
  · next hnil' =>
    split at hget
    · next hnil => rw [hnil, hnil']
    · cases hget
  · split at hget
    · cases hget
    · injection hget with hobj
      injection hobj with hfields
      exact (ofList_inj hfields).symm

theorem wellFormed_intelByText {r : ScanResult} (h : r.WellFormed) :
    ∀ e ∈ intelByText r.packageIntel, e.2.WellFormed := by
  rw [intelByText, List.forall_mem_map]
  intro e he
  exact wellFormed_sortKeys (h.intel e ((perm_ascending _ _).mem_iff.mp he))

theorem toJson_restored_eq_iff {r : ScanResult} (h : r.WellFormed) :
    r.restored.toJson sha256 false = r.toJson sha256 false ↔
      ScanResult.sortedIntel r.packageIntel = some (intelByText r.packageIntel) := by
  rw [toJson_restored]
  have hshown : r.shownIntel false = r.packageIntel := rfl
  rw [ScanResult.toJson, ScanResult.sortedDict, hshown]
  constructor
  · intro heq
    cases hi : ScanResult.sortedIntel r.packageIntel with
    | none =>
      rw [hi] at heq
      cases heq
    | some intel =>
      rw [hi] at heq
      have hobj := renderIndented_inj
        (ScanResult.wellFormed_fields h (fun _ => wellFormed_sortKeys) (wellFormed_intelByText h) _)
        (ScanResult.wellFormed_fields h (fun _ => wellFormed_sortKeys)
          (ScanResult.wellFormed_sortedIntel h.intel hi) _)
        (Option.some.inj heq)
      injection hobj with hfields
      rw [intel_of_sortedItems_eq (ofList_inj hfields)]
  · intro hi
    rw [hi]
    rfl

theorem pairwise_json {intel : Dict IntelKey Json}
    (h : (ascending (fun e => e.1.value) intel).map (fun e => (e.1.json, sortKeys e.2)) =
      intelByText intel) :
    (ascending (fun e => e.1.value) intel).Pairwise fun e e' => e.1.json ≤ e'.1.json := by
  have hjson : (ascending (fun e => e.1.value) intel).map (fun e => e.1.json) =
      (ascending (fun e => e.1.json) intel).map fun e => e.1.json := by
    have hfst := congrArg (List.map Prod.fst) h
    simpa only [intelByText, List.map_map, Function.comp_def] using hfst
  have hsorted := pairwise_ascending (fun e : IntelKey × Json => e.1.json) intel
  rw [← List.pairwise_map (f := fun e : IntelKey × Json => e.1.json) (R := (· ≤ ·))] at hsorted ⊢
  rwa [hjson]

theorem json_lt_of_value_lt {intel : Dict IntelKey Json}
    (hnum : ∀ k ∈ Dict.keys intel, ∀ k' ∈ Dict.keys intel, k.value = k'.value ↔ k.json = k'.json)
    (h : (ascending (fun e => e.1.value) intel).map (fun e => (e.1.json, sortKeys e.2)) =
      intelByText intel) {k k' : IntelKey} (hk : k ∈ Dict.keys intel) (hk' : k' ∈ Dict.keys intel)
    (hlt : k.value < k'.value) : k.json < k'.json := by
  obtain ⟨e,he,rfl⟩ := List.mem_map.mp hk
  obtain ⟨e',he',rfl⟩ := List.mem_map.mp hk'
  have hboth := (pairwise_ascending (fun e : IntelKey × Json => e.1.value) intel).and
    (pairwise_json h)
  have hmem : ∀ x, x ∈ ascending (fun e : IntelKey × Json => e.1.value) intel ↔ x ∈ intel :=
    fun x => (perm_ascending _ _).mem_iff
  have hle : e.1.json ≤ e'.1.json := by
    have hsym : (ascending (fun e => e.1.value) intel).Pairwise fun a b : IntelKey × Json =>
        (a.1.value ≤ b.1.value ∧ a.1.json ≤ b.1.json) ∨
          (b.1.value ≤ a.1.value ∧ b.1.json ≤ a.1.json) := hboth.imp Or.inl
    have hne : e ≠ e' := by
      rintro rfl
      exact lt_irrefl _ hlt
    have hswap : Std.Symm fun a b : IntelKey × Json =>
        (a.1.value ≤ b.1.value ∧ a.1.json ≤ b.1.json) ∨
          (b.1.value ≤ a.1.value ∧ b.1.json ≤ a.1.json) := ⟨fun _ _ => Or.symm⟩
    rcases hsym.forall ((hmem e).mpr he) ((hmem e').mpr he') hne with ⟨_,hle⟩ | ⟨hle,_⟩
    · exact hle
    · exact absurd hlt (not_lt.mpr hle)
  refine lt_of_le_of_ne hle fun heq => ?_
  exact hlt.ne ((hnum _ hk _ hk').mpr heq)

theorem ascending_value_eq {intel : Dict IntelKey Json} (hkeys : (Dict.keys intel).Nodup)
    (hnumber : ∀ k ∈ Dict.keys intel, k.isText = false)
    (hnum : ∀ k ∈ Dict.keys intel, ∀ k' ∈ Dict.keys intel, k.value = k'.value ↔ k.json = k'.json)
    (h : ∀ k ∈ Dict.keys intel, ∀ k' ∈ Dict.keys intel, k.value < k'.value → k.json < k'.json) :
    ascending (fun e => e.1.value) intel = ascending (fun e => e.1.json) intel := by
  have hmem : ∀ x, x ∈ ascending (fun e : IntelKey × Json => e.1.value) intel → x ∈ intel :=
    fun x => (perm_ascending _ _).mem_iff.mp
  have hkey : ∀ e ∈ intel, e.1 ∈ Dict.keys intel := fun e he => List.mem_map_of_mem he
  have hjson : (ascending (fun e : IntelKey × Json => e.1.value) intel).Pairwise
      fun e e' => e.1.json ≤ e'.1.json := by
    refine (pairwise_ascending _ intel).imp_of_mem fun ha hb hle => ?_
    rcases lt_or_eq_of_le hle with hlt | heq
    · exact (h _ (hkey _ (hmem _ ha)) _ (hkey _ (hmem _ hb)) hlt).le
    · exact ((hnum _ (hkey _ (hmem _ ha)) _ (hkey _ (hmem _ hb))).mp heq).le
  have hinj : ∀ a ∈ intel, ∀ b ∈ intel, a.1.json = b.1.json → a = b := by
    intro a ha b hb heq
    have hvalue := (hnum _ (hkey a ha) _ (hkey b hb)).mpr heq
    have hfirst : a.1 = b.1 := by
      have hat := hnumber _ (hkey a ha)
      have hbt := hnumber _ (hkey b hb)
      revert hat hbt hvalue heq
      cases a.1 <;> cases b.1 <;> simp [IntelKey.isText, IntelKey.value, IntelKey.json]
      tauto
    exact List.inj_on_of_nodup_map hkeys ha hb hfirst
  rw [← ascending_of_pairwise (fun e : IntelKey × Json => e.1.json) hjson]
  exact (ascending_eq_of_perm _ (perm_ascending _ intel).symm hinj).symm

theorem sortedIntel_eq_iff {intel : Dict IntelKey Json} (hkeys : (Dict.keys intel).Nodup)
    (hnum : ∀ k ∈ Dict.keys intel, ∀ k' ∈ Dict.keys intel,
      k.isText = false → k'.isText = false → (k.value = k'.value ↔ k.json = k'.json)) :
    ScanResult.sortedIntel intel = some (intelByText intel) ↔ IntelOrder intel := by
  have hforall : ∀ p : IntelKey → Bool,
      intel.all (fun e => p e.1) = true ↔ ∀ k ∈ Dict.keys intel, p k = true := by
    intro p
    rw [List.all_eq_true, Dict.keys, List.forall_mem_map]
  rw [ScanResult.sortedIntel]
  split
  · next htext => exact iff_of_true rfl (.inl ((hforall IntelKey.isText).mp htext))
  · next htext =>
    have hnot : ¬∀ k ∈ Dict.keys intel, k.isText = true :=
      fun hall => htext ((hforall IntelKey.isText).mpr hall)
    split
    · next hnumbers =>
      have hnumber : ∀ k ∈ Dict.keys intel, k.isText = false := fun k hk => by
        simpa using (hforall fun k => !k.isText).mp hnumbers k hk
      have hnum' : ∀ k ∈ Dict.keys intel, ∀ k' ∈ Dict.keys intel,
          k.value = k'.value ↔ k.json = k'.json :=
        fun k hk k' hk' => hnum k hk k' hk' (hnumber k hk) (hnumber k' hk')
      constructor
      · intro heq
        exact .inr ⟨hnumber, fun k hk k' hk' => json_lt_of_value_lt hnum' (Option.some.inj heq) hk hk'⟩
      · rintro (hall | ⟨_,horder⟩)
        · exact absurd hall hnot
        · rw [intelByText, ascending_value_eq hkeys hnumber hnum' horder]
    · next hnumbers =>
      refine iff_of_false (Option.some_ne_none _).symm ?_
      rintro (hall | ⟨hall,_⟩)
      · exact hnot hall
      · exact hnumbers ((hforall fun k => !k.isText).mpr fun k hk => by simp [hall k hk])

variable (sha256)

def SameFromCache (version target : Str) (r : ScanResult) : Prop :=
  ∃ r', (Json.loads (Json.render (r.toDict sha256 false))).bind
      (scanResultFromCache version target) = some r' ∧
    r'.toJson sha256 false = r.toJson sha256 false ∧
    (r'.findings.map Finding.fingerprint).Perm (r.findings.map Finding.fingerprint) ∧
    ∀ settings, exitStatus U settings r' = exitStatus U settings r

variable {sha256} in
theorem loads_toDict {r : ScanResult} (h : r.WellFormed) :
    Json.loads (Json.render (r.toDict sha256 false)) = some (r.toDict sha256 false) := by
  have hintel : ∀ e ∈ r.packageIntel.map (fun e => (e.1.json, e.2)), e.2.WellFormed := by
    rw [List.forall_mem_map]
    exact h.intel
  have hwell := @ScanResult.wellFormed_fields sha256 r h id (fun _ hj => hj) _ hintel false
  simp only [id, List.map_id'] at hwell
  exact loads_wellFormed hwell

theorem cached_result_same_iff (version target : Str) (r : ScanResult) (h : r.Produced) :
    SameFromCache U sha256 version target r ↔ IntelOrder r.packageIntel := by
  have hrestore : (Json.loads (Json.render (r.toDict sha256 false))).bind
      (scanResultFromCache version target) = some r.restored := by
    rw [loads_toDict h.wellFormed, Option.bind_some, scanResultFromCache_toDict h]
  have hfindings : r.restored.findings.Perm r.findings := perm_ascending _ _
  rw [← sortedIntel_eq_iff h.keys h.numerals, ← toJson_restored_eq_iff h.wellFormed]
  constructor
  · rintro ⟨r',hr',hjson,_⟩
    rw [hrestore] at hr'
    cases hr'
    exact hjson
  · intro hjson
    exact ⟨r.restored, hrestore, hjson, hfindings.map _,
      fun settings => exitStatus_perm settings hfindings rfl⟩

end Same

section Names

def intelData : Json := .obj (.ofList [("maintainer_count".toList, .int 0)])

def scanned (names : List IntelKey) : ScanResult where
  target := "/project".toList
  engineVersion := "8.0.0".toList
  scannerVersion := "8.0.0".toList
  ruleExecutions := [{ ruleId := "L2-POST-001".toList, status := "ok".toList }]
  packageIntel := names.map fun name => (name, intelData)

theorem keys_scanned (names : List IntelKey) : Dict.keys (scanned names).packageIntel = names := by
  have hmap : (names.map fun name => (name, intelData)).map Prod.fst = names := by
    simp [Function.comp_def]
  exact hmap

theorem produced_scanned {names : List IntelKey} (hnodup : names.Nodup)
    (hnum : ∀ k ∈ names, ∀ k' ∈ names, k.isText = false → k'.isText = false →
      (k.value = k'.value ↔ k.json = k'.json)) : (scanned names).Produced where
  wellFormed :=
    { intel := List.forall_mem_map.mpr fun _ _ => ⟨trivial, trivial⟩
      policy := fun _ h => absurd h (Option.some_ne_none _).symm
      behavior := fun _ h => absurd h (Option.some_ne_none _).symm }
  scanner := List.cons_ne_nil _ _
  policy := rfl
  evidence := (Option.some_ne_none _).symm
  executions := List.nodup_singleton _
  keys := by rwa [keys_scanned]
  numerals := by rwa [keys_scanned]

theorem named_packages_same :
    SameFromCache Unicode.basic (fun _ => []) "8.0.0".toList "/project".toList
      (scanned [.text "web".toList, .text "api".toList]) := by
  refine (cached_result_same_iff _ _ _ _ _ (produced_scanned (by decide) ?_)).mpr (.inl ?_)
  · simp [IntelKey.isText]
  · rw [keys_scanned]
    simp [IntelKey.isText]

-- Two package.json files whose "name" is the number 5 and the number 10.
def numberedNames : List IntelKey := [.number 5 "5".toList, .number 10 "10".toList]

theorem numbered_packages_differ :
    (scanned numberedNames).Produced ∧
      ¬SameFromCache Unicode.basic (fun _ => []) "8.0.0".toList "/project".toList
        (scanned numberedNames) := by
  have hproduced : (scanned numberedNames).Produced :=
    produced_scanned (by decide) (by decide)
  refine ⟨hproduced, ?_⟩
  rintro ⟨r',hr',hjson,_⟩
  rw [loads_toDict hproduced.wellFormed, Option.bind_some, scanResultFromCache_toDict hproduced]
    at hr'
  cases hr'
  rw [toJson_restored_eq_iff hproduced.wellFormed,
    sortedIntel_eq_iff hproduced.keys hproduced.numerals, IntelOrder, keys_scanned] at hjson
  revert hjson
  decide

end Names

end PicoSentry.Scan.Models
