import PicoSentry.Scan.PolicyEngine

namespace PicoSentry.Scan.PolicyLifecycle

open Foundation
open PolicyEngine

inductive Layer where
  | global
  | org
  | repo
  | pipeline
  deriving DecidableEq, Repr

def Layer.precedence : Layer → Nat
  | .global => 0
  | .org => 1
  | .repo => 2
  | .pipeline => 3

structure InheritedPolicy where
  policy : Policy
  layer : Layer := .global
  deriving DecidableEq, Repr

structure PolicyStack where
  layers : Dict Layer InheritedPolicy := []
  deriving DecidableEq, Repr

def mergeRank (p : Policy) : Nat :=
  (severityOrder.get? (if p.failOnSeverity = [] then "low".toList else p.failOnSeverity)).getD 0

def mergeAllow (env : Runtime) (base override : Policy) : List Str :=
  if base.allowLicenses ≠ [] ∧ override.allowLicenses ≠ [] then
    env.listOfSet (base.allowLicenses.toFinset ∩ override.allowLicenses.toFinset)
  else if base.allowLicenses ≠ [] then base.allowLicenses
  else if override.allowLicenses ≠ [] then override.allowLicenses
  else []

def mergePolicies (env : Runtime) (base override : Policy) : Policy where
  failOnSeverity :=
    if mergeRank override < mergeRank base then override.failOnSeverity else base.failOnSeverity
  failOnRules := env.listOfSet (base.failOnRules ++ override.failOnRules).toFinset
  allowLicenses := mergeAllow env base override
  denyLicenses := env.listOfSet (base.denyLicenses ++ override.denyLicenses).toFinset
  denyPackages := env.listOfSet (base.denyPackages ++ override.denyPackages).toFinset
  waivers := base.waivers ++ override.waivers
  requireLockfile := base.requireLockfile || override.requireLockfile
  requireIntegrity := base.requireIntegrity || override.requireIntegrity
  requireProvenance := base.requireProvenance || override.requireProvenance

namespace PolicyStack

def add (stack : PolicyStack) (inherited : InheritedPolicy) : PolicyStack :=
  ⟨stack.layers.set inherited.layer inherited⟩

def sortedLayers (stack : PolicyStack) : List InheritedPolicy :=
  (stack.layers.map Prod.snd).mergeSort fun a b =>
    decide (a.layer.precedence ≤ b.layer.precedence)

def effectivePolicy (env : Runtime) (stack : PolicyStack) : Policy :=
  match stack.sortedLayers with
  | [] => {}
  | first :: rest => rest.foldl (fun base ip => mergePolicies env base ip.policy) first.policy

end PolicyStack

structure Upholds (env : Runtime) (strict lax : Policy) : Prop where
  violations : ∀ findings target licenses installed,
    lax.Fails env findings target licenses installed →
      strict.Fails env findings target licenses installed
  updatesDisabled : lax.updatesEnabled = false → strict.updatesEnabled = false
  updatesIntegrity : lax.updatesRequireIntegrity = true → strict.updatesRequireIntegrity = true
  corpusSignature : lax.corpusRequireSignature = true → strict.corpusRequireSignature = true

theorem Upholds.refl (env : Runtime) (p : Policy) : Upholds env p p :=
  ⟨fun _ _ _ _ h => h, fun h => h, fun h => h, fun h => h⟩

theorem Upholds.trans {env : Runtime} {p q r : Policy} (h : Upholds env p q)
    (h' : Upholds env q r) : Upholds env p r where
  violations f t l i hr := h.violations f t l i (h'.violations f t l i hr)
  updatesDisabled hr := h.updatesDisabled (h'.updatesDisabled hr)
  updatesIntegrity hr := h.updatesIntegrity (h'.updatesIntegrity hr)
  corpusSignature hr := h.corpusSignature (h'.corpusSignature hr)

structure MergeKeeps (env : Runtime) (base override : Policy) : Prop where
  overrideThreshold : mergeRank override < mergeRank base →
    base.failLevel env ≤ override.failLevel env
  baseThreshold : ¬mergeRank override < mergeRank base →
    override.failLevel env ≤ base.failLevel env
  allowLists : base.allowLicenses ≠ [] → override.allowLicenses ≠ [] →
    base.denyLicenses ≠ [] ∨ override.denyLicenses ≠ [] →
      ∃ lic ∈ base.allowLicenses, lic ∈ override.allowLicenses
  baseUpdates : base.updatesEnabled = true
  overrideUpdates : override.updatesEnabled = true

section Merge

theorem ne_nil_iff_exists_mem {α : Type} {xs : List α} : xs ≠ [] ↔ ∃ x, x ∈ xs :=
  ⟨List.exists_mem_of_ne_nil xs, fun ⟨_, h⟩ => List.ne_nil_of_mem h⟩

variable {env : Runtime} {base override : Policy}

theorem mem_merged {xs ys : List Str} {x : Str} :
    x ∈ env.listOfSet (xs ++ ys).toFinset ↔ x ∈ xs ∨ x ∈ ys := by
  rw [env.mem_listOfSet, List.mem_toFinset, List.mem_append]

theorem merged_ne_nil {xs ys : List Str} :
    env.listOfSet (xs ++ ys).toFinset ≠ [] ↔ xs ≠ [] ∨ ys ≠ [] := by
  simp only [ne_nil_iff_exists_mem, mem_merged, exists_or]

theorem failLevel_merge :
    (mergePolicies env base override).failLevel env =
      if mergeRank override < mergeRank base then override.failLevel env
      else base.failLevel env := by
  simp only [Policy.failLevel, mergePolicies]
  split <;> rfl

theorem mergeAllow_ne_nil (hb : base.allowLicenses ≠ []) :
    mergeAllow env base override ≠ [] ↔
      override.allowLicenses = [] ∨ ∃ lic ∈ base.allowLicenses, lic ∈ override.allowLicenses := by
  rw [mergeAllow]
  split
  · next h =>
    rw [ne_nil_iff_exists_mem]
    simp only [env.mem_listOfSet, Finset.mem_inter, List.mem_toFinset, h.2, false_or]
  · next h =>
    have ho : override.allowLicenses = [] := by
      by_contra ho
      exact h ⟨hb, ho⟩
    simp [hb, ho]

theorem mergeAllow_sub_base (hb : base.allowLicenses ≠ []) {lic : Str}
    (h : lic ∈ mergeAllow env base override) : lic ∈ base.allowLicenses := by
  rw [mergeAllow] at h
  split at h
  · rw [env.mem_listOfSet, Finset.mem_inter, List.mem_toFinset] at h
    exact h.1
  · simpa [hb] using h

theorem mergeAllow_sub_override (ho : override.allowLicenses ≠ []) {lic : Str}
    (h : lic ∈ mergeAllow env base override) : lic ∈ override.allowLicenses := by
  rw [mergeAllow] at h
  split at h
  · rw [env.mem_listOfSet, Finset.mem_inter, List.mem_toFinset, List.mem_toFinset] at h
    exact h.2
  · next hn =>
    have hb : base.allowLicenses = [] := by
      by_contra hb
      exact hn ⟨hb, ho⟩
    simpa [hb, ho] using h

theorem licenseFails_merge_of_base (hk : MergeKeeps env base override) {lic : Str}
    (h : base.LicenseFails env lic) : (mergePolicies env base override).LicenseFails env lic := by
  obtain ⟨hdeny,hbad⟩ := h
  refine ⟨merged_ne_nil.mpr (.inl hdeny), ?_⟩
  rcases hbad with ⟨denied,hmem,heq⟩ | ⟨hallow,hnot⟩
  · exact .inl ⟨denied, mem_merged.mpr (.inl hmem), heq⟩
  · refine .inr ⟨?_, fun a ha => hnot a (mergeAllow_sub_base hallow ha)⟩
    refine (mergeAllow_ne_nil hallow).mpr (or_iff_not_imp_left.mpr ?_)
    exact fun ho => hk.allowLists hallow ho (.inl hdeny)

theorem licenseFails_merge_of_override (hk : MergeKeeps env base override) {lic : Str}
    (h : override.LicenseFails env lic) :
    (mergePolicies env base override).LicenseFails env lic := by
  obtain ⟨hdeny,hbad⟩ := h
  refine ⟨merged_ne_nil.mpr (.inr hdeny), ?_⟩
  rcases hbad with ⟨denied,hmem,heq⟩ | ⟨hallow,hnot⟩
  · exact .inl ⟨denied, mem_merged.mpr (.inr hmem), heq⟩
  · refine .inr ⟨?_, fun a ha => hnot a (mergeAllow_sub_override hallow ha)⟩
    cases hb : base.allowLicenses with
    | nil => simp [mergePolicies, mergeAllow, hb, hallow]
    | cons a as =>
      have hne : base.allowLicenses ≠ [] := by simp [hb]
      exact (mergeAllow_ne_nil hne).mpr (.inr (hk.allowLists hne hallow (.inr hdeny)))

theorem failLevel_le_merge (hk : MergeKeeps env base override) :
    base.failLevel env ≤ (mergePolicies env base override).failLevel env ∧
      override.failLevel env ≤ (mergePolicies env base override).failLevel env := by
  rw [failLevel_merge]
  split
  · next h => exact ⟨hk.overrideThreshold h, le_rfl⟩
  · next h => exact ⟨le_rfl, hk.baseThreshold h⟩

theorem fails_of_parts {p q : Policy} (hp : p.waivers = []) (hq : q.waivers = [])
    (hlevel : p.failLevel env ≤ q.failLevel env)
    (hrules : ∀ r ∈ p.failOnRules, r ∈ q.failOnRules)
    (hlic : ∀ lic, p.LicenseFails env lic → q.LicenseFails env lic)
    (hpkg : ∀ d ∈ p.denyPackages, d ∈ q.denyPackages)
    (hlock : p.requireLockfile = true → q.requireLockfile = true)
    (hint : p.requireIntegrity = true → q.requireIntegrity = true)
    (findings : List Finding) (target : Target) (licenses : Option (Dict Str Str))
    (installed : Option (Finset Str)) (h : p.Fails env findings target licenses installed) :
    q.Fails env findings target licenses installed := by
  rw [Policy.fails_iff hp] at h
  rw [Policy.fails_iff hq]
  rcases h with ⟨f,hf,hfails⟩ | ⟨item,hi,hfails⟩ | ⟨pkg,hpkg',denied,hd,heq⟩ | h | h
  · refine .inl ⟨f, hf, ?_⟩
    rcases hfails with hr | hl
    · exact .inl (hrules _ hr)
    · exact .inr (hl.trans hlevel)
  · exact .inr (.inl ⟨item, hi, hlic _ hfails⟩)
  · exact .inr (.inr (.inl ⟨pkg, hpkg', denied, hpkg _ hd, heq⟩))
  · exact .inr (.inr (.inr (.inl ⟨hlock h.1, h.2⟩)))
  · exact .inr (.inr (.inr (.inr ⟨hint h.1, h.2⟩)))

theorem waivers_merge (hb : base.waivers = []) (ho : override.waivers = []) :
    (mergePolicies env base override).waivers = [] := by
  simp [mergePolicies, hb, ho]

theorem upholds_base (hb : base.waivers = []) (ho : override.waivers = [])
    (hk : MergeKeeps env base override) : Upholds env (mergePolicies env base override) base where
  violations := fails_of_parts hb (waivers_merge hb ho) (failLevel_le_merge hk).1
    (fun _ hr => mem_merged.mpr (.inl hr)) (fun _ => licenseFails_merge_of_base hk)
    (fun _ hd => mem_merged.mpr (.inl hd)) (fun h => by simp [mergePolicies, h])
    (fun h => by simp [mergePolicies, h])
  updatesDisabled h := by simp [hk.baseUpdates] at h
  updatesIntegrity _ := rfl
  corpusSignature _ := rfl

theorem upholds_override (hb : base.waivers = []) (ho : override.waivers = [])
    (hk : MergeKeeps env base override) :
    Upholds env (mergePolicies env base override) override where
  violations := fails_of_parts ho (waivers_merge hb ho) (failLevel_le_merge hk).2
    (fun _ hr => mem_merged.mpr (.inr hr)) (fun _ => licenseFails_merge_of_override hk)
    (fun _ hd => mem_merged.mpr (.inr hd)) (fun h => by simp [mergePolicies, h])
    (fun h => by simp [mergePolicies, h])
  updatesDisabled h := by simp [hk.overrideUpdates] at h
  updatesIntegrity _ := rfl
  corpusSignature _ := rfl

end Merge

section Necessity

variable {env : Runtime} {base override p q : Policy}

def lockedTarget : Target := ⟨true, false, false⟩

theorem fails_finding_iff (hw : p.waivers = []) (f : Finding) :
    p.Fails env [f] lockedTarget none none ↔ p.FindingFails env f := by
  rw [Policy.fails_iff hw]
  simp [Policy.LockfileFails, Policy.IntegrityFails, lockedTarget]

theorem fails_license_iff (hw : p.waivers = []) (pkg lic : Str) :
    p.Fails env [] lockedTarget (some [(pkg, lic)]) none ↔ p.LicenseFails env lic := by
  rw [Policy.fails_iff hw]
  simp [Policy.LockfileFails, Policy.IntegrityFails, lockedTarget]

theorem findingLevel_eq (f : Finding) :
    Policy.findingLevel env f =
      match f.severity with
      | .critical => 0
      | .high => 1
      | .medium => 2
      | .low => 3
      | .info => 4 := by
  have hall : f.severity.value.all (·.toNat < 128) = true := by
    cases f.severity <;> rfl
  have hascii : ∀ c ∈ f.severity.value, c.toNat < 128 := by
    intro c hc
    simpa using List.all_eq_true.mp hall c hc
  rw [Policy.findingLevel, Unicode.lowerStr_ascii hascii]
  cases f.severity <;> rfl

theorem exists_findingLevel (ruleId : Str) {n : Nat} (h : n ≤ 4) :
    ∃ f : Finding, f.ruleId = ruleId ∧ Policy.findingLevel env f = n := by
  have hlevel : ∀ s, Policy.findingLevel env ⟨ruleId, s, []⟩ = _ := fun s => findingLevel_eq _
  match n, h with
  | 0, _ => exact ⟨⟨ruleId, .critical, []⟩, rfl, hlevel .critical⟩
  | 1, _ => exact ⟨⟨ruleId, .high, []⟩, rfl, hlevel .high⟩
  | 2, _ => exact ⟨⟨ruleId, .medium, []⟩, rfl, hlevel .medium⟩
  | 3, _ => exact ⟨⟨ruleId, .low, []⟩, rfl, hlevel .low⟩
  | 4, _ => exact ⟨⟨ruleId, .info, []⟩, rfl, hlevel .info⟩

theorem failLevel_le (p : Policy) : p.failLevel env ≤ 4 := by
  have hlevels : ∀ q ∈ severityOrder, q.2 ≤ 4 := by decide
  rw [Policy.failLevel]
  cases hget : severityOrder.get? (env.unicode.lowerStr p.failOnSeverity) with
  | none => decide
  | some level => exact hlevels _ (Dict.mem_of_get? hget)

theorem failLevel_le_of_upholds (hp : p.waivers = []) (hq : q.waivers = [])
    (h : Upholds env q p) : p.failLevel env ≤ q.failLevel env := by
  obtain ⟨n,hn⟩ := exists_fresh q.failOnRules
  obtain ⟨f,hrule,hlevel⟩ := exists_findingLevel (freshStr n) (failLevel_le p)
  have hfails : p.Fails env [f] lockedTarget none none :=
    (fails_finding_iff hp f).mpr (.inr hlevel.le)
  rcases (fails_finding_iff hq f).mp (h.violations _ _ _ _ hfails) with hmem | hle
  · exact absurd (hrule ▸ hmem) hn
  · exact hlevel ▸ hle

theorem allowLists_of_upholds (hp : p.waivers = []) (hq : q.waivers = []) (h : Upholds env q p)
    (hallow : p.allowLicenses ≠ []) (hdeny : p.denyLicenses ≠ []) : q.allowLicenses ≠ [] := by
  obtain ⟨n,hn⟩ := exists_fresh ((p.allowLicenses ++ q.denyLicenses).map env.unicode.lowerStr)
  have hfresh : ∀ lic ∈ p.allowLicenses ++ q.denyLicenses,
      env.unicode.lowerStr lic ≠ env.unicode.lowerStr (env.unicode.strip (freshStr n)) := by
    intro lic hlic heq
    rw [lowerStr_strip_fresh] at heq
    exact hn (List.mem_map.mpr ⟨lic, hlic, heq⟩)
  have hfails : p.LicenseFails env (freshStr n) :=
    ⟨hdeny, .inr ⟨hallow, fun a ha => hfresh a (List.mem_append_left _ ha)⟩⟩
  have hq' := h.violations _ _ _ _ ((fails_license_iff hp [] _).mpr hfails)
  rcases ((fails_license_iff hq [] _).mp hq').2 with ⟨denied,hmem,heq⟩ | hbad
  · exact absurd heq (hfresh denied (List.mem_append_right _ hmem))
  · exact hbad.1

theorem mergeKeeps_of_upholds (hb : base.waivers = []) (ho : override.waivers = [])
    (h : Upholds env (mergePolicies env base override) base)
    (h' : Upholds env (mergePolicies env base override) override) :
    MergeKeeps env base override := by
  have hm : (mergePolicies env base override).waivers = [] := waivers_merge hb ho
  have hlevel := failLevel_le_of_upholds hb hm h
  have hlevel' := failLevel_le_of_upholds ho hm h'
  rw [failLevel_merge] at hlevel hlevel'
  refine ⟨?_, ?_, ?_, ?_, ?_⟩
  · intro hlt
    rwa [if_pos hlt] at hlevel
  · intro hlt
    rwa [if_neg hlt] at hlevel'
  · intro hallow hallow' hdeny
    have hne : mergeAllow env base override ≠ [] := by
      rcases hdeny with hdeny | hdeny
      · exact allowLists_of_upholds hb hm h hallow hdeny
      · exact allowLists_of_upholds ho hm h' hallow' hdeny
    exact ((mergeAllow_ne_nil hallow).mp hne).resolve_left hallow'
  · by_contra hf
    exact Bool.noConfusion (h.updatesDisabled (by simpa using hf))
  · by_contra hf
    exact Bool.noConfusion (h'.updatesDisabled (by simpa using hf))

end Necessity

section Stack

variable {env : Runtime}

def StepsKeep (env : Runtime) : Policy → List InheritedPolicy → Prop
  | _, [] => True
  | base, ip :: rest =>
    MergeKeeps env base ip.policy ∧ StepsKeep env (mergePolicies env base ip.policy) rest

def PolicyStack.StepsKeep (env : Runtime) (stack : PolicyStack) : Prop :=
  match stack.sortedLayers with
  | [] => True
  | first :: rest => PolicyLifecycle.StepsKeep env first.policy rest

theorem upholds_foldl {base : Policy} {rest : List InheritedPolicy} (hb : base.waivers = [])
    (hrest : ∀ ip ∈ rest, ip.policy.waivers = []) (hk : StepsKeep env base rest) :
    Upholds env (rest.foldl (fun base ip => mergePolicies env base ip.policy) base) base ∧
      ∀ ip ∈ rest, Upholds env
        (rest.foldl (fun base ip => mergePolicies env base ip.policy) base) ip.policy := by
  induction rest generalizing base with
  | nil => exact ⟨Upholds.refl env base, by simp⟩
  | cons ip rest ih =>
    obtain ⟨hstep,hk⟩ := hk
    have hip := hrest ip (by simp)
    obtain ⟨hmerged,hlayers⟩ :=
      ih (waivers_merge hb hip) (fun ip' h => hrest ip' (by simp [h])) hk
    refine ⟨hmerged.trans (upholds_base hb hip hstep), ?_⟩
    intro ip' hmem
    rcases List.mem_cons.mp hmem with rfl | hmem
    · exact hmerged.trans (upholds_override hb hip hstep)
    · exact hlayers ip' hmem

theorem upholds_effectivePolicy {stack : PolicyStack}
    (hw : ∀ ip ∈ stack.sortedLayers, ip.policy.waivers = []) (hk : stack.StepsKeep env) :
    ∀ ip ∈ stack.sortedLayers, Upholds env (stack.effectivePolicy env) ip.policy := by
  rw [PolicyStack.StepsKeep] at hk
  rw [PolicyStack.effectivePolicy]
  cases hs : stack.sortedLayers with
  | nil => simp
  | cons first rest =>
    rw [hs] at hw hk
    obtain ⟨hfirst,hrest⟩ :=
      upholds_foldl (hw first (by simp)) (fun ip h => hw ip (by simp [h])) hk
    intro ip hmem
    rcases List.mem_cons.mp hmem with rfl | hmem
    · exact hfirst
    · exact hrest ip hmem

end Stack

theorem layering_never_relaxes_iff (env : Runtime) (base override : Policy) (stack : PolicyStack)
    (hb : base.waivers = []) (ho : override.waivers = [])
    (hs : ∀ entry ∈ stack.layers, entry.2.policy.waivers = []) :
    (Upholds env (mergePolicies env base override) base ∧
        Upholds env (mergePolicies env base override) override ↔
      MergeKeeps env base override) ∧
    (stack.StepsKeep env →
      ∀ entry ∈ stack.layers, Upholds env (stack.effectivePolicy env) entry.2.policy) := by
  refine ⟨⟨?_, ?_⟩, ?_⟩
  · rintro ⟨h,h'⟩
    exact mergeKeeps_of_upholds hb ho h h'
  · intro hk
    exact ⟨upholds_base hb ho hk, upholds_override hb ho hk⟩
  · intro hk entry hmem
    have hlayer : ∀ ip, ip ∈ stack.sortedLayers ↔ ∃ entry ∈ stack.layers, entry.2 = ip := by
      intro ip
      rw [PolicyStack.sortedLayers, List.mem_mergeSort, List.mem_map]
    refine upholds_effectivePolicy ?_ hk entry.2 ((hlayer _).mpr ⟨entry, hmem, rfl⟩)
    intro ip hip
    obtain ⟨entry',hmem',rfl⟩ := (hlayer ip).mp hip
    exact hs entry' hmem'

def plainRuntime : Runtime where
  unicode := .basic
  isExpired _ := true
  digest _ := []
  listOfSet := Typosquat.sortedNames
  mem_listOfSet _ _ := Typosquat.mem_sortedNames

def globalPolicy : Policy :=
  { allowLicenses := ["MIT".toList, "ISC".toList], denyLicenses := ["GPL-3.0".toList] }

def repoPolicy : Policy := { allowLicenses := ["MIT".toList] }

def twoLayers : PolicyStack := (PolicyStack.add {} ⟨globalPolicy, .global⟩).add ⟨repoPolicy, .repo⟩

theorem globalPolicy_mergeKeeps_repoPolicy : MergeKeeps plainRuntime globalPolicy repoPolicy :=
  ⟨fun h => absurd h (by decide), fun _ => le_rfl,
    fun _ _ _ => ⟨"MIT".toList, by decide, by decide⟩, rfl, rfl⟩

theorem twoLayers_stepsKeep : twoLayers.StepsKeep plainRuntime := by
  have hsorted : twoLayers.sortedLayers = [⟨globalPolicy, .global⟩, ⟨repoPolicy, .repo⟩] :=
    List.mergeSort_of_pairwise (by decide)
  rw [PolicyStack.StepsKeep, hsorted]
  exact ⟨globalPolicy_mergeKeeps_repoPolicy, trivial⟩

theorem layering_never_relaxes_twoLayers :
    (Upholds plainRuntime (mergePolicies plainRuntime globalPolicy repoPolicy) globalPolicy ∧
      Upholds plainRuntime (mergePolicies plainRuntime globalPolicy repoPolicy) repoPolicy) ∧
    Upholds plainRuntime (twoLayers.effectivePolicy plainRuntime) globalPolicy := by
  have h := layering_never_relaxes_iff plainRuntime globalPolicy repoPolicy twoLayers rfl rfl
    (by decide)
  exact ⟨h.1.mpr globalPolicy_mergeKeeps_repoPolicy,
    h.2 twoLayers_stepsKeep (.global, ⟨globalPolicy, .global⟩) (by decide)⟩

def mediumPolicy : Policy := { failOnSeverity := "medium".toList }

def mediumFinding : Finding := ⟨"R1".toList, .medium, "lodash".toList⟩

theorem high_layer_relaxes_medium_base :
    mediumPolicy.Fails plainRuntime [mediumFinding] lockedTarget none none ∧
      ¬(mergePolicies plainRuntime mediumPolicy {}).Fails plainRuntime [mediumFinding]
        lockedTarget none none := by
  refine ⟨(fails_finding_iff rfl _).mpr (.inr (by decide)), ?_⟩
  rw [fails_finding_iff rfl]
  rintro (hrule | hlevel)
  · simp [mergePolicies, mediumPolicy, plainRuntime] at hrule
  · rw [failLevel_merge] at hlevel
    revert hlevel
    decide

end PicoSentry.Scan.PolicyLifecycle
