import PicoSentry.Foundation.CompactJson
import PicoSentry.Sandbox.LandlockGrants
import PicoSentry.Sandbox.Seccomp

namespace PicoSentry.Sandbox.PolicyHash

open Foundation

def normRule (r : PolicyRule) : PolicyRule :=
  { r with
    paths := ascending id r.paths
    addresses := ascending id r.addresses
    syscalls := ascending id r.syscalls }

def ruleJson (r : PolicyRule) : Json :=
  .obj (.ofList
    [("rule_id".toList, .str r.ruleId), ("target".toList, .str r.target.value),
     ("action".toList, .str r.action.value), ("paths".toList, .texts r.paths),
     ("addresses".toList, .texts r.addresses), ("syscalls".toList, .texts r.syscalls),
     ("description".toList, .str r.description)])

def rulesNorm (policy : Policy) : List PolicyRule :=
  ascending PolicyRule.ruleId (policy.rules.map normRule)

def canonicalPolicyDict (policy : Policy) : Json :=
  .obj (.ofList
    [("name".toList, .str policy.name), ("version".toList, .str policy.version),
     ("default_action".toList, .str policy.defaultAction.value),
     ("rules".toList, .arr (.ofList ((rulesNorm policy).map ruleJson)))])

def policyHash (hexdigest : Str → Str) (policy : Policy) : Str :=
  hexdigest (Json.dumpsCompact (canonicalPolicyDict policy))

section Canonical

theorem wellFormed_ruleJson (r : PolicyRule) : (ruleJson r).WellFormed := by
  simp [ruleJson, JsonFields.ofList, Json.WellFormed, Json.WellFormedFields, Json.wellFormed_texts]

theorem wellFormed_canonicalPolicyDict (policy : Policy) :
    (canonicalPolicyDict policy).WellFormed := by
  have hrules : Json.WellFormed (.arr (.ofList ((rulesNorm policy).map ruleJson))) := by
    rw [Json.WellFormed, Json.wellFormedItems_ofList, List.forall_mem_map]
    exact fun r _ => wellFormed_ruleJson r
  simp only [canonicalPolicyDict, JsonFields.ofList, Json.WellFormed, Json.WellFormedFields,
    true_and, and_true]
  exact hrules

theorem RuleTarget.value_inj {t t' : RuleTarget} (h : t.value = t'.value) : t = t' := by
  revert h
  cases t <;> cases t' <;> decide

theorem SyscallAction.value_inj {a a' : SyscallAction} (h : a.value = a'.value) : a = a' := by
  revert h
  cases a <;> cases a' <;> decide

theorem str_of_map_sortKeys {s s' : Str}
    (h : (some (Json.str s)).map Json.sortKeys = (some (Json.str s')).map Json.sortKeys) : s = s' :=
  Json.str.inj (Option.some.inj h)

theorem texts_of_map_sortKeys {ss ss' : List Str}
    (h : (some (Json.texts ss)).map Json.sortKeys = (some (Json.texts ss')).map Json.sortKeys) :
    ss = ss' := by
  have hsort := Option.some.inj h
  rw [Json.sortKeys_texts, Json.sortKeys_texts] at hsort
  exact Json.texts_inj hsort

theorem ruleJson_inj {r r' : PolicyRule}
    (h : Json.sortKeys (ruleJson r) = Json.sortKeys (ruleJson r')) : r = r' := by
  have hget := Json.get?_of_sortKeys_eq h
  have hid := str_of_map_sortKeys (hget "rule_id".toList)
  have htarget := RuleTarget.value_inj (str_of_map_sortKeys (hget "target".toList))
  have haction := SyscallAction.value_inj (str_of_map_sortKeys (hget "action".toList))
  have hpaths := texts_of_map_sortKeys (hget "paths".toList)
  have haddresses := texts_of_map_sortKeys (hget "addresses".toList)
  have hsyscalls := texts_of_map_sortKeys (hget "syscalls".toList)
  have hdescription := str_of_map_sortKeys (hget "description".toList)
  cases r
  cases r'
  simp_all

structure SameContent (p q : Policy) : Prop where
  defaultAction : p.defaultAction = q.defaultAction
  rules : (p.rules.map normRule).Perm (q.rules.map normRule)

theorem sameContent_of_hash_eq {hexdigest : Str → Str} (hinj : Function.Injective hexdigest)
    {p q : Policy} (h : policyHash hexdigest p = policyHash hexdigest q) : SameContent p q := by
  have hsort := Json.dumpsCompact_inj (wellFormed_canonicalPolicyDict p)
    (wellFormed_canonicalPolicyDict q) (hinj h)
  have hget := Json.get?_of_sortKeys_eq hsort
  have hdefault := SyscallAction.value_inj (str_of_map_sortKeys (hget "default_action".toList))
  have hrules := Json.arr.inj (Option.some.inj (hget "rules".toList))
  rw [Json.sortItems_ofList, Json.sortItems_ofList] at hrules
  have hmap := Json.items_ofList_inj hrules
  rw [List.map_map, List.map_map] at hmap
  have hnorm : rulesNorm p = rulesNorm q :=
    List.map_injective_iff.mpr (fun _ _ => ruleJson_inj) hmap
  have hp : (rulesNorm p).Perm (p.rules.map normRule) := perm_ascending _ _
  have hq : (rulesNorm q).Perm (q.rules.map normRule) := perm_ascending _ _
  exact ⟨hdefault, hp.symm.trans (hnorm ▸ hq)⟩

theorem SameContent.symm {p q : Policy} (h : SameContent p q) : SameContent q p :=
  ⟨h.defaultAction.symm, h.rules.symm⟩

theorem SameContent.rule {p q : Policy} (h : SameContent p q) {r : PolicyRule} (hr : r ∈ p.rules) :
    ∃ r' ∈ q.rules, normRule r' = normRule r :=
  List.mem_map.mp (h.rules.mem_iff.mp (List.mem_map.mpr ⟨r, hr, rfl⟩))

section NormRule

variable {r r' : PolicyRule} (h : normRule r' = normRule r)
include h

theorem target_of_normRule : r'.target = r.target := by
  have htarget := congrArg PolicyRule.target h
  exact htarget

theorem action_of_normRule : r'.action = r.action := by
  have haction := congrArg PolicyRule.action h
  exact haction

theorem paths_of_normRule : r'.paths.Perm r.paths := by
  have hsorted : ascending id r'.paths = ascending id r.paths := congrArg PolicyRule.paths h
  exact (perm_ascending id r'.paths).symm.trans (hsorted ▸ perm_ascending id r.paths)

end NormRule

end Canonical

section Backends

open Seccomp Landlock

variable {p q : Policy}

theorem SameContent.allows (h : SameContent p q) (t : RuleTarget) : p.allows t → q.allows t := by
  rintro ⟨r,hr,rfl,ha⟩
  obtain ⟨r',hr',hn⟩ := h.rule hr
  exact ⟨r', hr', target_of_normRule hn, (action_of_normRule hn).trans ha⟩

theorem SameContent.denies (h : SameContent p q) (t : RuleTarget) : p.denies t → q.denies t := by
  rintro ⟨r,hr,rfl,hd⟩
  obtain ⟨r',hr',hn⟩ := h.rule hr
  exact ⟨r', hr', target_of_normRule hn, (action_of_normRule hn).symm ▸ hd⟩

theorem SameContent.allowed_iff (h : SameContent p q) (name : String) :
    Allowed p name ↔ Allowed q name := by
  constructor
  · rintro ⟨t,ht,hn⟩
    exact ⟨t, h.allows t ht, hn⟩
  · rintro ⟨t,ht,hn⟩
    exact ⟨t, h.symm.allows t ht, hn⟩

theorem SameContent.denied_iff (h : SameContent p q) (name : String) :
    Denied p name ↔ Denied q name := by
  constructor
  · rintro ⟨hl,t,ht,hn⟩
    exact ⟨hl, t, h.denies t ht, hn⟩
  · rintro ⟨hl,t,ht,hn⟩
    exact ⟨hl, t, h.symm.denies t ht, hn⟩

def decides (lib : Libseccomp) (order : SetOrder) (policy : Policy) (num : Int) : Option Nat :=
  (buildFilter lib order policy).1.map fun ctx => ctx.action num

theorem SameContent.decides_eq (h : SameContent p q) (lib : Libseccomp) (order : SetOrder)
    (num : Int) : decides lib order p num = decides lib order q num := by
  cases hi : lib.seccompInit with
  | false => simp [decides, buildFilter, hi]
  | true =>
    obtain ⟨ctx,blocked,hb⟩ := exists_filter lib order p hi
    obtain ⟨ctx',blocked',hb'⟩ := exists_filter lib order q hi
    have haction : ctx.action num = ctx'.action num := by
      cases hd : p.defaultAction.denies with
      | true =>
        obtain ⟨hu,hrec⟩ := recorded_killing hd hb
        obtain ⟨hu',hrec'⟩ := recorded_killing (h.defaultAction ▸ hd) hb'
        refine action_eq_of_recorded_iff hu hu' (known_buildFilter hb) (known_buildFilter hb')
          (fun name hr => ?_) num
        rw [hrec name hr, hrec' name hr, h.denied_iff, h.allowed_iff]
      | false =>
        obtain ⟨hu,hrec⟩ := recorded_allowing hd hb
        obtain ⟨hu',hrec'⟩ := recorded_allowing (h.defaultAction ▸ hd) hb'
        refine action_eq_of_recorded_iff hu hu' (known_buildFilter hb) (known_buildFilter hb')
          (fun name hr => ?_) num
        rw [hrec name hr, hrec' name hr, h.denied_iff]
    rw [decides, decides, hb, hb', Option.map_some, Option.map_some, haction]

theorem sortedItems_eq (fs : FileSystem) (workspaceRoot : Str) (handledFs : Nat)
    {calls calls' : List (Str × Nat)} (h : ∀ c, c ∈ calls ↔ c ∈ calls') :
    sortedItems (calls.foldl (grant fs workspaceRoot handledFs) []) =
      sortedItems (calls'.foldl (grant fs workspaceRoot handledFs) []) := by
  have hn := keys_grants_nodup fs workspaceRoot handledFs calls [] List.nodup_nil
  have hn' := keys_grants_nodup fs workspaceRoot handledFs calls' [] List.nodup_nil
  have hkeys : ∀ key, key ∈ Dict.keys (calls.foldl (grant fs workspaceRoot handledFs) []) ↔
      key ∈ Dict.keys (calls'.foldl (grant fs workspaceRoot handledFs) []) := by
    intro key
    simp only [keys_grants, h]
  have hget : ∀ key, Dict.get? (calls.foldl (grant fs workspaceRoot handledFs) []) key =
      Dict.get? (calls'.foldl (grant fs workspaceRoot handledFs) []) key := by
    intro key
    have hbits : ((calls.foldl (grant fs workspaceRoot handledFs) []).get? key).getD 0 =
        ((calls'.foldl (grant fs workspaceRoot handledFs) []).get? key).getD 0 := by
      refine Nat.eq_of_testBit_eq fun i => Bool.eq_iff_iff.mpr ?_
      simp only [testBit_grants, h]
    cases hg : (calls.foldl (grant fs workspaceRoot handledFs) []).get? key with
    | none =>
      rw [← Dict.not_mem_keys_iff, hkeys, Dict.not_mem_keys_iff] at hg
      rw [hg]
    | some bits =>
      obtain ⟨bits',hg'⟩ := Dict.exists_get?_of_mem_keys
        ((hkeys key).mp (Dict.mem_keys_of_get? hg))
      rw [hg, hg', Option.getD_some, Option.getD_some] at hbits
      rw [hg', hbits]
  have hperm : (calls.foldl (grant fs workspaceRoot handledFs) []).Perm
      (calls'.foldl (grant fs workspaceRoot handledFs) []) := by
    rw [List.perm_ext_iff_of_nodup (List.Nodup.of_map _ hn) (List.Nodup.of_map _ hn')]
    rintro ⟨key,bits⟩
    constructor
    · intro hmem
      exact Dict.mem_of_get? ((hget key).symm.trans (Dict.get?_of_mem hn hmem))
    · intro hmem
      exact Dict.mem_of_get? ((hget key).trans (Dict.get?_of_mem hn' hmem))
  refine List.Perm.eq_of_pairwise ?_ (pairwise_ascending _ _) (pairwise_ascending _ _)
    ((perm_ascending _ _).trans (hperm.trans (perm_ascending _ _).symm))
  intro a b ha hb hab hba
  have hkey : a.1 = b.1 := le_antisymm hab hba
  have hga := Dict.get?_of_mem hn ((perm_ascending _ _).mem_iff.mp ha)
  have hgb := Dict.get?_of_mem hn' ((perm_ascending _ _).mem_iff.mp hb)
  rw [hget, hkey, hgb, Option.some.injEq] at hga
  exact Prod.ext hkey hga.symm

section RuleGrants

variable {r r' : PolicyRule} (h : normRule r' = normRule r)
include h

theorem paths_nil_iff : r'.paths = [] ↔ r.paths = [] := by
  rw [← List.length_eq_zero_iff, (paths_of_normRule h).length_eq, List.length_eq_zero_iff]

theorem mem_readRuleGrants {c : Str × Nat} : c ∈ readRuleGrants r' ↔ c ∈ readRuleGrants r := by
  simp only [readRuleGrants, target_of_normRule h, action_of_normRule h, paths_nil_iff h]
  split
  · split
    · rfl
    · exact ((paths_of_normRule h).filterMap _).mem_iff
  · rfl

theorem mem_execRuleGrants (fs : FileSystem) {c : Str × Nat} :
    c ∈ execRuleGrants fs r' ↔ c ∈ execRuleGrants fs r := by
  simp only [execRuleGrants, target_of_normRule h, action_of_normRule h]
  split
  · exact ((paths_of_normRule h).flatMap_right _).mem_iff
  · rfl

theorem mem_writeRuleGrants (fs : FileSystem) (workspaceRoot : Str) (rw : Nat) {c : Str × Nat} :
    c ∈ writeRuleGrants fs workspaceRoot rw r' ↔ c ∈ writeRuleGrants fs workspaceRoot rw r := by
  simp only [writeRuleGrants, target_of_normRule h, action_of_normRule h]
  split
  · exact ((paths_of_normRule h).filterMap _).mem_iff
  · rfl

end RuleGrants

theorem SameContent.mem_flatMap (h : SameContent p q) {f : PolicyRule → List (Str × Nat)}
    (hf : ∀ r r', normRule r' = normRule r → ∀ c, c ∈ f r' ↔ c ∈ f r) (c : Str × Nat) :
    c ∈ p.rules.flatMap f ↔ c ∈ q.rules.flatMap f := by
  have hone : ∀ {p q : Policy}, SameContent p q → c ∈ p.rules.flatMap f → c ∈ q.rules.flatMap f := by
    intro p q h hc
    obtain ⟨r,hr,hc⟩ := List.mem_flatMap.mp hc
    obtain ⟨r',hr',hn⟩ := h.rule hr
    exact List.mem_flatMap.mpr ⟨r', hr', (hf r r' hn c).mpr hc⟩
  exact ⟨hone h, hone h.symm⟩

theorem readGrants_error {fs : FileSystem} {policy : Policy} {command : List Str}
    (hd : targetDenied policy .fileRead = false) (hc : command = []) :
    readGrants fs policy command = .error .indexError := by
  subst hc
  simp [readGrants, hd]

theorem SameContent.readGrants (h : SameContent p q) (fs : FileSystem) (command : List Str)
    (hd : targetDenied p .fileRead = targetDenied q .fileRead) :
    (∃ e, readGrants fs p command = .error e ∧ readGrants fs q command = .error e) ∨
      ∃ reads reads', readGrants fs p command = .ok reads ∧
        readGrants fs q command = .ok reads' ∧ ∀ c, c ∈ reads ↔ c ∈ reads' := by
  cases hp : targetDenied p .fileRead with
  | true =>
    have hq := hd.symm.trans hp
    exact .inr ⟨[], [], by simp [Landlock.readGrants, hp], by simp [Landlock.readGrants, hq],
      fun _ => Iff.rfl⟩
  | false =>
    have hq := hd.symm.trans hp
    cases command with
    | nil => exact .inl ⟨_, readGrants_error hp rfl, readGrants_error hq rfl⟩
    | cons program rest =>
      right
      simp only [Landlock.readGrants, hp, hq, Bool.false_eq_true, if_false, Except.ok.injEq]
      refine ⟨_, _, rfl, rfl, fun c => ?_⟩
      rw [List.mem_append, List.mem_append (t := q.rules.flatMap _),
        h.mem_flatMap (fun _ _ hn _ => mem_readRuleGrants hn) c]

theorem SameContent.writeGrants (h : SameContent p q) (fs : FileSystem) (workspaceRoot : Str)
    (handledFs : Nat) (hd : targetDenied p .fileWrite = targetDenied q .fileWrite) (c : Str × Nat) :
    c ∈ writeGrants fs p workspaceRoot handledFs ↔ c ∈ writeGrants fs q workspaceRoot handledFs := by
  rw [Landlock.writeGrants, Landlock.writeGrants, hd]
  split
  · rfl
  · rw [List.mem_cons, List.mem_cons,
      h.mem_flatMap (fun _ _ hn _ => mem_writeRuleGrants hn fs workspaceRoot _) c]

theorem SameContent.buildGrants_eq (h : SameContent p q) (fs : FileSystem) (command : List Str)
    (workspaceRoot : Str) (handledFs : Nat)
    (hr : targetDenied p .fileRead = targetDenied q .fileRead)
    (hw : targetDenied p .fileWrite = targetDenied q .fileWrite) :
    buildGrants fs p command workspaceRoot handledFs =
      buildGrants fs q command workspaceRoot handledFs := by
  rcases h.readGrants fs command hr with ⟨e,hp,hq⟩ | ⟨reads,reads',hp,hq,hreads⟩
  · rw [buildGrants, buildGrants, hp, hq]
    rfl
  · have hexec : ∀ c, c ∈ execGrants fs p ↔ c ∈ execGrants fs q :=
      h.mem_flatMap fun _ _ hn _ => mem_execRuleGrants hn fs
    have hcalls : ∀ c, c ∈ grantCalls fs reads p workspaceRoot handledFs ↔
        c ∈ grantCalls fs reads' q workspaceRoot handledFs := by
      intro c
      simp only [grantCalls, List.mem_append, hreads, hexec,
        h.writeGrants fs workspaceRoot handledFs hw]
    have hitems := sortedItems_eq fs workspaceRoot handledFs hcalls
    rw [buildGrants, buildGrants, hp, hq]
    exact congrArg Except.ok hitems

structure SameSandbox (p q : Policy) : Prop where
  filter : ∀ lib order num, decides lib order p num = decides lib order q num
  network : ∀ abi, (netHandling p abi).1 = (netHandling q abi).1
  grants : ∀ fs command workspaceRoot handledFs,
    buildGrants fs p command workspaceRoot handledFs =
      buildGrants fs q command workspaceRoot handledFs
  failClosed : p.failClosed = q.failClosed

def SameDenials (p q : Policy) : Prop :=
  ∀ t ∈ [RuleTarget.fileRead, .fileWrite, .networkOut, .networkBind],
    targetDenied p t = targetDenied q t

theorem denials_of_network (h : ∀ abi, (netHandling p abi).1 = (netHandling q abi).1) :
    targetDenied p .networkOut = targetDenied q .networkOut ∧
      targetDenied p .networkBind = targetDenied q .networkBind := by
  have hbits := h netAbi
  simp only [netHandling, if_pos (le_refl netAbi)] at hbits
  revert hbits
  cases targetDenied p .networkOut <;> cases targetDenied q .networkOut <;>
    cases targetDenied p .networkBind <;> cases targetDenied q .networkBind <;> decide

theorem readGrants_nil_isOk (fs : FileSystem) (policy : Policy) :
    (readGrants fs policy []).isOk = targetDenied policy .fileRead := by
  cases hd : targetDenied policy .fileRead with
  | true => simp [Landlock.readGrants, hd, Except.isOk, Except.toBool]
  | false => rw [readGrants_error hd rfl]; rfl

theorem buildGrants_isOk (fs : FileSystem) (policy : Policy) (command : List Str)
    (workspaceRoot : Str) (handledFs : Nat) :
    (buildGrants fs policy command workspaceRoot handledFs).isOk =
      (readGrants fs policy command).isOk := by
  rw [buildGrants]
  cases readGrants fs policy command <;> rfl

theorem writes_iff (policy : Policy) :
    targetDenied policy .fileWrite = false ↔ ∃ pairs,
      buildGrants plainFileSystem policy ["true".toList] plainWorkspace.root 2 = .ok pairs ∧
        ∃ path bits, (path, bits) ∈ pairs ∧ writeBits bits ≠ 0 := by
  constructor
  · intro hd
    have hok : (buildGrants plainFileSystem policy ["true".toList] plainWorkspace.root 2).isOk =
        true := by
      rw [buildGrants_isOk]
      simp only [Landlock.readGrants]
      split <;> rfl
    cases hb : buildGrants plainFileSystem policy ["true".toList] plainWorkspace.root 2 with
    | error e =>
      rw [hb] at hok
      cases hok
    | ok pairs => exact ⟨pairs, rfl, workspace_writable hb hd (by decide)⟩
  · rintro ⟨pairs,hb,path,bits,hp,hw⟩
    obtain ⟨-,c,hc,-⟩ := write_call_of_pair hb hp hw
    exact (mem_writeGrants plainWorkspace hc).1

theorem denials_of_grants (h : ∀ fs command workspaceRoot handledFs,
    buildGrants fs p command workspaceRoot handledFs =
      buildGrants fs q command workspaceRoot handledFs) :
    targetDenied p .fileRead = targetDenied q .fileRead ∧
      targetDenied p .fileWrite = targetDenied q .fileWrite := by
  constructor
  · have hok := congrArg Except.isOk (h plainFileSystem [] plainWorkspace.root 2)
    rwa [buildGrants_isOk, buildGrants_isOk, readGrants_nil_isOk, readGrants_nil_isOk] at hok
  · have hiff : targetDenied p .fileWrite = false ↔ targetDenied q .fileWrite = false := by
      rw [writes_iff, writes_iff, h]
    revert hiff
    cases targetDenied p .fileWrite <;> cases targetDenied q .fileWrite <;> simp

theorem sameSandbox_iff (h : SameContent p q) :
    SameSandbox p q ↔ p.failClosed = q.failClosed ∧ SameDenials p q := by
  constructor
  · intro hs
    obtain ⟨hr,hw⟩ := denials_of_grants hs.grants
    obtain ⟨ho,hb⟩ := denials_of_network hs.network
    refine ⟨hs.failClosed,?_⟩
    simp only [SameDenials, List.forall_mem_cons]
    exact ⟨hr, hw, ho, hb, by simp⟩
  · rintro ⟨hf,hd⟩
    simp only [SameDenials, List.forall_mem_cons] at hd
    obtain ⟨hr,hw,ho,hb,-⟩ := hd
    refine ⟨h.decides_eq,fun abi => ?_,fun fs command ws mask => ?_,hf⟩
    · simp only [netHandling, ho, hb]
      split <;> rfl
    · exact h.buildGrants_eq fs command ws mask hr hw

end Backends

theorem policyHash_identifies_iff (hexdigest : Str → Str) (hinj : Function.Injective hexdigest) :
    (∀ p q : Policy, policyHash hexdigest p = policyHash hexdigest q →
      (SameSandbox p q ↔ p.failClosed = q.failClosed ∧ SameDenials p q)) ∧
    ∀ p q : Policy, p.name = q.name → p.version = q.version →
      p.defaultAction = q.defaultAction → p.rules = q.rules → p.failClosed = q.failClosed →
        policyHash hexdigest p = policyHash hexdigest q := by
  refine ⟨fun p q h => sameSandbox_iff (sameContent_of_hash_eq hinj h),?_⟩
  intro p q hn hv hd hr _
  simp only [policyHash, canonicalPolicyDict, rulesNorm, hn, hv, hd, hr]

def writableFirst : Policy := { Landlock.allowThenDeny with name := "writes".toList }

def deniedFirst : Policy := { Landlock.denyThenAllow with name := "writes".toList }

theorem policyHash_swap (hexdigest : Str → Str) (p : Policy) {r r' : PolicyRule}
    (h : (normRule r).ruleId ≠ (normRule r').ruleId) :
    policyHash hexdigest { p with rules := [r, r'] } = policyHash hexdigest { p with rules := [r', r] } := by
  have hrules : rulesNorm { p with rules := [r, r'] } = rulesNorm { p with rules := [r', r] } := by
    refine ascending_eq_of_perm _ (List.Perm.swap _ _ _) ?_
    intro a ha b hb hid
    rcases List.mem_pair.mp ha with rfl | rfl <;> rcases List.mem_pair.mp hb with rfl | rfl
    · rfl
    · exact absurd hid h
    · exact absurd hid h.symm
    · rfl
  simp only [policyHash, canonicalPolicyDict, hrules]

theorem hash_writableFirst (hexdigest : Str → Str) :
    policyHash hexdigest writableFirst = policyHash hexdigest deniedFirst :=
  policyHash_swap hexdigest writableFirst (by decide)

theorem reordered_rules_share_hash :
    (∀ hexdigest : Str → Str, policyHash hexdigest writableFirst = policyHash hexdigest deniedFirst) ∧
      ¬SameSandbox writableFirst deniedFirst := by
  refine ⟨hash_writableFirst,fun h => ?_⟩
  have hw := (denials_of_grants h.grants).2
  exact absurd hw (by decide)

def twoGrants : Policy where
  name := "two grants".toList
  rules := [Landlock.writeRule "W-1" .allow ["/tmp/out/**"], Landlock.writeRule "W-2" .allow ["/tmp/log/**"]]

theorem reordered_grants_same_sandbox :
    SameSandbox twoGrants { twoGrants with rules := twoGrants.rules.reverse } :=
  ((policyHash_identifies_iff id Function.injective_id).1 _ _ (policyHash_swap id twoGrants (by decide))).mpr
    ⟨rfl, by delta SameDenials; decide⟩

end PicoSentry.Sandbox.PolicyHash
