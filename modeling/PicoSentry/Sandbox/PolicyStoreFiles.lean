import PicoSentry.Sandbox.PolicyStore

namespace PicoSentry.Sandbox.PolicyStore

open Foundation

section Plain

def plainVersion (p : Policy) (version : VersionNumber) (author timestamp changeDescription contentHash : Str) :
    PolicyVersion :=
  { policy := .ofPolicy p, version := version.json, author := .str author
    timestamp := .str timestamp, changeDescription := .str changeDescription
    contentHash := .str contentHash }

def ruleDict (r : PolicyRule) : Json :=
  .obj (.ofList
    [("action".toList, .str r.action.value), ("addresses".toList, .texts r.addresses),
     ("description".toList, .str r.description), ("paths".toList, .texts r.paths),
     ("rule_id".toList, .str r.ruleId), ("syscalls".toList, .texts r.syscalls),
     ("target".toList, .str r.target.value)])

def policyEntries (p : Policy) : Record :=
  [("default_action".toList, .str p.defaultAction.value),
   ("fail_closed".toList, .bool p.failClosed), ("name".toList, .str p.name),
   ("rules".toList, .arr (.ofList (p.rules.map ruleDict))), ("version".toList, .str p.version)]

def policyDict (p : Policy) : Json := .obj (.ofList (policyEntries p))

def plainDict (p : Policy) (version : VersionNumber) (author timestamp changeDescription contentHash : Str) :
    Json :=
  .obj (.ofList
    [("author".toList, .str author), ("change_description".toList, .str changeDescription),
     ("content_hash".toList, .str contentHash), ("policy".toList, policyDict p),
     ("timestamp".toList, .str timestamp), ("version".toList, version.json)])

theorem listOf_texts (ss : List Str) : listOf (.texts ss) = .ok (.texts ss) := by
  rw [listOf, Json.texts, elements, Json.toList_ofItems]
  rfl

theorem toDict_ofRule (r : PolicyRule) : (StoredRule.ofRule r).toDict = .ok (ruleDict r) := by
  rw [StoredRule.toDict, StoredRule.ofRule]
  dsimp only
  rw [bind_of_eq_ok (listOf_texts _), bind_of_eq_ok (listOf_texts _),
    bind_of_eq_ok (listOf_texts _)]
  rfl

theorem toDict_ofPolicy (p : Policy) : (StoredPolicy.ofPolicy p).toDict = .ok (policyDict p) := by
  have hrules : (p.rules.map StoredRule.ofRule).mapM StoredRule.toDict =
      .ok (p.rules.map ruleDict) := by
    rw [List.mapM_map]
    exact mapM_ok fun r _ => toDict_ofRule r
  rw [StoredPolicy.toDict, StoredPolicy.ofPolicy]
  dsimp only
  rw [bind_of_eq_ok hrules]
  rfl

variable (p : Policy) (version : VersionNumber) (author timestamp changeDescription contentHash : Str)

theorem toDict_plain : (plainVersion p version author timestamp changeDescription contentHash).toDict =
    .ok (plainDict p version author timestamp changeDescription contentHash) := by
  rw [PolicyVersion.toDict, plainVersion]
  dsimp only
  rw [bind_of_eq_ok (toDict_ofPolicy p)]
  rfl

theorem sortKeys_ruleDict (r : PolicyRule) : Json.sortKeys (ruleDict r) = ruleDict r := by
  have hsort : Json.sortKeys (ruleDict r) = .obj (.ofList
      [("action".toList, .str r.action.value),
       ("addresses".toList, Json.sortKeys (.texts r.addresses)),
       ("description".toList, .str r.description), ("paths".toList, Json.sortKeys (.texts r.paths)),
       ("rule_id".toList, .str r.ruleId), ("syscalls".toList, Json.sortKeys (.texts r.syscalls)),
       ("target".toList, .str r.target.value)]) := rfl
  rw [hsort, Json.sortKeys_texts, Json.sortKeys_texts, Json.sortKeys_texts, ruleDict]

theorem sortKeys_policyDict : Json.sortKeys (policyDict p) = policyDict p := by
  have hsort : Json.sortKeys (policyDict p) = .obj (.ofList
      [("default_action".toList, .str p.defaultAction.value),
       ("fail_closed".toList, .bool p.failClosed), ("name".toList, .str p.name),
       ("rules".toList, .arr (Json.sortItems (.ofList (p.rules.map ruleDict)))),
       ("version".toList, .str p.version)]) := rfl
  have hrules : (p.rules.map ruleDict).map Json.sortKeys = p.rules.map ruleDict := by
    rw [List.map_map]
    exact List.map_congr_left fun r _ => sortKeys_ruleDict r
  rw [hsort, Json.sortItems_ofList, hrules, policyDict, policyEntries]

theorem sortKeys_json (version : VersionNumber) : Json.sortKeys version.json = version.json := by
  cases version <;> rfl

theorem sortKeys_plain : Json.sortKeys (plainDict p version author timestamp changeDescription
    contentHash) = plainDict p version author timestamp changeDescription contentHash := by
  have hsort : Json.sortKeys (plainDict p version author timestamp changeDescription contentHash) =
      .obj (.ofList
        [("author".toList, .str author), ("change_description".toList, .str changeDescription),
         ("content_hash".toList, .str contentHash), ("policy".toList, Json.sortKeys (policyDict p)),
         ("timestamp".toList, .str timestamp), ("version".toList, Json.sortKeys version.json)]) := rfl
  rw [hsort, sortKeys_policyDict, sortKeys_json, plainDict]

variable {repr : Str → Str}

theorem held_ruleDict (r : PolicyRule) : Json.Held repr (ruleDict r) := by
  refine Json.held_ofList (show ["action".toList, "addresses".toList, "description".toList,
    "paths".toList, "rule_id".toList, "syscalls".toList, "target".toList].Nodup by decide) ?_
  simp only [List.forall_mem_cons]
  exact ⟨Json.held_str _, Json.held_texts _, Json.held_str _, Json.held_texts _, Json.held_str _,
    Json.held_texts _, Json.held_str _, fun _ he => absurd he List.not_mem_nil⟩

theorem held_policyDict : Json.Held repr (policyDict p) := by
  have hrules : Json.Held repr (.arr (.ofList (p.rules.map ruleDict))) :=
    Json.held_ofItems (List.forall_mem_map.mpr fun r _ => held_ruleDict r)
  refine Json.held_ofList (show ["default_action".toList, "fail_closed".toList, "name".toList,
    "rules".toList, "version".toList].Nodup by decide) ?_
  simp only [policyEntries, List.forall_mem_cons]
  exact ⟨Json.held_str _, Json.held_bool _, Json.held_str _, hrules, Json.held_str _,
    fun _ he => absurd he List.not_mem_nil⟩

theorem held_plain (hversion : Json.Held repr version.json) : Json.Held repr
    (plainDict p version author timestamp changeDescription contentHash) := by
  refine Json.held_ofList (show ["author".toList, "change_description".toList,
    "content_hash".toList, "policy".toList, "timestamp".toList, "version".toList].Nodup
    by decide) ?_
  simp only [List.forall_mem_cons]
  exact ⟨Json.held_str _, Json.held_str _, Json.held_str _, held_policyDict p, Json.held_str _,
    hversion, fun _ he => absurd he List.not_mem_nil⟩

theorem member_action (a : SyscallAction) :
    member SyscallAction.value syscallActions (.str a.value) = .ok a := by
  cases a <;> decide

theorem member_target (t : RuleTarget) : member RuleTarget.value ruleTargets (.str t.value) = .ok t := by
  cases t <;> decide

theorem ruleFromDict_ruleDict (r : PolicyRule) : ruleFromDict (ruleDict r) = .ok (.ofRule r) := by
  have hid : item (ruleDict r) "rule_id" = .ok (.str r.ruleId) := rfl
  have htarget : item (ruleDict r) "target" = .ok (.str r.target.value) := rfl
  have haction : item (ruleDict r) "action" = .ok (.str r.action.value) := rfl
  rw [ruleFromDict, bind_of_eq_ok hid, bind_of_eq_ok htarget, bind_of_eq_ok (member_target _),
    bind_of_eq_ok haction, bind_of_eq_ok (member_action _)]
  rfl

theorem policyFromDict_policyDict : policyFromDict (policyDict p) = .ok (.ofPolicy p) := by
  have hrules : (p.rules.map ruleDict).mapM ruleFromDict = .ok (p.rules.map StoredRule.ofRule) := by
    rw [List.mapM_map]
    exact mapM_ok fun r _ => ruleFromDict_ruleDict r
  have hdict : asDict (policyDict p) = .ok (policyEntries p) := by
    rw [policyDict, asDict, Json.toList_ofList]
  have helements : elements (field (policyEntries p) "rules" (.arr .nil)) =
      .ok (p.rules.map ruleDict) := congrArg Except.ok (Json.toList_ofItems _)
  have haction : member SyscallAction.value syscallActions
      (field (policyEntries p) "default_action" (.str "deny".toList)) = .ok p.defaultAction :=
    member_action p.defaultAction
  rw [policyFromDict, bind_of_eq_ok hdict, bind_of_eq_ok helements, bind_of_eq_ok hrules,
    bind_of_eq_ok haction]
  rfl

theorem fromDict_plain :
    PolicyVersion.fromDict (plainDict p version author timestamp changeDescription contentHash) =
      .ok (plainVersion p version author timestamp changeDescription contentHash) := by
  have hdict : asDict (plainDict p version author timestamp changeDescription contentHash) = .ok
      [("author".toList, .str author), ("change_description".toList, .str changeDescription),
       ("content_hash".toList, .str contentHash), ("policy".toList, policyDict p),
       ("timestamp".toList, .str timestamp), ("version".toList, version.json)] := by
    rw [plainDict, asDict, Json.toList_ofList]
  have hpolicy : policyFromDict (field
      [("author".toList, .str author), ("change_description".toList, .str changeDescription),
       ("content_hash".toList, .str contentHash), ("policy".toList, policyDict p),
       ("timestamp".toList, .str timestamp), ("version".toList, version.json)]
      "policy" (.obj .nil)) = .ok (.ofPolicy p) := policyFromDict_policyDict p
  rw [PolicyVersion.fromDict, bind_of_eq_ok hdict, bind_of_eq_ok hpolicy]
  rfl

end Plain

section Text

def Plain (env : Env) (pv : PolicyVersion) : Prop :=
  ∃ p version author timestamp changeDescription contentHash,
    Json.Held env.repr version.json ∧
      pv = plainVersion p version author timestamp changeDescription contentHash

def IsText (pv : PolicyVersion) (s : Str) : Prop :=
  ∃ j, pv.toDict = .ok j ∧ s = j.dumpsIndented

variable {env : Env} {pv pv' : PolicyVersion} {s : Str}

theorem readVersionFile_text (hplain : Plain env pv) (h : IsText pv s) :
    readVersionFile env (.text s) = .ok (some pv) := by
  obtain ⟨p,version,author,timestamp,changeDescription,contentHash,hversion,rfl⟩ := hplain
  obtain ⟨j,hj,rfl⟩ := h
  rw [toDict_plain] at hj
  obtain rfl := Except.ok.inj hj
  have hheld : Json.Held env.repr (plainDict p version author timestamp changeDescription
    contentHash) := held_plain p version author timestamp changeDescription contentHash hversion
  have hparse := hheld.parse_dumpsIndented
  rw [sortKeys_plain] at hparse
  rw [readVersionFile, hparse]
  dsimp only
  rw [fromDict_plain]

end Text

end PicoSentry.Sandbox.PolicyStore
