import PicoSentry.Sandbox.ClusterCompletion
import PicoSentry.Sandbox.ClusterConvergence

namespace PicoSentry.Sandbox.Cluster.Leadership

open Foundation Foundation.Run ClusterState Convergence Completion

section Orchestrator

-- The manager's start, of a node that it registers as online.
def start (s : ClusterState) (nodeId address : Str) (port : Int) (heartbeat : Str) : ClusterState :=
  let s := s.addNode { nodeId := nodeId, address := address, port := port, lastHeartbeat := heartbeat }
  if s.onlineNodes.length = 1 then s.electLeader.1 else s

def drain (s : ClusterState) (nodeId : Str) : ClusterState :=
  match s.nodes.load nodeId with
  | none => s
  | some node =>
    (s.updateNode { node with status := .draining }).updateNode { node with status := .offline }

def stop (s : ClusterState) (nodeId : Str) : ClusterState :=
  let s := (drain s nodeId).removeNode nodeId
  if s.leaderId = some nodeId ∨ s.leaderId = none then s.electLeader.1 else s

end Orchestrator

inductive Call where
  | act (call : LocalCall)
  | merge (snapshot : Snapshot) (now : ℚ)
  | handleNodeFailure (nodeId : Str)
  | start (nodeId address : Str) (port : Int) (heartbeat : Str)
  | stop (nodeId : Str)

section Operations

variable (c : Crypto)

def perform (s : ClusterState) : Call → ClusterState
  | .act call => act s call
  | .merge snapshot now => (s.mergeState c snapshot now).1
  | .handleNodeFailure nodeId => (s.handleNodeFailure nodeId).1
  | .start nodeId address port heartbeat => start s nodeId address port heartbeat
  | .stop nodeId => stop s nodeId

def step (s : ClusterState) (call : Call) : Option (ClusterState × List Unit) :=
  some (perform c s call, [])

def Leads (nodes : Str → Option ClusterNode) : Option Str → Prop
  | some nodeId => LowestOnline nodes nodeId
  | none => NoneOnline nodes

def LeaderValid (s : ClusterState) : Prop := Leads s.nodes.load s.leaderId

def Behind (leaderId : Option Str) (node : ClusterNode) : Prop :=
  (Online node → ∃ leader ∈ leaderId, leader ≤ node.nodeId) ∧
    (¬Online node → leaderId ≠ some node.nodeId)

def received {data ρ : Type} (fromDict : Option data → Except PyError ρ) : List (Option data) → List ρ
  | [] => []
  | entry :: entries =>
    match fromDict entry with
    | .error _ => []
    | .ok r => r :: received fromDict entries

def Readable {data ρ : Type} (fromDict : Option data → Except PyError ρ) (entries : List (Option data)) :
    Prop :=
  ∀ entry ∈ entries, ∃ r, fromDict entry = .ok r

def newestRecord (s : ClusterState) (snapshot : Snapshot) (nodeId : Str) : Option ClusterNode :=
  newestOf nodeIsNewer (s.nodes.load nodeId)
    ((received ClusterNode.fromDict snapshot.nodes).filter fun node => node.nodeId = nodeId)

def KeepsLeader (s : ClusterState) : Call → Prop
  | .act (.addNode node) => Behind s.leaderId node
  | .act (.updateNode node) => Behind s.leaderId node
  | .act (.removeNode nodeId) => s.leaderId ≠ some nodeId
  | .act _ => True
  | .merge snapshot now => (mergeTokens c s.tokenStore snapshot now).2 = .ok () →
      (Readable ClusterNode.fromDict snapshot.nodes ∧ Readable ScanRequest.fromDict snapshot.scans →
        NoneOnline (newestRecord s snapshot) → s.leaderId = none) ∧
      (¬(Readable ClusterNode.fromDict snapshot.nodes ∧ Readable ScanRequest.fromDict snapshot.scans) →
        Leads (newestRecord s snapshot) s.leaderId)
  | .handleNodeFailure nodeId => s.nodes.load nodeId ≠ none → s.leaderId ≠ some nodeId
  | .start nodeId _ _ _ =>
      (∀ nodeId' node, s.nodes.load nodeId' = some node → Online node → nodeId' = nodeId) ∨
        ∃ leader ∈ s.leaderId, leader ≤ nodeId
  | .stop nodeId => s.leaderId = some nodeId →
      ∃ nodeId' node, nodeId' ≠ nodeId ∧ s.nodes.load nodeId' = some node ∧ Online node

end Operations

section Records

variable {nodes nodes' : Str → Option ClusterNode} {leaderId : Option Str} {t : NodeTable}

theorem leads_of_statuses
    (hsame : ∀ k, (nodes' k).map ClusterNode.status = (nodes k).map ClusterNode.status)
    (h : Leads nodes leaderId) : Leads nodes' leaderId := by
  have hback : ∀ k node', nodes' k = some node' → Online node' → ∃ node, nodes k = some node ∧ Online node := by
    intro k node' hload honline
    have hk := hsame k
    rw [hload, Option.map_some] at hk
    obtain ⟨node,hnode,hstatus⟩ := Option.map_eq_some_iff.mp hk.symm
    exact ⟨node, hnode, hstatus.trans honline⟩
  cases leaderId with
  | none =>
    intro k node' hload honline
    obtain ⟨node,hnode,hon⟩ := hback k node' hload honline
    exact h k node hnode hon
  | some leader =>
    obtain ⟨node,hnode,honline⟩ := h.online
    have hk := hsame leader
    rw [hnode, Option.map_some] at hk
    obtain ⟨node',hnode',hstatus⟩ := Option.map_eq_some_iff.mp hk
    refine ⟨⟨node', hnode', hstatus.trans honline⟩, fun k other hload hon => ?_⟩
    obtain ⟨own,hown,hon'⟩ := hback k other hload hon
    exact h.lowest k own hown hon'

theorem leads_save_iff (h : Leads t.load leaderId) (node : ClusterNode) :
    Leads (t.save node).load leaderId ↔ Behind leaderId node := by
  have hself := t.load_save_self node
  have hother : ∀ k, node.nodeId ≠ k → (t.save node).load k = t.load k := fun _ => Table.load_save_of_ne
  cases leaderId with
  | none =>
    constructor
    · intro hnone
      exact ⟨fun honline => absurd honline (hnone _ node hself), fun _ => by simp⟩
    · rintro ⟨honline,_⟩ k other hload hon
      by_cases hk : node.nodeId = k
      · subst hk
        cases hself.symm.trans hload
        obtain ⟨leader,hleader,_⟩ := honline hon
        cases hleader
      · rw [hother k hk] at hload
        exact h k other hload hon
  | some leader =>
    constructor
    · intro hlow
      refine ⟨fun honline => ⟨leader, rfl, hlow.lowest _ node hself honline⟩, fun hoff hleader => ?_⟩
      obtain ⟨other,hload,hon⟩ := hlow.online
      rw [Option.some.inj hleader, hself] at hload
      cases hload
      exact hoff hon
    · rintro ⟨honline,hoff⟩
      have hlowest : Online node → leader ≤ node.nodeId := by
        intro hon
        obtain ⟨_,⟨⟩,hle⟩ := honline hon
        exact hle
      obtain ⟨own,hown,hon⟩ := h.online
      refine ⟨?_, fun k other hload hother' => ?_⟩
      · by_cases hk : node.nodeId = leader
        · subst hk
          exact ⟨node, hself, not_not.mp fun hnot => hoff hnot rfl⟩
        · exact ⟨own, by rw [hother leader hk, hown], hon⟩
      · by_cases hk : node.nodeId = k
        · subst hk
          cases hself.symm.trans hload
          exact hlowest hother'
        · rw [hother k hk] at hload
          exact h.lowest k other hload hother'

theorem leads_erase_iff (h : Leads t.load leaderId) (nodeId : Str) :
    Leads (t.erase nodeId).load leaderId ↔ leaderId ≠ some nodeId := by
  have hfewer : ∀ k node, (t.erase nodeId).load k = some node → t.load k = some node := by
    intro k node hload
    rw [Table.load_erase] at hload
    split at hload
    · cases hload
    · exact hload
  cases leaderId with
  | none => exact iff_of_true (fun k node hload => h k node (hfewer k node hload)) (by simp)
  | some leader =>
    constructor
    · rintro hlow heq
      obtain ⟨node,hload,_⟩ := hlow.online
      rw [Table.load_erase, if_pos (Option.some.inj heq).symm] at hload
      cases hload
    · intro hne
      obtain ⟨node,hload,honline⟩ := h.online
      refine ⟨⟨node, ?_, honline⟩, fun k other hother hon => h.lowest k other (hfewer k other hother) hon⟩
      rw [Table.load_erase, if_neg fun heq => hne (congrArg some heq.symm)]
      exact hload

end Records

section Elections

variable {s : ClusterState}

theorem leaderValid_electLeader_iff :
    LeaderValid s.electLeader.1 ↔ (NoneOnline s.nodes.load → s.leaderId = none) := by
  rw [LeaderValid, (electLeader_fields s).1]
  rcases electLeader_cases s with ⟨leader,hlow,hleader⟩ | ⟨hnone,hleader⟩
  · rw [hleader]
    obtain ⟨node,hload,honline⟩ := hlow.online
    exact iff_of_true hlow fun hnone => absurd honline (hnone leader node hload)
  · rw [hleader]
    constructor
    · intro hleads _
      cases hown : s.leaderId with
      | none => rfl
      | some leader =>
        rw [hown] at hleads
        obtain ⟨node,hload,honline⟩ := LowestOnline.online hleads
        exact absurd honline (hnone leader node hload)
    · intro h
      rw [h hnone]
      exact hnone

theorem LeaderValid.electLeader (h : LeaderValid s) : LeaderValid s.electLeader.1 := by
  refine leaderValid_electLeader_iff.mpr fun hnone => ?_
  cases hown : s.leaderId with
  | none => rfl
  | some leader =>
    rw [LeaderValid, hown] at h
    obtain ⟨node,hload,honline⟩ := LowestOnline.online h
    exact absurd honline (hnone leader node hload)

end Elections

section Scans

structure KeepsStatuses (s s' : ClusterState) : Prop where
  leaderId : s'.leaderId = s.leaderId
  statuses : ∀ k, (s'.nodes.load k).map ClusterNode.status = (s.nodes.load k).map ClusterNode.status

variable {s s' u : ClusterState}

theorem KeepsStatuses.refl (s : ClusterState) : KeepsStatuses s s := ⟨rfl, fun _ => rfl⟩

theorem KeepsStatuses.trans (h : KeepsStatuses s s') (h' : KeepsStatuses s' u) : KeepsStatuses s u :=
  ⟨h'.leaderId.trans h.leaderId, fun k => (h'.statuses k).trans (h.statuses k)⟩

theorem KeepsStatuses.leaderValid_iff (h : KeepsStatuses s s') : LeaderValid s' ↔ LeaderValid s := by
  rw [LeaderValid, LeaderValid, h.leaderId]
  exact ⟨leads_of_statuses fun k => (h.statuses k).symm, leads_of_statuses h.statuses⟩

theorem keepsStatuses_updateScan (s : ClusterState) (scan : ScanRequest) :
    KeepsStatuses s (s.updateScan scan) := ⟨rfl, fun _ => rfl⟩

theorem keepsStatuses_updateNode {node own : ClusterNode} (hload : s.nodes.load node.nodeId = some own)
    (hstatus : node.status = own.status) : KeepsStatuses s (s.updateNode node) := by
  refine ⟨rfl, fun k => ?_⟩
  rw [nodes_updateNode, Table.load_save]
  split
  · next hk =>
    subst hk
    rw [hload, Option.map_some, Option.map_some, hstatus]
  · rfl

theorem keepsStatuses_releaseNode (s : ClusterState) (nodeId : Str) :
    KeepsStatuses s (s.releaseNode nodeId) := by
  rw [releaseNode]
  split
  · exact .refl s
  · next node hload =>
    obtain rfl : node.nodeId = nodeId := Table.key_of_load hload
    split
    · exact keepsStatuses_updateNode hload rfl
    · exact .refl s

theorem keepsStatuses_assignScan (s : ClusterState) (scanId : Str) :
    KeepsStatuses s (s.assignScan scanId).1 := by
  rcases s.assignScan_cases scanId with heq | ⟨scan,target,_,_,htarget,heq⟩
  · rw [heq]
    exact .refl s
  · rw [heq]
    obtain ⟨hload,_⟩ := s.mem_onlineNodes.mp (s.leastLoaded_mem htarget)
    exact (keepsStatuses_updateScan s _).trans (keepsStatuses_updateNode hload rfl)

theorem keepsStatuses_completeScan (s : ClusterState) (scanId nodeId : Str) :
    KeepsStatuses s (s.completeScan scanId nodeId) := by
  rw [completeScan]
  split
  · exact .refl s
  · exact (keepsStatuses_updateScan s _).trans (keepsStatuses_releaseNode _ nodeId)

theorem keepsStatuses_failScan (s : ClusterState) (scanId : Str) : KeepsStatuses s (s.failScan scanId) := by
  rw [failScan]
  split
  · exact .refl s
  · dsimp only
    split
    · exact keepsStatuses_updateScan s _
    · split
      · exact keepsStatuses_updateScan s _
      · exact (keepsStatuses_updateScan s _).trans (keepsStatuses_releaseNode _ _)

theorem keepsStatuses_redistribute (s : ClusterState) (scanIds : List Str) :
    KeepsStatuses s (scanIds.foldl redistribute s) := by
  induction scanIds generalizing s with
  | nil => exact .refl s
  | cons scanId scanIds ih =>
    exact ((keepsStatuses_failScan s scanId).trans (keepsStatuses_assignScan _ scanId)).trans
      (ih (redistribute s scanId))

end Scans

section Steps

variable {c : Crypto} {s : ClusterState}

theorem leaderValid_updateNode_iff (h : LeaderValid s) (node : ClusterNode) :
    LeaderValid (s.updateNode node) ↔ Behind s.leaderId node :=
  leads_save_iff h { node with version := s.versionCounter + 1 }

theorem leaderValid_addNode_iff (h : LeaderValid s) (node : ClusterNode) :
    LeaderValid (s.addNode node) ↔ Behind s.leaderId node := by
  rw [addNode]
  split
  · exact leaderValid_updateNode_iff h node
  · exact leads_save_iff h node

theorem leaderValid_handleNodeFailure_iff (h : LeaderValid s) (nodeId : Str) :
    LeaderValid (s.handleNodeFailure nodeId).1 ↔ KeepsLeader c s (.handleNodeFailure nodeId) := by
  cases hload : s.nodes.load nodeId with
  | none =>
    simp only [handleNodeFailure, hload]
    exact iff_of_true h fun hknown => absurd hload hknown
  | some node =>
    obtain rfl : node.nodeId = nodeId := Table.key_of_load hload
    have hoffline : ¬Online { node with status := .offline } := by simp [Online]
    rw [handleNodeFailure_known hload, (keepsStatuses_redistribute _ _).leaderValid_iff,
      leaderValid_updateNode_iff h]
    constructor
    · exact fun hbehind _ => hbehind.2 hoffline
    · exact fun hkeeps => ⟨fun honline => absurd honline hoffline, fun _ => hkeeps (by simp [hload])⟩

theorem length_onlineNodes_iff {node : ClusterNode} (hmem : node ∈ s.onlineNodes) :
    s.onlineNodes.length = 1 ↔ ∀ nodeId other, s.nodes.load nodeId = some other → Online other →
      nodeId = node.nodeId := by
  have hnodup : (s.onlineNodes.map ClusterNode.nodeId).Nodup :=
    s.nodes.all_nodup_key.sublist (List.filter_sublist.map ClusterNode.nodeId)
  constructor
  · intro hlength nodeId other hload honline
    obtain ⟨only,honly⟩ := List.length_eq_one_iff.mp hlength
    obtain rfl : other.nodeId = nodeId := Table.key_of_load hload
    have hother := s.mem_onlineNodes.mpr ⟨hload, honline⟩
    rw [honly, List.mem_singleton] at hmem hother
    rw [hother, hmem]
  · intro honly
    have hids : ∀ nodeId ∈ s.onlineNodes.map ClusterNode.nodeId, nodeId = node.nodeId := by
      intro nodeId hid
      obtain ⟨other,hother,rfl⟩ := List.mem_map.mp hid
      obtain ⟨hload,honline⟩ := s.mem_onlineNodes.mp hother
      exact honly other.nodeId other hload honline
    have hpos := List.length_pos_of_mem hmem
    rw [List.eq_replicate_of_mem hids, List.nodup_replicate, List.length_map] at hnodup
    omega

theorem leaderValid_start_iff (h : LeaderValid s) (nodeId address : Str) (port : Int) (heartbeat : Str) :
    LeaderValid (start s nodeId address port heartbeat) ↔
      KeepsLeader c s (.start nodeId address port heartbeat) := by
  obtain ⟨node,hnode⟩ : ∃ node : ClusterNode, node = {
    nodeId := nodeId, address := address, port := port, lastHeartbeat := heartbeat } := ⟨_, rfl⟩
  have hid : node.nodeId = nodeId := hnode ▸ rfl
  have honline : Online node := hnode ▸ rfl
  have hadded : s.addNode node = s.updateNode node := by
    rw [addNode, if_pos (by rw [hnode])]
  have hmem : { node with version := s.versionCounter + 1 } ∈ (s.addNode node).onlineNodes := by
    rw [mem_onlineNodes, hadded, nodes_updateNode]
    exact ⟨Table.load_save_self s.nodes { node with version := s.versionCounter + 1 }, honline⟩
  have hbehind : Behind s.leaderId node ↔ ∃ leader ∈ s.leaderId, leader ≤ nodeId := by
    rw [← hid]
    exact ⟨fun hb => hb.1 honline, fun hleader => ⟨fun _ => hleader, fun hoff => absurd honline hoff⟩⟩
  have hothers : (s.addNode node).onlineNodes.length = 1 ↔
      ∀ nodeId' other, s.nodes.load nodeId' = some other → Online other → nodeId' = nodeId := by
    rw [length_onlineNodes_iff hmem, hadded, nodes_updateNode]
    refine forall_congr' fun nodeId' => ?_
    by_cases hk : nodeId' = nodeId
    · simp [hk, hid]
    · have hne : ({ node with version := s.versionCounter + 1 } : ClusterNode).nodeId ≠ nodeId' :=
        fun heq => hk (heq.symm.trans hid)
      rw [Table.load_save_of_ne hne, hid]
  rw [start, ← hnode]
  split
  · next hone =>
    refine iff_of_true (leaderValid_electLeader_iff.mpr fun hnone => ?_) (.inl (hothers.mp hone))
    obtain ⟨hload,hon⟩ := (s.addNode node).mem_onlineNodes.mp hmem
    exact absurd hon (hnone _ _ hload)
  · next hmany =>
    rw [leaderValid_addNode_iff h, hbehind]
    exact (or_iff_right fun honly => hmany (hothers.mpr honly)).symm

theorem drain_cases (s : ClusterState) (nodeId : Str) :
    (drain s nodeId).leaderId = s.leaderId ∧
      ∀ k, ((drain s nodeId).nodes.erase nodeId).load k = (s.nodes.erase nodeId).load k := by
  rw [drain]
  split
  · exact ⟨rfl, fun _ => rfl⟩
  · next node hload =>
    obtain rfl : node.nodeId = nodeId := Table.key_of_load hload
    refine ⟨rfl, fun k => ?_⟩
    simp only [Table.load_erase, nodes_updateNode, Table.load_save]
    split
    · rfl
    · rfl

theorem leaderValid_stop_iff (h : LeaderValid s) (nodeId : Str) :
    LeaderValid (stop s nodeId) ↔ KeepsLeader c s (.stop nodeId) := by
  obtain ⟨hleader,hload⟩ := drain_cases s nodeId
  have hnodes : ((drain s nodeId).removeNode nodeId).nodes.load = (s.nodes.erase nodeId).load := funext hload
  have hsame : ((drain s nodeId).removeNode nodeId).leaderId = s.leaderId := hleader
  have herase := leads_erase_iff h nodeId
  rw [stop, hsame]
  split
  · next helects =>
    rw [leaderValid_electLeader_iff, hnodes, hsame]
    constructor
    · intro hnone hown
      by_contra! hoff
      refine absurd (hnone fun k node hk => ?_) (by simp [hown])
      rw [Table.load_erase] at hk
      split at hk
      · cases hk
      · next hne => exact hoff k node (Ne.symm hne) hk
    · intro hkeeps hnone
      rcases helects with hown | hfree
      · obtain ⟨k,node,hne,hk,honline⟩ := hkeeps hown
        refine absurd honline (hnone k node ?_)
        rw [Table.load_erase, if_neg hne.symm, hk]
      · exact hfree
  · next hkept =>
    obtain ⟨hne,_⟩ := not_or.mp hkept
    rw [LeaderValid, hnodes, hsame, herase]
    exact iff_of_true hne fun hown => absurd hown hne

end Steps

section Merges

variable {c : Crypto} {s : ClusterState} {data ρ : Type} {key : ρ → Str}
  {fromDict : Option data → Except PyError ρ} {newer : ρ → ρ → Bool}

theorem foldUntil_mergeEntry (table : Table key) (entries : List (Option data)) :
    (foldUntil (mergeEntry fromDict newer) table entries).1 =
        table.mergeAll newer (received fromDict entries) ∧
      ((foldUntil (mergeEntry fromDict newer) table entries).2 = .ok () ↔ Readable fromDict entries) := by
  induction entries generalizing table with
  | nil => exact ⟨rfl, iff_of_true rfl fun _ hentry => by cases hentry⟩
  | cons entry entries ih =>
    cases hentry : fromDict entry with
    | error error =>
      have hmerge : mergeEntry fromDict newer table entry = .error error := by
        rw [mergeEntry, hentry]
        rfl
      rw [foldUntil_cons_error hmerge, received, hentry]
      refine ⟨rfl, iff_of_false (by simp) fun hall => ?_⟩
      obtain ⟨r,hr⟩ := hall entry List.mem_cons_self
      rw [hentry] at hr
      cases hr
    | ok r =>
      have hmerge : mergeEntry fromDict newer table entry = .ok (table.merge newer r) := by
        rw [mergeEntry, hentry]
        rfl
      obtain ⟨htable,hok⟩ := ih (table.merge newer r)
      rw [foldUntil_cons_ok hmerge, received, hentry, htable, hok]
      refine ⟨rfl, ?_⟩
      rw [Readable, Readable, List.forall_mem_cons, and_iff_right ⟨r, hentry⟩]

theorem load_mergeNodes (s : ClusterState) (snapshot : Snapshot) :
    (mergeNodes s.nodes snapshot.nodes).1.load = newestRecord s snapshot := by
  funext k
  rw [mergeNodes, (foldUntil_mergeEntry s.nodes snapshot.nodes).1, Table.load_mergeAll]
  rfl

theorem leaderValid_mergeState_iff (h : LeaderValid s) (snapshot : Snapshot) (now : ℚ) :
    LeaderValid (s.mergeState c snapshot now).1 ↔ KeepsLeader c s (.merge snapshot now) := by
  have hnodes := load_mergeNodes s snapshot
  have hreadable : (mergeNodes s.nodes snapshot.nodes).2 = .ok () ↔
      Readable ClusterNode.fromDict snapshot.nodes := (foldUntil_mergeEntry s.nodes snapshot.nodes).2
  have hreadable' : (mergeScans s.scans snapshot.scans).2 = .ok () ↔
      Readable ScanRequest.fromDict snapshot.scans := (foldUntil_mergeEntry s.scans snapshot.scans).2
  rw [mergeState, KeepsLeader]
  dsimp only
  split
  · next htokens => exact iff_of_true h fun hok => by rw [htokens] at hok; cases hok
  · next htokens =>
    rw [htokens, forall_prop_of_true rfl, ← hreadable, ← hreadable']
    split
    · next hfailed =>
      simp only [LeaderValid, hnodes, hfailed, reduceCtorEq, false_and, not_false_eq_true, forall_const,
        IsEmpty.forall_iff, true_and]
    · next hmerged =>
      split
      · next hfailed =>
        simp only [LeaderValid, hnodes, hfailed, reduceCtorEq, and_false, not_false_eq_true, forall_const,
          IsEmpty.forall_iff, true_and]
      · next hscans =>
        simp only [leaderValid_electLeader_iff, hnodes, hmerged, hscans, and_self, not_true_eq_false,
          forall_const, IsEmpty.forall_iff, and_true]

end Merges

section Runs

variable {c : Crypto} {s : ClusterState}

theorem leaderValid_act_iff (h : LeaderValid s) (call : LocalCall) :
    LeaderValid (act s call) ↔ KeepsLeader c s (.act call) := by
  cases call with
  | addNode node => exact leaderValid_addNode_iff h node
  | removeNode nodeId => exact leads_erase_iff h nodeId
  | updateNode node => exact leaderValid_updateNode_iff h node
  | addScan scan =>
    refine iff_of_true ?_ trivial
    rw [act, addScan]
    split <;> exact h
  | assignScan scanId => exact iff_of_true ((keepsStatuses_assignScan s scanId).leaderValid_iff.mpr h) trivial
  | completeScan scanId nodeId =>
    exact iff_of_true ((keepsStatuses_completeScan s scanId nodeId).leaderValid_iff.mpr h) trivial
  | failScan scanId => exact iff_of_true ((keepsStatuses_failScan s scanId).leaderValid_iff.mpr h) trivial
  | electLeader => exact iff_of_true h.electLeader trivial
  | setTokens tokens => exact iff_of_true h trivial

theorem leaderValid_perform_iff (h : LeaderValid s) (call : Call) :
    LeaderValid (perform c s call) ↔ KeepsLeader c s call := by
  cases call with
  | act call => exact leaderValid_act_iff h call
  | merge snapshot now => exact leaderValid_mergeState_iff h snapshot now
  | handleNodeFailure nodeId => exact leaderValid_handleNodeFailure_iff h nodeId
  | start nodeId address port heartbeat => exact leaderValid_start_iff h nodeId address port heartbeat
  | stop nodeId => exact leaderValid_stop_iff h nodeId

theorem leader_valid_iff (c : Crypto) (tokens : TokenStore) (calls : List Call) :
    Always (step c) LeaderValid { tokenStore := tokens } calls ↔
      Meets (step c) (KeepsLeader c) { tokenStore := tokens } calls := by
  refine always_iff_meets_of_total (fun _ _ => ⟨_, rfl⟩) ?_ fun _ _ hload => by cases hload
  rintro s call r hvalid ⟨⟩
  exact leaderValid_perform_iff hvalid call

theorem failed_leader_stays_recorded :
    ¬∀ (c : Crypto) (tokens : TokenStore) (calls : List Call),
      Always (step c) LeaderValid { tokenStore := tokens } calls := by
  intro h
  have hfailed := h .plain {} [.start "n1".toList "10.0.0.1".toList 8444 [], .act (.addNode (.named "n2")),
    .handleNodeFailure "n1".toList]
  have hvalid := ((hfailed.2 _ rfl).2 _ rfl).2 _ rfl
  obtain ⟨node,hload,honline⟩ := LowestOnline.online (show LowestOnline _ "n1".toList from hvalid)
  cases hload
  exact absurd honline (by simp [Online])

end Runs

end PicoSentry.Sandbox.Cluster.Leadership
