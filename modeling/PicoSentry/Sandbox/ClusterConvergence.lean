import PicoSentry.Sandbox.ClusterGossip

namespace PicoSentry.Sandbox.Cluster.Convergence

open Foundation Foundation.Run ClusterState

section Views

variable {ρ κ : Type} [LinearOrder κ] {newer : ρ → ρ → Bool} {rank : ρ → κ}
variable {recordOf : Snapshot → Str → Option ρ}

def recordsFor (recordOf : Snapshot → Str → Option ρ) (snapshots : List Snapshot) (k : Str) : List ρ :=
  snapshots.filterMap fun snapshot => recordOf snapshot k

def view (newer : ρ → ρ → Bool) (recordOf : Snapshot → Str → Option ρ) (load : Str → Option ρ)
    (snapshots : List Snapshot) (k : Str) : Option ρ :=
  newestOf newer (load k) (recordsFor recordOf snapshots k)

def AllUntied (rank : ρ → κ) (recordOf : Snapshot → Str → Option ρ) (load : Str → Option ρ)
    (snapshots : List Snapshot) : Prop :=
  ∀ k, Untied rank (load k) (recordsFor recordOf snapshots k)

theorem mem_recordsFor {snapshots : List Snapshot} {k : Str} {r : ρ} :
    r ∈ recordsFor recordOf snapshots k ↔ ∃ snapshot ∈ snapshots, recordOf snapshot k = some r :=
  List.mem_filterMap

theorem recordsFor_subset {snapshots snapshots' : List Snapshot} (h : snapshots ⊆ snapshots')
    (k : Str) : recordsFor recordOf snapshots k ⊆ recordsFor recordOf snapshots' k := by
  intro r hr
  obtain ⟨snapshot,hs,hrecord⟩ := mem_recordsFor.mp hr
  exact mem_recordsFor.mpr ⟨snapshot, h hs, hrecord⟩

theorem view_append (load : Str → Option ρ) (before after : List Snapshot) (k : Str) :
    view newer recordOf load (before ++ after) k =
      view newer recordOf (view newer recordOf load before) after k := by
  rw [view, recordsFor, List.filterMap_append, newestOf_append]
  rfl

variable {load : Str → Option ρ} {snapshots : List Snapshot}

theorem view_congr (hrank : ∀ k, ∀ r ∈ recordsFor recordOf snapshots k, RankedBy newer rank r)
    (huntied : AllUntied rank recordOf load snapshots) {order : List Snapshot}
    (hsame : ∀ snapshot, snapshot ∈ snapshots ↔ snapshot ∈ order) :
    view newer recordOf load snapshots = view newer recordOf load order := by
  funext k
  refine newestOf_congr (hrank k) (fun r => ?_) (huntied k)
  rw [mem_recordsFor, mem_recordsFor]
  simp only [hsame]

theorem allUntied_of_views_eq (hrank : ∀ k, ∀ r ∈ recordsFor recordOf snapshots k, RankedBy newer rank r)
    (heq : ∀ last ∈ snapshots, ∀ last' ∈ snapshots, view newer recordOf load (snapshots ++ [last]) =
      view newer recordOf load (snapshots ++ [last'])) : AllUntied rank recordOf load snapshots := by
  intro k r hr r' hr' htop htie
  have hlast : ∀ x ∈ recordsFor recordOf snapshots k, rank x = rank r →
      ∃ last ∈ snapshots, view newer recordOf load (snapshots ++ [last]) k = some x := by
    intro x hx hrx
    obtain ⟨last,hs,hrecord⟩ := mem_recordsFor.mp hx
    refine ⟨last, hs, ?_⟩
    rw [view, recordsFor, List.filterMap_append]
    have hone : [last].filterMap (fun snapshot => recordOf snapshot k) = [x] := by
      simp [hrecord]
    rw [hone]
    exact newestOf_concat (hrank k x hx)
      ⟨fun o ho => hrx ▸ htop.above_own o ho, fun y hy => hrx ▸ htop.above y hy⟩
  obtain ⟨last,hs,hv⟩ := hlast r hr rfl
  obtain ⟨last',hs',hv'⟩ := hlast r' hr' htie
  have := congrFun (heq last' hs' last hs) k
  rw [hv, hv'] at this
  exact Option.some_inj.mp this

theorem allUntied_pair {a b : Snapshot} (h : ∀ k r r', recordOf a k = some r → recordOf b k = some r' →
    rank r = rank r' → r = r') : AllUntied rank recordOf load [a, b] := by
  intro k r hr r' hr' _ htie
  obtain ⟨_,hmem,hrecord⟩ := mem_recordsFor.mp hr
  obtain ⟨_,hmem',hrecord'⟩ := mem_recordsFor.mp hr'
  rcases List.mem_pair.mp hmem with rfl | rfl <;> rcases List.mem_pair.mp hmem' with rfl | rfl
  · exact Option.some_inj.mp (hrecord'.symm.trans hrecord)
  · exact (h k r r' hrecord hrecord' htie.symm).symm
  · exact h k r' r hrecord' hrecord htie
  · exact Option.some_inj.mp (hrecord'.symm.trans hrecord)

end Views

section Delivery

variable (c : Crypto)

def deliver (s : ClusterState) (order : List (Snapshot × ℚ)) : ClusterState :=
  order.foldl (fun s p => (s.mergeState c p.1 p.2).1) s

def Accepts (s : ClusterState) (snapshots : List Snapshot) : Prop :=
  ∀ order : List (Snapshot × ℚ), (∀ p ∈ order, p.1 ∈ snapshots) → ∀ snapshot ∈ snapshots, ∀ now,
    ((deliver c s order).mergeState c snapshot now).2 = .ok ()

def Origin (snapshot : Snapshot) : Prop :=
  ∃ t timestamp, Sound t ∧ snapshot = t.getStateSnapshot c timestamp

def nodeView (s : ClusterState) : List Snapshot → Str → Option ClusterNode :=
  view nodeIsNewer nodeIn s.nodes.load

def scanView (s : ClusterState) : List Snapshot → Str → Option ScanRequest :=
  view scanIsNewer scanIn s.scans.load

variable {c}

theorem trusted_of_ok {s : ClusterState} {snapshot : Snapshot} {now : ℚ}
    (h : (s.mergeState c snapshot now).2 = .ok ()) :
    (mergeTokens c s.tokenStore snapshot now).2 = .ok () := by
  cases htokens : (mergeTokens c s.tokenStore snapshot now).2 with
  | ok => rfl
  | error error =>
    rw [mergeState_untrusted htokens] at h
    cases h

theorem load_mergeState {s : ClusterState} {snapshot : Snapshot} {now : ℚ} (horigin : Origin c snapshot)
    (h : (s.mergeState c snapshot now).2 = .ok ()) :
    (s.mergeState c snapshot now).1.nodes.load = nodeView s [snapshot] ∧
      (s.mergeState c snapshot now).1.scans.load = scanView s [snapshot] := by
  obtain ⟨t,timestamp,_,rfl⟩ := horigin
  have hmerge := mergeState_trusted (trusted_of_ok h)
  obtain ⟨hnodes,hscans,_,_⟩ := electLeader_fields
    (s.absorb t (mergeTokens c s.tokenStore (t.getStateSnapshot c timestamp) now).1)
  rw [hmerge, hnodes, hscans]
  constructor
  · funext k
    rw [absorb, load_mergeAll_all, nodeView, view, recordsFor, List.filterMap_cons,
      nodeIn_getStateSnapshot]
    cases t.nodes.load k <;> rfl
  · funext k
    rw [absorb, load_mergeAll_all, scanView, view, recordsFor, List.filterMap_cons,
      scanIn_getStateSnapshot]
    cases t.scans.load k <;> rfl

theorem load_deliver {snapshots : List Snapshot} (horigin : ∀ snapshot ∈ snapshots, Origin c snapshot)
    {s : ClusterState} (haccepts : Accepts c s snapshots) {order : List (Snapshot × ℚ)}
    (horder : ∀ p ∈ order, p.1 ∈ snapshots) :
    (deliver c s order).nodes.load = nodeView s (order.map Prod.fst) ∧
      (deliver c s order).scans.load = scanView s (order.map Prod.fst) := by
  induction order generalizing s with
  | nil => exact ⟨rfl, rfl⟩
  | cons p order ih =>
    have hp := horder p List.mem_cons_self
    have hmerge := load_mergeState (s := s) (horigin p.1 hp) (haccepts [] (fun q hq => by cases hq) p.1 hp p.2)
    have haccepts' : Accepts c (s.mergeState c p.1 p.2).1 snapshots := by
      intro order' horder'
      refine haccepts (p :: order') fun q hq => ?_
      rcases List.mem_cons.mp hq with rfl | hq
      · exact hp
      · exact horder' q hq
    obtain ⟨hnodes,hscans⟩ := ih haccepts' fun q hq => horder q (List.mem_cons_of_mem _ hq)
    rw [deliver, List.foldl_cons, ← deliver, hnodes, hscans, nodeView, scanView, hmerge.1, hmerge.2,
      List.map_cons]
    constructor
    · funext k
      exact (view_append s.nodes.load [p.1] (order.map Prod.fst) k).symm
    · funext k
      exact (view_append s.scans.load [p.1] (order.map Prod.fst) k).symm

theorem Origin.node_ranked {snapshot : Snapshot} (h : Origin c snapshot) {k : Str} {node : ClusterNode}
    (hnode : nodeIn snapshot k = some node) : RankedBy nodeIsNewer nodeRank node := by
  obtain ⟨t,timestamp,ht,rfl⟩ := h
  rw [nodeIn_getStateSnapshot] at hnode
  exact nodeIsNewer_ranked (ht.nodes k node hnode)

theorem Origin.scan_ranked {snapshot : Snapshot} (h : Origin c snapshot) {k : Str} {scan : ScanRequest}
    (hscan : scanIn snapshot k = some scan) : RankedBy scanIsNewer scanRank scan := by
  obtain ⟨t,timestamp,ht,rfl⟩ := h
  rw [scanIn_getStateSnapshot] at hscan
  exact scanIsNewer_ranked (ht.scans k scan hscan)

end Delivery

section Leader

variable {c : Crypto}

def Online (node : ClusterNode) : Prop := node.status = .online

structure LowestOnline (nodes : Str → Option ClusterNode) (nodeId : Str) : Prop where
  online : ∃ node, nodes nodeId = some node ∧ Online node
  lowest : ∀ nodeId' node, nodes nodeId' = some node → Online node → nodeId ≤ nodeId'

def NoneOnline (nodes : Str → Option ClusterNode) : Prop :=
  ∀ nodeId node, nodes nodeId = some node → ¬ Online node

theorem LowestOnline.unique {nodes : Str → Option ClusterNode} {nodeId nodeId' : Str}
    (h : LowestOnline nodes nodeId) (h' : LowestOnline nodes nodeId') : nodeId = nodeId' := by
  obtain ⟨node,hnode,honline⟩ := h.online
  obtain ⟨node',hnode',honline'⟩ := h'.online
  exact le_antisymm (h.lowest nodeId' node' hnode' honline') (h'.lowest nodeId node hnode honline)

theorem electLeader_cases (s : ClusterState) :
    (∃ nodeId, LowestOnline s.nodes.load nodeId ∧ s.electLeader.1.leaderId = some nodeId) ∨
      (NoneOnline s.nodes.load ∧ s.electLeader.1.leaderId = s.leaderId) := by
  by_cases hne : s.onlineNodes = []
  · refine .inr ⟨fun nodeId node hload honline => ?_, ?_⟩
    · obtain rfl : node.nodeId = nodeId := Table.key_of_load hload
      have hmem := (s.mem_onlineNodes).mpr ⟨hload, honline⟩
      rw [hne] at hmem
      cases hmem
    · rw [electLeader, hne]
      rfl
  · obtain ⟨leader,rest,hsort,hmem,hleast⟩ := head_ascending ClusterNode.nodeId hne
    obtain ⟨hload,honline⟩ := (s.mem_onlineNodes).mp hmem
    refine .inl ⟨leader.nodeId, ⟨⟨leader, hload, honline⟩, fun nodeId node hnode hon => ?_⟩, ?_⟩
    · obtain rfl : node.nodeId = nodeId := Table.key_of_load hnode
      exact hleast node ((s.mem_onlineNodes).mpr ⟨hnode, hon⟩)
    · rw [electLeader, hsort]

section Elections

variable {snapshots : List Snapshot} {s : ClusterState}
  (horigin : ∀ snapshot ∈ snapshots, Origin c snapshot) (haccepts : Accepts c s snapshots)
include horigin haccepts

theorem leader_concat {order : List (Snapshot × ℚ)} (horder : ∀ p ∈ order, p.1 ∈ snapshots)
    {p : Snapshot × ℚ} (hp : p.1 ∈ snapshots) :
    (∃ nodeId, LowestOnline (nodeView s ((order ++ [p]).map Prod.fst)) nodeId ∧
        (deliver c s (order ++ [p])).leaderId = some nodeId) ∨
      (NoneOnline (nodeView s ((order ++ [p]).map Prod.fst)) ∧
        (deliver c s (order ++ [p])).leaderId = (deliver c s order).leaderId) := by
  have hall : ∀ q ∈ order ++ [p], q.1 ∈ snapshots := by
    intro q hq
    rcases List.mem_append.mp hq with hq | hq
    · exact horder q hq
    · rw [List.mem_singleton.mp hq]
      exact hp
  have hview := (load_deliver horigin haccepts hall).1
  obtain ⟨t,timestamp,_,ht⟩ := horigin p.1 hp
  have hok := haccepts order horder p.1 hp p.2
  have hlast : deliver c s (order ++ [p]) = ((deliver c s order).mergeState c p.1 p.2).1 := by
    rw [deliver, List.foldl_append]
    rfl
  rw [ht] at hok
  rw [← hview, hlast, ht, mergeState_trusted (trusted_of_ok hok)]
  rw [(electLeader_fields _).1]
  exact electLeader_cases _

theorem leader_changed (order : List (Snapshot × ℚ)) {rest : List (Snapshot × ℚ)} (horder : ∀ p ∈ order, p.1 ∈ snapshots)
    (hrest : ∀ p ∈ rest, p.1 ∈ snapshots)
    (hne : (deliver c s (order ++ rest)).leaderId ≠ (deliver c s order).leaderId) :
    ∃ sub nodeId, sub ≠ [] ∧ sub <+: rest ∧
      LowestOnline (nodeView s ((order ++ sub).map Prod.fst)) nodeId ∧
      (deliver c s (order ++ rest)).leaderId = some nodeId := by
  induction rest using List.reverseRecOn with
  | nil =>
    rw [List.append_nil] at hne
    exact absurd rfl hne
  | append_singleton rest p ih =>
    have hrest' : ∀ q ∈ rest, q.1 ∈ snapshots := fun q hq => hrest q (List.mem_append_left _ hq)
    have hboth : ∀ q ∈ order ++ rest, q.1 ∈ snapshots := by
      intro q hq
      rcases List.mem_append.mp hq with hq | hq
      · exact horder q hq
      · exact hrest' q hq
    rw [← List.append_assoc] at hne ⊢
    rcases leader_concat horigin haccepts hboth (hrest p (by simp)) with ⟨nodeId,hlow,hleader⟩ | ⟨_,hsame⟩
    · exact ⟨rest ++ [p], nodeId, by simp, List.prefix_rfl, by rwa [← List.append_assoc], hleader⟩
    · rw [hsame] at hne ⊢
      obtain ⟨sub,nodeId,hsub,hmem,hlow,hleader⟩ := ih hrest' hne
      exact ⟨sub, nodeId, hsub, hmem.trans (List.prefix_append rest [p]), hlow, hleader⟩

theorem leader_kept {order rest : List (Snapshot × ℚ)} {nodeId : Str}
    (horder : ∀ p ∈ order, p.1 ∈ snapshots) (hrest : ∀ p ∈ rest, p.1 ∈ snapshots)
    (hoffline : ∀ sub, sub <+: rest → sub ≠ [] → ∀ node,
      nodeView s ((order ++ sub).map Prod.fst) nodeId = some node → ¬ Online node)
    (hleader : (deliver c s (order ++ rest)).leaderId = some nodeId) :
    (deliver c s order).leaderId = some nodeId := by
  by_contra hne
  have hchanged : (deliver c s (order ++ rest)).leaderId ≠ (deliver c s order).leaderId := by
    rw [hleader]
    exact fun he => hne he.symm
  obtain ⟨sub,nodeId',hsub,hmem,hlow,hleader'⟩ := leader_changed horigin haccepts order horder hrest hchanged
  obtain rfl : nodeId = nodeId' := Option.some_inj.mp (hleader.symm.trans hleader')
  obtain ⟨node,hnode,honline⟩ := hlow.online
  exact hoffline sub hmem hsub node hnode honline

end Elections

section Sources

variable {snapshots : List Snapshot} {s : ClusterState}
  (horigin : ∀ snapshot ∈ snapshots, Origin c snapshot)
include horigin

theorem nodes_ranked {order : List Snapshot} (hsub : order ⊆ snapshots) (k : Str) :
    ∀ node ∈ recordsFor nodeIn order k, RankedBy nodeIsNewer nodeRank node := by
  intro node hnode
  obtain ⟨snapshot,hs,hrecord⟩ := mem_recordsFor.mp hnode
  exact (horigin snapshot (hsub hs)).node_ranked hrecord

theorem offline_source (huntied : AllUntied nodeRank nodeIn s.nodes.load snapshots)
    (hend : NoneOnline (nodeView s snapshots)) {sub : List Snapshot} (hsub : sub ⊆ snapshots)
    {nodeId : Str} {node : ClusterNode} (hnode : nodeView s sub nodeId = some node)
    (honline : Online node) :
    ∃ snapshot ∈ snapshots, ∃ last, nodeIn snapshot nodeId = some last ∧ ¬ Online last ∧
      Winner nodeRank (s.nodes.load nodeId) (recordsFor nodeIn snapshots nodeId) last := by
  have hranked := nodes_ranked horigin (List.Subset.refl snapshots) nodeId
  have hsome : (nodeView s snapshots nodeId).isSome := by
    apply newestOf_isSome
    rcases newestOf_mem hnode with hown | hmem
    · rw [hown]
      exact .inl rfl
    · exact .inr (List.ne_nil_of_mem (recordsFor_subset hsub nodeId hmem))
  obtain ⟨last,hlast⟩ := Option.isSome_iff_exists.mp hsome
  have hoff := hend nodeId last hlast
  rcases newestOf_cases hranked (huntied nodeId) hlast with ⟨hmem,htop⟩ | ⟨hown,hlt⟩
  · obtain ⟨snapshot,hs,hrecord⟩ := mem_recordsFor.mp hmem
    exact ⟨snapshot, hs, last, hrecord, hoff, (huntied nodeId).winner hmem htop⟩
  · have hkept : nodeView s sub nodeId = some last := by
      rw [nodeView, view, hown]
      exact newestOf_own (nodes_ranked horigin hsub nodeId)
        fun r hr => hlt r (recordsFor_subset hsub nodeId hr)
    cases hkept.symm.trans hnode
    exact absurd honline hoff

theorem view_of_winner {order : List Snapshot} (hsub : order ⊆ snapshots) {snapshot : Snapshot}
    (hmem : snapshot ∈ order) {nodeId : Str} {last : ClusterNode}
    (hlast : nodeIn snapshot nodeId = some last)
    (hwins : Winner nodeRank (s.nodes.load nodeId) (recordsFor nodeIn snapshots nodeId) last) :
    nodeView s order nodeId = some last := by
  refine newestOf_winner (nodes_ranked horigin hsub nodeId)
    (mem_recordsFor.mpr ⟨snapshot, hmem, hlast⟩) ⟨⟨hwins.above_own, fun r hr => ?_⟩, fun r hr => ?_⟩
  · exact hwins.above r (recordsFor_subset hsub nodeId hr)
  · exact hwins.unique r (recordsFor_subset hsub nodeId hr)

theorem scans_ranked (k : Str) :
    ∀ scan ∈ recordsFor scanIn snapshots k, RankedBy scanIsNewer scanRank scan := by
  intro scan hscan
  obtain ⟨snapshot,hs,hrecord⟩ := mem_recordsFor.mp hscan
  exact (horigin snapshot hs).scan_ranked hrecord

variable (haccepts : Accepts c s snapshots)
include haccepts

theorem leader_kept_after (order : List (Snapshot × ℚ)) {rest : List (Snapshot × ℚ)} {nodeId : Str} {snapshot : Snapshot}
    {last : ClusterNode} (horder : ∀ p ∈ order, p.1 ∈ snapshots) (hrest : ∀ p ∈ rest, p.1 ∈ snapshots)
    (hs : snapshot ∈ snapshots) (hlast : nodeIn snapshot nodeId = some last) (hoff : ¬ Online last)
    (hwins : Winner nodeRank (s.nodes.load nodeId) (recordsFor nodeIn snapshots nodeId) last)
    (hleader : (deliver c s (order ++ (snapshot, 0) :: rest)).leaderId = some nodeId) :
    (deliver c s order).leaderId = some nodeId := by
  have hrest' : ∀ p ∈ (snapshot, 0) :: rest, p.1 ∈ snapshots := by
    intro p hp
    rcases List.mem_cons.mp hp with rfl | hp
    · exact hs
    · exact hrest p hp
  refine leader_kept horigin haccepts horder hrest' (fun sub hfront hne node hnode => ?_) hleader
  obtain ⟨tail,rfl⟩ : ∃ tail, sub = (snapshot, 0) :: tail := by
    cases sub with
    | nil => exact absurd rfl hne
    | cons p tail =>
      obtain ⟨rfl,_⟩ := List.cons_prefix_cons.mp hfront
      exact ⟨tail, rfl⟩
  have hin : (order ++ (snapshot, 0) :: tail).map Prod.fst ⊆ snapshots := by
    intro x hx
    obtain ⟨p,hp,rfl⟩ := List.mem_map.mp hx
    rcases List.mem_append.mp hp with hp | hp
    · exact horder p hp
    · exact hrest' p (hfront.subset hp)
  have hview := view_of_winner horigin hin (by simp) hlast hwins
  cases hview.symm.trans hnode
  exact hoff

end Sources

end Leader

section Convergence

variable (c : Crypto)

structure Delivers (snapshots : List Snapshot) (order : List (Snapshot × ℚ)) : Prop where
  only : ∀ p ∈ order, p.1 ∈ snapshots
  each : ∀ snapshot ∈ snapshots, ∃ p ∈ order, p.1 = snapshot

structure SameRecords (s t : ClusterState) : Prop where
  nodes : s.nodes.load = t.nodes.load
  scans : s.scans.load = t.scans.load

def Converges (s : ClusterState) (snapshots : List Snapshot) : Prop :=
  ∀ order order', Delivers snapshots order → Delivers snapshots order' →
    SameRecords (deliver c s order) (deliver c s order') ∧
      (deliver c s order).leaderId = (deliver c s order').leaderId

structure Settled (s : ClusterState) (snapshots : List Snapshot) : Prop where
  nodes : AllUntied nodeRank nodeIn s.nodes.load snapshots
  scans : AllUntied scanRank scanIn s.scans.load snapshots
  leader : ¬ NoneOnline (nodeView s snapshots) ∨
    ∀ sub, sub ≠ [] → sub ⊆ snapshots → ∀ nodeId, LowestOnline (nodeView s sub) nodeId →
      s.leaderId = some nodeId

variable {c} {snapshots : List Snapshot} {s : ClusterState}

theorem Delivers.map_fst {order : List (Snapshot × ℚ)} (h : Delivers snapshots order) (snapshot : Snapshot) :
    snapshot ∈ snapshots ↔ snapshot ∈ order.map Prod.fst := by
  rw [List.mem_map]
  constructor
  · exact h.each snapshot
  · rintro ⟨p,hp,rfl⟩
    exact h.only p hp

def atZero (order : List Snapshot) : List (Snapshot × ℚ) := order.map fun snapshot => (snapshot, 0)

theorem delivers_around {before after : List Snapshot} (hbefore : before ⊆ snapshots)
    (hafter : after ⊆ snapshots) : Delivers snapshots (atZero (before ++ snapshots ++ after)) := by
  constructor
  · intro p hp
    obtain ⟨snapshot,hs,rfl⟩ := List.mem_map.mp hp
    rcases List.mem_append.mp hs with hs | hs
    · rcases List.mem_append.mp hs with hs | hs
      · exact hbefore hs
      · exact hs
    · exact hafter hs
  · intro snapshot hs
    exact ⟨(snapshot, 0), List.mem_map.mpr ⟨snapshot, by simp [hs], rfl⟩, rfl⟩

theorem delivers_pair (a b : Snapshot) :
    Delivers [a, b] [(a, 0), (b, 0)] ∧ Delivers [a, b] [(b, 0), (a, 0)] := by
  constructor <;> constructor <;> simp

theorem delivers_after {before : List Snapshot} (hbefore : before ⊆ snapshots) :
    Delivers snapshots (atZero (before ++ snapshots)) := by
  have h := delivers_around hbefore (List.nil_subset snapshots)
  rwa [List.append_nil] at h

theorem map_fst_atZero (order : List Snapshot) : (atZero order).map Prod.fst = order := by
  rw [atZero, List.map_map]
  exact List.map_id order

theorem leader_of_online (horigin : ∀ snapshot ∈ snapshots, Origin c snapshot)
    (haccepts : Accepts c s snapshots) (order : List (Snapshot × ℚ))
    (horder : ∀ p ∈ order, p.1 ∈ snapshots) (hne : order ≠ [])
    (honline : ¬ NoneOnline (nodeView s (order.map Prod.fst))) :
    ∃ nodeId, LowestOnline (nodeView s (order.map Prod.fst)) nodeId ∧
      (deliver c s order).leaderId = some nodeId := by
  cases order using List.reverseRecOn with
  | nil => exact absurd rfl hne
  | append_singleton before last =>
    have hbefore : ∀ q ∈ before, q.1 ∈ snapshots := fun q hq => horder q (List.mem_append_left _ hq)
    have hlast := horder last (by simp)
    exact (leader_concat horigin haccepts hbefore hlast).resolve_right fun hnone => honline hnone.1

theorem leader_of_kept (horigin : ∀ snapshot ∈ snapshots, Origin c snapshot)
    (haccepts : Accepts c s snapshots)
    (hkept : ∀ sub, sub ≠ [] → sub ⊆ snapshots → ∀ nodeId, LowestOnline (nodeView s sub) nodeId →
      s.leaderId = some nodeId)
    {order : List (Snapshot × ℚ)} (horder : ∀ p ∈ order, p.1 ∈ snapshots) :
    (deliver c s order).leaderId = s.leaderId := by
  by_contra hne
  obtain ⟨sub,nodeId,hsub,hfront,hlow,hleader⟩ :=
    leader_changed horigin haccepts [] (fun p hp => by cases hp) horder hne
  have hin : sub.map Prod.fst ⊆ snapshots := by
    intro x hx
    obtain ⟨p,hp,rfl⟩ := List.mem_map.mp hx
    exact horder p (hfront.subset hp)
  have hs := hkept (sub.map Prod.fst) (by simpa using hsub) hin nodeId hlow
  exact hne (hleader.trans hs.symm)

theorem atZero_only {order : List Snapshot} (h : order ⊆ snapshots) :
    ∀ p ∈ atZero order, p.1 ∈ snapshots := by
  intro p hp
  obtain ⟨snapshot,hs,rfl⟩ := List.mem_map.mp hp
  exact h hs

theorem leader_settled (horigin : ∀ snapshot ∈ snapshots, Origin c snapshot)
    (haccepts : Accepts c s snapshots) (huntied : AllUntied nodeRank nodeIn s.nodes.load snapshots)
    (hend : NoneOnline (nodeView s snapshots)) (h : Converges c s snapshots) {sub : List Snapshot}
    (hne : sub ≠ []) (hsub : sub ⊆ snapshots) {nodeId : Str}
    (hlow : LowestOnline (nodeView s sub) nodeId) : s.leaderId = some nodeId := by
  have hwhole := atZero_only (List.Subset.refl snapshots)
  have hsame := fun (before : List Snapshot) (hbefore : before ⊆ snapshots) =>
    (h _ _ (delivers_after hbefore) (delivers_after (List.nil_subset snapshots))).2
  -- A node elected on the way is offline in the end, by a record that some snapshot brings.
  have hsource : ∀ {order order' : List (Snapshot × ℚ)} {nodeId : Str},
      (∀ p ∈ order, p.1 ∈ snapshots) → (∀ p ∈ order', p.1 ∈ snapshots) →
      LowestOnline (nodeView s ((order ++ order').map Prod.fst)) nodeId →
      ∃ snapshot ∈ snapshots, ∃ last, nodeIn snapshot nodeId = some last ∧ ¬ Online last ∧
        Winner nodeRank (s.nodes.load nodeId) (recordsFor nodeIn snapshots nodeId) last := by
    intro order order' nodeId horder horder' hlow
    obtain ⟨node,hnode,honline⟩ := hlow.online
    refine offline_source horigin huntied hend (fun x hx => ?_) hnode honline
    obtain ⟨p,hp,rfl⟩ := List.mem_map.mp hx
    rcases List.mem_append.mp hp with hp | hp
    · exact horder p hp
    · exact horder' p hp
  have hfull : (deliver c s (atZero snapshots)).leaderId = s.leaderId := by
    by_contra hchanged
    obtain ⟨pre,x,_,hfront,hx,hleader⟩ :=
      leader_changed horigin haccepts [] (fun p hp => by cases hp) hwhole hchanged
    obtain ⟨snapshot,hs,last,hlast,hoff,hwins⟩ :=
      hsource (fun p hp => by cases hp) (fun p hp => hwhole p (hfront.subset hp)) hx
    have hfirst := hsame [snapshot] (by simpa using hs)
    have hkept := leader_kept_after horigin haccepts [] (fun p hp => by cases hp) hwhole hs
      hlast hoff hwins (hfirst.trans hleader)
    exact hchanged (hleader.trans hkept.symm)
  by_contra hother
  obtain ⟨nodeId',hlow',hsubLeader⟩ := leader_of_online horigin haccepts (atZero sub)
    (atZero_only hsub) (by simpa [atZero] using hne) (by
      rw [map_fst_atZero]
      obtain ⟨node,hnode,honline⟩ := hlow.online
      exact fun hnone => hnone nodeId node hnode honline)
  rw [map_fst_atZero] at hlow'
  obtain rfl := hlow.unique hlow'
  have hafter : (deliver c s (atZero sub ++ atZero snapshots)).leaderId = s.leaderId := by
    have heq := (hsame sub hsub).trans hfull
    rwa [atZero, List.map_append] at heq
  obtain ⟨pre,y,_,hfront,hy,hleader⟩ := leader_changed horigin haccepts _ (atZero_only hsub) hwhole (by
    rw [hafter, hsubLeader]
    exact hother)
  obtain ⟨snapshot,hs,last,hlast,hoff,hwins⟩ :=
    hsource (atZero_only hsub) (fun p hp => hwhole p (hfront.subset hp)) hy
  have hkept := leader_kept_after horigin haccepts _ (atZero_only hsub) hwhole hs hlast hoff hwins (by
    have hlate := (hsame (sub ++ [snapshot]) (by
      intro x hx
      rcases List.mem_append.mp hx with hx | hx
      · exact hsub hx
      · rw [List.mem_singleton.mp hx]
        exact hs)).trans hfull
    rw [hafter] at hleader
    rw [← hleader, ← hlate]
    simp [atZero])
  rw [hafter] at hleader
  exact hother (hleader.trans (hkept.symm.trans hsubLeader))

theorem converges_of_settled (horigin : ∀ snapshot ∈ snapshots, Origin c snapshot)
    (haccepts : Accepts c s snapshots) (h : Settled s snapshots) : Converges c s snapshots := by
  have hnodeRank := nodes_ranked horigin (List.Subset.refl snapshots)
  intro order order' horder horder'
  have hview := load_deliver horigin haccepts horder.only
  have hview' := load_deliver horigin haccepts horder'.only
  have hnodes : nodeView s snapshots = nodeView s (order.map Prod.fst) :=
    view_congr hnodeRank h.nodes horder.map_fst
  have hnodes' : nodeView s snapshots = nodeView s (order'.map Prod.fst) :=
    view_congr hnodeRank h.nodes horder'.map_fst
  have hscans := view_congr (scans_ranked horigin) h.scans horder.map_fst
  have hscans' := view_congr (scans_ranked horigin) h.scans horder'.map_fst
  refine ⟨⟨?_, ?_⟩, ?_⟩
  · rw [hview.1, hview'.1]
    exact hnodes.symm.trans hnodes'
  · rw [hview.2, hview'.2]
    exact hscans.symm.trans hscans'
  · rcases h.leader with honline | hkept
    · cases hs : snapshots with
      | nil =>
        have hempty : ∀ order, Delivers snapshots order → order = [] := by
          intro order ho
          refine List.eq_nil_iff_forall_not_mem.mpr fun p hp => ?_
          have hmem := ho.only p hp
          rw [hs] at hmem
          cases hmem
        rw [hempty order horder, hempty order' horder']
      | cons first rest =>
        have hne : ∀ order, Delivers snapshots order → order ≠ [] := by
          rintro order ho rfl
          obtain ⟨p,hp,_⟩ := ho.each first (by rw [hs]; exact List.mem_cons_self)
          cases hp
        obtain ⟨nodeId,hlow,hleader⟩ :=
          leader_of_online horigin haccepts order horder.only (hne order horder) (hnodes ▸ honline)
        obtain ⟨nodeId',hlow',hleader'⟩ :=
          leader_of_online horigin haccepts order' horder'.only (hne order' horder') (hnodes' ▸ honline)
        have hsame : nodeView s (order.map Prod.fst) = nodeView s (order'.map Prod.fst) :=
          hnodes.symm.trans hnodes'
        rw [hleader, hleader', hlow.unique (hsame ▸ hlow')]
    · rw [leader_of_kept horigin haccepts hkept horder.only,
        leader_of_kept horigin haccepts hkept horder'.only]

theorem settled_of_converges (horigin : ∀ snapshot ∈ snapshots, Origin c snapshot)
    (haccepts : Accepts c s snapshots) (h : Converges c s snapshots) : Settled s snapshots := by
  have hsame : ∀ last ∈ snapshots, ∀ last' ∈ snapshots,
      nodeView s (snapshots ++ [last]) = nodeView s (snapshots ++ [last']) ∧
        scanView s (snapshots ++ [last]) = scanView s (snapshots ++ [last']) := by
    have hlast : ∀ last ∈ snapshots, Delivers snapshots (atZero (snapshots ++ [last])) :=
      fun last hl => delivers_around (List.nil_subset snapshots) (by simpa using hl)
    have hview : ∀ last ∈ snapshots,
        (deliver c s (atZero (snapshots ++ [last]))).nodes.load = nodeView s (snapshots ++ [last]) ∧
          (deliver c s (atZero (snapshots ++ [last]))).scans.load = scanView s (snapshots ++ [last]) := by
      intro last hl
      have hv := load_deliver horigin haccepts (hlast last hl).only
      rwa [map_fst_atZero] at hv
    intro last hl last' hl'
    have hagree := (h _ _ (hlast last hl) (hlast last' hl')).1
    exact ⟨(hview last hl).1.symm.trans (hagree.nodes.trans (hview last' hl').1),
      (hview last hl).2.symm.trans (hagree.scans.trans (hview last' hl').2)⟩
  have huntied : AllUntied nodeRank nodeIn s.nodes.load snapshots :=
    allUntied_of_views_eq (nodes_ranked horigin (List.Subset.refl snapshots))
      fun last hl last' hl' => (hsame last hl last' hl').1
  refine ⟨huntied, allUntied_of_views_eq (scans_ranked horigin)
    fun last hl last' hl' => (hsame last hl last' hl').2, ?_⟩
  by_cases hend : NoneOnline (nodeView s snapshots)
  · exact .inr fun sub hne hsub nodeId => leader_settled horigin haccepts huntied hend h hne hsub
  · exact .inl hend

end Convergence

section Trust

variable {c : Crypto}

def Shares (c : Crypto) (tokens : TokenStore) (snapshot : Snapshot) : Prop :=
  ∃ remote, snapshot.tokenStore = some remote ∧ inGossipFormat remote = true ∧
    sharesDigest c tokens remote.accepted = true

theorem Shares.mono {tokens tokens' : TokenStore} {snapshot : Snapshot}
    (hsub : tokens.acceptedTokens ⊆ tokens'.acceptedTokens) (h : Shares c tokens snapshot) :
    Shares c tokens' snapshot := by
  obtain ⟨remote,hremote,hformat,hshared⟩ := h
  exact ⟨remote, hremote, hformat, sharesDigest_mono hsub hshared⟩

theorem accepts_of_shares {s : ClusterState} {snapshots : List Snapshot}
    (horigin : ∀ snapshot ∈ snapshots, Origin c snapshot)
    (h : ∀ snapshot ∈ snapshots, Shares c s.tokenStore snapshot) : Accepts c s snapshots := by
  intro order _ snapshot hs now
  have hkept : s.tokenStore.acceptedTokens ⊆ (deliver c s order).tokenStore.acceptedTokens := by
    clear h
    induction order generalizing s with
    | nil => exact List.Subset.refl _
    | cons p order ih =>
      refine List.Subset.trans ?_ (ih (s := (s.mergeState c p.1 p.2).1) (fun q hq => by
        rename_i horder
        exact horder q (List.mem_cons_of_mem _ hq)))
      rw [tokenStore_mergeState]
      exact acceptedTokens_mergeTokens _ _ _
  obtain ⟨remote,hremote,hformat,hshared⟩ := (h snapshot hs).mono hkept
  obtain ⟨t,timestamp,_,rfl⟩ := horigin snapshot hs
  rw [mergeState_trusted (mergeTokens_shared hremote hformat hshared)]

end Trust

section Exchange

variable {c : Crypto} {s t : ClusterState}

structure NoTie (s t : ClusterState) : Prop where
  nodes : ∀ k a b, s.nodes.load k = some a → t.nodes.load k = some b → nodeRank a = nodeRank b → a = b
  scans : ∀ k a b, s.scans.load k = some a → t.scans.load k = some b → scanRank a = scanRank b → a = b

theorem load_exchange (ht : Sound t) {timestamp : Str} {now : ℚ}
    (hok : (s.mergeState c (t.getStateSnapshot c timestamp) now).2 = .ok ()) :
    (∀ k, (s.mergeState c (t.getStateSnapshot c timestamp) now).1.nodes.load k =
        newestOf nodeIsNewer (s.nodes.load k) (t.nodes.load k).toList) ∧
      ∀ k, (s.mergeState c (t.getStateSnapshot c timestamp) now).1.scans.load k =
        newestOf scanIsNewer (s.scans.load k) (t.scans.load k).toList := by
  obtain ⟨hnodes,hscans⟩ := load_mergeState ⟨t, timestamp, ht, rfl⟩ hok
  rw [hnodes, hscans]
  constructor
  · intro k
    rw [nodeView, view, recordsFor, List.filterMap_cons, nodeIn_getStateSnapshot]
    cases t.nodes.load k <;> rfl
  · intro k
    rw [scanView, view, recordsFor, List.filterMap_cons, scanIn_getStateSnapshot]
    cases t.scans.load k <;> rfl

theorem exchange_iff (hs : Sound s) (ht : Sound t) {timestamp timestamp' : Str} {now now' : ℚ}
    (hok : (s.mergeState c (t.getStateSnapshot c timestamp) now).2 = .ok ())
    (hok' : (t.mergeState c (s.getStateSnapshot c timestamp') now').2 = .ok ()) :
    SameRecords (s.mergeState c (t.getStateSnapshot c timestamp) now).1
      (t.mergeState c (s.getStateSnapshot c timestamp') now').1 ↔ NoTie s t := by
  obtain ⟨hnodes,hscans⟩ := load_exchange ht hok
  obtain ⟨hnodes',hscans'⟩ := load_exchange hs hok'
  have hswapNodes := fun k => newestOf_swap (s.nodes.load k) (t.nodes.load k)
    (fun a ha => nodeIsNewer_ranked (hs.nodes k a ha)) fun b hb => nodeIsNewer_ranked (ht.nodes k b hb)
  have hswapScans := fun k => newestOf_swap (s.scans.load k) (t.scans.load k)
    (fun a ha => scanIsNewer_ranked (hs.scans k a ha)) fun b hb => scanIsNewer_ranked (ht.scans k b hb)
  constructor
  · intro h
    refine ⟨fun k => (hswapNodes k).mp ?_, fun k => (hswapScans k).mp ?_⟩
    · rw [← hnodes, ← hnodes', h.nodes]
    · rw [← hscans, ← hscans', h.scans]
  · intro h
    refine ⟨funext fun k => ?_, funext fun k => ?_⟩
    · rw [hnodes, hnodes']
      exact (hswapNodes k).mpr (h.nodes k)
    · rw [hscans, hscans']
      exact (hswapScans k).mpr (h.scans k)

end Exchange

def MergesConverge (c : Crypto) (w : World) : Prop :=
  (∀ (s : ClusterState) (snapshots : List Snapshot), snapshots ⊆ w.taken → Accepts c s snapshots →
    Converges c s snapshots) ∧
  ∀ s ∈ w.members, ∀ t ∈ w.members, ∀ timestamp timestamp' now now',
    (s.mergeState c (t.getStateSnapshot c timestamp) now).2 = .ok () →
    (t.mergeState c (s.getStateSnapshot c timestamp') now').2 = .ok () →
    SameRecords (s.mergeState c (t.getStateSnapshot c timestamp) now).1
      (t.mergeState c (s.getStateSnapshot c timestamp') now').1

theorem merges_converge_iff {c : Crypto} {tokens : List TokenStore} {calls : List Call} {w : World}
    {es : List Unit} (hrun : exec (step c) (start tokens) calls = some (w, es)) :
    (∀ (s : ClusterState) (snapshots : List Snapshot), snapshots ⊆ w.taken → Accepts c s snapshots →
      (Converges c s snapshots ↔ Settled s snapshots)) ∧
    ∀ s ∈ w.members, ∀ t ∈ w.members, ∀ timestamp timestamp' now now',
      (s.mergeState c (t.getStateSnapshot c timestamp) now).2 = .ok () →
      (t.mergeState c (s.getStateSnapshot c timestamp') now').2 = .ok () →
      (SameRecords (s.mergeState c (t.getStateSnapshot c timestamp) now).1
        (t.mergeState c (s.getStateSnapshot c timestamp') now').1 ↔ NoTie s t) := by
  have hsound := soundWorld_of_run hrun
  constructor
  · intro s snapshots hsub haccepts
    have horigin : ∀ snapshot ∈ snapshots, Origin c snapshot :=
      fun snapshot hs => hsound.taken snapshot (hsub hs)
    exact ⟨settled_of_converges horigin haccepts, converges_of_settled horigin haccepts⟩
  · intro s hs t ht timestamp timestamp' now now' hok hok'
    exact exchange_iff (hsound.members s hs) (hsound.members t ht) hok hok'

def updatedNode : ClusterNode := { ClusterNode.named "n1" with port := 9000 }

theorem merges_in_either_order_agree :
    let s : ClusterState := { tokenStore := .init "secret".toList 0 }
    let earlier := (s.addNode (.named "n1")).getStateSnapshot .plain []
    let later := ((s.addNode (.named "n1")).updateNode updatedNode).getStateSnapshot .plain []
    SameRecords (deliver .plain s [(earlier, 0), (later, 0)]) (deliver .plain s [(later, 0), (earlier, 0)]) ∧
      (deliver .plain s [(earlier, 0), (later, 0)]).leaderId =
        (deliver .plain s [(later, 0), (earlier, 0)]).leaderId := by
  have hrun : exec (step .plain) (start [.init "secret".toList 0])
    [.act 0 (.addNode (.named "n1")), .snapshot 0 [], .act 0 (.updateNode updatedNode), .snapshot 0 []] =
      some (_, _) := rfl
  have hsound := soundWorld_of_run hrun
  have haccepts := accepts_of_shares (s := { tokenStore := .init "secret".toList 0 }) hsound.taken (by
    intro snapshot hs
    rcases List.mem_pair.mp hs with rfl | rfl <;> exact ⟨_, rfl, by decide, by decide⟩)
  refine ((merges_converge_iff hrun).1 _ _ (List.Subset.refl _) haccepts).mpr ⟨?_, ?_, .inl ?_⟩
    _ _ (delivers_pair _ _).1 (delivers_pair _ _).2
  · refine allUntied_pair fun k node node' hnode hnode' htie => ?_
    rw [nodeIn_getStateSnapshot] at hnode hnode'
    by_cases hk : "n1".toList = k
    · subst hk
      cases hnode
      cases hnode'
      exact absurd htie (by decide)
    · have hother := Table.load_save_of_ne (t := (Table.empty : Table ClusterNode.nodeId))
        (r := { ClusterNode.named "n1" with version := 1 }) hk
      cases hother.symm.trans hnode
  · refine allUntied_pair fun k scan _ hscan => ?_
    rw [scanIn_getStateSnapshot] at hscan
    cases hscan
  · exact fun hnone => hnone "n1".toList _ rfl rfl

theorem tied_records_diverge :
    ¬ ∀ (c : Crypto) (tokens : List TokenStore) (calls : List Call) (w : World) (es : List Unit),
      exec (step c) (start tokens) calls = some (w, es) → MergesConverge c w := by
  intro h
  have hrun : exec (step .plain) (start [.init "secret".toList 0, .init "secret".toList 0])
    [.act 0 (.addNode (.named "n1")), .act 1 (.addNode { ClusterNode.named "n1" with port := 9000 }),
      .snapshot 0 [], .snapshot 1 []] = some (_, _) := rfl
  have hsound := soundWorld_of_run hrun
  have haccepts := accepts_of_shares (s := { tokenStore := .init "secret".toList 0 }) hsound.taken (by
    intro snapshot hs
    rcases List.mem_pair.mp hs with rfl | rfl <;> exact ⟨_, rfl, by decide, by decide⟩)
  have hconverges := (h _ _ _ _ _ hrun).1 _ _ (List.Subset.refl _) haccepts
  have hsame := (hconverges [(_, 0), (_, 0)] [(_, 0), (_, 0)] (delivers_pair _ _).1 (delivers_pair _ _).2).1
  exact absurd (congrFun hsame.nodes "n1".toList) (by decide)

end PicoSentry.Sandbox.Cluster.Convergence
