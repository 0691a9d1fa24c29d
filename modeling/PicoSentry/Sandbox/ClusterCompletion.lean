import PicoSentry.Foundation.Run
import PicoSentry.Sandbox.ClusterState

namespace PicoSentry.Sandbox.Cluster.Completion

open Foundation Foundation.Run

inductive Call where
  | assignScan (scanId : Str)
  | completeScan (scanId nodeId : Str)
  | handleNodeFailure (nodeId : Str)
  | electLeader

def step (s : ClusterState) : Call → Option (ClusterState × List Unit)
  | .assignScan scanId => some ((s.assignScan scanId).1, [])
  | .completeScan scanId nodeId => some (s.completeScan scanId nodeId, [])
  | .handleNodeFailure nodeId => some ((s.handleNodeFailure nodeId).1, [])
  | .electLeader => some (s.electLeader.1, [])

def Completed (scan : ScanRequest) : Prop := scan.status = "completed".toList

theorem running_ne_completed : "running".toList ≠ "completed".toList := by decide

theorem pending_ne_completed : "pending".toList ≠ "completed".toList := by decide

def Final (s s' : ClusterState) : Prop :=
  ∀ scanId scan, s.scans.load scanId = some scan → Completed scan →
    ∃ scan', s'.scans.load scanId = some scan' ∧ Completed scan' ∧
      scan'.assignedNode = scan.assignedNode

def Spares (s : ClusterState) : Call → Prop
  | .assignScan scanId => ∀ scan, s.scans.load scanId = some scan → Completed scan →
      scan.assignedNode = none → s.onlineNodes = []
  | .handleNodeFailure nodeId => s.nodes.load nodeId ≠ none →
      ∀ scan ∈ s.getScansForNode nodeId, ¬ Completed scan
  | _ => True

theorem Final.refl (s : ClusterState) : Final s s := fun _ scan hload hdone =>
  ⟨scan, hload, hdone, rfl⟩

theorem Final.trans {s t u : ClusterState} (hst : Final s t) (htu : Final t u) : Final s u := by
  intro scanId scan hload hdone
  obtain ⟨scan₁,hload₁,hdone₁,hassigned₁⟩ := hst scanId scan hload hdone
  obtain ⟨scan₂,hload₂,hdone₂,hassigned₂⟩ := htu scanId scan₁ hload₁ hdone₁
  exact ⟨scan₂, hload₂, hdone₂, hassigned₂.trans hassigned₁⟩

theorem Final.of_load {s s' : ClusterState}
    (h : ∀ scanId scan, s.scans.load scanId = some scan → Completed scan →
      s'.scans.load scanId = some scan) : Final s s' :=
  fun scanId scan hload hdone => ⟨scan, h scanId scan hload hdone, hdone, rfl⟩

section Redistribution

variable {s : ClusterState}

def redistribute (s : ClusterState) (scanId : Str) : ClusterState :=
  ((s.failScan scanId).assignScan scanId).1

theorem load_updateScan (scan : ScanRequest) (scanId : Str) :
    (s.updateScan scan).scans.load scanId =
      if scan.scanId = scanId then some { scan with version := s.versionCounter + 1 }
      else s.scans.load scanId :=
  Table.load_save s.scans { scan with version := s.versionCounter + 1 } scanId

theorem load_failScan (scanId scanId' : Str) :
    ((s.failScan scanId).scans.load scanId' = if scanId = scanId' then
      (s.scans.load scanId).map fun scan => { scan with
        status := "pending".toList, assignedNode := none, version := s.versionCounter + 1 }
      else s.scans.load scanId') := by
  cases hload : s.scans.load scanId with
  | none =>
    simp only [ClusterState.failScan, hload]
    split
    · next he => rw [← he, hload]; rfl
    · rfl
  | some scan =>
    obtain rfl : scan.scanId = scanId := Table.key_of_load hload
    have hpending := load_updateScan (s := s)
      { scan with status := "pending".toList, assignedNode := none } scanId'
    simp only [ClusterState.failScan, hload, Option.map_some]
    split
    · exact hpending
    · split
      · exact hpending
      · rw [ClusterState.scans_releaseNode]
        exact hpending

theorem load_assign {scanId : Str} {scan : ScanRequest} (hload : s.scans.load scanId = some scan)
    (target : ClusterNode) (scanId' : Str) :
    (s.assign scan target).scans.load scanId' = if scanId = scanId' then
      some { scan with
        assignedNode := some target.nodeId, status := "running".toList, version := s.versionCounter + 1 }
      else s.scans.load scanId' := by
  have hid : scan.scanId = scanId := Table.key_of_load hload
  rw [ClusterState.assign, ClusterState.scans_updateNode, load_updateScan, ← hid]

theorem load_assignScan_of_ne {scanId scanId' : Str} (hne : scanId ≠ scanId') :
    (s.assignScan scanId).1.scans.load scanId' = s.scans.load scanId' := by
  rcases s.assignScan_cases scanId with heq | ⟨scan,target,hload,_,_,heq⟩
  · rw [heq]
  · rw [heq, load_assign hload, if_neg hne]

theorem load_redistribute_of_ne {scanId scanId' : Str} (hne : scanId ≠ scanId') :
    (redistribute s scanId).scans.load scanId' = s.scans.load scanId' := by
  rw [redistribute, load_assignScan_of_ne hne, load_failScan, if_neg hne]

theorem redistribute_not_completed {scanId : Str} {scan : ScanRequest}
    (h : (redistribute s scanId).scans.load scanId = some scan) : ¬ Completed scan := by
  have hfailed : ∀ scan', (s.failScan scanId).scans.load scanId = some scan' →
      scan'.status = "pending".toList := by
    intro scan' hload
    rw [load_failScan, if_pos rfl] at hload
    obtain ⟨scan₀,_,rfl⟩ := Option.map_eq_some_iff.mp hload
    rfl
  rw [redistribute] at h
  rcases (s.failScan scanId).assignScan_cases scanId with heq | ⟨scan',target,hload,_,_,heq⟩
  · rw [heq] at h
    rw [Completed, hfailed scan h]
    exact pending_ne_completed
  · rw [heq, load_assign hload, if_pos rfl] at h
    cases h
    exact running_ne_completed

theorem load_redistributeAll_of_not_mem {scanIds : List Str} {scanId : Str} (h : scanId ∉ scanIds) :
    (scanIds.foldl redistribute s).scans.load scanId = s.scans.load scanId := by
  induction scanIds generalizing s with
  | nil => rfl
  | cons id ids ih =>
    rw [List.mem_cons, not_or] at h
    rw [List.foldl_cons, ih h.2, load_redistribute_of_ne (Ne.symm h.1)]

theorem redistributeAll_not_completed {scanIds : List Str} {scanId : Str} {scan : ScanRequest}
    (hmem : scanId ∈ scanIds)
    (hload : (scanIds.foldl redistribute s).scans.load scanId = some scan) : ¬ Completed scan := by
  induction scanIds generalizing s with
  | nil => cases hmem
  | cons id ids ih =>
    rw [List.foldl_cons] at hload
    by_cases hids : scanId ∈ ids
    · exact ih hids hload
    · rw [load_redistributeAll_of_not_mem hids] at hload
      rcases List.mem_cons.mp hmem with rfl | hmem
      · exact redistribute_not_completed hload
      · exact absurd hmem hids

theorem handleNodeFailure_known {nodeId : Str} {node : ClusterNode}
    (hload : s.nodes.load nodeId = some node) :
    (s.handleNodeFailure nodeId).1 = ((s.getScansForNode nodeId).map ScanRequest.scanId).foldl
      redistribute (s.updateNode { node with status := .offline }) := by
  simp only [ClusterState.handleNodeFailure, hload]
  rfl

end Redistribution

section Steps

variable (s : ClusterState)

theorem final_assignScan_iff (scanId : Str) :
    Final s (s.assignScan scanId).1 ↔ Spares s (.assignScan scanId) := by
  constructor
  · intro hfinal scan hload hdone hfree
    rw [← s.leastLoaded_eq_none]
    by_contra hsome
    obtain ⟨target,htarget⟩ := Option.ne_none_iff_exists'.mp hsome
    have heq := s.assignScan_assigns hload hfree htarget
    obtain ⟨scan',hload',hdone',_⟩ := hfinal scanId scan hload hdone
    rw [heq, load_assign hload, if_pos rfl] at hload'
    cases hload'
    exact running_ne_completed hdone'
  · intro hspares
    rcases s.assignScan_cases scanId with heq | ⟨scan,target,hload,hfree,htarget,heq⟩
    · rw [heq]
      exact Final.refl s
    · apply Final.of_load
      intro scanId' scan' hload' hdone
      rw [heq, load_assign hload]
      split
      · next he =>
        subst he
        cases hload.symm.trans hload'
        have hnone := s.leastLoaded_eq_none.mpr (hspares scan hload hdone hfree)
        exact absurd (hnone.symm.trans htarget) (by simp)
      · exact hload'

theorem load_completeScan {scanId : Str} {scan : ScanRequest} (nodeId : Str)
    (hload : s.scans.load scanId = some scan) (scanId' : Str) :
    (s.completeScan scanId nodeId).scans.load scanId' = if scanId = scanId' then
      some { scan with status := "completed".toList, version := s.versionCounter + 1 }
      else s.scans.load scanId' := by
  obtain rfl : scan.scanId = scanId := Table.key_of_load hload
  simp only [ClusterState.completeScan, hload]
  rw [ClusterState.scans_releaseNode, load_updateScan]

theorem final_completeScan (scanId nodeId : Str) : Final s (s.completeScan scanId nodeId) := by
  cases hload : s.scans.load scanId with
  | none =>
    simp only [ClusterState.completeScan, hload]
    exact Final.refl s
  | some scan =>
    intro scanId' scan' hload' hdone
    rw [load_completeScan s nodeId hload]
    split
    · next he =>
      subst he
      cases hload.symm.trans hload'
      exact ⟨_, rfl, rfl, rfl⟩
    · exact ⟨scan', hload', hdone, rfl⟩

theorem final_handleNodeFailure_iff (nodeId : Str) :
    Final s (s.handleNodeFailure nodeId).1 ↔ Spares s (.handleNodeFailure nodeId) := by
  cases hload : s.nodes.load nodeId with
  | none =>
    simp only [ClusterState.handleNodeFailure, hload]
    exact iff_of_true (Final.refl s) (fun hknown => absurd hload hknown)
  | some node =>
    rw [handleNodeFailure_known hload]
    constructor
    · intro hfinal _ scan hscan hdone
      have hscan' := Table.mem_all.mp (List.mem_filter.mp hscan).1
      obtain ⟨scan',hload',hdone',_⟩ := hfinal scan.scanId scan hscan' hdone
      exact redistributeAll_not_completed (List.mem_map_of_mem hscan) hload' hdone'
    · intro hspares
      apply Final.of_load
      intro scanId scan hscan hdone
      rw [load_redistributeAll_of_not_mem]
      · exact hscan
      · intro hmem
        obtain ⟨scan',hscan',rfl⟩ := List.mem_map.mp hmem
        have hsame := Table.mem_all.mp (List.mem_filter.mp hscan').1
        obtain rfl : scan' = scan := Option.some_inj.mp (hsame.symm.trans hscan)
        exact hspares (by rw [hload]; simp) scan' hscan' hdone

theorem final_electLeader : Final s s.electLeader.1 := by
  apply Final.of_load
  intro scanId scan hload _
  rw [ClusterState.electLeader]
  split <;> exact hload

theorem final_step_iff {call : Call} {r : ClusterState × List Unit} (hstep : step s call = some r) :
    Final s r.1 ↔ Spares s call := by
  cases call with
  | assignScan scanId =>
    cases hstep
    exact final_assignScan_iff s scanId
  | completeScan scanId nodeId =>
    cases hstep
    exact iff_of_true (final_completeScan s scanId nodeId) trivial
  | handleNodeFailure nodeId =>
    cases hstep
    exact final_handleNodeFailure_iff s nodeId
  | electLeader =>
    cases hstep
    exact iff_of_true (final_electLeader s) trivial

end Steps

theorem completed_scans_final_iff (s : ClusterState) (calls : List Call) :
    Persists step Final s calls ↔ Meets step Spares s calls := by
  refine persists_iff_meets Final.refl (fun _ _ _ => Final.trans) ?_
    (fun s _ _ => final_step_iff s) s calls
  rintro s (_ | _ | _ | _) <;> exact ⟨_, rfl⟩

theorem completed_scan_reassigned_on_node_failure :
    ¬ ∀ (s : ClusterState) (calls : List Call), Persists step Final s calls := by
  intro h
  have hfinal := h ((({} : ClusterState).addNode (.named "n1")).addNode (.named "n2") |>.addScan
    (.named "s1")) [.assignScan "s1".toList, .completeScan "s1".toList "n1".toList,
      .handleNodeFailure "n1".toList]
    [.assignScan "s1".toList, .completeScan "s1".toList "n1".toList]
    [.handleNodeFailure "n1".toList] [] _ _ _ _ rfl rfl rfl
  obtain ⟨scan,hload,hdone,_⟩ := hfinal "s1".toList _ rfl rfl
  cases hload
  exact running_ne_completed hdone

end PicoSentry.Sandbox.Cluster.Completion
