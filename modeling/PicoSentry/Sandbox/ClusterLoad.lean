import PicoSentry.Foundation.Run
import PicoSentry.Sandbox.ClusterState

namespace PicoSentry.Sandbox.Cluster.Load

open Foundation Foundation.Run

def runsOn (nodeId : Str) (scan : ScanRequest) : Bool :=
  decide (scan.status = "running".toList) && decide (scan.assignedNode = some nodeId)

def runningOn (s : ClusterState) (nodeId : Str) : Nat := s.scans.all.countP (runsOn nodeId)

def Accounted (s : ClusterState) : Prop :=
  ∀ nodeId node, s.nodes.load nodeId = some node → node.load = runningOn s nodeId

inductive Call where
  | addNode (node : ClusterNode)
  | addScan (scan : ScanRequest)
  | assignScan (scanId : Str)
  | completeScan (scanId nodeId : Str)
  | failScan (scanId : Str)

def step (s : ClusterState) : Call → Option (ClusterState × List Unit)
  | .addNode node => some (s.addNode node, [])
  | .addScan scan => some (s.addScan scan, [])
  | .assignScan scanId => some ((s.assignScan scanId).1, [])
  | .completeScan scanId nodeId => some (s.completeScan scanId nodeId, [])
  | .failScan scanId => some (s.failScan scanId, [])

def Fresh (s : ClusterState) : Call → Prop
  | .addNode node => s.nodes.load node.nodeId = none ∧ node.load = 0
  | .addScan scan => s.scans.load scan.scanId = none ∧ scan.status = "pending".toList ∧
      scan.assignedNode = none
  | _ => True

def Idle (s : ClusterState) (nodeId : Str) : Prop :=
  ∀ node ∈ s.nodes.load nodeId, node.load ≤ 0

instance (s : ClusterState) (nodeId : Str) : Decidable (Idle s nodeId) :=
  inferInstanceAs (Decidable (∀ node ∈ s.nodes.load nodeId, node.load ≤ 0))

instance (s : ClusterState) : (call : Call) → Decidable (Fresh s call)
  | .addNode _ => inferInstanceAs (Decidable (_ ∧ _))
  | .addScan _ => inferInstanceAs (Decidable (_ ∧ _))
  | .assignScan _ => isTrue trivial
  | .completeScan _ _ => isTrue trivial
  | .failScan _ => isTrue trivial

def Exact (s : ClusterState) : Call → Prop
  | .completeScan scanId nodeId => ∀ scan ∈ s.scans.load scanId,
      if scan.status = "running".toList then scan.assignedNode = some nodeId else Idle s nodeId
  | .failScan scanId => ∀ scan ∈ s.scans.load scanId, ∀ nodeId ∈ scan.assignedNode,
      if scan.status = "running".toList then nodeId ≠ [] else nodeId = [] ∨ Idle s nodeId
  | _ => True

instance (s : ClusterState) : (call : Call) → Decidable (Exact s call)
  | .addNode _ => isTrue trivial
  | .addScan _ => isTrue trivial
  | .assignScan _ => isTrue trivial
  | .completeScan scanId nodeId =>
    inferInstanceAs (Decidable (∀ scan ∈ s.scans.load scanId,
      if scan.status = "running".toList then scan.assignedNode = some nodeId else Idle s nodeId))
  | .failScan scanId =>
    inferInstanceAs (Decidable (∀ scan ∈ s.scans.load scanId, ∀ nodeId ∈ scan.assignedNode,
      if scan.status = "running".toList then nodeId ≠ [] else nodeId = [] ∨ Idle s nodeId))

theorem completed_ne_running : "completed".toList ≠ "running".toList := by decide

theorem pending_ne_running : "pending".toList ≠ "running".toList := by decide

section Loads

variable {s : ClusterState}

def loadOf (s : ClusterState) (nodeId : Str) : Option Int :=
  (s.nodes.load nodeId).map ClusterNode.load

theorem accounted_iff :
    Accounted s ↔ ∀ nodeId load, loadOf s nodeId = some load → load = runningOn s nodeId := by
  constructor
  · intro h nodeId load hload
    obtain ⟨node,hnode,rfl⟩ := Option.map_eq_some_iff.mp hload
    exact h nodeId node hnode
  · intro h nodeId node hnode
    exact h nodeId node.load (Option.map_eq_some_iff.mpr ⟨node, hnode, rfl⟩)

theorem loadOf_updateNode (node : ClusterNode) (nodeId : Str) :
    loadOf (s.updateNode node) nodeId = if node.nodeId = nodeId then some node.load else loadOf s nodeId := by
  rw [loadOf, ClusterState.nodes_updateNode, Table.load_save]
  split <;> rfl

theorem loadOf_updateScan (scan : ScanRequest) (nodeId : Str) :
    loadOf (s.updateScan scan) nodeId = loadOf s nodeId := rfl

def released (load : Int) : Int := if load > 0 then load - 1 else load

theorem loadOf_releaseNode (nodeId nodeId' : Str) :
    loadOf (s.releaseNode nodeId) nodeId' =
      if nodeId = nodeId' then (loadOf s nodeId').map released else loadOf s nodeId' := by
  cases hload : s.nodes.load nodeId with
  | none =>
    simp only [ClusterState.releaseNode, hload]
    split
    · next he => simp [← he, loadOf, hload]
    · rfl
  | some node =>
    have hid : node.nodeId = nodeId := Table.key_of_load hload
    simp only [ClusterState.releaseNode, hload]
    split
    · next hpos =>
      rw [loadOf_updateNode, hid]
      split
      · next he => simp [← he, loadOf, hload, released, hpos]
      · rfl
    · next hpos =>
      split
      · next he => simp [← he, loadOf, hload, released, hpos]
      · rfl

theorem runningOn_updateScan (scan : ScanRequest) {old : ScanRequest} (nodeId : Str)
    (hload : s.scans.load scan.scanId = some old) :
    runningOn (s.updateScan scan) nodeId + (runsOn nodeId old).toNat =
      runningOn s nodeId + (runsOn nodeId scan).toNat := by
  have h := Table.countP_save s.scans { scan with version := s.versionCounter + 1 } (runsOn nodeId)
  rw [hload] at h
  exact h

theorem runningOn_addScan {scan : ScanRequest} (nodeId : Str)
    (hload : s.scans.load scan.scanId = none) :
    runningOn (s.addScan scan) nodeId = runningOn s nodeId + (runsOn nodeId scan).toNat := by
  rw [ClusterState.addScan]
  split
  · have h := Table.countP_save s.scans { scan with version := s.versionCounter + 1 } (runsOn nodeId)
    rw [hload] at h
    exact h
  · have h := Table.countP_save s.scans scan (runsOn nodeId)
    rw [hload] at h
    exact h

end Loads

section Placement

variable {s : ClusterState}

structure PlacedScan (nodes : NodeTable) (scan : ScanRequest) : Prop where
  assigned : scan.status = "running".toList → scan.assignedNode ≠ none
  known : ∀ nodeId, scan.assignedNode = some nodeId → nodes.load nodeId ≠ none

def Placed (s : ClusterState) : Prop :=
  ∀ scanId scan, s.scans.load scanId = some scan → PlacedScan s.nodes scan

theorem load_save_ne_none {nodes : NodeTable} {nodeId : Str} (h : nodes.load nodeId ≠ none)
    (node : ClusterNode) : (nodes.save node).load nodeId ≠ none := by
  rw [Table.load_save]
  split
  · simp
  · exact h

theorem Placed.saveNode (h : Placed s) (node : ClusterNode) : Placed (s.saveNode node) := by
  intro scanId scan hscan
  obtain ⟨hassigned,hknown⟩ := h scanId scan hscan
  exact ⟨hassigned, fun nodeId hn => load_save_ne_none (hknown nodeId hn) node⟩

theorem Placed.updateNode (h : Placed s) (node : ClusterNode) : Placed (s.updateNode node) :=
  Placed.saveNode (s := s.nextVersion) h _

theorem Placed.saveScan (h : Placed s) {scan : ScanRequest} (hscan : PlacedScan s.nodes scan) :
    Placed (s.saveScan scan) := by
  intro scanId scan' hload
  rw [ClusterState.saveScan, Table.load_save] at hload
  split at hload
  · cases hload
    exact ⟨hscan.assigned, hscan.known⟩
  · exact ⟨(h scanId scan' hload).assigned, (h scanId scan' hload).known⟩

theorem Placed.updateScan (h : Placed s) {scan : ScanRequest} (hscan : PlacedScan s.nodes scan) :
    Placed (s.updateScan scan) :=
  Placed.saveScan (s := s.nextVersion) h ⟨hscan.assigned, hscan.known⟩

theorem Placed.releaseNode (h : Placed s) (nodeId : Str) : Placed (s.releaseNode nodeId) := by
  rw [ClusterState.releaseNode]
  split
  · exact h
  · split
    · exact h.updateNode _
    · exact h

theorem Placed.assign (h : Placed s) (scan : ScanRequest) {target : ClusterNode}
    (htarget : target ∈ s.onlineNodes) : Placed (s.assign scan target) := by
  have hload := ((s.mem_onlineNodes).mp htarget).1
  apply Placed.updateNode
  apply h.updateScan
  refine ⟨fun _ => by simp, ?_⟩
  rintro nodeId hn
  cases hn
  rw [hload]
  simp

theorem Placed.completeScan (h : Placed s) (scanId nodeId : Str) :
    Placed (s.completeScan scanId nodeId) := by
  rw [ClusterState.completeScan]
  split
  · exact h
  · next scan hload =>
    apply Placed.releaseNode
    apply h.updateScan
    exact ⟨fun hrun => absurd hrun completed_ne_running,
      (h scanId scan hload).known⟩

theorem Placed.failScan (h : Placed s) (scanId : Str) : Placed (s.failScan scanId) := by
  rw [ClusterState.failScan]
  split
  · exact h
  · next scan hload =>
    have hpending : ∀ scan : ScanRequest, Placed (s.updateScan
        { scan with status := "pending".toList, assignedNode := none }) := by
      intro scan
      refine h.updateScan ⟨fun hrun => ?_, fun _ hn => by cases hn⟩
      exact absurd hrun pending_ne_running
    dsimp only
    split
    · exact hpending scan
    · split
      · exact hpending scan
      · exact (hpending scan).releaseNode _

theorem Placed.step {call : Call} {r : ClusterState × List Unit} (h : Placed s)
    (hfresh : Fresh s call) (hstep : step s call = some r) : Placed r.1 := by
  cases call with
  | addNode node =>
    cases hstep
    rw [ClusterState.addNode]
    split
    · exact h.updateNode node
    · exact h.saveNode node
  | addScan scan =>
    cases hstep
    have hplaced : PlacedScan s.nodes scan := by
      refine ⟨fun hrun => ?_, fun nodeId hn => ?_⟩
      · exact absurd (hfresh.2.1.symm.trans hrun) pending_ne_running
      · rw [hfresh.2.2] at hn
        cases hn
    rw [ClusterState.addScan]
    split
    · exact h.updateScan hplaced
    · exact h.saveScan hplaced
  | assignScan scanId =>
    cases hstep
    rcases s.assignScan_cases scanId with heq | ⟨scan,target,_,_,htarget,heq⟩
    · rw [heq]
      exact h
    · rw [heq]
      exact h.assign scan (s.leastLoaded_mem htarget)
  | completeScan scanId nodeId =>
    cases hstep
    exact h.completeScan scanId nodeId
  | failScan scanId =>
    cases hstep
    exact h.failScan scanId

theorem Placed.runningOn_unknown (h : Placed s) {nodeId : Str} (hnone : s.nodes.load nodeId = none) :
    runningOn s nodeId = 0 := by
  rw [runningOn, List.countP_eq_zero]
  intro scan hmem hruns
  rw [runsOn, Bool.and_eq_true, decide_eq_true_eq, decide_eq_true_eq] at hruns
  exact (h scan.scanId scan (Table.mem_all.mp hmem)).known nodeId hruns.2 hnone

end Placement

section Accounting

variable {s : ClusterState}

theorem runsOn_of_running {scan : ScanRequest} (h : scan.status = "running".toList) (nodeId : Str) :
    (runsOn nodeId scan).toNat = if scan.assignedNode = some nodeId then 1 else 0 := by
  rw [runsOn, decide_eq_true h, Bool.true_and]
  split
  · next he => rw [decide_eq_true he]; rfl
  · next he => rw [decide_eq_false he]; rfl

theorem runsOn_of_not_running {scan : ScanRequest} (h : scan.status ≠ "running".toList)
    (nodeId : Str) : (runsOn nodeId scan).toNat = 0 := by
  rw [runsOn, decide_eq_false h, Bool.false_and]
  rfl

theorem Placed.running_load (h : Placed s) (hacc : Accounted s) {scanId : Str} {scan : ScanRequest}
    (hload : s.scans.load scanId = some scan) (hrun : scan.status = "running".toList) :
    ∃ nodeId, scan.assignedNode = some nodeId ∧ loadOf s nodeId = some (runningOn s nodeId : Int) := by
  obtain ⟨hassigned,hknown⟩ := h scanId scan hload
  obtain ⟨nodeId,hnode⟩ := Option.ne_none_iff_exists'.mp (hassigned hrun)
  obtain ⟨node,hn⟩ := Option.ne_none_iff_exists'.mp (hknown nodeId hnode)
  refine ⟨nodeId, hnode, ?_⟩
  rw [loadOf, hn, Option.map_some, hacc nodeId node hn]

theorem accounted_updateScan_iff (h : Placed s) (hacc : Accounted s) {scan : ScanRequest}
    (scan' : ScanRequest)
    (hload : s.scans.load scan'.scanId = some scan) (hstop : scan'.status ≠ "running".toList) :
    Accounted (s.updateScan scan') ↔ scan.status ≠ "running".toList := by
  have hcount := fun nodeId => runningOn_updateScan scan' nodeId hload
  simp only [runsOn_of_not_running hstop] at hcount
  rw [accounted_iff]
  constructor
  · intro hacc' hrun
    obtain ⟨nodeId,hnode,hn⟩ := h.running_load hacc hload hrun
    have hnew := hacc' nodeId _ hn
    have hdrop := hcount nodeId
    rw [runsOn_of_running hrun, if_pos hnode] at hdrop
    omega
  · intro hstopped nodeId load hl
    have hold := accounted_iff.mp hacc nodeId load hl
    have hdrop := hcount nodeId
    rw [runsOn_of_not_running hstopped] at hdrop
    omega

theorem accounted_release_iff (h : Placed s) (hacc : Accounted s) {scan : ScanRequest}
    (scan' : ScanRequest)
    (hload : s.scans.load scan'.scanId = some scan) (hstop : scan'.status ≠ "running".toList)
    (nodeId : Str) :
    Accounted ((s.updateScan scan').releaseNode nodeId) ↔
      if scan.status = "running".toList then scan.assignedNode = some nodeId else Idle s nodeId := by
  have hcount := fun nodeId => runningOn_updateScan scan' nodeId hload
  simp only [runsOn_of_not_running hstop] at hcount
  have hrunning : ∀ m, runningOn ((s.updateScan scan').releaseNode nodeId) m =
      runningOn (s.updateScan scan') m := by
    intro m
    rw [runningOn, ClusterState.scans_releaseNode, ← runningOn]
  simp only [accounted_iff, loadOf_releaseNode, loadOf_updateScan, hrunning]
  have hold := accounted_iff.mp hacc
  split
  · next hrun =>
    obtain ⟨m,hm,hlm⟩ := h.running_load hacc hload hrun
    have hdrop := hcount m
    rw [runsOn_of_running hrun, if_pos hm] at hdrop
    rw [hm, Option.some_inj]
    constructor
    · intro hnew
      by_contra hne
      have := hnew m (runningOn s m) (by rw [if_neg (Ne.symm hne), hlm])
      omega
    · rintro rfl m' load hl
      have hdrop' := hcount m'
      rw [runsOn_of_running hrun, hm] at hdrop'
      split at hl
      · next he =>
        subst he
        rw [hlm, Option.map_some, Option.some_inj] at hl
        rw [← hl, released]
        split <;> omega
      · next hne =>
        rw [if_neg (by simpa using hne)] at hdrop'
        have := hold m' load hl
        omega
  · next hnot =>
    simp only [runsOn_of_not_running hnot] at hcount
    constructor
    · intro hnew node hnode
      have hl : loadOf s nodeId = some node.load := by rw [loadOf, hnode]; rfl
      have hn := hnew nodeId (released node.load) (by rw [if_pos rfl, hl]; rfl)
      have := hold nodeId node.load hl
      have := hcount nodeId
      rw [released] at hn
      split at hn <;> omega
    · intro hidle m load hl
      have := hcount m
      split at hl
      · next he =>
        subst he
        obtain ⟨load',hl',rfl⟩ := Option.map_eq_some_iff.mp hl
        obtain ⟨node,hnode,rfl⟩ := Option.map_eq_some_iff.mp hl'
        have := hold nodeId node.load hl'
        have hle := hidle node hnode
        rw [released, if_neg (by omega)]
        omega
      · have := hold m load hl
        omega

theorem Accounted.assign (hplaced : Placed s) (hacc : Accounted s) {scanId : Str}
    {scan : ScanRequest} {target : ClusterNode} (hload : s.scans.load scanId = some scan)
    (hfree : scan.assignedNode = none) (htarget : target ∈ s.onlineNodes) :
    Accounted (s.assign scan target) := by
  have hid := Table.key_of_load hload
  have hstopped : scan.status ≠ "running".toList :=
    fun hrun => (hplaced scanId scan hload).assigned hrun hfree
  rw [accounted_iff]
  intro nodeId load hl
  rw [ClusterState.assign, loadOf_updateNode, loadOf_updateScan] at hl
  have hcount := runningOn_updateScan { scan with
    assignedNode := some target.nodeId, status := "running".toList } nodeId (hid ▸ hload)
  rw [runsOn_of_not_running hstopped, runsOn_of_running rfl] at hcount
  have hsame : runningOn (s.assign scan target) nodeId = runningOn (s.updateScan { scan with
    assignedNode := some target.nodeId, status := "running".toList }) nodeId := rfl
  rw [hsame]
  have htn := hacc target.nodeId target ((s.mem_onlineNodes).mp htarget).1
  split at hl
  · next he =>
    obtain rfl : target.nodeId = nodeId := he
    cases hl
    rw [if_pos rfl] at hcount
    dsimp only
    omega
  · next hne =>
    rw [if_neg (by simpa using hne)] at hcount
    have := accounted_iff.mp hacc nodeId load hl
    omega

theorem Accounted.addNode (hplaced : Placed s) (hacc : Accounted s) {node : ClusterNode}
    (hnew : s.nodes.load node.nodeId = none) (hidle : node.load = 0) : Accounted (s.addNode node) := by
  have hload : ∀ nodeId, loadOf (s.addNode node) nodeId =
      if node.nodeId = nodeId then some node.load else loadOf s nodeId := by
    intro nodeId
    rw [ClusterState.addNode]
    split
    · exact loadOf_updateNode node nodeId
    · rw [loadOf, ClusterState.saveNode, Table.load_save]
      split <;> rfl
  have hsame : ∀ nodeId, runningOn (s.addNode node) nodeId = runningOn s nodeId := by
    intro nodeId
    rw [ClusterState.addNode]
    split <;> rfl
  rw [accounted_iff]
  intro nodeId load hl
  rw [hload] at hl
  rw [hsame]
  split at hl
  · next he =>
    obtain rfl : node.nodeId = nodeId := he
    cases hl
    rw [hplaced.runningOn_unknown hnew, hidle]
    rfl
  · exact accounted_iff.mp hacc nodeId load hl

theorem Accounted.addScan (hacc : Accounted s) {scan : ScanRequest}
    (hnew : s.scans.load scan.scanId = none) (hpending : scan.status = "pending".toList) :
    Accounted (s.addScan scan) := by
  have hload : ∀ nodeId, loadOf (s.addScan scan) nodeId = loadOf s nodeId := by
    intro nodeId
    rw [ClusterState.addScan]
    split <;> rfl
  have hstopped : scan.status ≠ "running".toList := by
    rw [hpending]
    exact pending_ne_running
  rw [accounted_iff]
  intro nodeId load hl
  rw [hload] at hl
  rw [runningOn_addScan nodeId hnew, runsOn_of_not_running hstopped]
  exact accounted_iff.mp hacc nodeId load hl

theorem accounted_completeScan_iff (hplaced : Placed s) (hacc : Accounted s) (scanId nodeId : Str) :
    Accounted (s.completeScan scanId nodeId) ↔ Exact s (.completeScan scanId nodeId) := by
  rw [Exact]
  cases hload : s.scans.load scanId with
  | none =>
    have hsame : s.completeScan scanId nodeId = s := by rw [ClusterState.completeScan, hload]
    rw [hsame]
    exact iff_of_true hacc fun _ hscan => by cases hscan
  | some scan =>
    simp only [ClusterState.completeScan, hload, Option.mem_some_iff, forall_eq']
    exact accounted_release_iff hplaced hacc _ (Table.key_of_load hload ▸ hload) completed_ne_running nodeId

theorem accounted_failScan_iff (hplaced : Placed s) (hacc : Accounted s) (scanId : Str) :
    Accounted (s.failScan scanId) ↔ Exact s (.failScan scanId) := by
  rw [Exact]
  cases hload : s.scans.load scanId with
  | none =>
    have hsame : s.failScan scanId = s := by rw [ClusterState.failScan, hload]
    rw [hsame]
    exact iff_of_true hacc fun _ hscan => by cases hscan
  | some scan =>
    have hid : s.scans.load scan.scanId = some scan := Table.key_of_load hload ▸ hload
    have hkept := accounted_updateScan_iff hplaced hacc { scan with
      status := "pending".toList, assignedNode := none } hid pending_ne_running
    have hreleased := accounted_release_iff hplaced hacc { scan with
      status := "pending".toList, assignedNode := none } hid pending_ne_running
    simp only [ClusterState.failScan, hload, Option.mem_some_iff, forall_eq']
    cases hassigned : scan.assignedNode with
    | none =>
      have hstopped : scan.status ≠ "running".toList :=
        fun hrun => (hplaced scanId scan hload).assigned hrun hassigned
      exact iff_of_true (hkept.mpr hstopped) (fun nodeId hn => by cases hn)
    | some nodeId =>
      simp only [Option.mem_some_iff, forall_eq']
      split
      · next hempty =>
        rw [hkept]
        split
        · next hrun => exact iff_of_false (fun hn => hn hrun) (fun hn => hn hempty)
        · next hstopped => exact iff_of_true hstopped (.inl hempty)
      · next hne =>
        rw [hreleased nodeId, hassigned]
        split
        · exact iff_of_true rfl hne
        · rw [or_iff_right hne]

theorem accounted_step_iff {call : Call} {r : ClusterState × List Unit} (hplaced : Placed s)
    (hacc : Accounted s) (hfresh : Fresh s call) (hstep : step s call = some r) :
    Accounted r.1 ↔ Exact s call := by
  cases call with
  | addNode node =>
    cases hstep
    exact iff_of_true (hacc.addNode hplaced hfresh.1 hfresh.2) trivial
  | addScan scan =>
    cases hstep
    exact iff_of_true (hacc.addScan hfresh.1 hfresh.2.1) trivial
  | assignScan scanId =>
    cases hstep
    refine iff_of_true ?_ trivial
    rcases s.assignScan_cases scanId with heq | ⟨scan,target,hload,hfree,htarget,heq⟩
    · rw [heq]
      exact hacc
    · rw [heq]
      exact hacc.assign hplaced hload hfree (s.leastLoaded_mem htarget)
  | completeScan scanId nodeId =>
    cases hstep
    exact accounted_completeScan_iff hplaced hacc scanId nodeId
  | failScan scanId =>
    cases hstep
    exact accounted_failScan_iff hplaced hacc scanId

end Accounting

section Runs

theorem loads_accounted_iff (tokens : TokenStore) {calls : List Call}
    (hfresh : Meets step Fresh { tokenStore := tokens } calls) :
    Always step Accounted { tokenStore := tokens } calls ↔
      Meets step Exact { tokenStore := tokens } calls := by
  refine always_iff_meets ?_ (fun s l r hplaced hf hs => Placed.step hplaced hf hs)
    (fun s l r hplaced hacc hf hs => accounted_step_iff hplaced hacc hf hs) ?_ ?_ hfresh
  · rintro s (_ | _ | _ | _ | _) _ <;> exact ⟨_, rfl⟩
  · intro scanId scan hload
    cases hload
  · intro nodeId node hload
    cases hload

theorem loads_accounted_of_one_scan :
    Always step Accounted { tokenStore := {} } [.addNode (.named "n1"), .addScan (.named "s1"),
      .assignScan "s1".toList, .completeScan "s1".toList "n1".toList] :=
  (loads_accounted_iff {} (by decide)).mpr (by decide)

theorem repeated_completion_drifts :
    ¬ ∀ (tokens : TokenStore) (calls : List Call), Meets step Fresh { tokenStore := tokens } calls →
      Always step Accounted { tokenStore := tokens } calls := by
  intro h
  have hdrift := (h {} [.addNode (.named "n1"), .addScan (.named "s1"), .addScan (.named "s2"),
    .assignScan "s1".toList, .assignScan "s2".toList, .completeScan "s1".toList "n1".toList,
    .completeScan "s1".toList "n1".toList] (by decide)).final rfl
  exact absurd (hdrift "n1".toList _ rfl) (by decide)

end Runs

end PicoSentry.Sandbox.Cluster.Load
