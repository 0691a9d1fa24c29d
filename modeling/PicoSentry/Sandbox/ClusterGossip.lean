import PicoSentry.Foundation.Run
import PicoSentry.Sandbox.ClusterState

namespace PicoSentry.Sandbox.Cluster

open Foundation Foundation.Run

namespace ClusterState

variable {c : Crypto}

def absorb (s t : ClusterState) (tokens : TokenStore) : ClusterState :=
  { s with
    tokenStore := tokens
    nodes := s.nodes.mergeAll nodeIsNewer t.nodes.all
    scans := s.scans.mergeAll scanIsNewer t.scans.all }

theorem mergeState_trusted {s t : ClusterState} {timestamp : Str} {now : ℚ}
    (h : (mergeTokens c s.tokenStore (t.getStateSnapshot c timestamp) now).2 = .ok ()) :
    mergeState c s (t.getStateSnapshot c timestamp) now =
      ((s.absorb t (mergeTokens c s.tokenStore (t.getStateSnapshot c timestamp) now).1).electLeader.1,
        .ok ()) := by
  have hnodes := mergeNodes_toDict s.nodes t.nodes.all
  have hscans := mergeScans_toDict s.scans t.scans.all
  simp only [mergeState, h]
  rw [getStateSnapshot, hnodes]
  dsimp only
  rw [hscans]
  rfl

theorem mergeState_untrusted {s : ClusterState} {snapshot : Snapshot} {now : ℚ} {error : MergeError}
    (h : (mergeTokens c s.tokenStore snapshot now).2 = .error error) :
    mergeState c s snapshot now =
      ({ s with tokenStore := (mergeTokens c s.tokenStore snapshot now).1 }, .error error) := by
  simp only [mergeState, h]

theorem electLeader_fields (s : ClusterState) :
    s.electLeader.1.nodes = s.nodes ∧ s.electLeader.1.scans = s.scans ∧
      s.electLeader.1.versionCounter = s.versionCounter ∧
      s.electLeader.1.tokenStore = s.tokenStore := by
  rw [electLeader]
  split <;> exact ⟨rfl, rfl, rfl, rfl⟩

theorem mergeState_cases (c : Crypto) (s t : ClusterState) (timestamp : Str) (now : ℚ) :
    let s' := (mergeState c s (t.getStateSnapshot c timestamp) now).1
    s'.versionCounter = s.versionCounter ∧
      (s'.nodes = s.nodes ∧ s'.scans = s.scans ∨
        s'.nodes = s.nodes.mergeAll nodeIsNewer t.nodes.all ∧
          s'.scans = s.scans.mergeAll scanIsNewer t.scans.all) := by
  cases h : (mergeTokens c s.tokenStore (t.getStateSnapshot c timestamp) now).2 with
  | error error =>
    rw [mergeState_untrusted h]
    exact ⟨rfl, .inl ⟨rfl, rfl⟩⟩
  | ok =>
    rw [mergeState_trusted h]
    obtain ⟨hnodes,hscans,hcounter,_⟩ := electLeader_fields
      (s.absorb t (mergeTokens c s.tokenStore (t.getStateSnapshot c timestamp) now).1)
    exact ⟨hcounter, .inr ⟨hnodes, hscans⟩⟩

section Records

def recordIn {data ρ : Type} (fromDict : Option data → Except PyError ρ) (key : ρ → Str)
    (entries : List (Option data)) (k : Str) : Option ρ :=
  (entries.filterMap fun entry => (fromDict entry).toOption).find? fun r => key r = k

def nodeIn (snapshot : Snapshot) : Str → Option ClusterNode :=
  recordIn ClusterNode.fromDict ClusterNode.nodeId snapshot.nodes

def scanIn (snapshot : Snapshot) : Str → Option ScanRequest :=
  recordIn ScanRequest.fromDict ScanRequest.scanId snapshot.scans

theorem recordIn_all {data ρ : Type} {fromDict : Option data → Except PyError ρ} {toDict : ρ → data}
    {key : ρ → Str} (h : ∀ r, fromDict (some (toDict r)) = .ok r) (t : Table key) (k : Str) :
    recordIn fromDict key (t.all.map fun r => some (toDict r)) k = t.load k := by
  have hall : (t.all.map fun r => some (toDict r)).filterMap
      (fun entry => (fromDict entry).toOption) = t.all := by
    rw [List.filterMap_map]
    exact (List.filterMap_congr fun r _ => by rw [Function.comp, h]; rfl).trans List.filterMap_some
  rw [recordIn, hall, ← List.head?_filter, Table.filter_all]
  cases t.load k <;> rfl

@[simp] theorem nodeIn_getStateSnapshot (t : ClusterState) (timestamp : Str) :
    nodeIn (t.getStateSnapshot c timestamp) = t.nodes.load :=
  funext fun k => recordIn_all ClusterNode.fromDict_toDict t.nodes k

@[simp] theorem scanIn_getStateSnapshot (t : ClusterState) (timestamp : Str) :
    scanIn (t.getStateSnapshot c timestamp) = t.scans.load :=
  funext fun k => recordIn_all ScanRequest.fromDict_toDict t.scans k

theorem load_mergeAll_all {ρ : Type} {key : ρ → Str} (newer : ρ → ρ → Bool) (s t : Table key) (k : Str) :
    (s.mergeAll newer t.all).load k = newestOf newer (s.load k) (t.load k).toList := by
  rw [Table.load_mergeAll, Table.filter_all]

end Records

section Ranks

def nodeRank (node : ClusterNode) : Int ×ₗ Str := toLex (node.version, node.lastHeartbeat)

def scanRank (scan : ScanRequest) : Int ×ₗ Nat := toLex (scan.version, statusOrder scan.status)

theorem nodeIsNewer_ranked {remote : ClusterNode} (hremote : remote.version ≠ 0) :
    RankedBy nodeIsNewer nodeRank remote := by
  intro own
  rw [nodeRank, nodeRank, Prod.Lex.toLex_le_toLex, nodeIsNewer]
  dsimp only
  split
  · next hgt => exact iff_of_true rfl (.inl hgt)
  · next hgt =>
    split
    · next heq =>
      rw [decide_eq_true_eq, or_iff_right (by omega), and_iff_right heq.symm]
    · next hne =>
      exact iff_of_false (by simp) (by rintro (hlt | ⟨heq,_⟩) <;> omega)

theorem scanIsNewer_ranked {remote : ScanRequest} (hremote : remote.version ≠ 0) :
    RankedBy scanIsNewer scanRank remote := by
  intro own
  rw [scanRank, scanRank, Prod.Lex.toLex_le_toLex, scanIsNewer]
  dsimp only
  split
  · next hgt => exact iff_of_true rfl (.inl hgt)
  · next hgt =>
    split
    · next heq =>
      rw [decide_eq_true_eq, or_iff_right (by omega), and_iff_right heq.symm]
    · next hne =>
      exact iff_of_false (by simp) (by rintro (hlt | ⟨heq,_⟩) <;> omega)

end Ranks

end ClusterState

section World

variable (c : Crypto)

inductive LocalCall where
  | addNode (node : ClusterNode)
  | removeNode (nodeId : Str)
  | updateNode (node : ClusterNode)
  | addScan (scan : ScanRequest)
  | assignScan (scanId : Str)
  | completeScan (scanId nodeId : Str)
  | failScan (scanId : Str)
  | electLeader
  | setTokens (tokens : TokenStore)
  deriving DecidableEq

def act (s : ClusterState) : LocalCall → ClusterState
  | .addNode node => s.addNode node
  | .removeNode nodeId => s.removeNode nodeId
  | .updateNode node => s.updateNode node
  | .addScan scan => s.addScan scan
  | .assignScan scanId => (s.assignScan scanId).1
  | .completeScan scanId nodeId => s.completeScan scanId nodeId
  | .failScan scanId => s.failScan scanId
  | .electLeader => s.electLeader.1
  | .setTokens tokens => { s with tokenStore := tokens }

-- The states of a cluster's members and every snapshot taken so far.
structure World where
  members : List ClusterState
  taken : List Snapshot := []

inductive Call where
  | act (member : Nat) (call : LocalCall)
  | snapshot (member : Nat) (timestamp : Str)
  | merge (member taken : Nat) (now : ℚ)
  deriving DecidableEq

def step (w : World) : Call → Option (World × List Unit)
  | .act i call =>
    match w.members[i]? with
    | none => none
    | some s => some ({ w with members := w.members.set i (act s call) }, [])
  | .snapshot i timestamp =>
    match w.members[i]? with
    | none => none
    | some s => some ({ w with taken := w.taken ++ [s.getStateSnapshot c timestamp] }, [])
  | .merge i k now =>
    match w.members[i]?, w.taken[k]? with
    | some s, some snapshot =>
      some ({ w with members := w.members.set i (s.mergeState c snapshot now).1 }, [])
    | _, _ => none

def start (tokens : List TokenStore) : World where
  members := tokens.map fun tokenStore => { tokenStore := tokenStore }

end World

section Soundness

structure Sound (s : ClusterState) : Prop where
  counter : 0 ≤ s.versionCounter
  nodes : ∀ nodeId node, s.nodes.load nodeId = some node → node.version ≠ 0
  scans : ∀ scanId scan, s.scans.load scanId = some scan → scan.version ≠ 0

variable {s t : ClusterState}

theorem Sound.saveNode (h : Sound s) {node : ClusterNode} (hnode : node.version ≠ 0) :
    Sound (s.saveNode node) := by
  refine ⟨h.counter, fun nodeId node' hload => ?_, h.scans⟩
  rw [ClusterState.saveNode, Table.load_save] at hload
  split at hload
  · cases hload
    exact hnode
  · exact h.nodes nodeId node' hload

theorem Sound.saveScan (h : Sound s) {scan : ScanRequest} (hscan : scan.version ≠ 0) :
    Sound (s.saveScan scan) := by
  refine ⟨h.counter, h.nodes, fun scanId scan' hload => ?_⟩
  rw [ClusterState.saveScan, Table.load_save] at hload
  split at hload
  · cases hload
    exact hscan
  · exact h.scans scanId scan' hload

theorem Sound.nextVersion (h : Sound s) : Sound s.nextVersion :=
  ⟨Int.le_add_one h.counter, h.nodes, h.scans⟩

theorem Sound.nextVersion_ne (h : Sound s) : s.nextVersion.versionCounter ≠ 0 := by
  have := h.counter
  rw [ClusterState.nextVersion]
  dsimp only
  omega

theorem Sound.updateNode (h : Sound s) (node : ClusterNode) : Sound (s.updateNode node) :=
  h.nextVersion.saveNode h.nextVersion_ne

theorem Sound.updateScan (h : Sound s) (scan : ScanRequest) : Sound (s.updateScan scan) :=
  h.nextVersion.saveScan h.nextVersion_ne

theorem Sound.releaseNode (h : Sound s) (nodeId : Str) : Sound (s.releaseNode nodeId) := by
  rw [ClusterState.releaseNode]
  split
  · exact h
  · split
    · exact h.updateNode _
    · exact h

theorem Sound.electLeader (h : Sound s) : Sound s.electLeader.1 := by
  rw [ClusterState.electLeader]
  split
  · exact h
  · exact ⟨h.counter, h.nodes, h.scans⟩

theorem Sound.act (h : Sound s) (call : LocalCall) : Sound (act s call) := by
  cases call with
  | addNode node =>
    rw [Cluster.act, ClusterState.addNode]
    split
    · exact h.updateNode node
    · next hne => exact h.saveNode hne
  | removeNode nodeId =>
    refine ⟨h.counter, fun nodeId' node hload => ?_, h.scans⟩
    rw [Cluster.act, ClusterState.removeNode, Table.load_erase] at hload
    split at hload
    · cases hload
    · exact h.nodes nodeId' node hload
  | updateNode node => exact h.updateNode node
  | addScan scan =>
    rw [Cluster.act, ClusterState.addScan]
    split
    · exact h.updateScan scan
    · next hne => exact h.saveScan hne
  | assignScan scanId =>
    rw [Cluster.act]
    rcases s.assignScan_cases scanId with heq | ⟨scan,target,_,_,_,heq⟩
    · rw [heq]
      exact h
    · rw [heq]
      exact (h.updateScan _).updateNode _
  | completeScan scanId nodeId =>
    rw [Cluster.act, ClusterState.completeScan]
    split
    · exact h
    · exact (h.updateScan _).releaseNode nodeId
  | failScan scanId =>
    rw [Cluster.act, ClusterState.failScan]
    split
    · exact h
    · dsimp only
      split
      · exact h.updateScan _
      · split
        · exact h.updateScan _
        · exact (h.updateScan _).releaseNode _
  | electLeader => exact h.electLeader
  | setTokens tokens => exact ⟨h.counter, h.nodes, h.scans⟩

theorem forall_mergeAll {ρ : Type} {key : ρ → Str} {newer : ρ → ρ → Bool} {P : ρ → Prop}
    {mine theirs : Table key} (hmine : ∀ k r, mine.load k = some r → P r)
    (htheirs : ∀ k r, theirs.load k = some r → P r) (k : Str) (r : ρ)
    (hload : (mine.mergeAll newer theirs.all).load k = some r) : P r := by
  rw [Table.load_mergeAll] at hload
  rcases newestOf_mem hload with hkept | hmem
  · exact hmine k r hkept
  · exact htheirs (key r) r (Table.mem_all.mp (List.mem_filter.mp hmem).1)

theorem Sound.mergeState (c : Crypto) (hs : Sound s) (ht : Sound t) (timestamp : Str) (now : ℚ) :
    Sound (s.mergeState c (t.getStateSnapshot c timestamp) now).1 := by
  obtain ⟨hcounter,⟨hnodes,hscans⟩ | ⟨hnodes,hscans⟩⟩ := ClusterState.mergeState_cases c s t timestamp now
  · exact ⟨hcounter ▸ hs.counter, hnodes ▸ hs.nodes, hscans ▸ hs.scans⟩
  · exact ⟨hcounter ▸ hs.counter, hnodes ▸ forall_mergeAll hs.nodes ht.nodes,
      hscans ▸ forall_mergeAll hs.scans ht.scans⟩

variable {c : Crypto}

structure SoundWorld (c : Crypto) (w : World) : Prop where
  members : ∀ s ∈ w.members, Sound s
  taken : ∀ snapshot ∈ w.taken, ∃ s timestamp, Sound s ∧ snapshot = s.getStateSnapshot c timestamp

theorem soundWorld_start (tokens : List TokenStore) : SoundWorld c (start tokens) := by
  refine ⟨fun s hs => ?_, fun _ h => by cases h⟩
  obtain ⟨tokenStore,_,rfl⟩ := List.mem_map.mp hs
  exact ⟨le_refl _, fun _ _ h => absurd h (by simp), fun _ _ h => absurd h (by simp)⟩

theorem SoundWorld.set {w : World} (h : SoundWorld c w) {i : Nat} {s : ClusterState}
    (hs : Sound s) : SoundWorld c { w with members := w.members.set i s } := by
  refine ⟨fun s' hs' => ?_, h.taken⟩
  rcases List.mem_or_eq_of_mem_set hs' with hs' | rfl
  · exact h.members s' hs'
  · exact hs

theorem SoundWorld.step {w w' : World} {call : Call} {es : List Unit} (h : SoundWorld c w)
    (hstep : step c w call = some (w', es)) : SoundWorld c w' := by
  cases call with
  | act i call =>
    rw [Cluster.step] at hstep
    split at hstep
    · cases hstep
    · next s hs =>
      cases hstep
      exact h.set ((h.members s (List.mem_of_getElem? hs)).act call)
  | snapshot i timestamp =>
    rw [Cluster.step] at hstep
    split at hstep
    · cases hstep
    · next s hs =>
      cases hstep
      refine ⟨h.members, fun snapshot hsnapshot => ?_⟩
      rcases List.mem_append.mp hsnapshot with hsnapshot | hsnapshot
      · exact h.taken snapshot hsnapshot
      · rw [List.mem_singleton] at hsnapshot
        exact ⟨s, timestamp, h.members s (List.mem_of_getElem? hs), hsnapshot⟩
  | merge i k now =>
    rw [Cluster.step] at hstep
    split at hstep
    · next s snapshot hs hsnapshot =>
      cases hstep
      obtain ⟨t,timestamp,ht,rfl⟩ := h.taken snapshot (List.mem_of_getElem? hsnapshot)
      exact h.set ((h.members s (List.mem_of_getElem? hs)).mergeState c ht timestamp now)
    · cases hstep

theorem soundWorld_of_run {tokens : List TokenStore} {calls : List Call} {w : World} {es : List Unit}
    (hrun : exec (step c) (start tokens) calls = some (w, es)) : SoundWorld c w := by
  have hstep : ∀ (past : List Unit) w call w' es', SoundWorld c w → True →
      step c w call = some (w', es') → SoundWorld c w' :=
    fun _ _ _ _ _ hw _ hs => hw.step hs
  exact exec_invariant hstep [] (soundWorld_start tokens) (meets_true _ calls) hrun

end Soundness

end PicoSentry.Sandbox.Cluster
