import Mathlib.Data.List.Lex
import Mathlib.Data.Prod.Lex
import PicoSentry.Foundation.SortedBy
import PicoSentry.Foundation.Newest
import PicoSentry.Sandbox.ClusterTokens

namespace PicoSentry.Sandbox.Cluster

open Foundation

abbrev NodeTable := Table ClusterNode.nodeId
abbrev ScanTable := Table ScanRequest.scanId

-- The state over a MemoryStateBackend.
structure ClusterState where
  nodes : NodeTable := .empty
  scans : ScanTable := .empty
  leaderId : Option Str := none
  versionCounter : Int := 0
  tokenStore : TokenStore := {}

structure Snapshot where
  clusterToken : Option Str := none
  nodes : List (Option NodeData) := []
  scans : List (Option ScanData) := []
  leaderId : Option Str := none
  timestamp : Str := []
  tokenStore : Option TokenStoreSnapshot := none

inductive MergeError where
  | clusterTokenMismatch
  | raised (error : PyError)
  deriving DecidableEq, Repr

namespace ClusterState

section Records

-- The version that _next_version returns is the counter it leaves.
def nextVersion (s : ClusterState) : ClusterState := { s with versionCounter := s.versionCounter + 1 }

def saveNode (s : ClusterState) (node : ClusterNode) : ClusterState :=
  { s with nodes := s.nodes.save node }

def saveScan (s : ClusterState) (scan : ScanRequest) : ClusterState :=
  { s with scans := s.scans.save scan }

def updateNode (s : ClusterState) (node : ClusterNode) : ClusterState :=
  s.nextVersion.saveNode { node with version := s.nextVersion.versionCounter }

def addNode (s : ClusterState) (node : ClusterNode) : ClusterState :=
  if node.version = 0 then s.updateNode node else s.saveNode node

def removeNode (s : ClusterState) (nodeId : Str) : ClusterState :=
  { s with nodes := s.nodes.erase nodeId }

def updateScan (s : ClusterState) (scan : ScanRequest) : ClusterState :=
  s.nextVersion.saveScan { scan with version := s.nextVersion.versionCounter }

def addScan (s : ClusterState) (scan : ScanRequest) : ClusterState :=
  if scan.version = 0 then s.updateScan scan else s.saveScan scan

def onlineNodes (s : ClusterState) : List ClusterNode := s.nodes.all.filter (·.status = .online)

def leastLoaded (s : ClusterState) : Option ClusterNode :=
  (ascending (fun node => toLex (node.load, node.nodeId)) s.onlineNodes).head?

def assignScan (s : ClusterState) (scanId : Str) : ClusterState × Option ClusterNode :=
  match s.scans.load scanId with
  | none => (s, none)
  | some scan =>
    match scan.assignedNode with
    | some nodeId => (s, s.nodes.load nodeId)
    | none =>
      match s.leastLoaded with
      | none => (s, none)
      | some target =>
        let s := s.updateScan { scan with
          assignedNode := some target.nodeId, status := "running".toList }
        let s := s.updateNode { target with load := target.load + 1 }
        (s, some { target with load := target.load + 1, version := s.versionCounter })

def releaseNode (s : ClusterState) (nodeId : Str) : ClusterState :=
  match s.nodes.load nodeId with
  | none => s
  | some node => if node.load > 0 then s.updateNode { node with load := node.load - 1 } else s

def completeScan (s : ClusterState) (scanId nodeId : Str) : ClusterState :=
  match s.scans.load scanId with
  | none => s
  | some scan => (s.updateScan { scan with status := "completed".toList }).releaseNode nodeId

-- An empty assigned_node is falsy, as none is.
def failScan (s : ClusterState) (scanId : Str) : ClusterState :=
  match s.scans.load scanId with
  | none => s
  | some scan =>
    let s := s.updateScan { scan with status := "pending".toList, assignedNode := none }
    match scan.assignedNode with
    | none => s
    | some oldNode => if oldNode = [] then s else s.releaseNode oldNode

def getScansForNode (s : ClusterState) (nodeId : Str) : List ScanRequest :=
  s.scans.all.filter (·.assignedNode = some nodeId)

def electLeader (s : ClusterState) : ClusterState × Option Str :=
  match ascending ClusterNode.nodeId s.onlineNodes with
  | [] => (s, none)
  | leader :: _ => ({ s with leaderId := some leader.nodeId }, some leader.nodeId)

def handleNodeFailure (s : ClusterState) (nodeId : Str) : ClusterState × List Str :=
  match s.nodes.load nodeId with
  | none => (s, [])
  | some node =>
    let s := s.updateNode { node with status := .offline }
    let redistributed := (s.getScansForNode nodeId).map ScanRequest.scanId
    (redistributed.foldl (fun s scanId => ((s.failScan scanId).assignScan scanId).1) s, redistributed)

end Records

section Effects

variable (s : ClusterState)

@[simp] theorem nodes_updateScan (scan : ScanRequest) : (s.updateScan scan).nodes = s.nodes := rfl

@[simp] theorem scans_updateNode (node : ClusterNode) : (s.updateNode node).scans = s.scans := rfl

@[simp] theorem nodes_updateNode (node : ClusterNode) :
    (s.updateNode node).nodes = s.nodes.save { node with version := s.versionCounter + 1 } := rfl

@[simp] theorem scans_updateScan (scan : ScanRequest) :
    (s.updateScan scan).scans = s.scans.save { scan with version := s.versionCounter + 1 } := rfl

theorem mem_onlineNodes {node : ClusterNode} :
    node ∈ s.onlineNodes ↔ s.nodes.load node.nodeId = some node ∧ node.status = .online := by
  rw [onlineNodes, List.mem_filter, Table.mem_all, decide_eq_true_eq]

def assign (scan : ScanRequest) (target : ClusterNode) : ClusterState :=
  (s.updateScan { scan with assignedNode := some target.nodeId, status := "running".toList }).updateNode
    { target with load := target.load + 1 }

theorem leastLoaded_eq_none : s.leastLoaded = none ↔ s.onlineNodes = [] := by
  rw [leastLoaded, List.head?_eq_none_iff]
  constructor
  · exact fun h => List.nil_perm.mp (h ▸ perm_ascending _ s.onlineNodes)
  · intro h
    rw [h]
    rfl

theorem leastLoaded_mem {target : ClusterNode} (h : s.leastLoaded = some target) :
    target ∈ s.onlineNodes :=
  (perm_ascending _ s.onlineNodes).mem_iff.mp (List.mem_of_head? h)

theorem assignScan_assigns {scanId : Str} {scan : ScanRequest} {target : ClusterNode}
    (hload : s.scans.load scanId = some scan) (hfree : scan.assignedNode = none)
    (htarget : s.leastLoaded = some target) : (s.assignScan scanId).1 = s.assign scan target := by
  simp only [assignScan, hload, hfree, htarget]
  rfl

theorem assignScan_cases (scanId : Str) :
    (s.assignScan scanId).1 = s ∨
      ∃ scan target, s.scans.load scanId = some scan ∧ scan.assignedNode = none ∧
        s.leastLoaded = some target ∧ (s.assignScan scanId).1 = s.assign scan target := by
  cases hload : s.scans.load scanId with
  | none =>
    left
    simp only [assignScan, hload]
  | some scan =>
    cases hassigned : scan.assignedNode with
    | some nodeId =>
      left
      simp only [assignScan, hload, hassigned]
    | none =>
      cases htarget : s.leastLoaded with
      | none =>
        left
        simp only [assignScan, hload, hassigned, htarget]
      | some target =>
        exact .inr ⟨scan, target, rfl, hassigned, rfl, s.assignScan_assigns hload hassigned htarget⟩

theorem scans_releaseNode (nodeId : Str) : (s.releaseNode nodeId).scans = s.scans := by
  rw [releaseNode]
  split
  · rfl
  · split <;> rfl

end Effects

section Merge

variable (c : Crypto)

def getStateSnapshot (s : ClusterState) (timestamp : Str) : Snapshot where
  nodes := s.nodes.all.map fun node => some node.toDict
  scans := s.scans.all.map fun scan => some scan.toDict
  leaderId := s.leaderId
  timestamp := timestamp
  tokenStore := some (s.tokenStore.toGossipSnapshot c)

def inGossipFormat (snapshot : TokenStoreSnapshot) : Bool :=
  match snapshot.accepted with
  | [] => false
  | entry :: _ => entry.digest.isSome

def sharesDigest (tokens : TokenStore) (accepted : List TokenEntry) : Bool :=
  accepted.any fun entry =>
    match entry.digest with
    | none => false
    | some digest => decide (digest ∈ tokens.acceptedDigests c)

def hearAnnouncement (tokens : TokenStore) (remote : TokenStoreSnapshot) (now : ℚ) : TokenStore :=
  match remote.announcement with
  | none => tokens
  | some announcement => (tokens.applyAnnouncement c announcement now).1

def mergeGossipTokens (tokens : TokenStore) (remote : TokenStoreSnapshot) (now : ℚ) :
    TokenStore × Except MergeError Unit :=
  let tokens := hearAnnouncement c tokens remote now
  if tokens.primaryToken ≠ [] && !sharesDigest c tokens remote.accepted then
    (tokens, .error .clusterTokenMismatch)
  else (tokens, .ok ())

def adoptMissing (tokens : TokenStore) (info : TokenInfo) : TokenStore :=
  if tokens.isAccepted info.token then tokens
  else tokens.adoptToken info.token info.version info.issuedAt

def mergeRawTokens (tokens : TokenStore) (remote : TokenStoreSnapshot) :
    TokenStore × Except MergeError Unit :=
  match TokenStore.fromSnapshot remote with
  | .error error => (tokens, .error (.raised error))
  | .ok remoteStore =>
    if tokens.primaryToken ≠ [] ∧ (∀ token ∈ remoteStore.acceptedTokens, token ∉ tokens.acceptedTokens) ∧
        remoteStore.primaryToken ∉ tokens.acceptedTokens ∧
        tokens.primaryToken ∉ remoteStore.acceptedTokens then
      (tokens, .error .clusterTokenMismatch)
    else ((remoteStore.accepted.map Prod.snd).foldl adoptMissing tokens, .ok ())

def mergeTokens (tokens : TokenStore) (snapshot : Snapshot) (now : ℚ) :
    TokenStore × Except MergeError Unit :=
  match snapshot.tokenStore with
  | some remote =>
    if inGossipFormat remote then mergeGossipTokens c tokens remote now
    else mergeRawTokens tokens remote
  | none =>
    if tokens.primaryToken ≠ [] ∧ snapshot.clusterToken ≠ some tokens.primaryToken then
      (tokens, .error .clusterTokenMismatch)
    else (tokens, .ok ())

def nodeIsNewer (remote own : ClusterNode) : Bool :=
  if remote.version > own.version then true
  else if remote.version = own.version then remote.lastHeartbeat ≥ own.lastHeartbeat
  else if remote.version = 0 then remote.lastHeartbeat ≥ own.lastHeartbeat
  else false

def statusOrder (status : Str) : Nat :=
  if status = "completed".toList then 3
  else if status = "running".toList then 2
  else if status = "pending".toList then 1
  else 0

def scanIsNewer (remote own : ScanRequest) : Bool :=
  if remote.version > own.version then true
  else if remote.version = own.version then statusOrder remote.status ≥ statusOrder own.status
  else if remote.version = 0 then statusOrder remote.status ≥ statusOrder own.status
  else false

def mergeEntry {data ρ : Type} {key : ρ → Str} (fromDict : Option data → Except PyError ρ)
    (newer : ρ → ρ → Bool) (table : Table key) (entry : Option data) : Except PyError (Table key) := do
  let remote ← fromDict entry
  return table.merge newer remote

def mergeNodes (nodes : NodeTable) (entries : List (Option NodeData)) :
    NodeTable × Except PyError Unit :=
  foldUntil (mergeEntry ClusterNode.fromDict nodeIsNewer) nodes entries

def mergeScans (scans : ScanTable) (entries : List (Option ScanData)) :
    ScanTable × Except PyError Unit :=
  foldUntil (mergeEntry ScanRequest.fromDict scanIsNewer) scans entries

def mergeState (s : ClusterState) (snapshot : Snapshot) (now : ℚ) :
    ClusterState × Except MergeError Unit :=
  let tokens := mergeTokens c s.tokenStore snapshot now
  let s := { s with tokenStore := tokens.1 }
  match tokens.2 with
  | .error error => (s, .error error)
  | .ok () =>
    let nodes := mergeNodes s.nodes snapshot.nodes
    let s := { s with nodes := nodes.1 }
    match nodes.2 with
    | .error error => (s, .error (.raised error))
    | .ok () =>
      let scans := mergeScans s.scans snapshot.scans
      let s := { s with scans := scans.1 }
      match scans.2 with
      | .error error => (s, .error (.raised error))
      | .ok () => (s.electLeader.1, .ok ())

section Tokens

variable {c}

theorem acceptedTokens_adoptMissing (tokens : TokenStore) (infos : List TokenInfo) :
    tokens.acceptedTokens ⊆ (infos.foldl adoptMissing tokens).acceptedTokens := by
  induction infos generalizing tokens with
  | nil => exact List.Subset.refl _
  | cons info infos ih =>
    refine List.Subset.trans ?_ (ih (adoptMissing tokens info))
    rw [adoptMissing]
    split
    · exact List.Subset.refl _
    · exact TokenStore.acceptedTokens_adoptToken _ _ _

theorem acceptedTokens_hearAnnouncement (tokens : TokenStore) (remote : TokenStoreSnapshot) (now : ℚ) :
    tokens.acceptedTokens ⊆ (hearAnnouncement c tokens remote now).acceptedTokens := by
  rw [hearAnnouncement]
  split
  · exact List.Subset.refl _
  · exact TokenStore.acceptedTokens_applyAnnouncement _ now

theorem acceptedTokens_mergeTokens (tokens : TokenStore) (snapshot : Snapshot) (now : ℚ) :
    tokens.acceptedTokens ⊆ (mergeTokens c tokens snapshot now).1.acceptedTokens := by
  rw [mergeTokens]
  split
  · split
    · rw [mergeGossipTokens]
      split <;> exact acceptedTokens_hearAnnouncement tokens _ now
    · rw [mergeRawTokens]
      split
      · exact List.Subset.refl _
      · split
        · exact List.Subset.refl _
        · exact acceptedTokens_adoptMissing _ _
  · split <;> exact List.Subset.refl _

theorem tokenStore_mergeState (s : ClusterState) (snapshot : Snapshot) (now : ℚ) :
    (s.mergeState c snapshot now).1.tokenStore = (mergeTokens c s.tokenStore snapshot now).1 := by
  rw [mergeState]
  dsimp only
  split
  · rfl
  · split
    · rfl
    · split
      · rfl
      · rw [electLeader]
        split <;> rfl

theorem sharesDigest_mono {tokens tokens' : TokenStore} {accepted : List TokenEntry}
    (hsub : tokens.acceptedTokens ⊆ tokens'.acceptedTokens)
    (hshared : sharesDigest c tokens accepted = true) : sharesDigest c tokens' accepted = true := by
  rw [sharesDigest, List.any_eq_true] at hshared ⊢
  obtain ⟨entry,hentry,hdigest⟩ := hshared
  refine ⟨entry, hentry, ?_⟩
  cases hd : entry.digest with
  | none =>
    rw [hd] at hdigest
    cases hdigest
  | some digest =>
    simp only [hd, decide_eq_true_eq] at hdigest ⊢
    exact List.map_subset _ hsub hdigest

theorem mergeTokens_shared {tokens : TokenStore} {snapshot : Snapshot} {remote : TokenStoreSnapshot}
    {now : ℚ} (hremote : snapshot.tokenStore = some remote) (hformat : inGossipFormat remote = true)
    (hshared : sharesDigest c tokens remote.accepted = true) :
    (mergeTokens c tokens snapshot now).2 = .ok () := by
  have hgrown := sharesDigest_mono (acceptedTokens_hearAnnouncement (c := c) tokens remote now) hshared
  simp only [mergeTokens, hremote, hformat, if_true, mergeGossipTokens, hgrown]
  rw [if_neg (by simp)]

end Tokens

section Received

theorem mergeNodes_toDict (nodes : NodeTable) (received : List ClusterNode) :
    mergeNodes nodes (received.map fun node => some node.toDict) =
      (nodes.mergeAll nodeIsNewer received, .ok ()) :=
  foldUntil_map (fun _ node => by simp only [mergeEntry, ClusterNode.fromDict_toDict]; rfl) nodes

theorem mergeScans_toDict (scans : ScanTable) (received : List ScanRequest) :
    mergeScans scans (received.map fun scan => some scan.toDict) =
      (scans.mergeAll scanIsNewer received, .ok ()) :=
  foldUntil_map (fun _ scan => by simp only [mergeEntry, ScanRequest.fromDict_toDict]; rfl) scans

end Received

end Merge

end ClusterState

end PicoSentry.Sandbox.Cluster
