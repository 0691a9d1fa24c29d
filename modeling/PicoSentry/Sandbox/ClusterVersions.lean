import PicoSentry.Sandbox.ClusterGossip

namespace PicoSentry.Sandbox.Cluster.Versions

open Foundation Foundation.Run ClusterState

section Advance

variable {ρ : Type} {key : ρ → Str} {version : ρ → Int} {t : Table key}

def Advance (version : ρ → Int) (t t' : Table key) : Prop :=
  ∀ k r r', t.load k = some r → t'.load k = some r' → r' = r ∨ version r < version r'

theorem Advance.refl (t : Table key) : Advance version t t := by
  intro k r r' hr hr'
  exact .inl (Option.some_inj.mp (hr'.symm.trans hr))

theorem Advance.save {r : ρ} (h : ∀ old ∈ t.load (key r), version old < version r) :
    Advance version t (t.save r) := by
  intro k old new hold hnew
  rw [Table.load_save] at hnew
  split at hnew
  · next he =>
    subst he
    cases hnew
    exact .inr (h old hold)
  · exact .inl (Option.some_inj.mp (hnew.symm.trans hold))

theorem Advance.erase (k : Str) : Advance version t (t.erase k) := by
  intro k' old new hold hnew
  rw [Table.load_erase] at hnew
  split at hnew
  · cases hnew
  · exact .inl (Option.some_inj.mp (hnew.symm.trans hold))

end Advance

structure Advances (s s' : ClusterState) : Prop where
  nodes : Advance ClusterNode.version s.nodes s'.nodes
  scans : Advance ScanRequest.version s.scans s'.scans

def Ahead (s : ClusterState) : LocalCall → Prop
  | .addNode node => ∀ old ∈ s.nodes.load node.nodeId,
      if node.version = 0 then old.version ≤ s.versionCounter else old.version < node.version
  | .updateNode node => ∀ old ∈ s.nodes.load node.nodeId, old.version ≤ s.versionCounter
  | .addScan scan => ∀ old ∈ s.scans.load scan.scanId,
      if scan.version = 0 then old.version ≤ s.versionCounter else old.version < scan.version
  | .assignScan scanId => ∀ scan ∈ s.scans.load scanId, scan.assignedNode = none →
      ∀ target ∈ s.leastLoaded,
        scan.version ≤ s.versionCounter ∧ target.version ≤ s.versionCounter + 1
  | .completeScan scanId nodeId => ∀ scan ∈ s.scans.load scanId, scan.version ≤ s.versionCounter ∧
      ∀ node ∈ s.nodes.load nodeId, node.load > 0 → node.version ≤ s.versionCounter + 1
  | .failScan scanId => ∀ scan ∈ s.scans.load scanId, scan.version ≤ s.versionCounter ∧
      ∀ nodeId ∈ scan.assignedNode, nodeId ≠ [] →
        ∀ node ∈ s.nodes.load nodeId, node.load > 0 → node.version ≤ s.versionCounter + 1
  | _ => True

instance (s : ClusterState) : (call : LocalCall) → Decidable (Ahead s call)
  | .addNode node => inferInstanceAs (Decidable (∀ old ∈ s.nodes.load node.nodeId, _))
  | .removeNode _ => isTrue trivial
  | .updateNode node => inferInstanceAs (Decidable (∀ old ∈ s.nodes.load node.nodeId, _))
  | .addScan scan => inferInstanceAs (Decidable (∀ old ∈ s.scans.load scan.scanId, _))
  | .assignScan scanId => inferInstanceAs (Decidable (∀ scan ∈ s.scans.load scanId, _))
  | .completeScan scanId _ => inferInstanceAs (Decidable (∀ scan ∈ s.scans.load scanId, _))
  | .failScan scanId => inferInstanceAs (Decidable (∀ scan ∈ s.scans.load scanId, _))
  | .electLeader => isTrue trivial
  | .setTokens _ => isTrue trivial

section Steps

variable {s : ClusterState}

theorem advance_updateNode {node : ClusterNode}
    (h : ∀ old ∈ s.nodes.load node.nodeId, old.version ≤ s.versionCounter) :
    Advance ClusterNode.version s.nodes (s.updateNode node).nodes :=
  Advance.save fun old hold => Int.lt_add_one_iff.mpr (h old hold)

theorem advance_updateScan {scan : ScanRequest}
    (h : ∀ old ∈ s.scans.load scan.scanId, old.version ≤ s.versionCounter) :
    Advance ScanRequest.version s.scans (s.updateScan scan).scans :=
  Advance.save fun old hold => Int.lt_add_one_iff.mpr (h old hold)

theorem advance_releaseNode {nodeId : Str} (h : ∀ node ∈ s.nodes.load nodeId, node.load > 0 →
    node.version ≤ s.versionCounter) :
    Advance ClusterNode.version s.nodes (s.releaseNode nodeId).nodes := by
  cases hload : s.nodes.load nodeId with
  | none =>
    simp only [releaseNode, hload]
    exact Advance.refl s.nodes
  | some node =>
    simp only [releaseNode, hload]
    split
    · next hpos =>
      apply advance_updateNode
      intro old hold
      obtain rfl : node.nodeId = nodeId := Table.key_of_load hload
      cases hload.symm.trans hold
      exact h node hload hpos
    · exact Advance.refl s.nodes

theorem advances_updateScan_releaseNode {scan old : ScanRequest} {nodeId : Str}
    (hload : s.scans.load scan.scanId = some old) (hscan : old.version ≤ s.versionCounter)
    (hnode : ∀ node ∈ s.nodes.load nodeId, node.load > 0 → node.version ≤ s.versionCounter + 1) :
    Advances s ((s.updateScan scan).releaseNode nodeId) := by
  refine ⟨advance_releaseNode (s := s.updateScan scan) hnode, ?_⟩
  rw [scans_releaseNode]
  apply advance_updateScan
  intro old' hold'
  cases hload.symm.trans hold'
  exact hscan

theorem advances_act {call : LocalCall} (h : Ahead s call) : Advances s (act s call) := by
  cases call with
  | addNode node =>
    rw [act, addNode]
    split
    · next hzero =>
      refine ⟨advance_updateNode fun old hold => ?_, Advance.refl s.scans⟩
      simpa [hzero] using h old hold
    · next hne =>
      refine ⟨Advance.save fun old hold => ?_, Advance.refl s.scans⟩
      simpa [hne] using h old hold
  | removeNode nodeId => exact ⟨Advance.erase nodeId, Advance.refl s.scans⟩
  | updateNode node => exact ⟨advance_updateNode h, Advance.refl s.scans⟩
  | addScan scan =>
    rw [act, addScan]
    split
    · next hzero =>
      refine ⟨Advance.refl s.nodes, advance_updateScan fun old hold => ?_⟩
      simpa [hzero] using h old hold
    · next hne =>
      refine ⟨Advance.refl s.nodes, Advance.save fun old hold => ?_⟩
      simpa [hne] using h old hold
  | assignScan scanId =>
    rw [act]
    rcases s.assignScan_cases scanId with heq | ⟨scan,target,hload,hfree,htarget,heq⟩
    · rw [heq]
      exact ⟨Advance.refl s.nodes, Advance.refl s.scans⟩
    · obtain ⟨hscan,hnode⟩ := h scan hload hfree target htarget
      obtain rfl : scan.scanId = scanId := Table.key_of_load hload
      rw [heq]
      refine ⟨Advance.save fun old hold => ?_, Advance.save fun old hold => ?_⟩
      · cases ((mem_onlineNodes s).mp (s.leastLoaded_mem htarget)).1.symm.trans hold
        exact Int.lt_add_one_iff.mpr hnode
      · cases hload.symm.trans hold
        exact Int.lt_add_one_iff.mpr hscan
  | completeScan scanId nodeId =>
    rw [act]
    cases hload : s.scans.load scanId with
    | none =>
      simp only [completeScan, hload]
      exact ⟨Advance.refl s.nodes, Advance.refl s.scans⟩
    | some scan =>
      obtain ⟨hscan,hnode⟩ := h scan hload
      obtain rfl : scan.scanId = scanId := Table.key_of_load hload
      simp only [completeScan, hload]
      exact advances_updateScan_releaseNode hload hscan hnode
  | failScan scanId =>
    rw [act]
    cases hload : s.scans.load scanId with
    | none =>
      simp only [failScan, hload]
      exact ⟨Advance.refl s.nodes, Advance.refl s.scans⟩
    | some scan =>
      obtain ⟨hscan,hnode⟩ := h scan hload
      obtain rfl : scan.scanId = scanId := Table.key_of_load hload
      have hpending : Advances s (s.updateScan { scan with
          status := "pending".toList, assignedNode := none }) := by
        refine ⟨Advance.refl s.nodes, advance_updateScan fun old hold => ?_⟩
        cases hload.symm.trans hold
        exact hscan
      simp only [failScan, hload]
      split
      · exact hpending
      · next nodeId hassigned =>
        split
        · exact hpending
        · next hne => exact advances_updateScan_releaseNode hload hscan (hnode nodeId hassigned hne)
  | electLeader =>
    obtain ⟨hnodes,hscans,_,_⟩ := electLeader_fields s
    rw [act]
    constructor
    · rw [hnodes]
      exact Advance.refl s.nodes
    · rw [hscans]
      exact Advance.refl s.scans
  | setTokens tokens => exact ⟨Advance.refl s.nodes, Advance.refl s.scans⟩

end Steps

section Completion

def Behind (scanId : Str) (version : Int) (snapshot : Snapshot) : Prop :=
  ∀ scan ∈ scanIn snapshot scanId, scan.status ≠ "completed".toList → scan.version ≤ version

instance (scanId : Str) (version : Int) (snapshot : Snapshot) :
    Decidable (Behind scanId version snapshot) :=
  inferInstanceAs (Decidable (∀ scan ∈ scanIn snapshot scanId, _))

def Done (scanId : Str) (version : Int) (s : ClusterState) : Prop :=
  ∃ scan, s.scans.load scanId = some scan ∧ scan.status = "completed".toList ∧ version ≤ scan.version

variable {s t : ClusterState} {scanId : Str} {version : Int}

theorem statusOrder_lt {status : Str} (h : status ≠ "completed".toList) : statusOrder status < 3 := by
  rw [statusOrder, if_neg h]
  split
  · decide
  · split <;> decide

theorem scanIsNewer_done {remote own : ScanRequest} (hzero : remote.version ≠ 0)
    (hdone : own.status = "completed".toList ∧ version ≤ own.version)
    (hbehind : remote.status ≠ "completed".toList → remote.version ≤ version)
    (hnewer : scanIsNewer remote own = true) :
    remote.status = "completed".toList ∧ version ≤ remote.version := by
  have hown : statusOrder own.status = 3 := by rw [hdone.1, statusOrder, if_pos rfl]
  have hrank := (scanIsNewer_ranked hzero own).mp hnewer
  rw [scanRank, scanRank, Prod.Lex.toLex_le_toLex, hown] at hrank
  by_cases hstatus : remote.status = "completed".toList
  · refine ⟨hstatus, ?_⟩
    rcases hrank with hlt | ⟨heq,_⟩ <;> omega
  · have hlt := statusOrder_lt hstatus
    have hle := hbehind hstatus
    rcases hrank with hlt' | ⟨heq,hstatus'⟩
    · dsimp only at hlt'
      omega
    · dsimp only at hstatus'
      omega

theorem Done.mergeState (hdone : Done scanId version s) (c : Crypto) (ht : Sound t) (timestamp : Str)
    (now : ℚ) (hbehind : Behind scanId version (t.getStateSnapshot c timestamp)) :
    Done scanId version (s.mergeState c (t.getStateSnapshot c timestamp) now).1 := by
  obtain ⟨scan,hload,hcompleted,hversion⟩ := hdone
  obtain ⟨_,⟨_,hscans⟩ | ⟨_,hscans⟩⟩ := mergeState_cases c s t timestamp now
  · rw [Done, hscans]
    exact ⟨scan, hload, hcompleted, hversion⟩
  · rw [Done, hscans, load_mergeAll_all, hload]
    refine newestOf_invariant (fun scan : ScanRequest => scan.status = "completed".toList ∧
      version ≤ scan.version) ?_ ⟨hcompleted, hversion⟩
    intro remote hremote own hown hnewer
    rw [Option.mem_toList] at hremote
    have hbehind' := hbehind remote (by rwa [scanIn_getStateSnapshot])
    exact scanIsNewer_done (ht.scans scanId remote hremote) hown hbehind' hnewer

theorem done_completeScan {scan : ScanRequest} (nodeId : Str)
    (hload : s.scans.load scanId = some scan) :
    Done scanId (s.versionCounter + 1) (s.completeScan scanId nodeId) := by
  obtain rfl : scan.scanId = scanId := Table.key_of_load hload
  refine ⟨{ scan with status := "completed".toList, version := s.versionCounter + 1 }, ?_, rfl,
    le_refl _⟩
  simp only [completeScan, hload]
  rw [scans_releaseNode]
  exact Table.load_save_self s.scans
    { scan with status := "completed".toList, version := s.versionCounter + 1 }

end Completion

section Runs

variable (c : Crypto)

def Supersedes (w : World) (s : ClusterState) : LocalCall → Prop
  | .completeScan scanId _ => (s.scans.load scanId).isSome →
      ∀ snapshot ∈ w.taken, Behind scanId (s.versionCounter + 1) snapshot
  | _ => True

instance (w : World) (s : ClusterState) : (call : LocalCall) → Decidable (Supersedes w s call)
  | .completeScan _ _ => inferInstanceAs (Decidable (_ → _))
  | .addNode _ | .removeNode _ | .updateNode _ | .addScan _ | .assignScan _ | .failScan _
  | .electLeader | .setTokens _ => isTrue trivial

def Current (w : World) : Call → Prop
  | .act i call => ∀ s ∈ w.members[i]?, Ahead s call ∧ Supersedes w s call
  | _ => True

instance (w : World) : (call : Call) → Decidable (Current w call)
  | .act i _ => inferInstanceAs (Decidable (∀ s ∈ w.members[i]?, _))
  | .snapshot _ _ => isTrue trivial
  | .merge _ _ _ => isTrue trivial

def Earlier (i n : Nat) : Call → Prop
  | .act j _ => j ≠ i
  | .snapshot _ _ => True
  | .merge j k _ => j = i → k < n

variable {c}

structure Kept (c : Crypto) (i n : Nat) (scanId : Str) (version : Int) (w : World) : Prop where
  sound : SoundWorld c w
  behind : ∀ k < n, ∀ snapshot ∈ w.taken[k]?, Behind scanId version snapshot
  bound : n ≤ w.taken.length
  done : ∃ s, w.members[i]? = some s ∧ Done scanId version s

theorem Kept.step {i n : Nat} {scanId : Str} {version : Int} {w w' : World} {call : Call}
    {es : List Unit} (h : Kept c i n scanId version w) (hcall : Earlier i n call)
    (hstep : step c w call = some (w', es)) : Kept c i n scanId version w' := by
  have hsound := h.sound.step hstep
  obtain ⟨s,hs,hdone⟩ := h.done
  cases call with
  | act j call =>
    rw [Cluster.step] at hstep
    split at hstep
    · cases hstep
    · cases hstep
      refine ⟨hsound, h.behind, h.bound, s, ?_, hdone⟩
      rw [List.getElem?_set_ne hcall]
      exact hs
  | snapshot j timestamp =>
    rw [Cluster.step] at hstep
    split at hstep
    · cases hstep
    · cases hstep
      refine ⟨hsound, fun k hk snapshot hsnapshot => ?_, ?_, s, hs, hdone⟩
      · rw [List.getElem?_append_left (Nat.lt_of_lt_of_le hk h.bound)] at hsnapshot
        exact h.behind k hk snapshot hsnapshot
      · rw [List.length_append]
        exact Nat.le_add_right_of_le h.bound
  | merge j k now =>
    rw [Cluster.step] at hstep
    split at hstep
    · next s' snapshot hs' hsnapshot =>
      cases hstep
      refine ⟨hsound, h.behind, h.bound, ?_⟩
      by_cases hj : j = i
      · subst hj
        cases hs.symm.trans hs'
        obtain ⟨t,timestamp,ht,rfl⟩ := h.sound.taken snapshot (List.mem_of_getElem? hsnapshot)
        refine ⟨_, List.getElem?_set_self (List.getElem?_eq_some_iff.mp hs).1, ?_⟩
        exact hdone.mergeState c ht timestamp now (h.behind k (hcall rfl) _ hsnapshot)
      · refine ⟨s, ?_, hdone⟩
        rw [List.getElem?_set_ne hj]
        exact hs
    · cases hstep

theorem kept_of_completion {tokens : List TokenStore} {before : List Call} {i : Nat}
    {scanId nodeId : Str} {w : World} {es : List Unit} {s : ClusterState} {scan : ScanRequest}
    (hrun : exec (step c) (start tokens) before = some (w, es)) (hs : w.members[i]? = some s)
    (hscan : s.scans.load scanId = some scan) (hsupersedes : Supersedes w s (.completeScan scanId nodeId)) :
    Kept c i w.taken.length scanId (s.versionCounter + 1)
      { w with members := w.members.set i (s.completeScan scanId nodeId) } := by
  have hsound := soundWorld_of_run hrun
  have hsome : (s.scans.load scanId).isSome := by
    rw [hscan]
    rfl
  refine ⟨hsound.set ((hsound.members s (List.mem_of_getElem? hs)).act (.completeScan scanId nodeId)),
    fun k _ snapshot hsnapshot => hsupersedes hsome snapshot (List.mem_of_getElem? hsnapshot),
    le_refl _, _, List.getElem?_set_self (List.getElem?_eq_some_iff.mp hs).1,
    done_completeScan nodeId hscan⟩

def Monotone (c : Crypto) (tokens : List TokenStore) (calls : List Call) : Prop :=
  ∀ before i call after w es s, calls = before ++ .act i call :: after →
    exec (step c) (start tokens) before = some (w, es) → w.members[i]? = some s →
      Advances s (act s call)

def KeepsCompletions (c : Crypto) (tokens : List TokenStore) (calls : List Call) : Prop :=
  ∀ before i scanId nodeId merges after w es s scan w' es',
    calls = before ++ .act i (.completeScan scanId nodeId) :: merges ++ after →
    exec (step c) (start tokens) before = some (w, es) → w.members[i]? = some s →
    s.scans.load scanId = some scan → (∀ call ∈ merges, Earlier i w.taken.length call) →
    exec (step c) (start tokens) (before ++ .act i (.completeScan scanId nodeId) :: merges) =
      some (w', es') →
    ∃ s' scan', w'.members[i]? = some s' ∧ s'.scans.load scanId = some scan' ∧
      scan'.status = "completed".toList

theorem monotone_of_current {tokens : List TokenStore} {calls : List Call}
    (h : Meets (step c) Current (start tokens) calls) : Monotone c tokens calls := by
  rintro before i call after w es s rfl hbefore hs
  exact advances_act ((h.append hbefore).2.1 s hs).1

theorem keepsCompletions_of_current {tokens : List TokenStore} {calls : List Call}
    (h : Meets (step c) Current (start tokens) calls) : KeepsCompletions c tokens calls := by
  rintro before i scanId nodeId merges after w es s scan w' es' rfl hbefore hs hscan hmerges hrun
  rw [List.append_assoc] at h
  obtain ⟨w₀,es₁,es₂,hbefore',hrest,rfl⟩ := exec_append hrun
  cases hbefore.symm.trans hbefore'
  obtain ⟨w₁,es₃,es₄,hstep,hmerged,rfl⟩ := exec_cons.mp hrest
  have hkept := kept_of_completion hbefore hs hscan ((h.append hbefore).2.1 s hs).2
  simp only [step, hs, Option.some_inj, Prod.mk.injEq] at hstep
  obtain ⟨rfl,rfl⟩ := hstep
  have hearlier : Meets (step c) (fun _ call => Earlier i w.taken.length call)
      { w with members := w.members.set i (s.completeScan scanId nodeId) } merges :=
    meets_of_forall hmerges
  have hkeeps : ∀ (past : List Unit) w' call w'' es',
      Kept c i w.taken.length scanId (s.versionCounter + 1) w' → Earlier i w.taken.length call →
      step c w' call = some (w'', es') → Kept c i w.taken.length scanId (s.versionCounter + 1) w'' :=
    fun _ _ _ _ _ hw hcall hstep => hw.step hcall hstep
  obtain ⟨s',hs',scan',hscan',hstatus,_⟩ := (exec_invariant hkeeps [] hkept hearlier hmerged).done
  exact ⟨s', scan', hs', hscan', hstatus⟩

theorem versions_advance {tokens : List TokenStore} {calls : List Call}
    (h : Meets (step c) Current (start tokens) calls) :
    Monotone c tokens calls ∧ KeepsCompletions c tokens calls :=
  ⟨monotone_of_current h, keepsCompletions_of_current h⟩

theorem versions_advance_through_a_round :
    let calls : List Call := [.act 0 (.addNode (.named "n1")), .act 0 (.addScan (.named "s1")),
      .act 0 (.assignScan "s1".toList), .snapshot 0 [], .act 0 (.completeScan "s1".toList "n1".toList),
      .merge 0 0 0, .merge 1 0 0]
    Monotone .plain [{}, {}] calls ∧ KeepsCompletions .plain [{}, {}] calls :=
  versions_advance (by decide)

theorem completion_lost_to_earlier_snapshot :
    ¬ ∀ (c : Crypto) (tokens : List TokenStore) (calls : List Call),
      Monotone c tokens calls ∧ KeepsCompletions c tokens calls := by
  intro h
  have hkeeps := (h .plain [{}, {}] [.act 1 (.addNode (.named "n1")), .act 1 (.addScan (.named "s1")),
    .snapshot 1 [], .merge 0 0 0, .act 0 (.completeScan "s1".toList "n1".toList), .merge 0 0 0]).2
    [.act 1 (.addNode (.named "n1")), .act 1 (.addScan (.named "s1")), .snapshot 1 [], .merge 0 0 0]
    0 "s1".toList "n1".toList [.merge 0 0 0] [] _ _ _ _ _ _ rfl rfl rfl rfl ?_ rfl
  · obtain ⟨s,scan,hs,hscan,hstatus⟩ := hkeeps
    cases hs
    cases hscan
    exact absurd hstatus (by decide)
  · intro call hcall
    rw [List.mem_singleton] at hcall
    rw [hcall]
    exact fun _ => Nat.zero_lt_one

end Runs

end PicoSentry.Sandbox.Cluster.Versions
