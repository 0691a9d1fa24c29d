import PicoSentry.Sandbox.ClusterState

namespace PicoSentry.Sandbox.Cluster.Rejection

open Foundation ClusterState

variable {c : Crypto}

theorem mergeEntry_error {data ρ : Type} {key : ρ → Str} {fromDict : Option data → Except PyError ρ}
    {newer : ρ → ρ → Bool} {table : Table key} {entry : Option data} {error : PyError}
    (h : mergeEntry fromDict newer table entry = .error error) : fromDict entry = .error error := by
  rw [mergeEntry] at h
  cases hentry : fromDict entry with
  | error error' =>
    rw [hentry] at h
    cases h
    rfl
  | ok remote =>
    rw [hentry] at h
    cases h

theorem mergeRawTokens_error {tokens : TokenStore} {remote : TokenStoreSnapshot} {error : MergeError}
    (h : (mergeRawTokens tokens remote).2 = .error error) : (mergeRawTokens tokens remote).1 = tokens := by
  rw [mergeRawTokens] at h ⊢
  split
  · rfl
  · next remoteStore hstore =>
    rw [hstore] at h
    dsimp only at h
    split
    · rfl
    · next htrusted =>
      rw [if_neg htrusted] at h
      cases h

def AdoptedFrom (c : Crypto) (snapshot : Snapshot) (now : ℚ) (before after : TokenStore) : Prop :=
  ∃ remote announcement, snapshot.tokenStore = some remote ∧ remote.announcement = some announcement ∧
    before.applyAnnouncement c announcement now = (after, true)

theorem mergeTokens_error {tokens : TokenStore} {snapshot : Snapshot} {now : ℚ} {error : MergeError}
    (h : (mergeTokens c tokens snapshot now).2 = .error error) :
    (mergeTokens c tokens snapshot now).1 = tokens ∨
      AdoptedFrom c snapshot now tokens (mergeTokens c tokens snapshot now).1 := by
  rw [mergeTokens] at h ⊢
  split
  · next remote hremote =>
    simp only [hremote] at h
    split
    · next hformat =>
      have hfst : (mergeGossipTokens c tokens remote now).1 = hearAnnouncement c tokens remote now := by
        rw [mergeGossipTokens]
        split <;> rfl
      rw [hfst, hearAnnouncement]
      split
      · exact .inl rfl
      · next announcement hannouncement =>
        rcases tokens.applyAnnouncement_cases c announcement now with heq | ⟨_,_,_,heq⟩
        · rw [heq]
          exact .inl rfl
        · exact .inr ⟨remote, announcement, hremote, hannouncement, by rw [heq]⟩
    · next hformat =>
      rw [if_neg hformat] at h
      exact .inl (mergeRawTokens_error h)
  · split <;> exact .inl rfl

inductive Remains (c : Crypto) (s : ClusterState) (snapshot : Snapshot) (now : ℚ) (s' : ClusterState) :
    MergeError → Prop
  | tokens {error : MergeError} (htrust : (mergeTokens c s.tokenStore snapshot now).2 = .error error)
      (hnodes : s'.nodes = s.nodes) (hscans : s'.scans = s.scans)
      (htokens : s'.tokenStore = s.tokenStore ∨ AdoptedFrom c snapshot now s.tokenStore s'.tokenStore) :
      Remains c s snapshot now s' error
  | node {error : PyError} {before after : List (Option NodeData)} {entry : Option NodeData}
      (hsplit : snapshot.nodes = before ++ entry :: after)
      (hentry : ClusterNode.fromDict entry = .error error)
      (hnodes : mergeNodes s.nodes before = (s'.nodes, .ok ())) (hscans : s'.scans = s.scans)
      (htokens : mergeTokens c s.tokenStore snapshot now = (s'.tokenStore, .ok ())) :
      Remains c s snapshot now s' (.raised error)
  | scan {error : PyError} {before after : List (Option ScanData)} {entry : Option ScanData}
      (hsplit : snapshot.scans = before ++ entry :: after)
      (hentry : ScanRequest.fromDict entry = .error error)
      (hnodes : mergeNodes s.nodes snapshot.nodes = (s'.nodes, .ok ()))
      (hscans : mergeScans s.scans before = (s'.scans, .ok ()))
      (htokens : mergeTokens c s.tokenStore snapshot now = (s'.tokenStore, .ok ())) :
      Remains c s snapshot now s' (.raised error)

theorem rejected_merge_remains {s : ClusterState} {snapshot : Snapshot} {now : ℚ} {error : MergeError}
    (h : (s.mergeState c snapshot now).2 = .error error) :
    (s.mergeState c snapshot now).1.leaderId = s.leaderId ∧
      Remains c s snapshot now (s.mergeState c snapshot now).1 error := by
  cases htokens : (mergeTokens c s.tokenStore snapshot now).2 with
  | error error' =>
    have hmerge : s.mergeState c snapshot now =
        ({ s with tokenStore := (mergeTokens c s.tokenStore snapshot now).1 }, .error error') := by
      simp only [mergeState, htokens]
    rw [hmerge] at h ⊢
    cases h
    exact ⟨rfl, .tokens htokens rfl rfl (mergeTokens_error htokens)⟩
  | ok =>
    have htrusted : mergeTokens c s.tokenStore snapshot now =
      ((mergeTokens c s.tokenStore snapshot now).1, .ok ()) := Prod.ext rfl htokens
    cases hnodes : (mergeNodes s.nodes snapshot.nodes).2 with
    | error error' =>
      have hmerge : s.mergeState c snapshot now = ({ s with
          tokenStore := (mergeTokens c s.tokenStore snapshot now).1
          nodes := (mergeNodes s.nodes snapshot.nodes).1 }, .error (.raised error')) := by
        simp only [mergeState, htokens, hnodes]
      rw [hmerge] at h ⊢
      cases h
      obtain ⟨before,entry,after,hsplit,hbefore,hentry⟩ := foldUntil_error hnodes
      exact ⟨rfl, .node hsplit (mergeEntry_error hentry) hbefore rfl htrusted⟩
    | ok =>
      cases hscans : (mergeScans s.scans snapshot.scans).2 with
      | error error' =>
        have hmerge : s.mergeState c snapshot now = ({ s with
            tokenStore := (mergeTokens c s.tokenStore snapshot now).1
            nodes := (mergeNodes s.nodes snapshot.nodes).1
            scans := (mergeScans s.scans snapshot.scans).1 }, .error (.raised error')) := by
          simp only [mergeState, htokens, hnodes, hscans]
        rw [hmerge] at h ⊢
        cases h
        obtain ⟨before,entry,after,hsplit,hbefore,hentry⟩ := foldUntil_error hscans
        exact ⟨rfl, .scan hsplit (mergeEntry_error hentry) (Prod.ext rfl hnodes) hbefore htrusted⟩
      | ok =>
        simp only [mergeState, htokens, hnodes, hscans] at h
        cases h

structure Unchanged (s s' : ClusterState) : Prop where
  nodes : s'.nodes = s.nodes
  scans : s'.scans = s.scans
  leader : s'.leaderId = s.leaderId
  primary : s'.tokenStore.primaryToken = s.tokenStore.primaryToken
  accepted : s'.tokenStore.acceptedTokens = s.tokenStore.acceptedTokens
  announcement : s'.tokenStore.announcement = s.tokenStore.announcement

def halfBad : Snapshot where
  nodes := [some (ClusterNode.named "n1").toDict, some { nodeId := some "n2".toList }]
  tokenStore := some ((TokenStore.init "secret".toList 0).toGossipSnapshot .plain)

theorem half_bad_merge_remains :
    let s : ClusterState := { tokenStore := .init "secret".toList 0 }
    let s' := (s.mergeState .plain halfBad 0).1
    s'.leaderId = s.leaderId ∧ Remains .plain s halfBad 0 s' (.raised .keyError) :=
  rejected_merge_remains (by decide)

theorem rejected_entry_keeps_earlier_nodes :
    ¬ ∀ (c : Crypto) (s : ClusterState) (snapshot : Snapshot) (now : ℚ) (error : MergeError),
      (s.mergeState c snapshot now).2 = .error error → Unchanged s (s.mergeState c snapshot now).1 := by
  intro h
  have hunchanged := h .plain { tokenStore := .init "secret".toList 0 } halfBad 0 (.raised .keyError)
    (by decide)
  have hload := congrArg (fun nodes => nodes.load "n1".toList) hunchanged.nodes
  exact absurd hload (by decide)

end PicoSentry.Sandbox.Cluster.Rejection
