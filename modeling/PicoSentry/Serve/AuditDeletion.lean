import PicoSentry.Serve.AuditTamper

namespace PicoSentry.Serve.Audit

open Foundation

section Across

theorem exists_link_across {n : Nat} {prev : Option Row} {rows : List Row}
    (hprev : lowerId prev < n) (hne : ∀ r ∈ rows, r.id ≠ n) (hs : ∃ s ∈ rows, n < s.id) :
    ∃ link ∈ linksFrom prev rows, lowerId link.1 < n ∧ n < link.2.id := by
  induction rows generalizing prev with
  | nil =>
    obtain ⟨s,hs,_⟩ := hs
    cases hs
  | cons row rows ih =>
    rcases Nat.lt_or_ge n row.id with hlt | hge
    · exact ⟨(prev, row), List.mem_cons_self, hprev, hlt⟩
    · have hlow : lowerId (some row) < n := lt_of_le_of_ne hge (hne row List.mem_cons_self)
      obtain ⟨s,hs,hn⟩ := hs
      have hs' : s ∈ rows := by
        rcases List.mem_cons.mp hs with rfl | hs
        · omega
        · exact hs
      obtain ⟨link,hlink,h⟩ := ih hlow (fun r hr => hne r (List.mem_cons_of_mem _ hr)) ⟨s, hs', hn⟩
      exact ⟨link, List.mem_cons_of_mem _ hlink, h⟩

theorem rel_of_id_lt {R : Row → Row → Prop} {rows : List Row}
    (hids : rows.Pairwise fun p r => p.id < r.id) (hR : rows.Pairwise R) {p r : Row}
    (hp : p ∈ rows) (hr : r ∈ rows) (hlt : p.id < r.id) : R p r := by
  induction rows with
  | nil => cases hp
  | cons x rows ih =>
    obtain ⟨hx,hids⟩ := List.pairwise_cons.mp hids
    obtain ⟨hRx,hR⟩ := List.pairwise_cons.mp hR
    rcases List.mem_cons.mp hp with rfl | hp'
    · rcases List.mem_cons.mp hr with rfl | hr'
      · exact absurd hlt (lt_irrefl _)
      · exact hRx r hr'
    · rcases List.mem_cons.mp hr with rfl | hr'
      · exact absurd hlt (hx p hp').asymm
      · exact ih hids hR hp' hr'

variable {sha : Sha256} {log : AuditLog}

theorem Before.depth_le (hinj : Function.Injective sha.hexdigest) {p r : Row}
    (h : Before sha p r) {m n : Nat} (hm : Depth sha p.rowHash m) (hn : Depth sha r.prevHash n) :
    m ≤ n := by
  obtain ⟨m',n',hm',hn',hle⟩ := h
  obtain rfl := hm.unique hinj hm'
  obtain rfl := hn.unique hinj hn'
  rcases hle with he | hlt
  · rw [he] at hm
    exact (hm.unique hinj hn).le
  · exact hlt.le

theorem Chained.link_across_broken (h : Chained sha log)
    (hinj : Function.Injective sha.hexdigest) {prev : Option Row} {d s : Row}
    (hprev : ∀ p ∈ prev, p ∈ log.rows) (hd : d ∈ log.rows) (hs : s ∈ log.rows)
    (hlow : lowerId prev < d.id) (hlt : d.id < s.id) : s.prevHash ≠ hashOf prev := by
  intro he
  obtain ⟨k,hk⟩ := h.deep d hd
  obtain ⟨n,hn⟩ := h.deep s hs
  have hdn : k + 1 ≤ n :=
    (rel_of_id_lt h.ids h.ordered hd hs hlt).depth_le hinj (h.depth_rowHash hd hk) hn
  rw [he] at hn
  cases prev with
  | none =>
    have := hn.unique hinj .root
    omega
  | some p =>
    have hpk := (rel_of_id_lt h.ids h.ordered (hprev p rfl) hd hlow).depth_le hinj hn hk
    omega

end Across

section Genuine

variable {sha : Sha256} {log : AuditLog} {named : Nat → Prop}

def Genuine (log : AuditLog) (named : Nat → Prop) : Prop :=
  ∀ i, isPurged (namedGaps log.rows) i = true →
    named i ∨ i < log.nextId ∧ ∀ r ∈ log.rows, r.id ≠ i

def Names (named : Nat → Prop) : Call → Prop
  | .append args _ =>
    args.action = purgeAction →
      ∀ i, isPurged (markerGaps (detailsJson args.details)) i = true → named i
  | .purge _ _ => True

theorem isPurged_sublist {rows rows' : List Row} (h : rows.Sublist rows') {i : Nat}
    (hi : isPurged (namedGaps rows) i = true) : isPurged (namedGaps rows') i = true := by
  obtain ⟨g,hg,hcov⟩ := List.any_eq_true.mp hi
  obtain ⟨r,hr,hgr⟩ := List.mem_flatMap.mp hg
  have hr' := (h.filter fun r => decide (r.action = purgeAction)).subset hr
  exact List.any_eq_true.mpr ⟨g, List.mem_flatMap.mpr ⟨r, hr', hgr⟩, hcov⟩

theorem Genuine.without (h : Genuine log named) (ids : List Nat) :
    Genuine (log.without ids) named := by
  have hsub : (log.without ids).rows.Sublist log.rows := List.filter_sublist
  intro i hi
  rcases h i (isPurged_sublist hsub hi) with hn | ⟨hlt,hr⟩
  · exact .inl hn
  · exact .inr ⟨hlt, fun r hmem => hr r (hsub.subset hmem)⟩

theorem Genuine.append (h : Genuine log named) (args : AppendArgs) (now : Int)
    (hnew : args.action = purgeAction →
      ∀ i, isPurged (markerGaps (detailsJson args.details)) i = true →
        named i ∨ i < log.nextId ∧ ∀ r ∈ log.rows, r.id ≠ i) :
    Genuine (appendAuditRow sha log args now) named := by
  intro i hi
  have hold : named i ∨ i < log.nextId ∧ ∀ r ∈ log.rows, r.id ≠ i := by
    rcases (namedGaps_concat _ _ i).mp hi with hi | ⟨ha,hi⟩
    · exact h i hi
    · exact hnew ha i hi
  rcases hold with hn | ⟨hlt,hr⟩
  · exact .inl hn
  · exact .inr ⟨hlt.trans (Nat.lt_succ_self _), forall_concat hr hlt.ne'⟩

theorem Genuine.call (h : Genuine log named) (hc : Chained sha log) {c : Call}
    (hn : Names named c) : Genuine (Audit.call sha log c) named := by
  cases c with
  | append args now => exact h.append args now fun ha i hi => .inl (hn ha i hi)
  | purge args clock =>
    rcases purge_cases sha log args clock with ⟨_,hcall⟩ | ⟨_,_,hcall⟩
    · rw [hcall]
      exact h
    · rw [hcall]
      refine (h.without _).append _ _ fun _ i hi => .inr ?_
      rw [isPurged_marker, mem_presentIds fun i => mem_purgedBy] at hi
      obtain ⟨r,hr,rfl⟩ := mem_purgedBy hi
      refine ⟨(hc.bounded r hr).2, fun q hq he => ?_⟩
      have hkept := of_decide_eq_true (List.mem_filter.mp hq).2
      exact hkept (he ▸ hi)

theorem Genuine.foldl (h : Genuine log named) (hc : Chained sha log) {calls : List Call}
    (hn : ∀ c ∈ calls, Names named c) : Genuine (calls.foldl (Audit.call sha) log) named := by
  induction calls generalizing log with
  | nil => exact h
  | cons c calls ih =>
    have hnext := h.call hc (hn c List.mem_cons_self)
    exact ih hnext (hc.call c) fun c' hc' => hn c' (List.mem_cons_of_mem _ hc')

end Genuine

section Deletion

def DeclaredBy (calls : List Call) (i : Nat) : Prop :=
  ∃ args now, Call.append args now ∈ calls ∧ args.action = purgeAction ∧
    isPurged (markerGaps (detailsJson args.details)) i = true

theorem genuine_run (sha : Sha256) (calls : List Call) :
    Genuine (run sha calls) (DeclaredBy calls) := by
  have hempty : Genuine {} (DeclaredBy calls) := by
    intro i hi
    simp [namedGaps, markers, isPurged] at hi
  refine hempty.foldl chained_empty fun c hc => ?_
  cases c with
  | append args now => exact fun ha i hi => ⟨args, now, hc, ha, hi⟩
  | purge args clock => trivial

theorem undeclared_deletion_detected (sha : Sha256) (hinj : Function.Injective sha.hexdigest)
    (calls : List Call) (ids : List Nat) (d s : Row) (hd : d ∈ (run sha calls).rows)
    (hdel : d.id ∈ ids) (hundeclared : ¬DeclaredBy calls d.id)
    (hs : s ∈ (run sha calls).rows) (hkept : s.id ∉ ids) (hlt : d.id < s.id) :
    reportedValid sha ((run sha calls).without ids).rows = .ok false := by
  have hchain : Chained sha (run sha calls) := chained_run calls
  have hsub : ((run sha calls).without ids).rows.Sublist (run sha calls).rows :=
    List.filter_sublist
  have hne : ∀ r ∈ ((run sha calls).without ids).rows, r.id ≠ d.id := by
    intro r hr he
    exact of_decide_eq_true (List.mem_filter.mp hr).2 (he ▸ hdel)
  have hkeep : s ∈ ((run sha calls).without ids).rows :=
    List.mem_filter.mpr ⟨hs, decide_eq_true hkept⟩
  have hroot : lowerId none < d.id := (hchain.bounded d hd).1
  obtain ⟨⟨prev,r⟩,hlink,hlow,hhigh⟩ := exists_link_across hroot hne ⟨s, hkeep, hlt⟩
  have hprev : ∀ p ∈ prev, p ∈ (run sha calls).rows := by
    rintro p rfl
    exact hsub.subset (pred_mem hlink)
  have hbroken : r.prevHash ≠ hashOf prev :=
    hchain.link_across_broken hinj hprev hd (hsub.subset (mem_of_link hlink)) hlow hhigh
  rw [(hchain.without ids).invalid_iff_gapsCovered]
  intro hcov
  have hpurged := hcov (prev, r) hlink hbroken d.id hhigh hlow
  rcases genuine_run sha calls d.id (isPurged_sublist hsub hpurged) with hnamed | ⟨_,hgone⟩
  · exact hundeclared hnamed
  · exact hgone d hd rfl

theorem undeclared_deletion_detected_after_purge :
    rowAt retentionOnce 2 ∈ (run escaped retentionOnce).rows ∧
      rowAt retentionOnce 3 ∈ (run escaped retentionOnce).rows ∧
      reportedValid escaped ((run escaped retentionOnce).without [2]).rows = .ok false := by
  have hd : rowAt retentionOnce 2 ∈ (run escaped retentionOnce).rows := by decide +kernel
  have hs : rowAt retentionOnce 3 ∈ (run escaped retentionOnce).rows := by decide +kernel
  have hundeclared : ¬DeclaredBy retentionOnce (rowAt retentionOnce 2).id := by
    rintro ⟨args,now,hmem,ha,_⟩
    simp only [retentionOnce, List.mem_cons, Call.append.injEq, List.not_mem_nil, or_false,
      reduceCtorEq] at hmem
    rcases hmem with ⟨rfl,_⟩ | ⟨rfl,_⟩
    · exact absurd ha (by decide)
    · exact absurd ha (by decide)
  refine ⟨hd, hs, ?_⟩
  exact undeclared_deletion_detected escaped escaped_injective retentionOnce [2] _ _ hd
    (by decide +kernel) hundeclared hs (by decide +kernel) (by decide +kernel)

end Deletion

end PicoSentry.Serve.Audit
