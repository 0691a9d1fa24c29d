import PicoSentry.Serve.AuditLog

namespace PicoSentry.Serve.Audit

open Foundation

section Links

theorem mem_linksFrom {prev : Option Row} {rows : List Row} {link : Option Row × Row}
    (h : link ∈ linksFrom prev rows) :
    (link.1 = prev ∧ rows.head? = some link.2) ∨
      ∃ p, link.1 = some p ∧ [p, link.2].Sublist rows := by
  induction rows generalizing prev with
  | nil => simp [linksFrom] at h
  | cons row rows ih =>
    rcases List.mem_cons.mp h with rfl | h
    · exact .inl ⟨rfl, rfl⟩
    · rcases ih h with ⟨he,hhead⟩ | ⟨p,he,hsub⟩
      · refine .inr ⟨row, he, ?_⟩
        cases rows with
        | nil => cases hhead
        | cons r rows =>
          cases hhead
          simp
      · exact .inr ⟨p, he, hsub.cons _⟩

theorem mem_of_link {rows : List Row} {link : Option Row × Row}
    (h : link ∈ withPredecessor rows) : link.2 ∈ rows := by
  rcases mem_linksFrom h with ⟨_,hhead⟩ | ⟨p,_,hsub⟩
  · exact List.mem_of_head? hhead
  · exact hsub.subset (by simp)

theorem pred_mem {rows : List Row} {p r : Row} (h : (some p, r) ∈ withPredecessor rows) :
    p ∈ rows := by
  rcases mem_linksFrom h with ⟨he,_⟩ | ⟨q,he,hsub⟩
  · cases he
  · cases he
    exact hsub.subset (by simp)

theorem pairwise_link {R : Row → Row → Prop} {rows : List Row} (hr : rows.Pairwise R) {p r : Row}
    (h : (some p, r) ∈ withPredecessor rows) : R p r := by
  rcases mem_linksFrom h with ⟨he,_⟩ | ⟨q,he,hsub⟩
  · cases he
  · cases he
    exact List.rel_of_pairwise_cons (hr.sublist hsub) (by simp)

theorem linksFrom_concat (prev : Option Row) (rows : List Row) (row : Row) :
    linksFrom prev (rows ++ [row]) = linksFrom prev rows ++ [((rows.getLast?).or prev, row)] := by
  induction rows generalizing prev with
  | nil => rfl
  | cons r rows ih =>
    rw [List.cons_append, linksFrom, ih, linksFrom, List.cons_append]
    cases rows with
    | nil => rfl
    | cons r' rows => simp [List.getLast?_eq_some_getLast]

theorem withPredecessor_concat (rows : List Row) (row : Row) :
    withPredecessor (rows ++ [row]) = withPredecessor rows ++ [(rows.getLast?, row)] := by
  rw [withPredecessor, linksFrom_concat, Option.or_none, withPredecessor]

end Links

section Depth

variable {sha : Sha256}

inductive Depth (sha : Sha256) : Str → Nat → Prop
  | root : Depth sha [] 0
  | link {h : Str} {n : Nat} (action : Str) (userId : Option Int) (resourceId details : Str)
      (ipAddress : Option Str) (hd : Depth sha h n) :
      Depth sha (sha.hexdigest (joined h action userId resourceId details ipAddress)) (n + 1)

theorem Depth.noBar {h : Str} {n : Nat} (hd : Depth sha h n) : '|' ∉ h := by
  cases hd with
  | root => simp
  | link => exact sha.noBar _

theorem takeWhile_joined {prevHash : Str} (h : '|' ∉ prevHash) (action : Str)
    (userId : Option Int) (resourceId details : Str) (ipAddress : Option Str) :
    (joined prevHash action userId resourceId details ipAddress).takeWhile (· ≠ '|') =
      prevHash := by
  simp only [joined, List.intercalate_cons_cons, List.append_assoc, List.singleton_append]
  rw [List.takeWhile_append_of_pos]
  · simp
  · intro c hc
    simp only [decide_eq_true_eq]
    rintro rfl
    exact h hc

theorem Depth.unique (hinj : Function.Injective sha.hexdigest) {h : Str} {m n : Nat}
    (hm : Depth sha h m) (hn : Depth sha h n) : m = n := by
  induction hm generalizing n with
  | root =>
    generalize he : ([] : Str) = h at hn
    cases hn with
    | root => rfl
    | link => exact absurd he.symm (sha.nonempty _)
  | @link h m action userId resourceId details ipAddress hm ih =>
    generalize he : sha.hexdigest (joined h action userId resourceId details ipAddress) = g at hn
    cases hn with
    | root => exact absurd he (sha.nonempty _)
    | @link h' n action' userId' resourceId' details' ipAddress' hn =>
      have hprev := congrArg (List.takeWhile (· ≠ '|')) (hinj he)
      rw [takeWhile_joined hm.noBar, takeWhile_joined hn.noBar] at hprev
      subst hprev
      rw [ih hn]

def Before (sha : Sha256) (p r : Row) : Prop :=
  ∃ m n, Depth sha p.rowHash m ∧ Depth sha r.prevHash n ∧ (p.rowHash = r.prevHash ∨ m < n)

end Depth

section Purge

variable {sha : Sha256} {log : AuditLog}

theorem mem_purgedBy {args : PurgeArgs} {clock : Nat → Int} {i : Nat}
    (h : i ∈ purgedBy log args clock) : ∃ r ∈ log.rows, r.id = i := by
  have hselect : ∀ cutoff severity, i ∈ selectIds log cutoff severity args.orgId →
      ∃ r ∈ log.rows, r.id = i := by
    intro cutoff severity hi
    obtain ⟨r,hr,rfl⟩ := List.mem_map.mp hi
    exact ⟨r, (List.mem_filter.mp hr).1, rfl⟩
  obtain ⟨s,hs,hi⟩ := List.mem_flatMap.mp h
  rw [purgeSelections] at hs
  split at hs
  · rw [List.mem_singleton.mp hs] at hi
    exact hselect _ _ hi
  · obtain ⟨e,_,rfl⟩ := List.mem_map.mp hs
    exact hselect _ _ hi

theorem mem_presentIds {ids : List Nat} (hids : ∀ i ∈ ids, ∃ r ∈ log.rows, r.id = i) (i : Nat) :
    i ∈ presentIds log ids ↔ i ∈ ids := by
  simp only [presentIds, List.mem_map, List.mem_filter, decide_eq_true_eq]
  constructor
  · rintro ⟨r,⟨_,hr⟩,rfl⟩
    exact hr
  · intro hi
    obtain ⟨r,hr,rfl⟩ := hids i hi
    exact ⟨r, ⟨hr, hi⟩, rfl⟩

theorem without_congr {ids ids' : List Nat} (h : ∀ i, i ∈ ids ↔ i ∈ ids') :
    log.without ids = log.without ids' := by
  simp only [AuditLog.without, h]

theorem deleteIds_eq {ids : List Nat} (hids : ∀ i ∈ ids, ∃ r ∈ log.rows, r.id = i)
    (hne : ids ≠ []) (orgId : Option Int) (now : Int) :
    deleteIds sha log ids orgId now =
      appendAuditRow sha (log.without ids) (markerArgs (presentIds log ids) orgId) now := by
  rw [deleteIds, if_neg hne, ← without_congr (mem_presentIds hids)]

theorem purge_cases (sha : Sha256) (log : AuditLog) (args : PurgeArgs) (clock : Nat → Int) :
    ((args.dryRun = true ∨ purgedBy log args clock = []) ∧
      call sha log (.purge args clock) = log) ∨
    (args.dryRun = false ∧ purgedBy log args clock ≠ [] ∧
      call sha log (.purge args clock) =
        appendAuditRow sha (log.without (purgedBy log args clock))
          (markerArgs (presentIds log (purgedBy log args clock)) args.orgId) (clock 5)) := by
  simp only [call, purgeAuditLogs]
  split
  · next hdry => exact .inl ⟨.inl hdry, rfl⟩
  · next hdry =>
    rcases eq_or_ne (purgedBy log args clock) [] with hids | hids
    · exact .inl ⟨.inr hids, by simp [hids, deleteIds]⟩
    · exact .inr ⟨by simpa using hdry, hids, deleteIds_eq (fun i => mem_purgedBy) hids _ _⟩

end Purge

theorem computedHash_eq_ok {sha : Sha256} {row : Row} {hash : Str} :
    row.computedHash sha = .ok hash ↔ ∃ resourceId details, row.resourceId = some resourceId ∧
      row.details = some details ∧ sha.hexdigest
        (joined row.prevHash row.action row.userId resourceId details row.ipAddress) = hash := by
  rw [Row.computedHash, computeRowHash]
  cases row.resourceId with
  | none => simp [canonical, Except.map]
  | some resourceId =>
    cases row.details with
    | none => simp [canonical, Except.map]
    | some details => simp [canonical, Except.map]

structure Chained (sha : Sha256) (log : AuditLog) : Prop where
  hashed : ∀ r ∈ log.rows, r.computedHash sha = .ok r.rowHash
  ids : log.rows.Pairwise fun p r => p.id < r.id
  bounded : ∀ r ∈ log.rows, 1 ≤ r.id ∧ r.id < log.nextId
  next : 1 ≤ log.nextId
  first : ∀ r ∈ log.rows, r.id ≤ 1 → r.prevHash = []
  adjacent : log.rows.Pairwise fun p r => r.id = p.id + 1 → r.prevHash = p.rowHash
  ordered : log.rows.Pairwise (Before sha)
  deep : ∀ r ∈ log.rows, ∃ n, Depth sha r.prevHash n

section Invariant

variable {sha : Sha256} {log : AuditLog}

theorem chained_empty : Chained sha {} :=
  ⟨by simp, .nil, by simp, le_rfl, by simp, .nil, .nil, by simp⟩

theorem Chained.without (h : Chained sha log) (ids : List Nat) : Chained sha (log.without ids) := by
  have hsub : (log.without ids).rows.Sublist log.rows := List.filter_sublist
  exact ⟨fun r hr => h.hashed r (hsub.subset hr), h.ids.sublist hsub,
    fun r hr => h.bounded r (hsub.subset hr), h.next, fun r hr => h.first r (hsub.subset hr),
    h.adjacent.sublist hsub, h.ordered.sublist hsub, fun r hr => h.deep r (hsub.subset hr)⟩

theorem Chained.depth_rowHash (h : Chained sha log) {r : Row} (hr : r ∈ log.rows) {n : Nat}
    (hn : Depth sha r.prevHash n) : Depth sha r.rowHash (n + 1) := by
  obtain ⟨_,_,_,_,hhash⟩ := computedHash_eq_ok.mp (h.hashed r hr)
  rw [← hhash]
  exact .link _ _ _ _ _ hn

theorem Chained.rowHash_ne_nil (h : Chained sha log) {r : Row} (hr : r ∈ log.rows) :
    r.rowHash ≠ [] := by
  obtain ⟨_,_,_,_,hhash⟩ := computedHash_eq_ok.mp (h.hashed r hr)
  rw [← hhash]
  exact sha.nonempty _

theorem Chained.details_ne_none (h : Chained sha log) {r : Row} (hr : r ∈ log.rows) :
    r.details ≠ none := by
  obtain ⟨_,details,_,hdetails,_⟩ := computedHash_eq_ok.mp (h.hashed r hr)
  simp [hdetails]

theorem Chained.depth_last (h : Chained sha log) : ∃ n, Depth sha (hashOf log.rows.getLast?) n := by
  cases hl : log.rows.getLast? with
  | none => exact ⟨0, .root⟩
  | some last =>
    have hmem := List.mem_of_getLast? hl
    obtain ⟨n,hn⟩ := h.deep last hmem
    exact ⟨n + 1, h.depth_rowHash hmem hn⟩

theorem rel_last {R : Row → Row → Prop} {rows : List Row} (hr : rows.Pairwise R) {last : Row}
    (hl : rows.getLast? = some last) {p : Row} (hp : p ∈ rows) : p = last ∨ R p last := by
  obtain ⟨ys,rfl⟩ := List.getLast?_eq_some_iff.mp hl
  rcases List.mem_append.mp hp with hp | hp
  · exact .inr ((List.pairwise_append.mp hr).2.2 p hp last (by simp))
  · exact .inl (List.mem_singleton.mp hp)

theorem Chained.before_last (h : Chained sha log) {p : Row} (hp : p ∈ log.rows) {r : Row}
    (hprev : r.prevHash = hashOf log.rows.getLast?) : Before sha p r := by
  cases hl : log.rows.getLast? with
  | none =>
    rw [List.getLast?_eq_none_iff] at hl
    simp [hl] at hp
  | some last =>
    rw [hl] at hprev
    have hmem := List.mem_of_getLast? hl
    rcases rel_last h.ordered hl hp with rfl | ⟨m,n,hm,hn,hmn⟩
    · obtain ⟨n,hn⟩ := h.deep p hp
      have hd := h.depth_rowHash hp hn
      exact ⟨n + 1, n + 1, hd, by rw [hprev]; exact hd, .inl hprev.symm⟩
    · have hd := h.depth_rowHash hmem hn
      refine ⟨if p.rowHash = last.prevHash then n else m, n + 1, ?_, by rw [hprev]; exact hd, ?_⟩
      · split
        · next he => rw [he]; exact hn
        · exact hm
      · right
        rcases hmn with he | hlt
        · simp [he]
        · split <;> omega

theorem forall_concat {P : Row → Prop} {rows : List Row} {row : Row} (h : ∀ r ∈ rows, P r)
    (hrow : P row) : ∀ r ∈ rows ++ [row], P r :=
  List.forall_mem_append.mpr ⟨h, List.forall_mem_singleton.mpr hrow⟩

theorem pairwise_concat {R : Row → Row → Prop} {rows : List Row} {row : Row}
    (h : rows.Pairwise R) (hrow : ∀ p ∈ rows, R p row) : (rows ++ [row]).Pairwise R := by
  refine List.pairwise_append.mpr ⟨h, List.pairwise_singleton _ _, fun p hp r hr => ?_⟩
  rw [List.mem_singleton.mp hr]
  exact hrow p hp

theorem Chained.newRow_first (h : Chained sha log) (args : AppendArgs) (now : Int)
    (hid : (newRow sha log args now).id ≤ 1) : (newRow sha log args now).prevHash = [] := by
  simp only [newRow] at hid ⊢
  cases hl : log.rows.getLast? with
  | none => rfl
  | some last =>
    have := h.bounded last (List.mem_of_getLast? hl)
    omega

theorem Chained.newRow_adjacent (h : Chained sha log) (args : AppendArgs) (now : Int) {p : Row}
    (hp : p ∈ log.rows) (hid : (newRow sha log args now).id = p.id + 1) :
    (newRow sha log args now).prevHash = p.rowHash := by
  cases hl : log.rows.getLast? with
  | none =>
    rw [List.getLast?_eq_none_iff] at hl
    simp [hl] at hp
  | some last =>
    rcases rel_last h.ids hl hp with rfl | hlt
    · simp [newRow, hl, hashOf]
    · have := (h.bounded last (List.mem_of_getLast? hl)).2
      simp only [newRow] at hid
      omega

theorem Chained.append (h : Chained sha log) (args : AppendArgs) (now : Int) :
    Chained sha (appendAuditRow sha log args now) where
  hashed := forall_concat h.hashed rfl
  ids := pairwise_concat h.ids fun p hp => (h.bounded p hp).2
  bounded := by
    apply forall_concat
    · exact fun r hr => ⟨(h.bounded r hr).1, (h.bounded r hr).2.trans (Nat.lt_succ_self _)⟩
    · exact ⟨h.next, Nat.lt_succ_self _⟩
  next := h.next.trans (Nat.le_succ _)
  first := forall_concat h.first (h.newRow_first args now)
  adjacent := pairwise_concat h.adjacent fun p hp => h.newRow_adjacent args now hp
  ordered := pairwise_concat h.ordered fun p hp => h.before_last hp rfl
  deep := forall_concat h.deep h.depth_last

theorem Chained.call (h : Chained sha log) (c : Call) : Chained sha (call sha log c) := by
  cases c with
  | append args now => exact h.append args now
  | purge args clock =>
    rcases purge_cases sha log args clock with ⟨_,hcall⟩ | ⟨_,_,hcall⟩
    · rw [hcall]
      exact h
    · rw [hcall]
      exact (h.without _).append _ _

theorem Chained.foldl (h : Chained sha log) (calls : List Call) :
    Chained sha (calls.foldl (Audit.call sha) log) := by
  induction calls generalizing log with
  | nil => exact h
  | cons c calls ih => exact ih (h.call c)

theorem chained_run (calls : List Call) : Chained sha (run sha calls) :=
  chained_empty.foldl calls

end Invariant

section Verdict

variable {sha : Sha256}

theorem loadPurgedIds_eq_ok {rows : List Row} {purged : List (Int × Int)} :
    loadPurgedIds rows = .ok purged ↔
      (∀ r ∈ rows, r.action = purgeAction → r.details ≠ none) ∧ namedGaps rows = purged := by
  rw [loadPurgedIds]
  split
  · next hnull =>
    simp only [reduceCtorEq, false_iff, not_and]
    intro htext
    obtain ⟨r,hr,hdetails⟩ := List.any_eq_true.mp hnull
    obtain ⟨hmem,haction⟩ := List.mem_filter.mp hr
    exact absurd (Option.isNone_iff_eq_none.mp hdetails) (htext r hmem (of_decide_eq_true haction))
  · next htext =>
    rw [Except.ok.injEq, iff_and_self]
    rintro - r hr haction hdetails
    exact htext (List.any_eq_true.mpr ⟨r, List.mem_filter.mpr ⟨hr, decide_eq_true haction⟩,
      Option.isNone_iff_eq_none.mpr hdetails⟩)

theorem reportedValid_eq_ok {rows : List Row} {valid : Bool} :
    reportedValid sha rows = .ok valid ↔
      (∀ r ∈ rows, r.action = purgeAction → r.details ≠ none) ∧
        ∃ violation, firstViolation sha (namedGaps rows) (withPredecessor rows) = .ok violation ∧
          violation.isNone = valid := by
  simp only [reportedValid, verifyAuditChain, Option.all_none, List.filter_true]
  cases hload : loadPurgedIds rows with
  | error e =>
    have hnot : ¬∀ r ∈ rows, r.action = purgeAction → r.details ≠ none := by
      intro htext
      rw [loadPurgedIds_eq_ok.mpr ⟨htext, rfl⟩] at hload
      cases hload
    exact iff_of_false (by simp [bind, Except.bind, Except.map]) fun h => hnot h.1
  | ok purged =>
    obtain ⟨htext,rfl⟩ := loadPurgedIds_eq_ok.mp hload
    rw [and_iff_right htext]
    dsimp only [bind, Except.bind]
    cases firstViolation sha (namedGaps rows) (withPredecessor rows) with
    | error e => simp [Except.map]
    | ok violation => simp [Except.map, pure, Except.pure]

theorem firstViolation_none_iff {purged : List (Int × Int)} {links : List (Option Row × Row)} :
    firstViolation sha purged links = .ok none ↔
      ∀ link ∈ links, checkRow sha purged link.1 link.2 = .ok none := by
  induction links with
  | nil => simp [firstViolation]
  | cons link links ih =>
    rw [firstViolation, List.forall_mem_cons, ← ih]
    cases checkRow sha purged link.1 link.2 with
    | error e => simp
    | ok violation => cases violation <;> simp

theorem firstViolation_error {purged : List (Int × Int)} {links : List (Option Row × Row)} {e : PyError}
    (h : firstViolation sha purged links = .error e) :
    ∃ link ∈ links, checkRow sha purged link.1 link.2 = .error e := by
  induction links with
  | nil => cases h
  | cons link links ih =>
    rw [firstViolation] at h
    split at h
    · next hcheck => exact ⟨link, List.mem_cons_self, hcheck.trans (by rw [Except.error.inj h])⟩
    · cases h
    · obtain ⟨raising,hraising,hcheck⟩ := ih h
      exact ⟨raising, List.mem_cons_of_mem _ hraising, hcheck⟩

theorem checkRow_eq_none_iff {purged : List (Int × Int)} {prev : Option Row} {row : Row}
    (hne : row.rowHash ≠ []) :
    checkRow sha purged prev row = .ok none ↔
      (row.prevHash = hashOf prev ∧ row.computedHash sha = .ok row.rowHash) ∨
        (row.prevHash ≠ hashOf prev ∧
          gapExplains purged (prev.map Row.id) row.id = true) := by
  rw [checkRow, if_neg fun h => hne h.2]
  split
  · next hb =>
    split
    · next hg => simp [hb, hg]
    · next hg => simp [hb, hg]
  · next hb =>
    have hb' : row.prevHash = hashOf prev := not_not.mp hb
    cases hhash : row.computedHash sha with
    | error e => simp [hb', bind, Except.bind]
    | ok recomputed =>
      by_cases he : recomputed = row.rowHash
      · simp [hb', he, bind, Except.bind, pure, Except.pure]
      · simp [hb', he, bind, Except.bind, pure, Except.pure]

theorem checkRow_eq_error_iff {purged : List (Int × Int)} {prev : Option Row} {row : Row} {e : PyError}
    (hne : row.rowHash ≠ []) :
    checkRow sha purged prev row = .error e ↔
      row.prevHash = hashOf prev ∧ row.computedHash sha = .error e := by
  rw [checkRow, if_neg fun h => hne h.2]
  split
  · next hb =>
    split <;> simp [hb]
  · next hb =>
    rw [and_iff_right (not_not.mp hb)]
    cases hhash : row.computedHash sha with
    | error e' => simp [bind, Except.bind]
    | ok recomputed =>
      by_cases he : recomputed = row.rowHash
      · simp [he, bind, Except.bind, pure, Except.pure]
      · simp [he, bind, Except.bind, pure, Except.pure]

end Verdict

end PicoSentry.Serve.Audit
