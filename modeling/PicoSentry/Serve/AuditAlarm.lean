import PicoSentry.Serve.AuditPurge

namespace PicoSentry.Serve.Audit

open Foundation Run

section Gaps

def lowerId : Option Row → Nat
  | none => 0
  | some p => p.id

def GapsCovered (rows : List Row) (known : Nat → Prop) : Prop :=
  ∀ link ∈ withPredecessor rows, link.2.prevHash ≠ hashOf link.1 →
    ∀ i < link.2.id, lowerId link.1 < i → known i

theorem GapsCovered.mono {rows : List Row} {known known' : Nat → Prop}
    (h : GapsCovered rows known) (hle : ∀ i, known i → known' i) : GapsCovered rows known' :=
  fun link hlink hb i hi hlo => hle i (h link hlink hb i hi hlo)

theorem gapsCovered_congr {rows : List Row} {known known' : Nat → Prop}
    (h : ∀ i, known i ↔ known' i) : GapsCovered rows known ↔ GapsCovered rows known' :=
  ⟨fun hg => hg.mono fun i => (h i).mp, fun hg => hg.mono fun i => (h i).mpr⟩

theorem all_range'_iff (purged : List (Int × Int)) (lo hi : Nat) :
    (List.range' (lo + 1) (hi - (lo + 1))).all (isPurged purged) = true ↔
      ∀ i < hi, lo < i → isPurged purged i = true := by
  simp only [List.all_eq_true, List.mem_range'_1]
  constructor
  · intro h i hi' hlo
    exact h i ⟨hlo, by omega⟩
  · rintro h i ⟨hlo,hi'⟩
    exact h i (by omega) hlo

theorem isPurged_append (purged purged' : List (Int × Int)) (i : Nat) :
    isPurged (purged ++ purged') i = true ↔
      isPurged purged i = true ∨ isPurged purged' i = true := by
  rw [isPurged, List.any_append, Bool.or_eq_true]
  rfl

theorem namedGaps_concat (rows : List Row) (row : Row) (i : Nat) :
    isPurged (namedGaps (rows ++ [row])) i = true ↔
      isPurged (namedGaps rows) i = true ∨
        row.action = purgeAction ∧ isPurged (markerGaps (row.details.getD [])) i = true := by
  rw [namedGaps, markers, List.filter_append, List.flatMap_append, isPurged_append]
  apply or_congr_right
  by_cases ha : row.action = purgeAction
  · simp [ha]
  · simp [ha, isPurged]

variable {sha : Sha256} {log : AuditLog}

theorem Chained.gapExplains_iff (h : Chained sha log) {prev : Option Row} {row : Row}
    (hlink : (prev, row) ∈ withPredecessor log.rows) (hbroken : row.prevHash ≠ hashOf prev)
    (purged : List (Int × Int)) :
    gapExplains purged (prev.map Row.id) row.id = true ↔
      ∀ i < row.id, lowerId prev < i → isPurged purged i = true := by
  cases prev with
  | none =>
    have hid : 1 < row.id := by
      by_contra hle
      exact hbroken (h.first row (mem_of_link hlink) (by omega))
    have hall := all_range'_iff purged 0 row.id
    simp only [Nat.zero_add] at hall
    simp only [Option.map_none, gapExplains, hid, decide_true, Bool.true_and, Bool.and_eq_true,
      lowerId]
    rw [hall]
    refine ⟨fun hg => hg.2, fun hg => ⟨?_, hg⟩⟩
    obtain ⟨g,hmem,hg⟩ := List.any_eq_true.mp (hg 1 hid Nat.zero_lt_one)
    simp only [Bool.and_eq_true, decide_eq_true_eq] at hg
    exact List.any_eq_true.mpr ⟨g, hmem, by simpa using hg.1.trans hg.2⟩
  | some p =>
    have hid : row.id ≠ p.id + 1 := fun he => hbroken (pairwise_link h.adjacent hlink he)
    simp only [Option.map_some, gapExplains, if_neg hid, lowerId]
    exact all_range'_iff purged p.id row.id

theorem Chained.valid_iff_gapsCovered (h : Chained sha log) :
    reportedValid sha log.rows = .ok true ↔
      GapsCovered log.rows fun i => isPurged (namedGaps log.rows) i = true := by
  have htext : ∀ r ∈ log.rows, r.action = purgeAction → r.details ≠ none :=
    fun _ hr _ => h.details_ne_none hr
  have hnone : ∀ violation : Option (Str × Nat), violation.isNone = true ↔ violation = none :=
    fun _ => Option.isNone_iff_eq_none
  rw [reportedValid_eq_ok, and_iff_right htext]
  simp only [hnone, exists_eq_right, firstViolation_none_iff, GapsCovered]
  refine forall₂_congr fun link hlink => ?_
  obtain ⟨prev,row⟩ := link
  have hhash := h.hashed row (mem_of_link hlink)
  rw [checkRow_eq_none_iff (h.rowHash_ne_nil (mem_of_link hlink))]
  constructor
  · rintro (⟨he,_⟩ | ⟨hb,hg⟩) hbroken
    · exact absurd he hbroken
    · exact (h.gapExplains_iff hlink hb _).mp hg
  · intro hg
    by_cases he : row.prevHash = hashOf prev
    · exact .inl ⟨he, hhash⟩
    · exact .inr ⟨he, (h.gapExplains_iff hlink he _).mpr (hg he)⟩

theorem Chained.reports (h : Chained sha log) : ∃ valid, reportedValid sha log.rows = .ok valid := by
  have htext : ∀ r ∈ log.rows, r.action = purgeAction → r.details ≠ none :=
    fun _ hr _ => h.details_ne_none hr
  have hanswer : ∀ links : List (Option Row × Row), (∀ link ∈ links, link.2 ∈ log.rows) →
      ∃ violation, firstViolation sha (namedGaps log.rows) links = .ok violation := by
    intro links hlinks
    cases hfirst : firstViolation sha (namedGaps log.rows) links with
    | ok violation => exact ⟨violation, rfl⟩
    | error e =>
      obtain ⟨link,hlink,hcheck⟩ := firstViolation_error hfirst
      have hmem := hlinks link hlink
      rw [checkRow_eq_error_iff (h.rowHash_ne_nil hmem), h.hashed _ hmem] at hcheck
      cases hcheck.2
  obtain ⟨violation,hviolation⟩ := hanswer _ fun _ => mem_of_link
  exact ⟨_, reportedValid_eq_ok.mpr ⟨htext, violation, hviolation, rfl⟩⟩

theorem Chained.invalid_iff_gapsCovered (h : Chained sha log) :
    reportedValid sha log.rows = .ok false ↔
      ¬GapsCovered log.rows fun i => isPurged (namedGaps log.rows) i = true := by
  obtain ⟨valid,hvalid⟩ := h.reports
  rw [← h.valid_iff_gapsCovered, hvalid]
  cases valid <;> simp

theorem gapsCovered_append (log : AuditLog) (args : AppendArgs) (now : Int) (known : Nat → Prop) :
    GapsCovered (appendAuditRow sha log args now).rows known ↔ GapsCovered log.rows known := by
  rw [GapsCovered, appendAuditRow, withPredecessor_concat]
  constructor
  · intro h link hlink
    exact h link (List.mem_append_left _ hlink)
  · intro h link hlink hbroken
    rcases List.mem_append.mp hlink with hlink | hlink
    · exact h link hlink hbroken
    · rw [List.mem_singleton.mp hlink] at hbroken
      exact absurd rfl hbroken

theorem Chained.valid_append_iff (h : Chained sha log) (args : AppendArgs) (now : Int) :
    reportedValid sha (appendAuditRow sha log args now).rows = .ok true ↔
      GapsCovered log.rows fun i => isPurged (namedGaps log.rows) i = true ∨
        args.action = purgeAction ∧
          isPurged (markerGaps (detailsJson args.details)) i = true := by
  rw [(h.append args now).valid_iff_gapsCovered, gapsCovered_append]
  exact gapsCovered_congr fun i => namedGaps_concat _ _ i

end Gaps

section Purge

variable {sha : Sha256} {log : AuditLog}

def KeepsGaps (log : AuditLog) : Call → Prop
  | .append _ _ => True
  | .purge args clock =>
    args.dryRun = true ∨ purgedBy log args clock = [] ∨
      GapsCovered (log.without (purgedBy log args clock)).rows fun i =>
        i ∈ purgedBy log args clock ∨
          isPurged (namedGaps (log.without (purgedBy log args clock)).rows) i = true

theorem Chained.valid_purge_iff (h : Chained sha log) (args : PurgeArgs) (clock : Nat → Int)
    (now : Int) :
    reportedValid sha (appendAuditRow sha (log.without (purgedBy log args clock))
        (markerArgs (presentIds log (purgedBy log args clock)) args.orgId) now).rows = .ok true ↔
      GapsCovered (log.without (purgedBy log args clock)).rows fun i =>
        i ∈ purgedBy log args clock ∨
          isPurged (namedGaps (log.without (purgedBy log args clock)).rows) i = true := by
  rw [(h.without _).valid_append_iff]
  refine gapsCovered_congr fun i => ?_
  rw [isPurged_marker, mem_presentIds fun i => mem_purgedBy, or_comm]
  exact or_congr_left (and_iff_right rfl)

theorem Chained.valid_call_iff (h : Chained sha log)
    (hvalid : reportedValid sha log.rows = .ok true) (c : Call) :
    reportedValid sha (Audit.call sha log c).rows = .ok true ↔ KeepsGaps log c := by
  cases c with
  | append args now =>
    simp only [Audit.call, KeepsGaps, iff_true]
    rw [h.valid_append_iff]
    exact (h.valid_iff_gapsCovered.mp hvalid).mono fun i => .inl
  | purge args clock =>
    rw [KeepsGaps]
    rcases purge_cases sha log args clock with ⟨hidle,hcall⟩ | ⟨hdry,hids,hcall⟩
    · rw [hcall, ← or_assoc]
      exact ⟨fun _ => .inl hidle, fun _ => hvalid⟩
    · rw [hcall, h.valid_purge_iff]
      simp [hdry, hids]

end Purge

section Runs

variable (sha : Sha256)

def step (log : AuditLog) (c : Call) : Option (AuditLog × List Unit) :=
  some (call sha log c, [])

theorem prefixes_valid_iff {log : AuditLog} (h : Chained sha log)
    (hvalid : reportedValid sha log.rows = .ok true) (calls : List Call) :
    (∀ calls₁ calls₂, calls = calls₁ ++ calls₂ →
      reportedValid sha (calls₁.foldl (call sha) log).rows = .ok true) ↔
      Meets (step sha) KeepsGaps log calls := by
  induction calls generalizing log with
  | nil =>
    simp only [Meets, iff_true]
    intro calls₁ calls₂ he
    obtain ⟨rfl,rfl⟩ := List.nil_eq_append_iff.mp he
    exact hvalid
  | cons c calls ih =>
    simp only [Meets, step, Option.mem_def, Option.some.injEq, forall_eq']
    constructor
    · intro hall
      have hnext := hall [c] calls rfl
      refine ⟨(h.valid_call_iff hvalid c).mp hnext, (ih (h.call c) hnext).mp ?_⟩
      intro calls₁ calls₂ he
      exact hall (c :: calls₁) calls₂ (by rw [he, List.cons_append])
    · rintro ⟨hc,hrest⟩ calls₁ calls₂ he
      have hnext := (h.valid_call_iff hvalid c).mpr hc
      rcases List.cons_eq_append_iff.mp he with ⟨rfl,rfl⟩ | ⟨calls₁,rfl,rfl⟩
      · exact hvalid
      · exact (ih (h.call c) hnext).mpr hrest calls₁ calls₂ rfl

theorem valid_after_every_call_iff (calls : List Call) :
    (∀ calls₁ calls₂, calls = calls₁ ++ calls₂ →
      reportedValid sha (run sha calls₁).rows = .ok true) ↔
      Meets (step sha) KeepsGaps {} calls :=
  prefixes_valid_iff sha chained_empty rfl calls

end Runs

section FalseAlarm

def escapeBar (c : Char) : Str :=
  if c = '|' then ['~', '0'] else if c = '~' then ['~', '1'] else [c]

theorem bar_notMem_escapeBar (c : Char) : '|' ∉ escapeBar c := by
  rw [escapeBar]
  split
  · decide
  · split
    · decide
    · next h _ => simpa [eq_comm] using h

def escaped : Sha256 where
  hexdigest s := 'h' :: s.flatMap escapeBar
  nonempty s := List.cons_ne_nil _ _
  noBar s := by
    simp only [List.mem_cons, List.mem_flatMap, not_or, not_exists, not_and]
    exact ⟨by decide, fun c _ => bar_notMem_escapeBar c⟩

def days (n : Int) : Int := 86400 * n

def loginRow (text : String) : AppendArgs where
  action := text.toList
  userId := some 7
  resourceType := "session".toList
  resourceId := []
  details := .text "".toList

def retentionTwice : List Call :=
  [.append (loginRow "a") 0, .append (loginRow "b") (days 10),
   .purge { retentionDays := some 5 } (fun _ => days 10), .append (loginRow "c") (days 18),
   .purge { retentionDays := some 5 } (fun _ => days 20)]

theorem second_purge_raises_false_alarm :
    (verifyAuditChain escaped (run escaped retentionTwice).rows).map
      (fun verdict => (verdict.valid, verdict.rowId)) = .ok (false, some 4) := by
  decide +kernel

end FalseAlarm

end PicoSentry.Serve.Audit
