import PicoSentry.Sandbox.AuditLoggerChain

namespace PicoSentry.Sandbox.AuditLogger

open Foundation Foundation.Run

section Silent

variable {env : Env} {p p' : Progress} {rawLine : Str}

structure Seen (env : Env) (p : Progress) (records : List Str) : Prop where
  linked : records.IsChain fun a b => recordedPrev b = some (env.hexdigest a)
  expected : ∀ last ∈ records.getLast?, p.expectedPrev = env.hexdigest last ∧ 0 < p.lineNum

theorem comparePrev_extends {recorded : Json} (h : comparePrev env p recorded = .ok p') :
    p.violations <+: p'.violations ∧ p'.lineNum = p.lineNum ∧
      (p'.violations = [] → recorded = .str p.expectedPrev) := by
  rw [comparePrev.eq_def] at h
  split at h
  · next recordedPrev =>
    obtain rfl := Except.ok.inj h
    split
    · next heq => exact ⟨List.prefix_rfl, rfl, fun _ => congrArg Json.str heq⟩
    · exact ⟨List.prefix_append _ _, rfl, fun hnil => absurd hnil (by simp [Progress.report])⟩
  · obtain rfl := Except.ok.inj h
    exact ⟨List.prefix_append _ _, rfl, fun hnil => absurd hnil (by simp [Progress.report])⟩
  · cases h

theorem checkLine_silent (h : checkLine env p rawLine = .ok p') (hsilent : p'.violations = []) :
    p.violations = [] := by
  rw [checkLine] at h
  dsimp only at h
  split at h
  · obtain rfl := Except.ok.inj h
    exact hsilent
  · split at h
    · obtain rfl := Except.ok.inj h
      exact absurd hsilent (by simp [Progress.report])
    · split at h
      · obtain ⟨q,hq,hp'⟩ := bind_eq_ok.mp h
        obtain rfl := Except.ok.inj hp'
        exact List.prefix_nil.mp (hsilent ▸ (comparePrev_extends hq).1)
      · obtain ⟨q,hq,hp'⟩ := bind_eq_ok.mp h
        obtain rfl := Except.ok.inj hq
        obtain rfl := Except.ok.inj hp'
        exact hsilent
    · cases h

theorem checkLine_seen {records : List Str} (h : checkLine env p rawLine = .ok p')
    (hsilent : p'.violations = []) (hseen : Seen env p records) :
    Seen env p' (records ++ stripped env [rawLine]) := by
  rw [checkLine] at h
  by_cases hblank : env.unicode.strip rawLine = []
  · have hnone : stripped env [rawLine] = [] := by simp [stripped, hblank]
    rw [if_pos hblank] at h
    obtain rfl := Except.ok.inj h
    rw [hnone, List.append_nil]
    exact ⟨hseen.linked, fun last hlast =>
      ⟨(hseen.expected last hlast).1, Nat.succ_pos _⟩⟩
  · have hone : stripped env [rawLine] = [env.unicode.strip rawLine] := by simp [stripped, hblank]
    rw [if_neg hblank] at h
    split at h
    · obtain rfl := Except.ok.inj h
      exact absurd hsilent (by simp [Progress.report])
    · next fields hloads =>
      rw [hone]
      have hlast : ∀ last ∈ (records ++ [env.unicode.strip rawLine]).getLast?,
          env.hexdigest (env.unicode.strip rawLine) = env.hexdigest last := by
        intro last hmem
        rw [List.getLast?_append_of_ne_nil _ (List.cons_ne_nil _ _)] at hmem
        cases hmem
        rfl
      dsimp only at h
      split at h
      · next hlater =>
        obtain ⟨q,hq,hp'⟩ := bind_eq_ok.mp h
        obtain rfl := Except.ok.inj hp'
        obtain ⟨_,hline,hsame⟩ := comparePrev_extends hq
        refine ⟨List.isChain_append.mpr ⟨hseen.linked, List.isChain_singleton _, ?_⟩,
          fun last hmem => ⟨hlast last hmem, ?_⟩⟩
        · intro last hmem next hnext
          cases hnext
          rw [recordedPrev, hloads]
          dsimp only
          rw [hsame hsilent]
          exact congrArg some (hseen.expected last hmem).1
        · dsimp only at hline ⊢
          omega
      · next hfirst =>
        obtain ⟨q,hq,hp'⟩ := bind_eq_ok.mp h
        obtain rfl := Except.ok.inj hq
        obtain rfl := Except.ok.inj hp'
        have hempty : records = [] := by
          cases hrecords : records.getLast? with
          | none => exact List.getLast?_eq_none_iff.mp hrecords
          | some last => exact absurd (hseen.expected last hrecords).2 (by omega)
        subst hempty
        exact ⟨List.isChain_singleton _, fun last hmem => ⟨hlast last hmem, Nat.succ_pos _⟩⟩
    · cases h

theorem stripped_flatMap (rawLines : List Str) :
    stripped env rawLines = rawLines.flatMap fun rawLine => stripped env [rawLine] := by
  induction rawLines with
  | nil => rfl
  | cons rawLine rawLines ih =>
    rw [List.flatMap_cons, ← ih, stripped, stripped, stripped, List.map_cons, List.map_singleton,
      ← List.filter_append, List.singleton_append]

theorem checkLines_seen {rawLines records : List Str}
    (h : rawLines.foldlM (checkLine env) p = .ok p') (hsilent : p'.violations = [])
    (hseen : Seen env p records) :
    p.violations = [] ∧ Seen env p' (records ++ stripped env rawLines) := by
  have hback : ∀ (q : Progress) line q', checkLine env q line = .ok q' → q'.violations = [] →
      q.violations = [] := fun _ _ _ => checkLine_silent
  have hstep : ∀ (q : Progress) line q' records, checkLine env q line = .ok q' →
      q'.violations = [] → Seen env q records → Seen env q' (records ++ stripped env [line]) :=
    fun _ _ _ _ => checkLine_seen
  rw [stripped_flatMap]
  exact foldlM_seen hback hstep h hsilent hseen

theorem checkFile_seen {source : Str × Option LogFile} {records : List Str}
    (h : checkFile env p source = .ok p') (hsilent : p'.violations = []) (hseen : Seen env p records) :
    p.violations = [] ∧
      Seen env p' (records ++ (source.2.map (LogFile.records env)).getD []) := by
  obtain ⟨name,file⟩ := source
  cases file with
  | none =>
    obtain rfl := Except.ok.inj h
    exact absurd hsilent (by simp [Progress.report])
  | some file =>
    rw [checkFile] at h
    obtain ⟨q,hq,hend⟩ := bind_eq_ok.mp h
    split at hend
    · obtain rfl := Except.ok.inj hend
      exact checkLines_seen hq hsilent hseen
    · obtain rfl := Except.ok.inj hend
      exact absurd hsilent (by simp [Progress.report])
    · cases hend

end Silent

section Altered

variable {env : Env} {w : World} {es : List Str} {altered : Disk}

theorem isChain_of_silent (h : verifyChain env altered = .ok []) :
    (altered.records env).IsChain fun a b => recordedPrev b = some (env.hexdigest a) := by
  rw [verifyChain] at h
  split at h
  · exact absurd (Except.ok.inj h) (List.cons_ne_nil _ _)
  · obtain ⟨p,hfold,hp⟩ := bind_eq_ok.mp h
    have hsilent : p.violations = [] := Except.ok.inj hp
    have hunseen : ∀ q : Progress, Seen env q [] :=
      fun _ => ⟨List.isChain_nil, fun _ hlast => by cases hlast⟩
    have hback : ∀ (q : Progress) source q', checkFile env q source = .ok q' → q'.violations = [] →
        q.violations = [] := fun q _ _ hcheck hnil => (checkFile_seen hcheck hnil (hunseen q)).1
    have hstep : ∀ (q : Progress) source q' records, checkFile env q source = .ok q' →
        q'.violations = [] → Seen env q records →
          Seen env q' (records ++ (source.2.map (LogFile.records env)).getD []) :=
      fun _ _ _ _ hcheck hnil hseen => (checkFile_seen hcheck hnil hseen).2
    exact (foldlM_seen hback hstep hfold hsilent (hunseen {})).2.linked

theorem Sound.records_suffix (h : Sound env es w) :
    w.disk.records env <:+ es ∧ (w.disk.records env).getLast? = es.getLast? := by
  cases h with
  | empty hes hdisk _ =>
    have hpaths : rotatedArchivePaths env {} = [] := List.filterMap_eq_nil_iff.mpr fun _ _ => rfl
    have hnone : w.disk.records env = [] := by
      rw [hdisk, Disk.records, sources, hpaths]
      rfl
    rw [hnone, hes]
    exact ⟨List.suffix_rfl, rfl⟩
  | kept stack current h =>
    rw [records_kept h]
    refine ⟨h.held, ?_⟩
    obtain ⟨front,heq⟩ := h.held
    rw [← heq, List.getLast?_append_of_ne_nil _ h.ne_nil,
      List.getLast?_append_of_ne_nil _ (List.append_ne_nil_of_right_ne_nil _ h.ne_nil),
      List.getLast?_append_of_ne_nil _ h.ne_nil]

theorem altered_records_suffix (hinj : Function.Injective env.hexdigest)
    (hne : ∀ text, env.hexdigest text ≠ []) {maxBytes : Int} {calls : List Call}
    (hrun : exec (step env) (start maxBytes) calls = some (w, es))
    (hlast : (altered.records env).getLast? = (w.disk.records env).getLast?)
    (hverify : verifyChain env altered = .ok []) :
    altered.records env <:+ es ∧ (altered.records env <:+ w.disk.records env ∨
      w.disk.records env <:+ altered.records env) := by
  have hsound := sound_of_run hrun
  obtain ⟨hsuffix,hlast'⟩ := hsound.records_suffix
  obtain ⟨_,hlinked,_⟩ := hsound.linked
  have haltered := suffix_of_isChain hinj hne (isChain_of_silent hverify) hlinked
    (hlast.trans hlast')
  exact ⟨haltered, List.suffix_or_suffix_of_suffix haltered hsuffix⟩

def threeEntries : List Call :=
  [.record (entryOf "e1"), .record (entryOf "e2"), .record (entryOf "e3")]

def lineAfter (prevHash : Str) (eventId : String) : Str :=
  Json.dumps (.obj (((entryOf eventId).event prevHash).toDict .nil))

theorem lineAfter_written (prevHash : Str) (eventId : String) :
    Written oneArchive (lineAfter prevHash eventId) ∧
      recordedPrev (lineAfter prevHash eventId) = some prevHash :=
  @toJsonLine_written oneArchive _ ((entryOf eventId).event prevHash) rfl

def line1 : Str := lineAfter [] "e1"
def line2 : Str := lineAfter ('h' :: line1) "e2"
def line3 : Str := lineAfter ('h' :: line2) "e3"

theorem lines_written : ∀ line ∈ [line1, line2, line3], Written oneArchive line :=
  List.forall_mem_cons.mpr ⟨(lineAfter_written [] "e1").1, List.forall_mem_cons.mpr
    ⟨(lineAfter_written ('h' :: line1) "e2").1, List.forall_mem_singleton.mpr
      (lineAfter_written ('h' :: line2) "e3").1⟩⟩

theorem lines_linked : Linked recordedPrev oneArchive.hexdigest [] [line1, line2, line3] :=
  ⟨(lineAfter_written [] "e1").2, (lineAfter_written ('h' :: line1) "e2").2,
    (lineAfter_written ('h' :: line2) "e3").2, trivial⟩

def logOf (archived current : List Str) : Disk where
  live := some (fileOf current)
  archives i := if i = 1 then some (fileOf archived) else none

theorem stacked_logOf (archived current : List Str) :
    Stacked oneArchive (logOf archived current).archives ([archived].map fileOf) := by
  refine ⟨le_refl 1, fun i hi => ?_⟩
  obtain rfl : i = 0 := Nat.lt_one_iff.mp hi
  rfl

theorem appendLine_full {disk : Disk} {line : Str} (hlive : disk.live = some (fileOf [line]))
    (hother : ∀ i ≠ 1, disk.archives i = none) (line' : Str) :
    appendLine oneArchive 1 disk line' = logOf [line] [line'] := by
  have hsize : ((oneArchive.size (fileOf [line]).text : Nat) : Int) ≥ 1 := by
    simp [oneArchive, fileOf, joinLines]
  have harchives : Function.update disk.archives 1 (some (fileOf [line])) =
      (logOf [line] [line']).archives := by
    funext i
    by_cases hi : i = 1
    · subst hi
      simp [logOf]
    · simp [logOf, hi, hother i hi]
  have hempty : ({} : LogFile) = fileOf [] := rfl
  have hrotate : rotate oneArchive disk (fileOf [line]) =
      ⟨some (fileOf []), (logOf [line] [line']).archives⟩ := by
    rw [rotate, ← harchives, hempty]
    rfl
  rw [appendLine, hlive]
  dsimp only
  rw [if_pos hsize, hrotate, Disk.write, Option.getD_some, fileOf_concat]
  rfl

theorem step_entryOf (disk : Disk) (prevHash : Str) (eventId : String) :
    step oneArchive ⟨disk, ⟨prevHash, 1⟩⟩ (.record (entryOf eventId)) =
      some (⟨appendLine oneArchive 1 disk (lineAfter prevHash eventId),
        ⟨'h' :: lineAfter prevHash eventId, 1⟩⟩, [lineAfter prevHash eventId]) := by
  have hline : ((entryOf eventId).event prevHash).toJsonLine = .ok (lineAfter prevHash eventId) :=
    rfl
  simp only [step, record, hline, Except.toOption, Option.toList_some]
  rfl

theorem threeEntries_run : exec (step oneArchive) (start 1) threeEntries =
    some (⟨logOf [line2] [line3], ⟨'h' :: line3, 1⟩⟩, [line1, line2, line3]) := by
  have hfirst : appendLine oneArchive 1 {} line1 = { live := some (fileOf [line1]) } :=
    congrArg (fun live => ({ live := some live } : Disk)) (fileOf_concat [] line1)
  have hsecond : appendLine oneArchive 1 { live := some (fileOf [line1]) } line2 =
      logOf [line1] [line2] := appendLine_full rfl (fun _ _ => rfl) line2
  have hthird : appendLine oneArchive 1 (logOf [line1] [line2]) line3 = logOf [line2] [line3] :=
    appendLine_full rfl (fun _ hi => if_neg hi) line3
  rw [threeEntries, exec, start, step_entryOf, ← line1, hfirst]
  simp only [exec, Option.bind_eq_bind, Option.bind_some]
  rw [step_entryOf, ← line2, hsecond]
  simp only [Option.bind_some]
  rw [step_entryOf, ← line3, hthird]
  rfl

theorem records_logOf {archived current : List Str}
    (h : archived ++ current <:+ [line1, line2, line3]) :
    (logOf archived current).records oneArchive = archived ++ current := by
  have hflat : [archived].reverse.flatten ++ current = archived ++ current := by simp
  have hrecords := records_stacked (stacked_logOf archived current) rfl
    fun line hline => lines_written line (h.subset (hflat ▸ hline))
  exact hrecords.trans hflat

-- The archive with the first record, which the second rotation dropped, is put back.
theorem restored_archive_verifies :
    Function.Injective oneArchive.hexdigest ∧ (∀ text, oneArchive.hexdigest text ≠ []) ∧
      ∃ w es, exec (step oneArchive) (start 1) threeEntries = some (w, es) ∧
        ((logOf [line1, line2] [line3]).records oneArchive).getLast? =
          (w.disk.records oneArchive).getLast? ∧
        verifyChain oneArchive (logOf [line1, line2] [line3]) = .ok [] ∧
        ¬(logOf [line1, line2] [line3]).records oneArchive <:+ w.disk.records oneArchive := by
  have hverifies : verifyChain oneArchive (logOf [line1, line2] [line3]) = .ok [] :=
    verifyChain_linked (stacked_logOf _ _) rfl lines_written lines_linked
  refine ⟨fun _ _ h => (List.cons.inj h).2, fun _ => List.cons_ne_nil _ _, _, _, threeEntries_run,
    ?_, hverifies, ?_⟩
  · rw [records_logOf List.suffix_rfl, records_logOf ⟨[line1], rfl⟩]
    simp only [List.cons_append, List.nil_append, List.getLast?_cons_cons]
  · rw [records_logOf List.suffix_rfl, records_logOf ⟨[line1], rfl⟩]
    exact fun h => absurd h.length_le (by decide)

theorem altered_records_suffix_restored :
    (logOf [line1, line2] [line3]).records oneArchive <:+ [line1, line2, line3] ∧
      ((logOf [line1, line2] [line3]).records oneArchive <:+
          (logOf [line2] [line3]).records oneArchive ∨
        (logOf [line2] [line3]).records oneArchive <:+
          (logOf [line1, line2] [line3]).records oneArchive) := by
  have hinj : Function.Injective oneArchive.hexdigest := fun _ _ h => (List.cons.inj h).2
  have hlast : ((logOf [line1, line2] [line3]).records oneArchive).getLast? =
      ((logOf [line2] [line3]).records oneArchive).getLast? := by
    rw [records_logOf List.suffix_rfl, records_logOf ⟨[line1], rfl⟩]
    simp only [List.cons_append, List.nil_append, List.getLast?_cons_cons]
  have hverifies : verifyChain oneArchive (logOf [line1, line2] [line3]) = .ok [] :=
    verifyChain_linked (stacked_logOf _ _) rfl lines_written lines_linked
  have hsuffix := altered_records_suffix hinj (fun _ => List.cons_ne_nil _ _) threeEntries_run hlast
    hverifies
  exact hsuffix

end Altered

end PicoSentry.Sandbox.AuditLogger
