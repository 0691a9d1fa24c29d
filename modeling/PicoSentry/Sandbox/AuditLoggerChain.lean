import PicoSentry.Foundation.HashChain
import PicoSentry.Sandbox.AuditLogger

namespace PicoSentry.Sandbox.AuditLogger

open Foundation Foundation.Run

def recordedPrev (line : Str) : Option Str :=
  match Json.loads line with
  | some (.obj fields) =>
    match dictGet fields "prev_hash" (.str []) with
    | .str recordedPrev => some recordedPrev
    | _ => none
  | _ => none

structure Written (env : Env) (line : Str) : Prop where
  stripped : env.unicode.strip line = line
  ne_nil : line ≠ []
  unbroken : Unbroken line

section Lines

variable {env : Env} {line : Str}

theorem sortFields_toDict (event : AuditEvent) (metadata : JsonFields) :
    Json.sortFields (event.toDict metadata) =
      event.toDict (Json.sortFields metadata) := by
  rfl

theorem toJsonLine_written {event : AuditEvent} (h : event.toJsonLine = .ok line) :
    Written env line ∧ recordedPrev line = some event.prevHash := by
  obtain ⟨metadata,hmetadata,hline⟩ := bind_eq_ok.mp h
  obtain rfl := Except.ok.inj hline
  have hwf : Json.WellFormed (.obj (event.toDict metadata)) :=
    ⟨trivial, trivial, trivial, trivial, event.metadata.wellFormed _ hmetadata, trivial, trivial,
      trivial, trivial, trivial⟩
  refine ⟨⟨Json.strip_dumps_obj env.unicode _, Json.dumps_obj_ne_nil _,
    (Json.printable_dumps hwf).unbroken⟩, ?_⟩
  rw [recordedPrev, Json.loads_dumps hwf, Json.sortKeys, sortFields_toDict]
  rfl

end Lines

def fileOf (lines : List Str) : LogFile := { text := joinLines lines }

section Rotation

variable {archives : Nat → Option LogFile}

theorem foldl_shiftArchive (k m : Nat)
    (hgap : ∀ j, m ≤ j → j < m + k → archives j = none → archives (j + 1) = none) :
    let shifted := (List.range' m k).reverse.foldl shiftArchive archives
    (∀ j < m, shifted j = archives j) ∧ (k ≠ 0 → shifted m = none) ∧
      ∀ j, m ≤ j → j < m + k → shifted (j + 1) = archives j := by
  induction k generalizing m with
  | zero => exact ⟨fun _ _ => rfl, fun h => absurd rfl h, fun j hj hlt => absurd hlt (by omega)⟩
  | succ k ih =>
    obtain ⟨hbelow,hfree,hmoved⟩ := ih (m + 1) fun j hj hlt => hgap j (by omega) (by omega)
    have hm := hbelow m (Nat.lt_succ_self m)
    dsimp only
    rw [List.range'_succ, List.reverse_cons, List.foldl_append, List.foldl_cons, List.foldl_nil,
      shiftArchive, hm]
    cases hsrc : archives m with
    | none =>
      refine ⟨fun j hj => hbelow j (by omega), fun _ => hm.trans hsrc, fun j hj hlt => ?_⟩
      rcases Nat.lt_or_eq_of_le hj with hj | rfl
      · exact hmoved j hj (by omega)
      · have hnext := hgap m (le_refl m) (by omega) hsrc
        cases k with
        | zero => exact hnext.trans hsrc.symm
        | succ k => exact (hfree (by omega)).trans hsrc.symm
    | some src =>
      dsimp only
      refine ⟨fun j hj => ?_, fun _ => Function.update_self _ _ _, fun j hj hlt => ?_⟩
      · rw [Function.update_of_ne (by omega), Function.update_of_ne (by omega)]
        exact hbelow j (by omega)
      · rw [Function.update_of_ne (by omega)]
        rcases Nat.lt_or_eq_of_le hj with hj | rfl
        · rw [Function.update_of_ne (by omega)]
          exact hmoved j hj (by omega)
        · rw [Function.update_self, hsrc]

def Stacked (env : Env) (archives : Nat → Option LogFile) (stack : List LogFile) : Prop :=
  stack.length ≤ env.rotateCount ∧ ∀ i < env.rotateCount, archives (i + 1) = stack[i]?

theorem stacked_rotate {env : Env} {disk : Disk} {stack : List LogFile} {live : LogFile}
    (h : Stacked env disk.archives stack) :
    Stacked env (rotate env disk live).archives ((live :: stack).take env.rotateCount) := by
  obtain ⟨hlen,harchives⟩ := h
  refine ⟨List.length_take_le _ _, ?_⟩
  intro i hi
  have hgap : ∀ j, 1 ≤ j → j < 1 + (env.rotateCount - 1) → disk.archives j = none →
      disk.archives (j + 1) = none := by
    intro j hj hlt hnone
    obtain ⟨j,rfl⟩ := Nat.exists_eq_add_of_le' hj
    rw [harchives j (by omega), List.getElem?_eq_none_iff] at hnone
    rw [harchives (j + 1) (by omega), List.getElem?_eq_none_iff]
    omega
  obtain ⟨_,_,hmoved⟩ := foldl_shiftArchive (env.rotateCount - 1) 1 hgap
  rw [List.getElem?_take_of_lt hi, rotate]
  cases i with
  | zero =>
    dsimp only
    rw [Nat.zero_add, Function.update_self]
    rfl
  | succ i =>
    dsimp only
    rw [Function.update_of_ne (by omega), hmoved (i + 1) (by omega) (by omega),
      harchives i (by omega), List.getElem?_cons_succ]

theorem filterMap_range' {α : Type} {f : Nat → Option α} {xs : List α} (n s : Nat)
    (hlen : xs.length ≤ n) (h : ∀ i < n, f (s + i) = xs[i]?) : (List.range' s n).filterMap f = xs := by
  induction n generalizing s xs with
  | zero => exact (List.eq_nil_of_length_eq_zero (Nat.le_zero.mp hlen)).symm
  | succ n ih =>
    have hfirst : f s = xs[0]? := h 0 (Nat.succ_pos n)
    have hrest : ∀ i < n, f (s + 1 + i) = xs.tail[i]? := by
      intro i hi
      rw [List.getElem?_tail, ← h (i + 1) (by omega)]
      exact congrArg f (by omega)
    rw [List.range'_succ, List.filterMap_cons]
    cases xs with
    | nil =>
      rw [hfirst]
      exact ih (s + 1) (Nat.zero_le n) hrest
    | cons x xs =>
      rw [hfirst]
      exact congrArg (x :: ·) (ih (s + 1) (by simpa using hlen) hrest)

theorem files_sources {env : Env} {disk : Disk} {stack : List LogFile}
    (h : Stacked env disk.archives stack) :
    (sources env disk).map Prod.snd = stack.reverse.map some ++ [disk.live] := by
  have hstack : (List.range' 1 env.rotateCount).filterMap disk.archives = stack :=
    filterMap_range' _ 1 h.1 fun i hi => by rw [Nat.add_comm]; exact h.2 i hi
  have hmap : (fun i => ((disk.archives i).map fun file => (env.logPath.archiveName i, some file)).map
      Prod.snd) = fun i => (disk.archives i).map some := by
    funext i
    cases disk.archives i <;> rfl
  rw [sources, List.map_append, rotatedArchivePaths, List.map_filterMap, hmap, ← List.map_filterMap,
    List.filterMap_reverse, hstack]
  rfl

end Rotation

section Checking

variable {env : Env} {line : Str} {lines : List Str} {h : Str} {p : Progress}

theorem checkLine_linked (hwritten : Written env line) (hprev : recordedPrev line = some h)
    (hfit : p.lineNum = 0 ∨ p.expectedPrev = h) :
    ∃ p', checkLine env p line = .ok p' ∧ p'.expectedPrev = env.hexdigest line ∧
      p'.violations = p.violations := by
  rw [recordedPrev] at hprev
  rw [checkLine, hwritten.stripped, if_neg hwritten.ne_nil]
  split at hprev
  · next fields hloads =>
    split at hprev
    · next recorded hget =>
      obtain rfl := Option.some.inj hprev
      rw [hloads]
      dsimp only
      rcases hfit with hfirst | hfit
      · rw [hfirst, if_neg (by omega)]
        exact ⟨_, rfl, rfl, rfl⟩
      · rw [hget, comparePrev, if_pos hfit.symm, ite_self]
        exact ⟨_, rfl, rfl, rfl⟩
    · cases hprev
  · cases hprev

theorem checkLines_linked (hwritten : ∀ line ∈ lines, Written env line)
    (hlinked : Linked recordedPrev env.hexdigest h lines)
    (hfit : p.lineNum = 0 ∨ p.expectedPrev = h) :
    ∃ p', lines.foldlM (checkLine env) p = .ok p' ∧ p'.violations = p.violations := by
  induction lines generalizing h p with
  | nil => exact ⟨p, rfl, rfl⟩
  | cons line lines ih =>
    obtain ⟨p₁,hcheck,hexpected,hviolations⟩ :=
      checkLine_linked (hwritten line List.mem_cons_self) hlinked.1 hfit
    obtain ⟨p₂,hrest,hviolations'⟩ := ih (fun l hl => hwritten l (List.mem_cons_of_mem _ hl))
      hlinked.2 (.inr hexpected)
    refine ⟨p₂, ?_, hviolations'.trans hviolations⟩
    rw [List.foldlM_cons, hcheck]
    exact hrest

theorem checkFile_fileOf (hunbroken : ∀ line ∈ lines, Unbroken line) (name : Str) :
    checkFile env p (name, some (fileOf lines)) = lines.foldlM (checkLine env) p := by
  rw [checkFile, fileOf, textLines_joinLines hunbroken]
  dsimp only
  cases lines.foldlM (checkLine env) p <;> rfl

theorem checkFiles_fileOf {srcs : List (Str × Option LogFile)} {files : List (List Str)}
    (hsrcs : srcs.map Prod.snd = files.map fun lines => some (fileOf lines))
    (hunbroken : ∀ line ∈ files.flatten, Unbroken line) :
    srcs.foldlM (checkFile env) p = files.flatten.foldlM (checkLine env) p := by
  induction files generalizing srcs p with
  | nil =>
    rw [List.map_nil, List.map_eq_nil_iff] at hsrcs
    rw [hsrcs]
    rfl
  | cons lines files ih =>
    cases srcs with
    | nil => cases hsrcs
    | cons src srcs =>
      obtain ⟨hsrc,hrest⟩ := List.cons.inj hsrcs
      have hsplit := List.forall_mem_append.mp (List.flatten_cons ▸ hunbroken)
      obtain ⟨name,file⟩ := src
      obtain rfl : file = some (fileOf lines) := hsrc
      rw [List.foldlM_cons, checkFile_fileOf hsplit.1, List.flatten_cons, List.foldlM_append]
      exact bind_congr fun p' => ih hrest hsplit.2

theorem records_fileOf (hwritten : ∀ line ∈ lines, Written env line) :
    (fileOf lines).records env = lines := by
  have hstrip : lines.map env.unicode.strip = lines :=
    (List.map_congr_left fun line hline => (hwritten line hline).stripped).trans (List.map_id' lines)
  rw [LogFile.records, fileOf, textLines_joinLines fun line hline => (hwritten line hline).unbroken,
    stripped, hstrip, List.filter_eq_self]
  exact fun line hline => decide_eq_true (hwritten line hline).ne_nil

end Checking

section Invariant

variable {env : Env} {w w' : World} {past : List Str} {line : Str}

-- The lines written so far are linked, and the files hold the last of them.
structure Kept (env : Env) (past : List Str) (w : World) (stack : List (List Str))
    (current : List Str) : Prop where
  written : ∀ line ∈ past, Written env line
  linked : Linked recordedPrev env.hexdigest [] past
  prevHash : w.logger.prevHash = tip env.hexdigest [] past
  live : w.disk.live = some (fileOf current)
  ne_nil : current ≠ []
  archives : Stacked env w.disk.archives (stack.map fileOf)
  held : stack.reverse.flatten ++ current <:+ past

inductive Sound (env : Env) (past : List Str) (w : World) : Prop where
  | empty (hpast : past = []) (hdisk : w.disk = {}) (hprev : w.logger.prevHash = [])
  | kept (stack : List (List Str)) (current : List Str) (h : Kept env past w stack current)

theorem sound_start (maxBytes : Int) : Sound env [] (start maxBytes) := .empty rfl rfl rfl

theorem Sound.linked (h : Sound env past w) :
    (∀ line ∈ past, Written env line) ∧ Linked recordedPrev env.hexdigest [] past ∧
      w.logger.prevHash = tip env.hexdigest [] past := by
  cases h with
  | empty hpast _ hprev =>
    subst hpast
    exact ⟨fun _ h => absurd h List.not_mem_nil, trivial, hprev⟩
  | kept stack current h => exact ⟨h.written, h.linked, h.prevHash⟩

theorem fileOf_concat (lines : List Str) (line : Str) :
    ({ fileOf lines with text := (fileOf lines).text ++ line ++ ['\n'] } : LogFile) =
      fileOf (lines ++ [line]) := by
  rw [fileOf, fileOf, joinLines_concat]

theorem suffix_take (n : Nat) (files : List (List Str)) :
    (files.take n).reverse.flatten <:+ files.reverse.flatten := by
  refine ⟨(files.drop n).reverse.flatten, ?_⟩
  rw [← List.flatten_append, ← List.reverse_append, List.take_append_drop]

theorem Sound.append (h : Sound env past w) (hwritten : Written env line)
    (hprev : recordedPrev line = some w.logger.prevHash) :
    Sound env (past ++ [line])
      { disk := appendLine env w.logger.maxBytes w.disk line
        logger := { w.logger with prevHash := env.hexdigest line } } := by
  obtain ⟨hpast,hlinked,htip⟩ := h.linked
  have hwritten' : ∀ l ∈ past ++ [line], Written env l :=
    List.forall_mem_append.mpr ⟨hpast, List.forall_mem_singleton.mpr hwritten⟩
  have hlinked' : Linked recordedPrev env.hexdigest [] (past ++ [line]) :=
    linked_concat.mpr ⟨hlinked, htip ▸ hprev⟩
  have htip' : env.hexdigest line = tip env.hexdigest [] (past ++ [line]) := (tip_concat _ _ _).symm
  cases h with
  | empty hempty hdisk _ =>
    subst hempty
    refine .kept [] [line] ⟨hwritten', hlinked', htip', ?_, List.cons_ne_nil _ _, ?_, ?_⟩
    · rw [hdisk]
      exact congrArg some (fileOf_concat [] line)
    · rw [hdisk]
      exact ⟨Nat.zero_le _, fun _ _ => rfl⟩
    · exact List.suffix_rfl
  | kept stack current h =>
    have hheld : ∀ lines, lines <:+ past → lines ++ [line] <:+ past ++ [line] := by
      rintro lines ⟨front,rfl⟩
      exact ⟨front, (List.append_assoc _ _ _).symm⟩
    simp only [appendLine, h.live]
    by_cases hfull : (env.size (fileOf current).text : Int) ≥ w.logger.maxBytes
    · rw [if_pos hfull]
      refine .kept ((current :: stack).take env.rotateCount) [line]
        ⟨hwritten', hlinked', htip', congrArg some (fileOf_concat [] line), List.cons_ne_nil _ _, ?_, ?_⟩
      · rw [List.map_take]
        exact stacked_rotate h.archives
      · refine hheld _ ((suffix_take env.rotateCount (current :: stack)).trans ?_)
        rw [List.reverse_cons, List.flatten_append, List.flatten_singleton]
        exact h.held
    · rw [if_neg hfull]
      refine .kept stack (current ++ [line]) ⟨hwritten', hlinked', htip', ?_, by simp, h.archives, ?_⟩
      · rw [Disk.write, h.live]
        exact congrArg some (fileOf_concat current line)
      · rw [← List.append_assoc]
        exact hheld _ h.held

theorem lastNonemptyLine_fileOf {lines : List Str} (hwritten : ∀ line ∈ lines, Written env line) :
    lastNonemptyLine env (some (fileOf lines)) = .ok (lines.getLast?.getD []) := by
  have hfold : ∀ last, lines.foldl (fun last line =>
      if env.unicode.strip line ≠ [] then env.unicode.strip line else last) last =
        lines.getLast?.getD last := by
    induction lines with
    | nil => exact fun _ => rfl
    | cons line lines ih =>
      intro last
      have hline := hwritten line List.mem_cons_self
      rw [List.foldl_cons, hline.stripped, if_pos hline.ne_nil,
        ih (fun l hl => hwritten l (List.mem_cons_of_mem _ hl)), List.getLast?_cons]
      rfl
  rw [lastNonemptyLine, fileOf, textLines_joinLines fun line hline => (hwritten line hline).unbroken]
  exact congrArg Except.ok (hfold [])

theorem Sound.readLastHash (h : Sound env past w) : readLastHash env w.disk = .ok w.logger.prevHash := by
  cases h with
  | empty _ hdisk hprev =>
    rw [hdisk, hprev]
    rfl
  | kept stack current h =>
    obtain ⟨front,heq⟩ := h.held
    obtain ⟨init,last,rfl⟩ := (List.eq_nil_or_concat current).resolve_left h.ne_nil
    rw [List.concat_eq_append] at *
    have hpast : past = (front ++ (stack.reverse.flatten ++ init)) ++ [last] := by
      rw [← heq]
      simp only [List.append_assoc]
    have hlast := h.written last (hpast ▸ List.mem_append_right _ (List.mem_singleton_self last))
    have hwritten : ∀ line ∈ init ++ [last], Written env line := by
      intro line hline
      exact h.written line (heq ▸ List.mem_append_right _ (List.mem_append_right _ hline))
    have hloads : (Json.loads last).isSome := by
      have hlinked := (linked_concat.mp (hpast ▸ h.linked)).2
      rw [recordedPrev] at hlinked
      split at hlinked
      · next hsome => rw [hsome]; rfl
      · cases hlinked
    have hread := lastNonemptyLine_fileOf hwritten
    rw [List.getLast?_append_of_ne_nil _ (List.cons_ne_nil _ _), List.getLast?_singleton] at hread
    rw [AuditLogger.readLastHash, h.live, hread, h.prevHash, hpast, tip_concat]
    simp only [Option.getD_some, bind, Except.bind, if_neg hlast.ne_nil, hloads, if_true]
    rfl

theorem Sound.step (h : Sound env past w) {call : Call} {es : List Str}
    (hstep : step env w call = some (w', es)) : Sound env (past ++ es) w' := by
  cases call with
  | restart maxBytes =>
    simp only [AuditLogger.step, h.readLastHash, Option.some.injEq, Prod.mk.injEq] at hstep
    obtain ⟨rfl,rfl⟩ := hstep
    rw [List.append_nil]
    cases h with
    | empty hpast hdisk hprev => exact .empty hpast hdisk hprev
    | kept stack current h =>
      exact .kept stack current ⟨h.written, h.linked, h.prevHash, h.live, h.ne_nil, h.archives, h.held⟩
  | record entry =>
    simp only [AuditLogger.step, Option.some.injEq, Prod.mk.injEq] at hstep
    obtain ⟨rfl,rfl⟩ := hstep
    simp only [record]
    cases hline : (entry.event w.logger.prevHash).toJsonLine with
    | error error =>
      rw [show (Except.error error : Except PyError Str).toOption.toList = [] from rfl, List.append_nil]
      exact h
    | ok line =>
      obtain ⟨hwritten,hprev⟩ := toJsonLine_written hline
      exact h.append hwritten hprev

theorem sound_of_run {maxBytes : Int} {calls : List Call} {es : List Str}
    (hrun : exec (step env) (start maxBytes) calls = some (w, es)) : Sound env es w := by
  have hstep : ∀ past w call w' es, Sound env past w → True → step env w call = some (w', es) →
      Sound env (past ++ es) w' := fun _ _ _ _ _ h _ hs => h.step hs
  exact exec_invariant hstep [] (sound_start maxBytes) (meets_true _ calls) hrun

theorem Sound.run_defined (h : Sound env past w) (calls : List Call) :
    ∃ w' es, exec (AuditLogger.step env) w calls = some (w', es) := by
  induction calls generalizing past w with
  | nil => exact ⟨w, [], rfl⟩
  | cons call calls ih =>
    have hdefined : ∃ r, AuditLogger.step env w call = some r := by
      cases call with
      | restart maxBytes =>
        simp only [AuditLogger.step, h.readLastHash]
        exact ⟨_, rfl⟩
      | record entry => exact ⟨_, rfl⟩
    obtain ⟨⟨w₁,es₁⟩,hfirst⟩ := hdefined
    obtain ⟨w₂,es₂,hrest⟩ := ih (h.step hfirst)
    exact ⟨w₂, _, exec_cons.mpr ⟨w₁, es₁, es₂, hfirst, hrest, rfl⟩⟩

end Invariant

section Silence

variable {env : Env} {w : World} {past : List Str} {disk : Disk} {stack : List (List Str)}
  {current : List Str}

theorem verifyChain_linked (harchives : Stacked env disk.archives (stack.map fileOf))
    (hlive : disk.live = some (fileOf current))
    (hwritten : ∀ line ∈ stack.reverse.flatten ++ current, Written env line) {h : Str}
    (hlinked : Linked recordedPrev env.hexdigest h (stack.reverse.flatten ++ current)) :
    verifyChain env disk = .ok [] := by
  have hfiles : (sources env disk).map Prod.snd =
      (stack.reverse ++ [current]).map fun lines => some (fileOf lines) := by
    rw [files_sources harchives, hlive, List.map_append, ← List.map_reverse, List.map_map]
    rfl
  have hflat : (stack.reverse ++ [current]).flatten = stack.reverse.flatten ++ current := by simp
  have hsome : ((sources env disk).all fun source => source.2.isNone) = false := by
    rw [List.all_eq_false]
    have hmem : some (fileOf current) ∈ (sources env disk).map Prod.snd := by rw [hfiles]; simp
    obtain ⟨source,hsource,heq⟩ := List.mem_map.mp hmem
    exact ⟨source, hsource, by rw [heq]; exact Bool.false_ne_true⟩
  obtain ⟨p,hcheck,hviolations⟩ := checkLines_linked (p := {}) hwritten hlinked (.inl rfl)
  have hunbroken : ∀ line ∈ (stack.reverse ++ [current]).flatten, Unbroken line :=
    fun line hline => (hwritten line (hflat ▸ hline)).unbroken
  have hfold : (sources env disk).foldlM (checkFile env) {} =
      (stack.reverse ++ [current]).flatten.foldlM (checkLine env) {} :=
    checkFiles_fileOf hfiles hunbroken
  rw [verifyChain, hsome, hfold, hflat, hcheck]
  exact congrArg Except.ok hviolations

theorem records_stacked (harchives : Stacked env disk.archives (stack.map fileOf))
    (hlive : disk.live = some (fileOf current))
    (hwritten : ∀ line ∈ stack.reverse.flatten ++ current, Written env line) :
    disk.records env = stack.reverse.flatten ++ current := by
  have hfiles := files_sources harchives
  have hflat : ∀ srcs : List (Str × Option LogFile), (srcs.flatMap fun source =>
      (source.2.map (LogFile.records env)).getD []) =
        (srcs.map Prod.snd).flatMap fun file => (file.map (LogFile.records env)).getD [] :=
    fun srcs => by rw [List.flatMap_map]
  have hread : ∀ lines ∈ stack.reverse ++ [current], (fileOf lines).records env = lines := by
    intro lines hlines
    refine records_fileOf fun line hline => hwritten line ?_
    have hmem : line ∈ (stack.reverse ++ [current]).flatten :=
      List.mem_flatten.mpr ⟨lines, hlines, hline⟩
    simpa using hmem
  have hall : (stack.reverse.map fileOf).map some = stack.reverse.map fun lines => some (fileOf lines) :=
    List.map_map
  have hjoin : (stack.reverse ++ [current]).flatMap (fun lines => (fileOf lines).records env) =
      (stack.reverse ++ [current]).flatten := by
    rw [List.flatMap_def, List.map_congr_left hread, List.map_id']
  rw [Disk.records, hflat, hfiles, hlive, ← List.map_reverse, hall]
  rw [List.flatMap_append, List.flatten_append, List.flatMap_singleton, List.flatten_singleton] at hjoin
  rw [List.flatMap_append, List.flatMap_map, List.flatMap_singleton]
  exact hjoin

theorem records_kept (h : Kept env past w stack current) :
    w.disk.records env = stack.reverse.flatten ++ current :=
  records_stacked h.archives h.live fun line hline => h.written line (h.held.subset hline)

def Recordable (entry : Entry) : Prop :=
  ∃ fields, (Metadata.orEmpty entry.metadata).fields = .ok fields

theorem Recordable.line {entry : Entry} (h : Recordable entry) (prevHash : Str) :
    ∃ line, (entry.event prevHash).toJsonLine = .ok line := by
  obtain ⟨fields,hfields⟩ := h
  exact ⟨_, bind_eq_ok.mpr ⟨fields, hfields, rfl⟩⟩

theorem lines_of_recordable {maxBytes : Int} {calls : List Call} {es : List Str} {entry : Entry}
    (hmem : .record entry ∈ calls) (h : Recordable entry)
    (hrun : exec (step env) (start maxBytes) calls = some (w, es)) : es ≠ [] := by
  obtain ⟨before,after,rfl⟩ := List.append_of_mem hmem
  obtain ⟨t,es₁,es₂,_,hrest,rfl⟩ := exec_append hrun
  obtain ⟨t',es₃,es₄,hstep,_,rfl⟩ := exec_cons.mp hrest
  obtain ⟨line,hline⟩ := h.line t.logger.prevHash
  simp only [step, hline, Option.some.injEq, Prod.mk.injEq] at hstep
  rw [← hstep.2]
  simp [Except.toOption]

theorem verify_chain_silent (maxBytes : Int) {calls : List Call}
    (hrecorded : ∃ entry, .record entry ∈ calls ∧ Recordable entry) :
    ∃ w es, exec (step env) (start maxBytes) calls = some (w, es) ∧
      verifyChain env w.disk = .ok [] := by
  obtain ⟨entry,hmem,hrecordable⟩ := hrecorded
  obtain ⟨w,es,hrun⟩ : ∃ w es, exec (step env) (start maxBytes) calls = some (w, es) :=
    (sound_start maxBytes).run_defined calls
  refine ⟨w, es, hrun, ?_⟩
  cases sound_of_run hrun with
  | empty hes _ _ => exact absurd hes (lines_of_recordable hmem hrecordable hrun)
  | kept stack current h =>
    obtain ⟨h',hlinked⟩ := linked_of_suffix h.held h.linked
    exact verifyChain_linked h.archives h.live (fun line hline => h.written line (h.held.subset hline))
      hlinked

def oneArchive : Env where
  unicode := .basic
  hexdigest text := 'h' :: text
  listText _ := "[]".toList
  size := List.length
  logPath := ⟨"/audit/audit.jsonl".toList, "'/audit/audit.jsonl'".toList, "audit.jsonl".toList,
    fun i => "audit.".toList ++ decimal i ++ ".jsonl.gz".toList⟩
  rotateCount := 1

def entryOf (eventId : String) : Entry where
  eventType := .scanStart
  actor := "a\nb".toList
  eventId := eventId.toList
  timestamp := "2024-01-01T00:00:00Z".toList

theorem verify_chain_silent_after_restart :
    ∃ w es, exec (step oneArchive) (start 1)
      [.record (entryOf "e1"), .record (entryOf "e2"), .restart 1000, .record (entryOf "e3")] =
        some (w, es) ∧ verifyChain oneArchive w.disk = .ok [] :=
  verify_chain_silent 1 ⟨entryOf "e1", List.mem_cons_self, _, rfl⟩

theorem unwritten_log_reported :
    ∃ w es, exec (step oneArchive) (start 1) [] = some (w, es) ∧ verifyChain oneArchive w.disk =
      .ok ["Audit log not found: /audit/audit.jsonl".toList] :=
  ⟨_, _, rfl, rfl⟩

end Silence

end PicoSentry.Sandbox.AuditLogger
