import PicoSentry.Watch.DecodePass

namespace PicoSentry.Watch.Normalizer

open Foundation

section Runs

theorem ascii_of_isHex {c : Char} (h : isHex c = true) : c.toNat < 128 := by
  rw [isHex, Json.hexValue] at h
  split at h
  · next hdigit =>
    rw [isDigit, Bool.and_eq_true, decide_eq_true_eq, decide_eq_true_eq] at hdigit
    omega
  · split at h
    · next hlower => exact lt_of_le_of_lt (Char.le_def.mp hlower.2) (by decide)
    · split at h
      · next hupper => exact lt_of_le_of_lt (Char.le_def.mp hupper.2) (by decide)
      · cases h

theorem isStandard_of_isHex {c : Char} (h : isHex c = true) : isStandard c = true := by
  have hall : ∀ n < 128, isHex (Char.ofNat n) = true → isStandard (Char.ofNat n) = true := by decide
  have hcode := hall c.toNat (ascii_of_isHex h)
  rw [Char.ofNat_toNat] at hcode
  exact hcode h

variable {run rest : Str}

theorem readHexDigits_stop (hrest : ∀ c, rest.head? = some c → isStandard c = false) (s : Str) :
    readHexDigits (s ++ rest) = (readHexDigits s).map fun found => (found.1, found.2 ++ rest) := by
  have hstop : ∀ c, rest.head? = some c → isHex c = false := fun c hc => by
    rw [← Bool.not_eq_true]
    exact fun hhex => Bool.false_ne_true ((hrest c hc).symm.trans (isStandard_of_isHex hhex))
  obtain ⟨htake,hdrop⟩ := run_stop hstop s
  rw [readHexDigits, readHexDigits, htake, hdrop]
  split
  · rfl
  · rfl

theorem readHex_stop (hrest : ∀ c, rest.head? = some c → isStandard c = false) (s : Str) :
    readHex (s ++ rest) = (readHex s).map fun found => (found.1, found.2 ++ rest) := by
  have hword : ∀ c ∈ "0x".toList, isStandard c = true := forall_mem_of_all (by decide)
  rw [readHex, readHex, literal_stop hword hrest, readHexDigits_stop hrest]
  cases hbegins : literal "0x".toList s with
  | none => rfl
  | some digits =>
    rw [Option.map_some]
    dsimp only
    rw [readHexDigits_stop hrest]
    cases readHexDigits digits with
    | none => rfl
    | some found => rfl

theorem length_readHexDigits {text after found : Str} (h : readHexDigits text = some (found, after)) :
    text = found ++ after ∧ 20 ≤ found.length := by
  rw [readHexDigits] at h
  split at h
  · cases h
  · next hlong =>
    cases h
    exact ⟨List.takeWhile_append_dropWhile.symm, not_lt.mp hlong⟩

theorem readHex_parts {text after found : Str} (h : readHex text = some (found, after)) :
    text = found ++ after ∧ 20 ≤ found.length := by
  rw [readHex] at h
  split at h
  · next digits hbegins =>
    split at h
    · next pair hpair =>
      obtain ⟨rfl,rfl⟩ := Prod.mk.inj (Option.some.inj h)
      obtain ⟨hdigits,hlength⟩ := length_readHexDigits hpair
      rw [literal] at hbegins
      split at hbegins
      · next hprefix =>
        obtain ⟨tail,rfl⟩ := hprefix
        rw [List.drop_left] at hbegins
        cases hbegins
        rw [hdigits, List.append_assoc]
        exact ⟨rfl, by rw [List.length_append]; omega⟩
      · cases hbegins
    · exact length_readHexDigits h
  · exact length_readHexDigits h

theorem readHex_shrinks {c : Char} {s after found : Str} (h : readHex (c :: s) = some (found, after)) :
    after.length ≤ s.length := by
  obtain ⟨htext,hlong⟩ := readHex_parts h
  have hlength := congrArg List.length htext
  rw [List.length_cons, List.length_append] at hlength
  omega

theorem finditer_readHex_append (hrest : ∀ c, rest.head? = some c → isStandard c = false) (run : Str) :
    finditer hexRe (run ++ rest) = finditer hexRe run ++ finditer hexRe rest :=
  finditer_append (fun s _ => readHex_stop hrest s) readHex_shrinks

theorem finditer_readHex_short (hshort : run.length < 20) : finditer hexRe run = [] := by
  have hpass := @finditer_pass Str readHex run [] (fun s _ hs => ?_)
  · rwa [List.append_nil] at hpass
  · rw [List.append_nil]
    cases hread : readHex s with
    | none => rfl
    | some found =>
      obtain ⟨htext,hlong⟩ := readHex_parts hread
      have hlength := congrArg List.length htext
      have hle := hs.length_le
      rw [List.length_append] at hlength
      omega

theorem padsOf_parts (text : Str) : text = padsOf text ++ text.drop (padsOf text).length ∧
    ∀ c ∈ padsOf text, c = '=' := by
  have hbegins : padsOf text <+: text := (List.take_prefix 2 _).trans (List.takeWhile_prefix _)
  refine ⟨(List.prefix_iff_eq_append.mp hbegins).symm, fun c hc => ?_⟩
  rw [padsOf] at hc
  simpa using List.mem_takeWhile_imp (List.mem_of_mem_take hc)

theorem finditer_readHex_pads {pads : Str} (hpads : ∀ c ∈ pads, c = '=') (rest : Str) :
    finditer hexRe (pads ++ rest) = finditer hexRe rest := by
  refine finditer_pass fun s hne hs => ?_
  cases s with
  | nil => exact absurd rfl hne
  | cons c s =>
    obtain rfl := hpads c (hs.subset List.mem_cons_self)
    rfl

end Runs

section SubScan

theorem hex_within_runs (text : Str) : (standardRuns text).flatMap (finditer hexRe) = finditer hexRe text := by
  rw [standardRuns]
  generalize hlength : text.length = n
  induction n using Nat.strong_induction_on generalizing text with
  | _ n ih =>
    cases text with
    | nil => rfl
    | cons c text =>
      rw [List.length_cons] at hlength
      cases hc : isStandard c with
      | false =>
        have hrun : readRun isStandard (c :: text) = none := by
          rw [readRun, List.takeWhile_cons_of_neg (by simp [hc]), if_pos (by decide)]
        have hhex : readHex (c :: text) = none := by
          have hstop : ∀ d, (c :: text).head? = some d → isStandard d = false := fun d hd => by
            cases hd
            exact hc
          exact readHex_stop hstop []
        have hskip : finditer base64Re (c :: text) = finditer base64Re text := finditer_none hrun
        have hskip' : finditer hexRe (c :: text) = finditer hexRe text := finditer_none hhex
        rw [hskip, hskip']
        exact ih text.length (by omega) text rfl
      | true =>
        obtain ⟨run,rest,htext,hrun,hrest⟩ : ∃ run rest, text = run ++ rest ∧ (∀ d ∈ c :: run, isStandard d = true) ∧
            ∀ d, rest.head? = some d → isStandard d = false := by
          refine ⟨text.takeWhile isStandard, text.dropWhile isStandard, List.takeWhile_append_dropWhile.symm, ?_, ?_⟩
          · exact List.forall_mem_cons.mpr ⟨hc, fun d hd => List.mem_takeWhile_imp hd⟩
          · intro d hd
            have hhead := List.head?_dropWhile_not isStandard text
            rw [hd] at hhead
            simpa using hhead
        obtain ⟨htake,hdrop⟩ := run_append hrun hrest
        subst htext
        rw [← List.cons_append, finditer_readHex_append hrest]
        by_cases hshort : (c :: run).length < 12
        · have hpass : finditer base64Re (c :: run ++ rest) = finditer base64Re rest := by
            refine finditer_pass fun s _ hs => ?_
            obtain ⟨hs',_⟩ := run_append (fun d hd => hrun d (hs.subset hd)) hrest
            have hle := hs.length_le
            change readRun isStandard (s ++ rest) = none
            rw [readRun, hs', if_pos (by omega)]
          rw [hpass, finditer_readHex_short (by omega), List.nil_append]
          refine ih rest.length ?_ rest rfl
          rw [List.length_append] at hlength
          omega
        · obtain ⟨hpads,hequals⟩ := padsOf_parts rest
          have hread : readRun isStandard (c :: run ++ rest) =
              some (c :: run ++ padsOf rest, rest.drop (padsOf rest).length) := by
            rw [readRun, htake, hdrop, if_neg hshort]
          have hsplit : run ++ rest = run ++ padsOf rest ++ rest.drop (padsOf rest).length := by
            rw [List.append_assoc, ← hpads]
          have hafter : (run ++ rest).drop ((run ++ rest).length - (rest.drop (padsOf rest).length).length) =
              rest.drop (padsOf rest).length := by
            rw [hsplit, List.length_append, Nat.add_sub_cancel, List.drop_left]
          have hbase : finditer base64Re (c :: run ++ rest) =
              (c :: run ++ padsOf rest) :: finditer base64Re (rest.drop (padsOf rest).length) := by
            rw [List.cons_append] at hread
            have hsome := finditer_some hread
            rw [hafter] at hsome
            exact hsome
          have hwithin : finditer hexRe (c :: run ++ padsOf rest) = finditer hexRe (c :: run) := by
            have hequal : ∀ d, (padsOf rest).head? = some d → isStandard d = false := fun d hd => by
              rw [hequals d (List.mem_of_mem_head? hd)]
              decide
            have hpass := finditer_readHex_pads hequals []
            rw [List.append_nil] at hpass
            rw [finditer_readHex_append hequal, hpass]
            exact List.append_nil _
          have hbehind : finditer hexRe rest = finditer hexRe (rest.drop (padsOf rest).length) := by
            conv_lhs => rw [hpads, finditer_readHex_pads hequals]
          rw [hbase, List.flatMap_cons, hwithin, hbehind]
          refine congrArg _ (ih _ ?_ _ rfl)
          rw [List.length_append] at hlength
          rw [List.length_drop]
          omega

theorem hex_sub_scan_exact (T : CharTables) (text payload : Str) :
    payload ∈ accepted text (subScannedHex T text) ↔ payload ∈ hexPayloads T text ∧ payload ≠ [] ∧ payload ≠ text := by
  have hoffered : subScannedHex T text = (finditer hexRe text).filterMap (hexPayload T) := by
    rw [subScannedHex, ← hex_within_runs, List.filterMap_flatMap]
  simp only [accepted, hexPayloads, mem_firstOf_id_iff, hoffered, List.mem_filter, decide_eq_true_eq, List.not_mem_nil,
    not_false_eq_true, true_and]

end SubScan

end PicoSentry.Watch.Normalizer
