import PicoSentry.Watch.PiiDetection

namespace PicoSentry.Watch.OutputGuard

open Foundation Redaction Normalizer

variable (T : CharTables)

section Markers

def markers : List Str := (detectors .basic).map Detector.redacted

theorem markers_plain : ∀ m ∈ markers, Bracketed '[' ']' m ∧
    ∀ c ∈ m, c.toNat < 128 ∧ whitespaceCodes.contains c.toNat = false := by
  have hall : markers.all fun m => m == '[' :: m.tail.dropLast ++ [']'] &&
      m.all fun c => decide (c.toNat < 128 ∧ whitespaceCodes.contains c.toNat = false) := by
    simp only [markers, detectors, detector, List.map_cons, List.map_nil]
    repeat rw [String.toList_ofList]
    decide +kernel
  intro m hm
  obtain ⟨hends,hplain⟩ := Bool.and_eq_true_iff.mp (List.all_eq_true.mp hall m hm)
  exact ⟨⟨m.tail.dropLast, eq_of_beq hends⟩, fun c hc => of_decide_eq_true (List.all_eq_true.mp hplain c hc)⟩

theorem bracketed : ∀ m ∈ markers, Bracketed '[' ']' m := fun m hm => (markers_plain m hm).1

theorem nil_not_mem_markers : [] ∉ markers := by
  intro hmem
  obtain ⟨inner,hinner⟩ := bracketed [] hmem
  cases hinner

theorem redacted_mem {d : Detector} (hd : d ∈ detectors T) : d.redacted ∈ markers :=
  (List.mem_map_of_mem hd : d.redacted ∈ (detectors T).map Detector.redacted)

theorem ascii_markers : ∀ m ∈ markers, ∀ c ∈ m, c.toNat < 128 ∧ whitespaceCodes.contains c.toNat = false :=
  fun m hm => (markers_plain m hm).2

theorem solid_markers : ∀ m ∈ markers, ∀ c ∈ m, solid T c = true := by
  intro m hm c hc
  rw [solid, T.space_exact, (ascii_markers m hm c hc).2]
  rfl

theorem rare_markers : (∀ least ∈ [2, 4, 7, 8], Re.rare markers (fun c => (asciiDigit c).isSome) least = true) ∧
    Re.rare markers (fun _ => false) 1 = true := by
  have hall : ([2, 4, 7, 8].all fun least => Re.rare markers (fun c => (asciiDigit c).isSome) least) &&
      Re.rare markers (fun _ => false) 1 := by
    simp only [markers, detectors, detector, List.map_cons, List.map_nil]
    repeat rw [String.toList_ofList]
    decide +kernel
  obtain ⟨hdigits,hnone⟩ := Bool.and_eq_true_iff.mp hall
  exact ⟨fun least h => List.all_eq_true.mp hdigits least h, hnone⟩

theorem alien_digits {least : Nat} (h : least ∈ [2, 4, 7, 8]) (most : Option Nat) :
    (digits T least most).alien markers = true := by
  refine (Re.rare_congr fun m hm c hc => ?_).trans (rare_markers.1 least h)
  rw [isDecimal, T.digit_ascii c (ascii_markers m hm c hc).1]

theorem alien_blanks : (blanks T 1).alien markers = true := by
  refine (Re.rare_congr fun m hm c hc => ?_).trans rare_markers.2
  rw [T.space_exact, (ascii_markers m hm c hc).2]

end Markers

section Shapes

theorem space_bracket {c : Char} (hc : c = '[' ∨ c = ']') : T.space c = false := by
  rw [T.space_exact]
  rcases hc with rfl | rfl <;> rfl

theorem isDecimal_bracket {c : Char} (hc : c = '[' ∨ c = ']') : isDecimal T c = false := by
  rw [isDecimal, T.digit_ascii c (by rcases hc with rfl | rfl <;> decide)]
  rcases hc with rfl | rfl <;> rfl

theorem isDecimal_of_space {c : Char} (h : T.space c = true) : isDecimal T c = false := by
  by_contra hdigit
  rw [Bool.not_eq_false] at hdigit
  have hword := T.word_of_digit c hdigit
  rw [T.not_word_of_space c h] at hword
  cases hword

def bareParts : List Re :=
  [keyLine T "BEGIN", keyLine T "END", jwtPattern, dbUrlHead, oauthPattern, arnHead T, apiKeyPattern, ccPattern T,
   ssnPattern T, passportPattern T, cryptoPattern, internalUrlPattern T, ipPattern T, dockerSecretHead T, envVarHead T,
   emailPattern, phonePattern T]

theorem spares_bareParts {c : Char} (hc : c = '[' ∨ c = ']') : ∀ r ∈ bareParts T, r.spares c = true := by
  have hspace := space_bracket T hc
  have hdecimal := isDecimal_bracket T hc
  simp only [bareParts, List.forall_mem_cons, keyLine, jwtPattern, jwtPart, dbUrlHead, oauthPattern, arnHead, apiKeyPattern,
    ccPattern, ssnPattern, passportPattern, cryptoPattern, internalUrlPattern, ipPattern, dockerSecretHead, envVarHead,
    emailPattern, phonePattern, phoneSeparator, words, word, signs, List.map_cons, List.map_nil, String.toList_append]
  repeat rw [String.toList_ofList]
  rcases hc with rfl | rfl <;>
    simp +decide [Re.all, Re.any, Re.opt, Re.times, Re.spares, digits, blanks, Re.text, Re.one, sets, set, hspace, hdecimal]

theorem alien_bareParts : ∀ r ∈ bareParts T, r.alien markers = true := by
  have hblanks := alien_blanks T
  have hwords : [".", ":", "=", "+", "(", "@", "://", "tel:", "localhost", "127.0.0.1", "0.0.0.0"].all fun s =>
      (word s).alien markers := by
    simp only [List.all_cons, List.all_nil, word, markers, detectors, detector, List.map_cons, List.map_nil]
    repeat rw [String.toList_ofList]
    decide +kernel
  have hdigits : ∀ least ∈ [2, 4, 7, 8], ∀ most, (digits T least most).alien markers = true := fun _ => alien_digits T
  simp only [bareParts, List.forall_mem_cons]
  have hfixed : [oauthPattern, apiKeyPattern, cryptoPattern].all fun r => r.alien markers := by
    simp only [oauthPattern, apiKeyPattern, cryptoPattern, words, word, signs, markers, detectors, detector, List.map_cons,
      List.map_nil]
    repeat rw [String.toList_ofList]
    decide +kernel
  simp only [List.all_cons, List.all_nil, Bool.and_true, Bool.and_eq_true_iff] at hfixed hwords
  obtain ⟨hoauth,hapi,hcrypto⟩ := hfixed
  obtain ⟨hdot,hcolon,hequals,hplus,hparen,hat,hscheme,htel,hlocal,hloop,hzero⟩ := hwords
  refine ⟨?_, ?_, ?_, ?_, hoauth, ?_, hapi, ?_, ?_, ?_, hcrypto, ?_, ?_, ?_, ?_, ?_, ?_, by simp⟩
  · simp [keyLine, Re.all, Re.alien, hblanks]
  · simp [keyLine, Re.all, Re.alien, hblanks]
  · simp [jwtPattern, Re.all, Re.alien, hdot]
  · simp [dbUrlHead, Re.all, Re.alien, hscheme]
  · simp [arnHead, Re.all, Re.alien, hcolon]
  · simp [ccPattern, Re.all, Re.alien, hdigits 4]
  · simp [ssnPattern, Re.all, Re.alien, hdigits 2]
  · simp [passportPattern, Re.all, Re.any, Re.alien, hdigits 7, hdigits 8]
  · simp [internalUrlPattern, Re.all, Re.any, Re.alien, hdot, hlocal, hloop, hzero]
  · simp [ipPattern, Re.all, Re.times, Re.alien, hdot]
  · simp [dockerSecretHead, Re.all, Re.alien, hequals]
  · simp [envVarHead, Re.all, Re.alien, hequals]
  · simp [emailPattern, Re.all, Re.alien, hat]
  · simp [phonePattern, Re.all, Re.any, Re.alien, hplus, hparen, htel]

theorem bare {r : Re} (hr : r ∈ bareParts T) : Bare markers '[' ']' r where
  width := Re.width_pos_of_alien (List.ne_nil_of_mem (redacted_mem .basic List.mem_cons_self)) (alien_bareParts T r hr)
  opening := spares_bareParts T (.inl rfl) r hr
  closing := spares_bareParts T (.inr rfl) r hr
  foreign := alien_bareParts T r hr

theorem shape : ∀ d ∈ detectors T, Shape markers '[' ']' (solid T) d.pattern := by
  have hbare := fun r => bare T (r := r)
  simp only [bareParts, List.forall_mem_cons] at hbare
  obtain ⟨hbegin,hend,hjwt,hdb,hoauth,harn,hapi,hcc,hssn,hpassport,hcrypto,hinternal,hip,hdocker,henv,hemail,hphone,_⟩ := hbare
  simp only [detectors, List.forall_mem_cons]
  exact ⟨.framed hbegin hend, .bare hjwt, .tailed hdb, .bare hoauth, .tailed harn, .bare hapi, .bare hcc, .bare hssn,
    .bare hpassport, .bare hcrypto, .bare hinternal, .bare hip, .tailed hdocker, .tailed henv, .bare hemail, .bare hphone,
    by simp⟩

theorem bare_of_bounded : ∀ d ∈ detectors T, d.pattern.plain = true ∨ Bare markers '[' ']' d.pattern ∧ Bounded d.pattern := by
  have hbare := fun r => bare T (r := r)
  simp only [bareParts, List.forall_mem_cons] at hbare
  obtain ⟨_,_,_,_,_,_,_,hcc,hssn,hpassport,_,_,hip,_,_,hemail,_,_⟩ := hbare
  have hplain : [sshKeyPattern T, jwtPattern, dbUrlPattern T, oauthPattern, arnPattern T, apiKeyPattern, cryptoPattern,
      internalUrlPattern T, dockerSecretPattern T, envVarPattern T, phonePattern T].all Re.plain = true := by
    simp only [List.all_cons, List.all_nil, sshKeyPattern, keyLine, jwtPattern, dbUrlPattern, dbUrlHead, oauthPattern,
      arnPattern, arnHead, apiKeyPattern, cryptoPattern, internalUrlPattern, dockerSecretPattern, dockerSecretHead,
      envVarPattern, envVarHead, phonePattern, words, word, List.map_cons, List.map_nil, String.toList_append]
    repeat rw [String.toList_ofList]
    rfl
  simp only [List.all_cons, List.all_nil, Bool.and_true, Bool.and_eq_true_iff] at hplain
  obtain ⟨hssh,hjwt,hdb,hoauth,harn,hapi,hcrypto,hinternal,hdocker,henv,hphone⟩ := hplain
  simp only [detectors, List.forall_mem_cons]
  exact ⟨.inl hssh, .inl hjwt, .inl hdb, .inl hoauth, .inl harn, .inl hapi, .inr ⟨hcc, rfl, rfl⟩, .inr ⟨hssn, rfl, rfl⟩,
    .inr ⟨hpassport, rfl, rfl⟩, .inl hcrypto, .inl hinternal, .inr ⟨hip, rfl, rfl⟩, .inl hdocker, .inl henv,
    .inr ⟨hemail, rfl, rfl⟩, .inl hphone, by simp⟩

theorem shuns : ∀ d ∈ detectors T, ∀ c, solid T c = false → d.pattern.shuns c = true := by
  have hcodes : ∀ {r : Re}, (whitespaceCodes.all fun n => r.shuns (Char.ofNat n)) = true →
      ∀ c, solid T c = false → r.shuns c = true := by
    intro r hall c hc
    rw [solid, Bool.not_eq_false', T.space_exact, List.contains_iff_mem] at hc
    rw [← Char.ofNat_toNat c]
    exact List.all_eq_true.mp hall c.toNat hc
  have hdigit : ∀ c, solid T c = false → isDecimal T c = false := by
    intro c hc
    rw [solid, Bool.not_eq_false'] at hc
    exact isDecimal_of_space T hc
  simp only [detectors, List.forall_mem_cons]
  refine ⟨hcodes (by rfl), hcodes (by decide +kernel), hcodes (by rfl), hcodes (by decide +kernel), hcodes (by rfl),
    hcodes (by decide +kernel), fun c hc => ?_, fun c hc => ?_, hcodes (by rfl), hcodes (by decide +kernel),
    hcodes (by rfl), fun c hc => ?_, hcodes (by rfl), hcodes (by rfl), hcodes (by decide +kernel), hcodes (by rfl), by simp⟩
  · simp [detector, ccPattern, Re.all, Re.times, Re.shuns, Re.width, digits, hdigit c hc]
  · simp [detector, ssnPattern, Re.all, Re.shuns, Re.width, digits, hdigit c hc]
  · simp [detector, ipPattern, Re.all, Re.times, Re.shuns, Re.width, digits, hdigit c hc]

end Shapes

end PicoSentry.Watch.OutputGuard
