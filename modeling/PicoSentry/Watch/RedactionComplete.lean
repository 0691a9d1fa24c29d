import PicoSentry.Watch.PiiShapes

namespace PicoSentry.Watch.OutputGuard

open Foundation Redaction Normalizer

variable (T : CharTables)

section Passes

-- The text with what the passes leave of it and the markers told apart.
def standing (text : Str) : List Cell := (detectors T).foldl (fun cells d => patch (d.matcher T) cells) (fresh text)

def Clear (text : Str) : Prop := ∀ s, s <:+: text → Stands (standing T text) s →
  ∀ d ∈ detectors T, d.pattern.plain = false → finditer (d.matcher T) s = []

variable {T} {d : Detector}

theorem width_pos (hd : d ∈ detectors T) : 0 < d.pattern.width := (shape T d hd).width

theorem puts (hd : d ∈ detectors T) : Puts (d.matcher T) d.redacted (solid T) :=
  puts_replacing (width_pos hd) (shuns T d hd) d.redacted

theorem finditer_eq_nil_iff (hd : d ∈ detectors T) {text : Str} :
    finditer (d.matcher T) text = [] ↔ ¬d.pattern.Occurs T.word text :=
  Re.finditer_replacing_eq_nil_iff (width_pos hd)

theorem detectStep_fst (found : Str × List Str) (d : Detector) : (detectStep T found d).1 = sub (d.matcher T) found.1 := by
  rw [detectStep]
  split
  · next h => exact (Quiet.sub (quiet_of_findAll h)).symm
  · rfl

theorem foldl_detectStep_fst (l : List Detector) (found : Str × List Str) :
    (l.foldl (detectStep T) found).1 = l.foldl (fun text d => sub (d.matcher T) text) found.1 := by
  induction l generalizing found with
  | nil => rfl
  | cons d l ih => simp [ih, detectStep_fst]

theorem shown_standing (text : Str) : shown (standing T text) = (detectPii T text).1 := by
  have hfold : ∀ (l : List Detector) cells, shown (l.foldl (fun cells d => patch (d.matcher T) cells) cells) =
      l.foldl (fun text d => sub (d.matcher T) text) (shown cells) := by
    intro l
    induction l with
    | nil => exact fun _ => rfl
    | cons d l ih =>
      intro cells
      have hpatch : shown (patch (d.matcher T) cells) = sub (d.matcher T) (shown cells) := shown_patchFrom _ _ _ _
      simp [ih, hpatch]
  rw [standing, hfold, shown_fresh, detectPii, foldl_detectStep_fst]

theorem whole_standing (text : Str) : Whole markers (standing T text) := by
  have hfold : ∀ l : List Detector, (∀ d ∈ l, d ∈ detectors T) → ∀ cells, Whole markers cells →
      Whole markers (l.foldl (fun cells d => patch (d.matcher T) cells) cells) := by
    intro l
    induction l with
    | nil => exact fun _ cells h => h
    | cons d l ih =>
      intro hl cells h
      obtain ⟨hd,hl⟩ := List.forall_mem_cons.mp hl
      refine ih hl _ (h.patchFrom nil_not_mem_markers (Re.proper_replacing (width_pos hd)) ?_ ?_ none)
      · exact (shape T d hd).respects bracketed (solid_markers T)
      · exact fun before t x after hmatch => (puts hd).marker _ _ _ _ hmatch ▸ redacted_mem T hd
  exact hfold _ (fun _ hd => hd) _ (whole_fresh _ _)

theorem substituted_pass (hd : d ∈ detectors T) (text : Str) : Substituted (d.matcher T) none text (sub (d.matcher T) text) :=
  substituted_sub (Re.proper_replacing (width_pos hd)) text

theorem not_occurs_passes {l : List Detector} (hl : ∀ d ∈ l, d ∈ detectors T) (hd : d ∈ detectors T)
    (hplain : d.pattern.plain = true) {text : Str} (hnot : ¬d.pattern.Occurs T.word text) :
    ¬d.pattern.Occurs T.word (l.foldl (fun text d => sub (d.matcher T) text) text) := by
  induction l generalizing text with
  | nil => exact hnot
  | cons e l ih =>
    obtain ⟨he,hl⟩ := List.forall_mem_cons.mp hl
    refine ih hl ?_
    exact (shape T d hd).lasts_not bracketed hplain (puts he) (redacted_mem T he) (substituted_pass he text) hnot

theorem plain_done {l : List Detector} (hl : ∀ d ∈ l, d ∈ detectors T) (text : Str) (hd : d ∈ l)
    (hplain : d.pattern.plain = true) :
    ¬d.pattern.Occurs T.word (l.foldl (fun text d => sub (d.matcher T) text) text) := by
  induction l generalizing text with
  | nil => cases hd
  | cons e l ih =>
    obtain ⟨he,hrest⟩ := List.forall_mem_cons.mp hl
    rcases List.mem_cons.mp hd with rfl | hd
    · have hdone : ¬d.pattern.Occurs T.word (sub (d.matcher T) text) :=
        (shape T d he).done bracketed hplain (shuns T d he) (redacted_mem T he) text
      exact not_occurs_passes hrest he hplain hdone
    · exact ih hrest _ hd

theorem detectStep_snd {found : Str × List Str} (h : (detectStep T found d).2 = []) :
    found.2 = [] ∧ finditer (d.matcher T) found.1 = [] ∧ detectStep T found d = found := by
  by_cases hquiet : finditer (d.matcher T) found.1 = []
  · rw [detectStep, if_pos hquiet] at h
    exact ⟨h, hquiet, if_pos hquiet⟩
  · rw [detectStep, if_neg hquiet] at h
    simp at h

theorem violations_eq_nil_iff (text : Str) :
    (detectPii T text).2 = [] ↔ ∀ d ∈ detectors T, finditer (d.matcher T) text = [] := by
  have hfold : ∀ (l : List Detector) found, (l.foldl (detectStep T) found).2 = [] ↔
      found.2 = [] ∧ ∀ d ∈ l, finditer (d.matcher T) found.1 = [] := by
    intro l
    induction l with
    | nil => simp
    | cons d l ih =>
      intro found
      rw [List.foldl_cons, ih, List.forall_mem_cons]
      constructor
      · rintro ⟨hstep,hrest⟩
        obtain ⟨hfound,hquiet,heq⟩ := detectStep_snd hstep
        rw [heq] at hrest
        exact ⟨hfound, hquiet, hrest⟩
      · rintro ⟨hfound,hquiet,hrest⟩
        rw [detectStep, if_pos hquiet]
        exact ⟨hfound, hrest⟩
  rw [detectPii, hfold]
  exact and_iff_right rfl

theorem word_bracket {c : Char} (hc : c = '[' ∨ c = ']') : T.word c = false := by
  rw [T.word_ascii c (by rcases hc with rfl | rfl <;> decide)]
  rcases hc with rfl | rfl <;> rfl

theorem occurs_bounded_iff (hd : d ∈ detectors T) (hplain : d.pattern.plain = false) (text : Str) :
    d.pattern.Occurs T.word (detectPii T text).1 ↔ ∃ s, Stands (standing T text) s ∧ d.pattern.Occurs T.word s := by
  rw [← shown_standing]
  have hbare := (bare_of_bounded T d hd).resolve_left (by simp [hplain])
  exact occurs_iff_stands bracketed (word_bracket (.inl rfl)) (word_bracket (.inr rfl)) hbare.1 (whole_standing text)

theorem infix_of_stands {text s : Str} (h : Stands (standing T text) s) : s <:+: text := by
  have hfold : ∀ l : List Detector, (∀ d ∈ l, d ∈ detectors T) → ∀ cells,
      fresh s <:+: l.foldl (fun cells d => patch (d.matcher T) cells) cells → fresh s <:+: cells := by
    intro l
    induction l with
    | nil => exact fun _ cells h => h
    | cons d l ih =>
      intro hl cells h
      obtain ⟨hd,hl⟩ := List.forall_mem_cons.mp hl
      refine infix_of_patchFrom (fun before t x after hmatch hnil => ?_) (ih hl _ h)
      rw [(puts hd).marker _ _ _ _ hmatch] at hnil
      exact nil_not_mem_markers (hnil ▸ redacted_mem T hd)
  obtain ⟨p,q,hcells,_,_⟩ := h
  have hinside : fresh s <:+: fresh text := hfold _ (fun _ hd => hd) _ ⟨p, q, by rw [List.append_assoc, ← hcells, standing]⟩
  have hshown := hinside.map Prod.fst
  rwa [← shown, ← shown, shown_fresh, shown_fresh] at hshown

theorem complete_iff_clear (text : Str) : (detectPii T (detectPii T text).1).2 = [] ↔ Clear T text := by
  rw [violations_eq_nil_iff]
  constructor
  · intro hquiet s _ hs d hd hplain
    rw [finditer_eq_nil_iff hd]
    intro hoccurs
    exact (finditer_eq_nil_iff hd).mp (hquiet d hd) ((occurs_bounded_iff hd hplain text).mpr ⟨s, hs, hoccurs⟩)
  · intro hclear d hd
    rw [finditer_eq_nil_iff hd]
    cases hplain : d.pattern.plain with
    | true =>
      rw [detectPii, foldl_detectStep_fst]
      exact plain_done (fun _ h => h) text hd hplain
    | false =>
      intro hoccurs
      obtain ⟨s,hs,hin⟩ := (occurs_bounded_iff hd hplain text).mp hoccurs
      exact (finditer_eq_nil_iff hd).mp (hclear s (infix_of_stands hs) hs d hd hplain) hin

-- Where no pattern without boundaries occurs, only the passes of the others replace anything.
theorem not_occurs_quiet {l : List Detector} (hl : ∀ d ∈ l, d ∈ detectors T) {text : Str}
    (hquiet : ∀ d ∈ detectors T, d.pattern.plain = true → ¬d.pattern.Occurs T.word text) (hd : d ∈ detectors T)
    (hplain : d.pattern.plain = false) (hnot : d ∈ l ∨ ¬d.pattern.Occurs T.word text) :
    ¬d.pattern.Occurs T.word (l.foldl (fun text d => sub (d.matcher T) text) text) := by
  obtain ⟨hbare,hbounded⟩ := (bare_of_bounded T d hd).resolve_left (by simp [hplain])
  induction l generalizing text with
  | nil => exact hnot.resolve_left List.not_mem_nil
  | cons e l ih =>
    obtain ⟨he,hl⟩ := List.forall_mem_cons.mp hl
    rw [List.foldl_cons]
    have hstep := substituted_pass he text
    refine ih hl (fun f hf hfplain => ?_) ?_
    · exact (shape T f hf).lasts_not bracketed hfplain (puts he) (redacted_mem T he) hstep (hquiet f hf hfplain)
    · rcases bare_of_bounded T e he with heplain | ⟨_,hebounded⟩
      · have hnone : finditer (e.matcher T) text = [] := (finditer_eq_nil_iff he).mpr (hquiet e he heplain)
        have hsame : sub (e.matcher T) text = text := Quiet.sub (quiet_of_findAll hnone)
        rw [hsame]
        refine hnot.imp_left fun hmem => (List.mem_cons.mp hmem).resolve_left ?_
        rintro rfl
        simp [hplain] at heplain
      · rcases hnot with hmem | hnot
        · refine (List.mem_cons.mp hmem).symm.imp_right ?_
          rintro rfl
          exact hbounded.done bracketed (word_bracket (.inl rfl)) (word_bracket (.inr rfl)) hbare (puts he)
            (redacted_mem T he) text
        · exact .inr (hbounded.lasts_not bracketed (word_bracket (.inl rfl)) (word_bracket (.inr rfl)) hbare hebounded
            (puts he) (redacted_mem T he) hstep hnot)

-- Two conditions on the text alone: it has nothing that the patterns without boundaries recognise, or
-- no part of it has anything that the others do.
theorem clear_of_input {text : Str}
    (h : (∀ d ∈ detectors T, d.pattern.plain = true → finditer (d.matcher T) text = []) ∨
      ∀ s, s <:+: text → ∀ d ∈ detectors T, d.pattern.plain = false → finditer (d.matcher T) s = []) : Clear T text := by
  rcases h with hquiet | hfree
  · rw [← complete_iff_clear, violations_eq_nil_iff]
    intro d hd
    rw [finditer_eq_nil_iff hd, detectPii, foldl_detectStep_fst]
    cases hplain : d.pattern.plain with
    | true => exact plain_done (fun _ h => h) text hd hplain
    | false =>
      have hnot : ∀ e ∈ detectors T, e.pattern.plain = true → ¬e.pattern.Occurs T.word text :=
        fun e he heplain => (finditer_eq_nil_iff he).mp (hquiet e he heplain)
      exact not_occurs_quiet (fun _ h => h) hnot hd hplain (.inl hd)
  · exact fun s hs _ => hfree s hs

end Passes

section Handed

variable {T} (nfkc : Str → Str)

def handedFrom (T : CharTables) (output : Str) : Str :=
  let folded := normalize T nfkc (detectPii T output).1
  if normalize T nfkc output = output ∨ (detectPii T folded).2 = [] then output else folded

theorem handedBack_eq (output : Str) : handedBack T nfkc output = (detectPii T (handedFrom nfkc T output)).1 := by
  rw [handedBack, handedFrom]
  dsimp only
  split
  · next h => rw [if_pos (.inl h)]
  · next h =>
    split
    · next hquiet => rw [if_pos (.inr hquiet)]
    · next hquiet => rw [if_neg (not_or.mpr ⟨h, hquiet⟩)]

theorem redaction_complete_iff (T : CharTables) (nfkc : Str → Str) (text : Str) :
    ((detectPii T (detectPii T text).1).2 = [] ↔ Clear T text) ∧
    ((∀ d ∈ detectors T, finditer (d.matcher T) (handedBack T nfkc text) = []) ↔ Clear T (handedFrom nfkc T text)) := by
  refine ⟨complete_iff_clear text, ?_⟩
  rw [handedBack_eq, ← violations_eq_nil_iff]
  exact complete_iff_clear _

theorem card_before_phone :
    (detectPii .basic (detectPii .basic "1234123412341234tel:12".toList).1).2 = ["out_pii_credit_card".toList] ∧
    handedBack .basic id "1234123412341234tel:12".toList = "1234123412341234[PHONE-REDACTED]".toList := by
  delta handedBack detectPii
  simp only [detectors, detector, sshKeyPattern, keyLine, jwtPattern, dbUrlPattern, dbUrlHead, oauthPattern, arnPattern,
    arnHead, apiKeyPattern, cryptoPattern, internalUrlPattern, dockerSecretPattern, dockerSecretHead, envVarPattern,
    envVarHead, phonePattern, words, word, List.map_cons, List.map_nil, String.toList_append]
  repeat rw [String.toList_ofList]
  decide +kernel

end Handed

end PicoSentry.Watch.OutputGuard
