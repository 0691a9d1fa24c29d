import PicoSentry.Scan.VersionText

namespace PicoSentry.Scan.Version

open Foundation

section Grammar

def identifierChar (c : Char) : Bool := c.isAlphanum || c = '-'

-- An alphanumeric identifier: at least one character is no digit.
structure Word where
  text : Str
  chars : ∀ c ∈ text, identifierChar c = true
  nonDigit : ∃ c ∈ text, isDigit c = false

inductive PreId where
  | number (n : Nat)
  | word (w : Word)

def PreId.text : PreId → Str
  | .number n => decimal n
  | .word w => w.text

structure SemVer where
  major : Nat
  minor : Nat
  patch : Nat
  pre : List PreId := []
  build : List Str := []
  buildChars : ∀ s ∈ build, s ≠ [] ∧ ∀ c ∈ s, identifierChar c = true

namespace SemVer

def preText (v : SemVer) : Str :=
  if v.pre.isEmpty then [] else '-' :: ['.'].intercalate (v.pre.map PreId.text)

def buildText (v : SemVer) : Str := if v.build = [] then [] else '+' :: ['.'].intercalate v.build

def text (v : SemVer) : Str :=
  decimal v.major ++ '.' :: (decimal v.minor ++ '.' ::
    (decimal v.patch ++ (v.preText ++ v.buildText)))

end SemVer

end Grammar

section Precedence

def PreId.Before : PreId → PreId → Prop
  | .number m, .number n => m < n
  | .number _, .word _ => True
  | .word _, .number _ => False
  | .word v, .word w => v.text < w.text

def PreBefore : List PreId → List PreId → Prop
  | _, [] => False
  | [], _ :: _ => True
  | a :: p, b :: q => a.Before b ∨ a = b ∧ PreBefore p q

def Precedes (v w : SemVer) : Prop :=
  v.major < w.major ∨ v.major = w.major ∧ (v.minor < w.minor ∨ v.minor = w.minor ∧
    (v.patch < w.patch ∨ v.patch = w.patch ∧ v.pre ≠ [] ∧ (w.pre = [] ∨ PreBefore v.pre w.pre)))

theorem PreId.before_irrefl (a : PreId) : ¬a.Before a := by
  cases a with
  | number n => exact lt_irrefl n
  | word w => exact lt_irrefl w.text

theorem PreId.before_asymm {a b : PreId} (h : a.Before b) : ¬b.Before a := by
  cases a with
  | number m => cases b with
    | number n => exact lt_asymm (show m < n from h)
    | word w => exact fun h => h
  | word v => cases b with
    | number n => exact absurd h fun h => h
    | word w => exact lt_asymm (show v.text < w.text from h)

theorem Word.ext_text {v w : Word} (h : v.text = w.text) : v = w := by
  cases v
  cases w
  cases h
  rfl

theorem PreId.before_trichotomy (a b : PreId) : a.Before b ∨ a = b ∨ b.Before a := by
  cases a with
  | number m => cases b with
    | number n => exact (lt_trichotomy m n).imp_right (.imp_left (congrArg _))
    | word w => exact .inl trivial
  | word v => cases b with
    | number n => exact .inr (.inr trivial)
    | word w => exact (lt_trichotomy v.text w.text).imp_right (.imp_left fun h => congrArg _ (Word.ext_text h))

end Precedence

section Reading

-- The number that int() finds in a hyphen followed by digits.
def Word.signed (w : Word) : Option Nat :=
  match w.text with
  | '-' :: ds => if ds ≠ [] ∧ ds.all isDigit then some (digitsValue 0 ds) else none
  | _ => none

def read (a : PreId) : Identifier := identifier a.text

def ReadBefore (p q : List PreId) : Prop := p.map read < q.map read

theorem not_underscore {s : Str} (h : ∀ c ∈ s, identifierChar c = true) : '_' ∉ s := fun hmem =>
  absurd (h '_' hmem) (by decide)

theorem unsigned_eq {s : Str} (h : '_' ∉ s) :
    unsigned s = if s ≠ [] ∧ s.all isDigit then some (digitsValue 0 s) else none := by
  have hsplit : s.splitOn '_' = [s] := by
    have hmem : ∀ t ∈ [s], '_' ∉ t := fun t ht => List.mem_singleton.mp ht ▸ h
    simpa using List.splitOn_intercalate '_' hmem (List.cons_ne_nil s [])
  rw [unsigned, hsplit]
  simp

def numeralOf (n : Nat) : Numeral where
  text := decimal n
  ne_nil := by
    obtain ⟨d,ds,h,_⟩ := decimal_spec n
    rw [h]
    exact List.cons_ne_nil d ds
  isDigit := by
    obtain ⟨d,ds,h,hdigits,_⟩ := decimal_spec n
    rw [h]
    exact hdigits

theorem value_numeralOf (n : Nat) : (numeralOf n).value = n := by
  obtain ⟨d,ds,h,_,hvalue,_⟩ := decimal_spec n
  have htext : (numeralOf n).text = d :: ds := h
  rw [Numeral.value, htext, hvalue]

theorem read_number (n : Nat) : read (.number n) = numeric n := by
  have h := identifier_numeral (numeralOf n)
  rwa [value_numeralOf] at h

theorem identifierInt_word (w : Word) : identifierInt w.text = w.signed.map fun n => -(n : Int) := by
  rw [Word.signed]
  split
  · next ds hs =>
    have hunder : '_' ∉ ds := fun hmem =>
      not_underscore w.chars (hs.symm ▸ List.mem_cons_of_mem _ hmem)
    rw [hs, identifierInt, unsigned_eq hunder]
  · next hs =>
    obtain ⟨c,hc,hdigit⟩ := w.nonDigit
    have hnone : unsigned w.text = none := by
      rw [unsigned_eq (not_underscore w.chars), if_neg]
      rintro ⟨_,hall⟩
      rw [List.all_eq_true.mp hall c hc] at hdigit
      cases hdigit
    rw [identifierInt.eq_def]
    split
    · next ds htext => exact absurd htext (hs ds)
    · rw [hnone]
      rfl

theorem read_word_of_some {w : Word} {n : Nat} (h : w.signed = some n) :
    read (.word w) = toLex (.inl (-(n : Int))) := by
  rw [read, PreId.text, identifier, identifierInt_word, h]
  rfl

theorem read_word_of_none {w : Word} (h : w.signed = none) : read (.word w) = toLex (.inr w.text) := by
  rw [read, PreId.text, identifier, identifierInt_word, h]
  rfl

theorem inl_lt_inl {m n : Int} : (toLex (.inl m) : Identifier) < toLex (.inl n) ↔ m < n :=
  Sum.Lex.inl_lt_inl_iff

theorem inl_inj {m n : Int} : (toLex (.inl m) : Identifier) = toLex (.inl n) ↔ m = n :=
  toLex_inj.trans Sum.inl_injective.eq_iff

end Reading

section Order

variable {a b : PreId} {p q : List PreId}

-- For identifiers in the order of the specification: what int() makes of them keeps that order, or
-- makes one number of both and leaves it to what follows them.
def Right : PreId → PreId → List PreId → List PreId → Prop
  | .number m, .word w, p, q =>
    match w.signed with
    | none => True
    | some n => m = 0 ∧ n = 0 ∧ ReadBefore p q
  | .word v, .word w, p, q =>
    match v.signed, w.signed with
    | _, none => True
    | none, some _ => False
    | some m, some n => n < m ∨ n = m ∧ ReadBefore p q
  | _, _, _, _ => True

def Agreeing : List PreId → List PreId → Prop
  | a :: p, b :: q =>
    (a = b → Agreeing p q) ∧ (a.Before b → Right a b p q) ∧ (b.Before a → Right b a q p)
  | _, _ => True

theorem readBefore_cons : ReadBefore (a :: p) (b :: q) ↔
    read a < read b ∨ read a = read b ∧ ReadBefore p q := by
  rw [ReadBefore, List.map_cons, List.map_cons, List.cons_lt_cons_iff, ReadBefore]

theorem readBefore_iff_right (h : a.Before b) : ReadBefore (a :: p) (b :: q) ↔ Right a b p q := by
  rw [readBefore_cons]
  cases a with
  | number m =>
    rw [read_number]
    cases b with
    | number n =>
      rw [read_number]
      exact iff_of_true (.inl (numeric_lt h)) trivial
    | word w =>
      cases hw : w.signed with
      | none =>
        rw [read_word_of_none hw, Right, hw]
        exact iff_of_true (.inl (Sum.Lex.inl_lt_inr _ _)) trivial
      | some n =>
        have hlt : (m : Int) < -(n : Int) ↔ False := iff_false_intro (by omega)
        have heq : (m : Int) = -(n : Int) ↔ m = 0 ∧ n = 0 := by omega
        rw [read_word_of_some hw, Right, hw, numeric, inl_lt_inl, inl_inj, hlt, heq, false_or, and_assoc]
  | word v =>
    cases b with
    | number n => exact absurd h fun h => h
    | word w =>
      cases hv : v.signed with
      | none =>
        rw [read_word_of_none hv]
        cases hw : w.signed with
        | none =>
          rw [read_word_of_none hw, Right, hv, hw]
          exact iff_of_true (.inl (Sum.Lex.inr_lt_inr_iff.mpr h)) trivial
        | some n =>
          rw [read_word_of_some hw, Right, hv, hw]
          dsimp only
          simp
      | some m =>
        rw [read_word_of_some hv]
        cases hw : w.signed with
        | none =>
          rw [read_word_of_none hw, Right, hv, hw]
          exact iff_of_true (.inl (Sum.Lex.inl_lt_inr _ _)) trivial
        | some n =>
          have hlt : -(m : Int) < -(n : Int) ↔ n < m := by omega
          have heq : -(m : Int) = -(n : Int) ↔ n = m := by omega
          rw [read_word_of_some hw, Right, hv, hw, inl_lt_inl, inl_inj, hlt, heq]

theorem readBefore_asymm (h : ReadBefore p q) : ¬ReadBefore q p := lt_asymm h

theorem preBefore_of_before (h : a.Before b) : PreBefore (a :: p) (b :: q) ∧ ¬PreBefore (b :: q) (a :: p) := by
  refine ⟨.inl h, ?_⟩
  rintro (hback | ⟨rfl,_⟩)
  · exact PreId.before_asymm h hback
  · exact PreId.before_irrefl b h

theorem ordered_of_before (h : a.Before b) :
    ((ReadBefore (a :: p) (b :: q) ↔ PreBefore (a :: p) (b :: q)) ∧
      (ReadBefore (b :: q) (a :: p) ↔ PreBefore (b :: q) (a :: p))) ↔ Right a b p q := by
  rw [← readBefore_iff_right h, iff_true_right (preBefore_of_before h).1,
    iff_false_right (preBefore_of_before h).2]
  exact ⟨fun hboth => hboth.1, fun hlt => ⟨hlt, readBefore_asymm hlt⟩⟩

theorem pre_ordered_iff (p q : List PreId) :
    ((ReadBefore p q ↔ PreBefore p q) ∧ (ReadBefore q p ↔ PreBefore q p)) ↔ Agreeing p q := by
  induction p generalizing q with
  | nil =>
    cases q with
    | nil => exact iff_of_true ⟨iff_of_false (List.not_lt_nil _) id, iff_of_false (List.not_lt_nil _) id⟩ trivial
    | cons b q =>
      exact iff_of_true ⟨iff_of_true (List.nil_lt_cons _ _) trivial, iff_of_false (List.not_lt_nil _) id⟩
        trivial
  | cons a p ih =>
    cases q with
    | nil =>
      exact iff_of_true ⟨iff_of_false (List.not_lt_nil _) id, iff_of_true (List.nil_lt_cons _ _) trivial⟩
        trivial
    | cons b q =>
      rw [Agreeing]
      rcases PreId.before_trichotomy a b with h | rfl | h
      · have hne : a ≠ b := fun heq => PreId.before_irrefl b (heq ▸ h)
        rw [ordered_of_before h]
        simp [h, hne, PreId.before_asymm h]
      · have hread : ∀ p q, ReadBefore (a :: p) (a :: q) ↔ ReadBefore p q := fun p q => by
          rw [readBefore_cons]
          simp
        have hpre : ∀ p q, PreBefore (a :: p) (a :: q) ↔ PreBefore p q := fun p q => by
          rw [PreBefore]
          simp [PreId.before_irrefl]
        rw [hread, hread, hpre, hpre, ih]
        simp [PreId.before_irrefl]
      · have hne : a ≠ b := fun heq => PreId.before_irrefl b (heq ▸ h)
        rw [and_comm, ordered_of_before h]
        simp [h, hne, PreId.before_asymm h]

end Order

section Parse

variable {U : Unicode}

def preKey (p : List PreId) : WithTop (List Identifier) :=
  if p.isEmpty then ⊤ else WithTop.some (p.map read)

theorem identChar_of_identifierChar {c : Char} (h : identifierChar c = true) : identChar c = true := by
  rw [identifierChar, Bool.or_eq_true] at h
  rcases h with h | h
  · simp [identChar, h]
  · simp [identChar, h]

theorem PreId.chars_text (a : PreId) : ∀ c ∈ a.text, identifierChar c = true := by
  cases a with
  | number n =>
    intro c hc
    have hbounds : 48 ≤ c.toNat ∧ c.toNat ≤ 57 := by simpa [isDigit] using (numeralOf n).isDigit c hc
    have hdigit : c.isDigit = true := by
      simp only [Char.isDigit, Bool.and_eq_true, decide_eq_true_eq]
      exact hbounds
    simp [identifierChar, Char.isAlphanum, hdigit]
  | word w => exact w.chars

theorem PreId.text_ne_nil (a : PreId) : a.text ≠ [] := by
  cases a with
  | number n => exact (numeralOf n).ne_nil
  | word w =>
    obtain ⟨c,hc,_⟩ := w.nonDigit
    exact List.ne_nil_of_mem hc

theorem PreId.not_mem_text (a : PreId) {c : Char} (h : identifierChar c = false) : c ∉ a.text := by
  intro hmem
  rw [a.chars_text c hmem] at h
  cases h

theorem preTuple_ids {p : List PreId} (hne : p ≠ []) :
    preTuple (['.'].intercalate (p.map PreId.text)) = WithTop.some (p.map read) := by
  have hids : ∀ s ∈ p.map PreId.text, s ≠ [] ∧ '.' ∉ s ∧ '+' ∉ s := by
    rw [List.forall_mem_map]
    exact fun a _ => ⟨a.text_ne_nil, a.not_mem_text (by decide), a.not_mem_text (by decide)⟩
  rw [preTuple_intercalate (by simpa using hne) hids, List.map_map]
  rfl

theorem identChar_ids (p : List PreId) :
    ∀ c ∈ ['.'].intercalate (p.map PreId.text), identChar c = true := by
  refine mem_intercalate (by decide) ?_
  rw [List.forall_mem_map]
  exact fun a _ c hc => identChar_of_identifierChar (a.chars_text c hc)

-- The build metadata starts with a plus sign, which ends the pattern.
theorem takeWhile_build (v : SemVer) {pre : Str} (hpre : ∀ c ∈ pre, identChar c = true) :
    (pre ++ v.buildText).takeWhile identChar = pre := by
  have hbuild : v.buildText.takeWhile identChar = [] := by
    rw [SemVer.buildText]
    split
    · rfl
    · rfl
  rw [List.takeWhile_append_of_pos hpre, hbuild, List.append_nil]

theorem preTuple_rest (v : SemVer) : preTuple (preRelease (v.preText ++ v.buildText)) = preKey v.pre := by
  rw [SemVer.preText, preKey]
  cases hpre : v.pre with
  | nil =>
    have hbuild : preRelease v.buildText = [] := by
      rw [SemVer.buildText]
      split
      · rfl
      · rfl
    simp only [List.isEmpty_nil, if_true, List.nil_append, hbuild]
    rfl
  | cons a p =>
    have hrelease : preRelease ('-' :: (['.'].intercalate ((a :: p).map PreId.text) ++ v.buildText)) =
        ['.'].intercalate ((a :: p).map PreId.text) := by
      rw [preRelease, takeWhile_build v (identChar_ids (a :: p))]
      exact if_pos (.inl rfl)
    have hkey := preTuple_ids (List.cons_ne_nil a p)
    rw [← hrelease] at hkey
    exact hkey

theorem ends_rest (v : SemVer) : Ends U (v.preText ++ v.buildText) := by
  rw [SemVer.preText]
  split
  · rw [SemVer.buildText]
    split
    · exact ends_nil
    · exact ends_cons (by decide) (by decide) _
  · exact ends_cons (by decide) (by decide) _

def tupleOf (v : SemVer) : VersionTuple := versionTuple v.major v.minor v.patch (preKey v.pre)

theorem parseVersion_text (v : SemVer) : parseVersion U v.text = some (tupleOf v) := by
  have h := parseVersion_numerals (numeralOf v.major) (numeralOf v.minor) (numeralOf v.patch)
    (ends_rest (U := U) v)
  rwa [value_numeralOf, value_numeralOf, value_numeralOf, preTuple_rest] at h

theorem preKey_lt_iff (p q : List PreId) :
    preKey p < preKey q ↔ p ≠ [] ∧ (q = [] ∨ ReadBefore p q) := by
  cases p with
  | nil => simp [preKey]
  | cons a p =>
    cases q with
    | nil => exact iff_of_true (WithTop.coe_lt_top _) ⟨List.cons_ne_nil a p, .inl rfl⟩
    | cons b q =>
      simp only [preKey, List.isEmpty_cons, ne_eq, reduceCtorEq, not_false_eq_true, false_or, true_and]
      exact WithTop.coe_lt_coe

end Parse

section Precedence

variable (U : Unicode)

def OrderedBySemVer (v w : SemVer) : Prop :=
  ∃ a ∈ parseVersion U v.text, ∃ b ∈ parseVersion U w.text,
    (a < b ↔ Precedes v w) ∧ (b < a ↔ Precedes w v) ∧ (a = b ↔ ¬Precedes v w ∧ ¬Precedes w v)

def SameCore (v w : SemVer) : Prop := v.major = w.major ∧ v.minor = w.minor ∧ v.patch = w.patch

variable {U} {v w : SemVer}

theorem SameCore.symm (h : SameCore v w) : SameCore w v := ⟨h.1.symm, h.2.1.symm, h.2.2.symm⟩

theorem tupleOf_lt_of_sameCore (h : SameCore v w) :
    (tupleOf v < tupleOf w ↔ v.pre ≠ [] ∧ (w.pre = [] ∨ ReadBefore v.pre w.pre)) ∧
      (Precedes v w ↔ v.pre ≠ [] ∧ (w.pre = [] ∨ PreBefore v.pre w.pre)) := by
  obtain ⟨hmajor,hminor,hpatch⟩ := h
  rw [tupleOf, tupleOf, versionTuple_lt, preKey_lt_iff, Precedes, hmajor, hminor, hpatch]
  simp only [lt_irrefl, false_or, true_and]

theorem tupleOf_lt_of_not_sameCore (h : ¬SameCore v w) : tupleOf v < tupleOf w ↔ Precedes v w := by
  rw [tupleOf, tupleOf, versionTuple_lt, Precedes]
  exact or_congr_right (and_congr_right fun hmajor => or_congr_right (and_congr_right fun hminor =>
    or_congr_right (and_congr_right fun hpatch => absurd ⟨hmajor, hminor, hpatch⟩ h)))

theorem eq_iff_of_lt_iff {a b : VersionTuple} {P Q : Prop} (hlt : a < b ↔ P) (hgt : b < a ↔ Q) :
    a = b ↔ ¬P ∧ ¬Q := by
  rw [← hlt, ← hgt, not_lt, not_lt]
  exact ⟨fun h => ⟨h.ge, h.le⟩, fun h => le_antisymm h.2 h.1⟩

theorem orderedBySemVer_iff : OrderedBySemVer U v w ↔
    (tupleOf v < tupleOf w ↔ Precedes v w) ∧ (tupleOf w < tupleOf v ↔ Precedes w v) := by
  rw [OrderedBySemVer, parseVersion_text, parseVersion_text]
  simp only [Option.mem_some_iff, exists_eq_left']
  exact ⟨fun h => ⟨h.1, h.2.1⟩, fun h => ⟨h.1, h.2, eq_iff_of_lt_iff h.1 h.2⟩⟩

theorem semver_order_iff (U : Unicode) (v w : SemVer) :
    OrderedBySemVer U v w ↔ (SameCore v w → v.pre ≠ [] → w.pre ≠ [] → Agreeing v.pre w.pre) := by
  rw [orderedBySemVer_iff]
  by_cases hcore : SameCore v w
  · rw [(tupleOf_lt_of_sameCore hcore).1, (tupleOf_lt_of_sameCore hcore).2,
      (tupleOf_lt_of_sameCore hcore.symm).1, (tupleOf_lt_of_sameCore hcore.symm).2,
      imp_iff_right hcore, ← pre_ordered_iff]
    by_cases hv : v.pre = []
    · simp [hv]
    · by_cases hw : w.pre = []
      · simp [hw]
      · simp [hv, hw]
  · have hswap : ¬SameCore w v := fun h => hcore h.symm
    exact iff_of_true ⟨tupleOf_lt_of_not_sameCore hcore, tupleOf_lt_of_not_sameCore hswap⟩
      fun h => absurd h hcore

def dashed (d : Fin 10) : Word where
  text := ['-', digitChar d]
  chars := by
    have hdigit : identifierChar (digitChar d) = true := by
      obtain ⟨d, hd⟩ := d
      interval_cases d <;> rfl
    simp only [List.mem_cons, List.not_mem_nil, or_false]
    rintro c (rfl | rfl)
    · rfl
    · exact hdigit
  nonDigit := ⟨'-', List.mem_cons_self, rfl⟩

def release (pre : List PreId) : SemVer where
  major := 1
  minor := 0
  patch := 0
  pre := pre
  buildChars := List.forall_mem_nil _

-- 1.0.0-0 comes before 1.0.0--1, whose identifier is no number.
theorem hyphen_read_as_sign :
    (release [.number 0]).text = "1.0.0-0".toList ∧ (release [.word (dashed 1)]).text = "1.0.0--1".toList ∧
      ¬OrderedBySemVer Unicode.basic (release [.number 0]) (release [.word (dashed 1)]) := by
  refine ⟨by decide, by decide, fun h => ?_⟩
  have hright := (orderedBySemVer_iff.mp h).1
  have hprecedes : Precedes (release [.number 0]) (release [.word (dashed 1)]) := by
    simp [Precedes, release, PreBefore, PreId.Before]
  exact absurd (hright.mpr hprecedes) (by decide)

end Precedence

end PicoSentry.Scan.Version
