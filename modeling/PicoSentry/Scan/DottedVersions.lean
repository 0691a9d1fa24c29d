import PicoSentry.Foundation.ComponentOrder
import PicoSentry.Scan.Advisory
import PicoSentry.Scan.VersionText

namespace PicoSentry.Scan.Version

open Foundation Advisories

structure Dotted where
  first : Numeral
  rest : List Numeral

namespace Dotted

def numerals (v : Dotted) : List Numeral := v.first :: v.rest

def text (v : Dotted) : Str := ['.'].intercalate (v.numerals.map Numeral.text)

def components (v : Dotted) : List Nat := v.numerals.map Numeral.value

end Dotted

section Parse

variable {U : Unicode}

def encode : List Nat → VersionTuple
  | a :: b :: c :: d :: tail =>
    versionTuple a b c (WithTop.some ((d :: tail).map numeric))
  | xs => versionTuple (xs.getD 0 0) (xs.getD 1 0) (xs.getD 2 0) ⊤

theorem space_of_digit {c : Char} (h : isDigit c = true) : U.space c = false := by
  have hbounds : 48 ≤ c.toNat ∧ c.toNat ≤ 57 := by simpa [isDigit] using h
  rw [U.space_ascii c (by omega)]
  simp only [asciiSpaces, List.contains_eq_mem, decide_eq_false_iff_not, List.mem_cons,
    List.not_mem_nil, or_false]
  omega

theorem dropV_numeral (n : Numeral) (rest : Str) : dropV (n.text ++ rest) = n.text ++ rest := by
  rw [dropV.eq_def]
  split
  · next s hs =>
    cases htext : n.text with
    | nil => exact absurd htext n.ne_nil
    | cons c ds =>
      rw [htext] at hs
      obtain rfl := (List.cons.inj hs).1
      exact absurd (htext ▸ List.mem_cons_self) (n.not_mem_text (by decide))
  · rfl

theorem count_dot_numeral (n : Numeral) : n.text.count '.' = 0 :=
  List.count_eq_zero_of_not_mem (n.not_mem_text (by decide))

theorem parseVersion_one (a : Numeral) :
    parseVersion U a.text = some (versionTuple a.value 0 0 ⊤) := by
  have hstrip : U.strip a.text = a.text := Unicode.strip_eq_self fun c hc => space_of_digit (a.isDigit c hc)
  have hdrop : dropV a.text = a.text := by simpa using dropV_numeral a []
  have hdigits : digits U a.text = some (a.text, []) := by simpa using a.digits_text (ends_nil (U := U))
  have hshort : shortVersion U a.text = some (a.value, 0) := by
    simp [shortVersion, hdrop, hdigits, a.int_text]
  rw [parseVersion, semverSearch_eq_none (by rw [count_dot_numeral]; decide), hstrip, hshort]
  rfl

theorem parseVersion_two (a b : Numeral) :
    parseVersion U (a.text ++ '.' :: b.text) = some (versionTuple a.value b.value 0 ⊤) := by
  have hspace : ∀ c ∈ a.text ++ '.' :: b.text, U.space c = false := fun c hc => by
    rcases List.mem_append.mp hc with hc | hc
    · exact space_of_digit (a.isDigit c hc)
    · rcases List.mem_cons.mp hc with rfl | hc
      · rw [U.space_ascii '.' (by decide)]
        decide
      · exact space_of_digit (b.isDigit c hc)
  have hcount : (a.text ++ '.' :: b.text).count '.' < 2 := by
    rw [List.count_append, List.count_cons_self, count_dot_numeral, count_dot_numeral]
    decide
  have hdigits : digits U b.text = some (b.text, []) := by simpa using b.digits_text (ends_nil (U := U))
  have hshort : shortVersion U (a.text ++ '.' :: b.text) = some (a.value, b.value) := by
    simp [shortVersion, dropV_numeral, a.digits_text (ends_dot _), dot, hdigits, Numeral.int_text]
  rw [parseVersion, semverSearch_eq_none hcount, Unicode.strip_eq_self hspace, hshort]
  rfl

theorem preTuple_numerals (d : Numeral) (tail : List Numeral) :
    preTuple (['.'].intercalate ((d :: tail).map Numeral.text)) =
      WithTop.some (((d :: tail).map Numeral.value).map numeric) := by
  have hids : ∀ s ∈ (d :: tail).map Numeral.text, s ≠ [] ∧ '.' ∉ s ∧ '+' ∉ s := by
    rw [List.forall_mem_map]
    exact fun n _ => ⟨n.ne_nil, n.not_mem_text (by decide), n.not_mem_text (by decide)⟩
  have hread : ((d :: tail).map Numeral.text).map identifier =
      ((d :: tail).map Numeral.value).map numeric := by
    rw [List.map_map, List.map_map]
    exact List.map_congr_left fun n _ => identifier_numeral n
  rw [preTuple_intercalate (by simp) hids, hread]

theorem identChar_of_digit {c : Char} (h : isDigit c = true) : identChar c = true := by
  have hbounds : 48 ≤ c.toNat ∧ c.toNat ≤ 57 := by simpa [isDigit] using h
  have hdigit : c.isDigit = true := by
    simp only [Char.isDigit, Bool.and_eq_true, decide_eq_true_eq]
    exact hbounds
  simp [identChar, Char.isAlphanum, hdigit]

theorem preRelease_dot {ids : Str} (hids : ∀ c ∈ ids, identChar c = true) :
    preRelease ('.' :: ids) = ids := by
  have hwhole : ids.takeWhile identChar = ids := List.takeWhile_eq_self_iff.mpr hids
  rw [preRelease, hwhole]
  exact if_pos (.inr rfl)

theorem parseVersion_dotted (v : Dotted) : parseVersion U v.text = some (encode v.components) := by
  obtain ⟨a,rest⟩ := v
  rcases rest with _ | ⟨b,_ | ⟨c,_ | ⟨d,tail⟩⟩⟩
  · have htext : Dotted.text ⟨a, []⟩ = a.text := by simp [Dotted.text, Dotted.numerals]
    rw [htext, parseVersion_one]
    rfl
  · have htext : Dotted.text ⟨a, [b]⟩ = a.text ++ '.' :: b.text := by
      simp [Dotted.text, Dotted.numerals]
    rw [htext, parseVersion_two]
    rfl
  · have htext : Dotted.text ⟨a, [b, c]⟩ = a.text ++ '.' :: (b.text ++ '.' :: (c.text ++ [])) := by
      simp [Dotted.text, Dotted.numerals]
    rw [htext, parseVersion_numerals a b c ends_nil]
    rfl
  · have htail : ∀ x ∈ ['.'].intercalate ((d :: tail).map Numeral.text), identChar x = true := by
      refine mem_intercalate (by decide) ?_
      rw [List.forall_mem_map]
      exact fun n _ x hx => identChar_of_digit (n.isDigit x hx)
    have htext : Dotted.text ⟨a, b :: c :: d :: tail⟩ = a.text ++ '.' :: (b.text ++ '.' :: (c.text ++
        '.' :: ['.'].intercalate ((d :: tail).map Numeral.text))) := by
      simp [Dotted.text, Dotted.numerals]
    rw [htext, parseVersion_numerals a b c (ends_dot _), preRelease_dot htail, preTuple_numerals]
    rfl

end Parse

section Order

variable {U : Unicode} {xs ys : List Nat}

def preOf (xs : List Nat) : WithTop (List Identifier) :=
  if xs.length ≤ 3 then ⊤ else WithTop.some ((xs.drop 3).map numeric)

theorem encode_eq (xs : List Nat) :
    encode xs = versionTuple (xs.getD 0 0) (xs.getD 1 0) (xs.getD 2 0) (preOf xs) := by
  rcases xs with _ | ⟨a,_ | ⟨b,_ | ⟨c,_ | ⟨d,tail⟩⟩⟩⟩ <;> rfl

theorem below_iff_drop (xs ys : List Nat) : Below xs ys ↔
    xs.getD 0 0 < ys.getD 0 0 ∨ xs.getD 0 0 = ys.getD 0 0 ∧
      (xs.getD 1 0 < ys.getD 1 0 ∨ xs.getD 1 0 = ys.getD 1 0 ∧
        (xs.getD 2 0 < ys.getD 2 0 ∨ xs.getD 2 0 = ys.getD 2 0 ∧ Below (xs.drop 3) (ys.drop 3))) := by
  have hdrop : ∀ zs : List Nat, zs.drop 3 = zs.tail.tail.tail := fun zs => by
    rcases zs with _ | ⟨_,_ | ⟨_,_ | ⟨_,_⟩⟩⟩ <;> rfl
  rw [below_iff_tail xs, below_iff_tail xs.tail, below_iff_tail xs.tail.tail, hdrop, hdrop]
  simp only [getD_tail]

def SameHead (xs ys : List Nat) : Prop := ∀ i < 3, xs.getD i 0 = ys.getD i 0

def Comparable (xs ys : List Nat) : Prop :=
  SameHead xs ys → (xs.length ≤ 3 ∧ ys.length ≤ 3) ∨
    (3 < xs.length ∧ 3 < ys.length ∧ ¬ZeroExtends xs ys ∧ ¬ZeroExtends ys xs)

theorem sameHead_iff : SameHead xs ys ↔
    xs.getD 0 0 = ys.getD 0 0 ∧ xs.getD 1 0 = ys.getD 1 0 ∧ xs.getD 2 0 = ys.getD 2 0 := by
  constructor
  · exact fun h => ⟨h 0 (by decide), h 1 (by decide), h 2 (by decide)⟩
  · rintro ⟨h0,h1,h2⟩ i hi
    match i, hi with
    | 0, _ => exact h0
    | 1, _ => exact h1
    | 2, _ => exact h2

instance decidableSameHead (xs ys : List Nat) : Decidable (SameHead xs ys) :=
  decidable_of_iff _ sameHead_iff.symm

theorem SameHead.symm (h : SameHead xs ys) : SameHead ys xs := fun i hi => (h i hi).symm

theorem preOf_lt_iff (hx : 3 < xs.length) (hy : 3 < ys.length) :
    preOf xs < preOf ys ↔ xs.drop 3 < ys.drop 3 := by
  rw [preOf, preOf, if_neg (not_le.mpr hx), if_neg (not_le.mpr hy), WithTop.coe_lt_coe,
    map_lt_map_iff fun _ _ h => numeric_lt h]

theorem encode_lt_of_sameHead (h : SameHead xs ys) :
    (encode xs < encode ys ↔ preOf xs < preOf ys) ∧ (Below xs ys ↔ Below (xs.drop 3) (ys.drop 3)) := by
  obtain ⟨h0,h1,h2⟩ := sameHead_iff.mp h
  rw [encode_eq, encode_eq, versionTuple_lt, below_iff_drop, h0, h1, h2]
  simp only [lt_irrefl, false_or, true_and]

theorem encode_lt_of_not_sameHead (h : ¬SameHead xs ys) : encode xs < encode ys ↔ Below xs ys := by
  rw [encode_eq, encode_eq, versionTuple_lt, below_iff_drop]
  exact or_congr_right (and_congr_right fun h0 => or_congr_right (and_congr_right fun h1 =>
    or_congr_right (and_congr_right fun h2 => absurd (sameHead_iff.mpr ⟨h0, h1, h2⟩) h)))

theorem zeroExtends_drop (h : SameHead xs ys) (hx : 3 < xs.length) (hy : 3 < ys.length) :
    ZeroExtends (xs.drop 3) (ys.drop 3) ↔ ZeroExtends xs ys := by
  obtain ⟨h0,h1,h2⟩ := sameHead_iff.mp h
  rcases xs with _ | ⟨a,_ | ⟨b,_ | ⟨c,xs⟩⟩⟩
  · cases hx
  · simp at hx
  · simp at hx
  rcases ys with _ | ⟨a',_ | ⟨b',_ | ⟨c',ys⟩⟩⟩
  · cases hy
  · simp at hy
  · simp at hy
  obtain rfl : a = a' := h0
  obtain rfl : b = b' := h1
  obtain rfl : c = c' := h2
  simp only [zeroExtends_cons_cons, true_and, List.drop_succ_cons, List.drop_zero]

theorem preOf_of_le (h : xs.length ≤ 3) : preOf xs = ⊤ ∧ xs.drop 3 = [] :=
  ⟨if_pos h, List.drop_eq_nil_of_le h⟩

theorem preOf_lt_top (h : 3 < xs.length) : preOf xs < ⊤ := by
  rw [preOf, if_neg (not_le.mpr h)]
  exact WithTop.coe_lt_top _

theorem encode_ordered_iff (xs ys : List Nat) :
    ((encode xs < encode ys ↔ Below xs ys) ∧ (encode ys < encode xs ↔ Below ys xs)) ↔
      Comparable xs ys := by
  by_cases hhead : SameHead xs ys
  · rw [Comparable, imp_iff_right hhead, (encode_lt_of_sameHead hhead).1,
      (encode_lt_of_sameHead hhead).2, (encode_lt_of_sameHead hhead.symm).1,
      (encode_lt_of_sameHead hhead.symm).2]
    rcases le_or_gt xs.length 3 with hx | hx
    · obtain ⟨hxpre,hxdrop⟩ := preOf_of_le hx
      rw [hxpre, hxdrop]
      rcases le_or_gt ys.length 3 with hy | hy
      · obtain ⟨hypre,hydrop⟩ := preOf_of_le hy
        rw [hypre, hydrop]
        simp [hx, hy, below_irrefl]
      · simp [hx, hy, not_lt.mpr hx, not_below_nil, preOf_lt_top hy]
    · rcases le_or_gt ys.length 3 with hy | hy
      · obtain ⟨hypre,hydrop⟩ := preOf_of_le hy
        rw [hypre, hydrop]
        simp [hx, hy, not_lt.mpr hy, not_below_nil, preOf_lt_top hx]
      · rw [preOf_lt_iff hx hy, preOf_lt_iff hy hx, lt_iff_below_iff, zeroExtends_drop hhead hx hy,
          zeroExtends_drop hhead.symm hy hx]
        simp [hx, hy, not_le.mpr hx]
  · have hswap : ¬SameHead ys xs := fun h => hhead h.symm
    exact iff_of_true ⟨encode_lt_of_not_sameHead hhead, encode_lt_of_not_sameHead hswap⟩
      fun h => absurd h hhead

end Order

section Ranges

variable (U : Unicode)

def OrderedRight (v w : Dotted) : Prop :=
  ∃ a ∈ parseVersion U v.text, ∃ b ∈ parseVersion U w.text,
    (a < b ↔ Below v.components w.components) ∧ (b < a ↔ Below w.components v.components)

def DecidedRight (v introduced fixed : Dotted) : Prop :=
  ∀ adv : Advisory, adv.affectedRanges = [⟨introduced.text, fixed.text, false⟩] →
    adv.affectedVersions = [] →
      (versionAffected U v.text adv = true ↔
        ¬Below v.components introduced.components ∧ Below v.components fixed.components)

variable {U}

theorem orderedRight_iff {v w : Dotted} :
    OrderedRight U v w ↔ Comparable v.components w.components := by
  rw [← encode_ordered_iff, OrderedRight, parseVersion_dotted, parseVersion_dotted]
  simp only [Option.mem_some_iff, exists_eq_left']

theorem decidedRight {v introduced fixed : Dotted}
    (hlow : Comparable v.components introduced.components)
    (hhigh : Comparable v.components fixed.components) : DecidedRight U v introduced fixed := by
  intro adv hranges hversions
  have hbelow := ((encode_ordered_iff _ _).mpr hlow).1
  have hfixed := ((encode_ordered_iff _ _).mpr hhigh).1
  rw [versionAffected, parseVersion_dotted, ← hbelow, ← hfixed]
  simp only [hranges, hversions, List.any_cons, List.any_nil, Bool.or_false, List.isEmpty_cons,
    Bool.false_and, rangeAffects, parseVersion_dotted]
  split
  · next h => simp [h]
  · next h => simp [h]

theorem dotted_order_iff (U : Unicode) (v introduced fixed : Dotted) :
    OrderedRight U v introduced ∧ OrderedRight U v fixed ∧ DecidedRight U v introduced fixed ↔
      Comparable v.components introduced.components ∧ Comparable v.components fixed.components := by
  rw [orderedRight_iff, orderedRight_iff]
  exact ⟨fun h => ⟨h.1, h.2.1⟩, fun h => ⟨h.1, h.2, decidedRight h.1 h.2⟩⟩

def oneDigit (d : Fin 10) : Numeral where
  text := [digitChar d]
  ne_nil := List.cons_ne_nil _ _
  isDigit := by simpa using isDigit_digitChar d.isLt

def fixedInTwo : Advisory where
  id := "GHSA-0001".toList
  packageName := "nokogiri".toList
  summary := []
  severity := .high
  fixedVersion := "2".toList
  affectedVersions := []
  cweIds := []
  references := []
  published := []
  affectedRanges := [⟨"1.2.3".toList, "2".toList, false⟩]

theorem four_components_before_three :
    ¬OrderedRight Unicode.basic ⟨oneDigit 1, [oneDigit 2, oneDigit 3, oneDigit 4]⟩
        ⟨oneDigit 1, [oneDigit 2, oneDigit 3]⟩ ∧
      ¬DecidedRight Unicode.basic ⟨oneDigit 1, [oneDigit 2, oneDigit 3, oneDigit 4]⟩
        ⟨oneDigit 1, [oneDigit 2, oneDigit 3]⟩ ⟨oneDigit 2, []⟩ := by
  constructor
  · rw [orderedRight_iff]
    intro h
    rcases h (by decide) with h | h
    · exact absurd h.1 (by decide)
    · exact absurd h.2.1 (by decide)
  · intro h
    have hmissed : versionAffected Unicode.basic "1.2.3.4".toList fixedInTwo = false := by decide
    have hbelow : ¬Below [1, 2, 3, 4] [1, 2, 3] ∧ Below [1, 2, 3, 4] [2] := by
      simp [below_cons_cons, not_below_nil]
    have haffected := (h fixedInTwo rfl rfl).mpr hbelow
    exact Bool.false_ne_true (hmissed.symm.trans haffected)

end Ranges

end PicoSentry.Scan.Version
