import PicoSentry.Foundation.Json
import PicoSentry.Foundation.Text

namespace PicoSentry.Foundation

section Lines

-- The lines of a text file, with universal newlines and without the line breaks.
def textLines : Str → List Str
  | [] => []
  | '\r' :: '\n' :: rest => [] :: textLines rest
  | c :: rest =>
    if c = '\n' ∨ c = '\r' then [] :: textLines rest
    else match textLines rest with
      | [] => [[c]]
      | line :: lines => (c :: line) :: lines

def joinLines (lines : List Str) : Str := lines.flatMap fun line => line ++ ['\n']

def Unbroken (line : Str) : Prop := '\n' ∉ line ∧ '\r' ∉ line

theorem textLines_cons {line : Str} (h : Unbroken line) (rest : Str) :
    textLines (line ++ '\n' :: rest) = line :: textLines rest := by
  induction line with
  | nil => rw [List.nil_append, textLines, if_pos (.inl rfl)]; simp
  | cons c line ih =>
    simp only [Unbroken, List.mem_cons, not_or] at h
    rw [List.cons_append, textLines, if_neg (by simp [Ne.symm h.1.1, Ne.symm h.2.1]),
      ih ⟨h.1.2, h.2.2⟩]
    rintro rest' rfl
    exact absurd rfl h.2.1

theorem textLines_joinLines {lines : List Str} (h : ∀ line ∈ lines, Unbroken line) :
    textLines (joinLines lines) = lines := by
  induction lines with
  | nil => rfl
  | cons line lines ih =>
    rw [joinLines, List.flatMap_cons, List.append_assoc, List.singleton_append,
      textLines_cons (h line List.mem_cons_self), ← joinLines,
      ih fun line' hline' => h line' (List.mem_cons_of_mem _ hline')]

theorem joinLines_concat (lines : List Str) (line : Str) :
    joinLines (lines ++ [line]) = joinLines lines ++ line ++ ['\n'] := by
  simp [joinLines]

end Lines

namespace Json

section Printable

def Printable (s : Str) : Prop := ∀ c ∈ s, 32 ≤ c.toNat ∧ c.toNat ≤ 126

instance (s : Str) : Decidable (Printable s) :=
  decidable_of_iff ((s.all fun c => decide (32 ≤ c.toNat ∧ c.toNat ≤ 126)) = true)
    (by simp only [List.all_eq_true, decide_eq_true_eq, Printable])

theorem printable_cons {c : Char} {s : Str} (hc : 32 ≤ c.toNat ∧ c.toNat ≤ 126) (hs : Printable s) :
    Printable (c :: s) := List.forall_mem_cons.mpr ⟨hc, hs⟩

theorem printable_append {s t : Str} (hs : Printable s) (ht : Printable t) : Printable (s ++ t) :=
  List.forall_mem_append.mpr ⟨hs, ht⟩

theorem printable_digits {s : Str} (h : ∀ c ∈ s, isDigit c = true) : Printable s := by
  intro c hc
  have hdigit := h c hc
  simp only [isDigit, decide_eq_true_eq, Bool.and_eq_true] at hdigit
  omega

theorem Printable.unbroken {s : Str} (h : Printable s) : Unbroken s := by
  constructor
  · exact fun hmem => absurd (h _ hmem).1 (by decide)
  · exact fun hmem => absurd (h _ hmem).1 (by decide)

theorem printable_hexDigit {d : Nat} (h : d < 16) :
    32 ≤ (hexDigit d).toNat ∧ (hexDigit d).toNat ≤ 126 := by
  have hall : ∀ d < 16, 32 ≤ (hexDigit d).toNat ∧ (hexDigit d).toNat ≤ 126 := by decide
  exact hall d h

theorem printable_unicodeEscape {n : Nat} (h : n < 0x10000) : Printable (unicodeEscape n) :=
  printable_cons (by decide) <| printable_cons (by decide) <|
    printable_cons (printable_hexDigit (by omega)) <| printable_cons (printable_hexDigit (by omega)) <|
    printable_cons (printable_hexDigit (by omega)) <| printable_cons (printable_hexDigit (by omega)) <|
    fun _ hc => absurd hc List.not_mem_nil

theorem printable_escapeChar (c : Char) : Printable (escapeChar c) := by
  have hvalid : c.toNat < 0xD800 ∨ 0xDFFF < c.toNat ∧ c.toNat < 0x110000 := c.valid
  rw [escapeChar]
  split
  · decide
  split
  · decide
  split
  · decide
  split
  · decide
  split
  · decide
  split
  · decide
  split
  · decide
  split
  · next hprintable => exact printable_cons hprintable fun _ hd => absurd hd List.not_mem_nil
  split
  · next hsmall => exact printable_unicodeEscape hsmall
  · exact printable_append (printable_unicodeEscape (by omega)) (printable_unicodeEscape (by omega))

theorem printable_quote (s : Str) : Printable (quote s) := by
  refine printable_cons (by decide) (printable_append ?_ (by decide))
  intro c hc
  obtain ⟨d,_,hd⟩ := List.mem_flatMap.mp hc
  exact printable_escapeChar d c hd

theorem printable_decimal (n : Nat) : Printable (decimal n) := by
  obtain ⟨d,ds,heq,hdigits,_⟩ := decimal_spec n
  exact heq ▸ printable_digits hdigits

theorem printable_float {text : Str} (h : FloatText text) : Printable text := by
  have hnil : Printable [] := fun _ hc => absurd hc List.not_mem_nil
  rcases h with rfl | rfl | rfl | ⟨negative,n,fraction,exponent,hf,he,_,rfl⟩
  · decide
  · decide
  · decide
  · refine printable_append (printable_append (printable_append ?_ (printable_decimal n)) ?_) ?_
    · cases negative <;> decide
    · rcases hf with rfl | ⟨d,ds,rfl,hdigits⟩
      · exact hnil
      · exact printable_cons (by decide) (printable_digits hdigits)
    · rcases he with rfl | ⟨sign,d,ds,rfl,hsign,hdigits⟩
      · exact hnil
      · refine printable_cons (by decide) (printable_cons ?_ (printable_digits hdigits))
        rcases hsign with rfl | rfl <;> decide

mutual

theorem printable_render {j : Json} (h : WellFormed j) : Printable (render j) := by
  cases j with
  | null => decide
  | bool b => cases b <;> decide
  | int n =>
    cases n with
    | ofNat n => exact printable_decimal n
    | negSucc n => exact printable_cons (by decide) (printable_decimal (n + 1))
  | float text => exact printable_float h
  | str s => exact printable_quote s
  | arr items =>
    cases items with
    | nil => decide
    | cons j js =>
      exact printable_cons (by decide) (printable_append (printable_render h.1) (printable_renderItems h.2))
  | obj fields =>
    cases fields with
    | nil => decide
    | cons k j fs =>
      exact printable_cons (by decide) (printable_append (printable_append (printable_append
        (printable_quote k) (by decide)) (printable_render h.1)) (printable_renderFields h.2))

theorem printable_renderItems {js : JsonItems} (h : WellFormedItems js) : Printable (renderItems js) := by
  cases js with
  | nil => decide
  | cons j js =>
    exact printable_append (printable_append (by decide) (printable_render h.1)) (printable_renderItems h.2)

theorem printable_renderFields {fs : JsonFields} (h : WellFormedFields fs) :
    Printable (renderFields fs) := by
  cases fs with
  | nil => decide
  | cons k j fs =>
    exact printable_append (printable_append (printable_append (printable_append (by decide)
      (printable_quote k)) (by decide)) (printable_render h.1)) (printable_renderFields h.2)

end

theorem printable_dumps {j : Json} (h : WellFormed j) : Printable (dumps j) :=
  printable_render (wellFormed_sortKeys h)

end Printable

section Stripped

variable (U : Unicode)

theorem strip_dumps_obj (fields : JsonFields) :
    U.strip (dumps (.obj fields)) = dumps (.obj fields) := by
  obtain ⟨hhead,t,hend⟩ := render_obj_ends (sortFields fields)
  refine Unicode.strip_eq_of_ends hhead hend ?_ ?_ <;> rw [U.space_ascii _ (by decide)] <;> decide

theorem dumps_obj_ne_nil (fields : JsonFields) : dumps (.obj fields) ≠ [] := by
  intro hnil
  obtain ⟨hhead,_⟩ := render_obj_ends (sortFields fields)
  rw [dumps, sortKeys] at hnil
  rw [hnil] at hhead
  cases hhead

end Stripped

end Json

end PicoSentry.Foundation
