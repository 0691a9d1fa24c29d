import PicoSentry.Foundation.CharTables
import PicoSentry.Foundation.Json

namespace PicoSentry.Foundation

section Join

variable {α β : Type} {f g : β → List α} {l : List β} {sep : List α}

theorem append_eq_append_iff_of_le {a b c d : List α} (hac : c.length ≤ a.length)
    (hbd : d.length ≤ b.length) : a ++ b = c ++ d ↔ a = c ∧ b = d := by
  constructor
  · intro h
    have hlen := congrArg List.length h
    rw [List.length_append, List.length_append] at hlen
    exact List.append_inj h (by omega)
  · rintro ⟨rfl,rfl⟩
    rfl

theorem length_intercalate_map_le (sep : List α) (hle : ∀ x ∈ l, (g x).length ≤ (f x).length) :
    (sep.intercalate (l.map g)).length ≤ (sep.intercalate (l.map f)).length := by
  induction l with
  | nil => rfl
  | cons x l ih =>
    have hx := hle x List.mem_cons_self
    have hl := ih fun y hy => hle y (List.mem_cons_of_mem _ hy)
    cases l with
    | nil => simpa using hx
    | cons y l =>
      simp only [List.map_cons, List.intercalate_cons_cons, List.length_append] at hl ⊢
      omega

theorem intercalate_map_eq_iff (sep : List α) (hle : ∀ x ∈ l, (g x).length ≤ (f x).length) :
    sep.intercalate (l.map f) = sep.intercalate (l.map g) ↔ ∀ x ∈ l, f x = g x := by
  induction l with
  | nil => simp
  | cons x l ih =>
    have hx := hle x List.mem_cons_self
    have hl : ∀ y ∈ l, (g y).length ≤ (f y).length := fun y hy => hle y (List.mem_cons_of_mem _ hy)
    cases l with
    | nil => simp
    | cons y l =>
      have hrest := length_intercalate_map_le sep hl
      simp only [List.map_cons] at hrest ih
      simp only [List.map_cons, List.intercalate_cons_cons]
      rw [append_eq_append_iff_of_le (by simpa using hx) hrest,
        append_eq_append_iff_of_le hx le_rfl, and_iff_left rfl, ih hl]
      exact (List.forall_mem_cons (p := fun x => f x = g x)).symm

theorem infix_intercalate {pieces : List (List α)} {piece : List α} (h : piece ∈ pieces) :
    piece <:+: sep.intercalate pieces := by
  induction pieces with
  | nil => cases h
  | cons first pieces ih =>
    cases pieces with
    | nil =>
      rw [List.mem_singleton.mp h, List.intercalate_singleton]
    | cons next pieces =>
      rw [List.intercalate_cons_cons]
      rcases List.mem_cons.mp h with rfl | h
      · exact ⟨[], sep ++ sep.intercalate (next :: pieces), by simp⟩
      · exact (ih h).trans (List.suffix_append _ _).isInfix

theorem length_le_flatMap {f : α → List α} (hf : ∀ a, 1 ≤ (f a).length) (s : List α) :
    s.length ≤ (s.flatMap f).length := by
  induction s with
  | nil => rfl
  | cons a s ih =>
    have ha := hf a
    rw [List.flatMap_cons, List.length_append, List.length_cons]
    omega

theorem flatMap_eq_self_iff {f : α → List α} {s : List α} (hf : ∀ a, 1 ≤ (f a).length) :
    s.flatMap f = s ↔ ∀ a ∈ s, f a = [a] := by
  induction s with
  | nil => simp
  | cons a s ih =>
    have ha : [a].length ≤ (f a).length := hf a
    have ih' : s.flatMap f = s ↔ ∀ a ∈ s, f a = [a] := ih
    rw [List.flatMap_cons, List.forall_mem_cons, ← ih']
    exact append_eq_append_iff_of_le ha (length_le_flatMap hf s)

end Join

namespace Repr

section Literal

variable (T : CharTables)

def apostrophe : Char := Char.ofNat 39

def quoteOf (s : Str) : Char := if apostrophe ∈ s ∧ '"' ∉ s then '"' else apostrophe

def hexText : Nat → Nat → Str
  | 0, _ => []
  | digits + 1, n => hexText digits (n / 16) ++ [Json.hexDigit (n % 16)]

def escapeOf (q c : Char) : Str :=
  if c = q ∨ c = '\\' then ['\\', c]
  else if c = '\t' then "\\t".toList
  else if c = '\n' then "\\n".toList
  else if c = '\r' then "\\r".toList
  else if T.printable c then [c]
  else if c.toNat < 0x100 then '\\' :: 'x' :: hexText 2 c.toNat
  else if c.toNat < 0x10000 then '\\' :: 'u' :: hexText 4 c.toNat
  else '\\' :: 'U' :: hexText 8 c.toNat

-- repr of a string
def literal (s : Str) : Str := quoteOf s :: s.flatMap (escapeOf T (quoteOf s)) ++ [quoteOf s]

def quoted (s : Str) : Str := quoteOf s :: s ++ [quoteOf s]

structure Verbatim (s : Str) : Prop where
  printable : ∀ c ∈ s, T.printable c = true
  backslash : '\\' ∉ s
  quotes : ¬ (apostrophe ∈ s ∧ '"' ∈ s)

end Literal

section Repr

variable (T : CharTables)

mutual

-- repr of what json.loads gives; a float is held as the text that repr gives of it.
def reprOf : Json → Str
  | .null => "None".toList
  | .bool true => "True".toList
  | .bool false => "False".toList
  | .int n => intText n
  | .float text => text
  | .str s => literal T s
  | .arr items => '[' :: ", ".toList.intercalate (reprItems items) ++ [']']
  | .obj fields => '\x7b' :: ", ".toList.intercalate (reprFields fields) ++ ['\x7d']

def reprItems : JsonItems → List Str
  | .nil => []
  | .cons j js => reprOf j :: reprItems js

def reprFields : JsonFields → List Str
  | .nil => []
  | .cons k j fs => (literal T k ++ ": ".toList ++ reprOf j) :: reprFields fs

end

def strOf : Json → Str
  | .str s => s
  | j => reprOf T j

end Repr

section Verbatim

variable {T : CharTables} {s : Str}

theorem quoteOf_mem_iff : quoteOf s ∈ s ↔ apostrophe ∈ s ∧ '"' ∈ s := by
  rw [quoteOf]
  split
  · next h => exact ⟨fun hmem => absurd hmem h.2, fun hboth => hboth.2⟩
  · next h =>
    constructor
    · intro hmem
      exact ⟨hmem, by_contra fun hnot => h ⟨hmem, hnot⟩⟩
    · exact fun hboth => hboth.1

theorem escapeOf_cases (T : CharTables) (q c : Char) :
    escapeOf T q c = [c] ∧ c ≠ q ∧ c ≠ '\\' ∧ T.printable c = true ∨
      2 ≤ (escapeOf T q c).length ∧ (c = q ∨ c = '\\' ∨ T.printable c = false) := by
  have hcontrol : ∀ d : Char, d.toNat < 32 → T.printable d = false := by
    intro d hd
    rw [T.printable_ascii d (by omega)]
    simp [asciiPrintable]
    omega
  unfold escapeOf
  split
  · next h => exact .inr ⟨by simp, h.imp_right .inl⟩
  · next h =>
    rw [not_or] at h
    split
    · next htab => exact .inr ⟨by simp, .inr (.inr (hcontrol c (by rw [htab]; decide)))⟩
    · split
      · next hline => exact .inr ⟨by simp, .inr (.inr (hcontrol c (by rw [hline]; decide)))⟩
      · split
        · next hreturn => exact .inr ⟨by simp, .inr (.inr (hcontrol c (by rw [hreturn]; decide)))⟩
        · split
          · next hprint => exact .inl ⟨rfl, h.1, h.2, hprint⟩
          · next hprint =>
            have hfalse : T.printable c = false := by simpa using hprint
            refine .inr ⟨?_, .inr (.inr hfalse)⟩
            split
            · simp
            · split <;> simp

theorem escapeOf_eq_iff {q c : Char} :
    escapeOf T q c = [c] ↔ c ≠ q ∧ c ≠ '\\' ∧ T.printable c = true := by
  rcases escapeOf_cases T q c with ⟨heq,hplain⟩ | ⟨hlong,hescaped⟩
  · exact iff_of_true heq hplain
  · refine iff_of_false ?_ ?_
    · intro heq
      rw [heq] at hlong
      exact absurd hlong (by simp)
    · rintro ⟨hq,hbackslash,hprint⟩
      rcases hescaped with h | h | h
      · exact hq h
      · exact hbackslash h
      · rw [hprint] at h
        cases h

theorem length_escapeOf (T : CharTables) (q c : Char) : 1 ≤ (escapeOf T q c).length := by
  rcases escapeOf_cases T q c with ⟨heq,-⟩ | ⟨hlong,-⟩
  · rw [heq]
    rfl
  · exact (Nat.le_succ 1).trans hlong

theorem literal_eq_iff : literal T s = quoted s ↔ Verbatim T s := by
  rw [literal, quoted, List.cons_append, List.cons_append, List.cons.injEq, and_iff_right rfl,
    List.append_left_inj, flatMap_eq_self_iff (length_escapeOf T (quoteOf s))]
  constructor
  · intro h
    have hplain := fun c hc => escapeOf_eq_iff.mp (h c hc)
    refine ⟨fun c hc => (hplain c hc).2.2, fun hmem => (hplain _ hmem).2.1 rfl, fun hboth => ?_⟩
    have hmem := quoteOf_mem_iff.mpr hboth
    exact (hplain _ hmem).1 rfl
  · rintro ⟨hprint,hbackslash,hquotes⟩ c hc
    refine escapeOf_eq_iff.mpr ⟨?_, ?_, hprint c hc⟩
    · rintro rfl
      exact hquotes (quoteOf_mem_iff.mp hc)
    · rintro rfl
      exact hbackslash hc

theorem length_quoted_le (T : CharTables) (s : Str) : (quoted s).length ≤ (literal T s).length := by
  simpa [quoted, literal] using length_le_flatMap (length_escapeOf T (quoteOf s)) s

theorem infix_literal (h : Verbatim T s) : s <:+: literal T s := by
  rw [literal_eq_iff.mpr h]
  exact ⟨[quoteOf s], [quoteOf s], rfl⟩

end Verbatim

section Items

variable {T : CharTables}

theorem reprItems_eq (items : JsonItems) : reprItems T items = items.toList.map (reprOf T) := by
  cases items with
  | nil => rfl
  | cons j js => rw [reprItems, JsonItems.toList, List.map_cons, reprItems_eq js]

theorem reprFields_eq (fields : JsonFields) :
    reprFields T fields =
      fields.toList.map fun p => literal T p.1 ++ ": ".toList ++ reprOf T p.2 := by
  cases fields with
  | nil => rfl
  | cons k j fs => rw [reprFields, JsonFields.toList, List.map_cons, reprFields_eq fs]

end Items

end Repr

end PicoSentry.Foundation
