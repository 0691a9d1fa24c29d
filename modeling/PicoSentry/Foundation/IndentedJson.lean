import PicoSentry.Foundation.CompactJson

namespace PicoSentry.Foundation.Json

section Distinct

mutual

-- A repeated key keeps its first place and its last value, as in a parsed dict.
def distinct : Json → Json
  | .arr items => .arr (distinctItems items)
  | .obj fields => .obj (.ofList (Dict.ofPairs (distinctFields fields)))
  | j => j

def distinctItems : JsonItems → JsonItems
  | .nil => .nil
  | .cons j js => .cons (distinct j) (distinctItems js)

def distinctFields : JsonFields → List (Str × Json)
  | .nil => []
  | .cons k j fs => (k, distinct j) :: distinctFields fs

end

def nonzeroDigits (text : Str) : Bool :=
  (text.takeWhile fun c => !isExponentMark c).any fun c => c ≠ '0' && c ≠ '.' && c ≠ '-'

def truthy : Json → Bool
  | .null => false
  | .bool b => b
  | .int n => n ≠ 0
  | .float text => nonzeroDigits text
  | .str s => s ≠ []
  | .arr .nil => false
  | .arr _ => true
  | .obj .nil => false
  | .obj _ => true

end Distinct

section Indented

def lineBreak (level : Nat) : Str := '\n' :: List.replicate (2 * level) ' '

mutual

-- json.dumps with indent=2
def renderIndented (level : Nat) : Json → Str
  | .arr .nil => "[]".toList
  | .arr (.cons j js) =>
    '[' :: lineBreak (level + 1) ++ renderIndented (level + 1) j ++ indentedItems level js
  | .obj .nil => "\x7b\x7d".toList
  | .obj (.cons k j fs) =>
    '\x7b' :: lineBreak (level + 1) ++ quote k ++ ": ".toList ++ renderIndented (level + 1) j ++
      indentedFields level fs
  | .null => "null".toList
  | .bool true => "true".toList
  | .bool false => "false".toList
  | .int n => intText n
  | .float text => text
  | .str s => quote s

def indentedItems (level : Nat) : JsonItems → Str
  | .nil => lineBreak level ++ [']']
  | .cons j js =>
    ',' :: lineBreak (level + 1) ++ renderIndented (level + 1) j ++ indentedItems level js

def indentedFields (level : Nat) : JsonFields → Str
  | .nil => lineBreak level ++ ['\x7d']
  | .cons k j fs =>
    ',' :: lineBreak (level + 1) ++ quote k ++ ": ".toList ++ renderIndented (level + 1) j ++
      indentedFields level fs

end

def dumpsIndented (j : Json) : Str := renderIndented 0 (sortKeys j)

theorem blank_lineBreak (level : Nat) : Blank (lineBreak level) := by
  intro c hc
  rcases List.mem_cons.mp hc with rfl | hc
  · rfl
  · rw [List.eq_of_mem_replicate hc]
    rfl

def indented : Layout where
  opening := fun level => lineBreak (level + 1)
  between := fun level => lineBreak (level + 1)
  colon := [' ']
  closing := lineBreak
  blank_opening := fun level => blank_lineBreak (level + 1)
  blank_between := fun level => blank_lineBreak (level + 1)
  blank_colon := blank_space
  blank_closing := blank_lineBreak

mutual

theorem laid_indented (level : Nat) (j : Json) : laid indented level j = renderIndented level j := by
  cases j with
  | arr items => cases items with
    | nil => rfl
    | cons j js =>
      rw [laid, laid_indented (level + 1) j, laidItems_indented level js]
      rfl
  | obj fields => cases fields with
    | nil => rfl
    | cons k j fs =>
      rw [laid, laid_indented (level + 1) j, laidFields_indented level fs]
      simp [renderIndented, indented]
  | bool b => cases b <;> rfl
  | _ => rfl

theorem laidItems_indented (level : Nat) (js : JsonItems) :
    laidItems indented level js = indentedItems level js := by
  cases js with
  | nil => rfl
  | cons j js =>
    rw [laidItems, laid_indented (level + 1) j, laidItems_indented level js]
    rfl

theorem laidFields_indented (level : Nat) (fs : JsonFields) :
    laidFields indented level fs = indentedFields level fs := by
  cases fs with
  | nil => rfl
  | cons k j fs =>
    rw [laidFields, laid_indented (level + 1) j, laidFields_indented level fs]
    simp [indentedFields, indented]

end

theorem loads_renderIndented {j : Json} (h : WellFormed j) : loads (renderIndented 0 j) = some j := by
  rw [← laid_indented]
  exact loads_laid h

theorem loads_renderIndented_line {j : Json} (h : WellFormed j) :
    loads (renderIndented 0 j ++ ['\n']) = some j := by
  have hline : Blank ['\n'] := by simp [Blank, isSpace]
  rw [← laid_indented]
  exact loads_laid_blank h hline

theorem renderIndented_inj {j j' : Json} (hj : j.WellFormed) (hj' : j'.WellFormed)
    (h : renderIndented 0 j = renderIndented 0 j') : j = j' := by
  have hloads := loads_renderIndented hj
  rw [h, loads_renderIndented hj'] at hloads
  exact (Option.some.inj hloads).symm

theorem loads_dumpsIndented {j : Json} (h : WellFormed j) :
    loads (dumpsIndented j) = some (sortKeys j) :=
  loads_renderIndented (wellFormed_sortKeys h)

theorem insertField_ne_nil (k : Str) (j : Json) (fs : JsonFields) : insertField k j fs ≠ .nil := by
  intro h
  cases fs with
  | nil => cases h
  | cons k' j' fs =>
    rw [insertField] at h
    split at h
    · cases h
    · cases h

theorem sortFields_ne_nil {fs : JsonFields} (h : fs ≠ .nil) : sortFields fs ≠ .nil := by
  cases fs with
  | nil => exact absurd rfl h
  | cons k j fs => exact insertField_ne_nil k (sortKeys j) (sortFields fs)

theorem dumpsIndented_ne_dumpsCompact {fs fs' : JsonFields} (h : fs ≠ .nil) (h' : fs' ≠ .nil) :
    dumpsIndented (.obj fs) ≠ dumpsCompact (.obj fs') := by
  rw [dumpsIndented, dumpsCompact, sortKeys, sortKeys]
  have hne := sortFields_ne_nil h
  have hne' := sortFields_ne_nil h'
  cases hfs : sortFields fs with
  | nil => exact absurd hfs hne
  | cons k j rest =>
    cases hfs' : sortFields fs' with
    | nil => exact absurd hfs' hne'
    | cons k' j' rest' =>
      intro heq
      exact absurd (List.cons.inj (List.cons.inj heq).2).1 (by decide)

end Indented

end PicoSentry.Foundation.Json
