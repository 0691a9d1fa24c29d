import PicoSentry.Foundation.Text

namespace PicoSentry.Foundation

-- The characters for which str.isspace holds and which \s matches.
def whitespaceCodes : List Nat :=
  [0x09, 0x0A, 0x0B, 0x0C, 0x0D, 0x1C, 0x1D, 0x1E, 0x1F, 0x20, 0x85, 0xA0, 0x1680, 0x2000, 0x2001, 0x2002, 0x2003,
   0x2004, 0x2005, 0x2006, 0x2007, 0x2008, 0x2009, 0x200A, 0x2028, 0x2029, 0x202F, 0x205F, 0x3000]

def formatCodes : List Nat := [0x200B, 0x200C, 0x200D, 0x200E, 0x200F, 0xFEFF]

def asciiWord (c : Char) : Bool := c.isAlphanum || c == '_'

def asciiPrintable (c : Char) : Bool := 32 ≤ c.toNat && c.toNat ≤ 126

-- The tables that \w, \s, \d and the predicates of str are read from.
structure CharTables extends Unicode where
  word : Char → Bool
  printable : Char → Bool
  isUpper : Char → Bool
  isLower : Char → Bool
  space_exact : ∀ c, space c = whitespaceCodes.contains c.toNat
  word_ascii : ∀ c, c.toNat < 128 → word c = asciiWord c
  printable_ascii : ∀ c, c.toNat < 128 → printable c = asciiPrintable c
  word_of_digit : ∀ c, (digit c).isSome = true → word c = true
  not_word_of_space : ∀ c, space c = true → word c = false
  not_word_of_format : ∀ c, c.toNat ∈ formatCodes → word c = false
  lower_of_isLower : ∀ c, isLower c = true → lower c = [c]
  not_isLower_sigma : isLower 'Σ' = false

namespace CharTables

theorem space_codes_ascii {c : Char} (h : c.toNat < 128) :
    whitespaceCodes.contains c.toNat = asciiSpaces.contains c.toNat := by
  have hall : ∀ n < 128, whitespaceCodes.contains n = asciiSpaces.contains n := by decide
  exact hall c.toNat h

theorem asciiWord_of_code {c : Char} (h : c.toNat ∈ whitespaceCodes ++ formatCodes) : asciiWord c = false := by
  have hall : ∀ n ∈ whitespaceCodes ++ formatCodes, asciiWord (Char.ofNat n) = false := by decide
  rw [← Char.ofNat_toNat c]
  exact hall c.toNat h

theorem asciiWord_of_digit {c : Char} (h : (asciiDigit c).isSome = true) : asciiWord c = true := by
  rw [asciiDigit] at h
  split at h
  · next hdigit =>
    have hd : c.isDigit = true := by
      rw [Char.isDigit, Bool.and_eq_true, decide_eq_true_eq, decide_eq_true_eq]
      exact hdigit
    rw [asciiWord, Char.isAlphanum, hd, Bool.or_true, Bool.true_or]
  · cases h

theorem lower_basic_of_isLower {c : Char} (h : c.isLower = true) : Unicode.basic.lower c = [c] := by
  have hrange : 97 ≤ c.toNat ∧ c.toNat ≤ 122 := by
    unfold Char.isLower at h
    rw [Bool.and_eq_true, decide_eq_true_eq, decide_eq_true_eq, ge_iff_le, UInt32.le_iff_toNat_le,
      UInt32.le_iff_toNat_le] at h
    exact h
  have hall : ∀ n < 123, 97 ≤ n → Unicode.basic.lower (Char.ofNat n) = [Char.ofNat n] := by decide
  have hlower := hall c.toNat (by omega) hrange.1
  rwa [Char.ofNat_toNat] at hlower

-- The tables restricted to ASCII, with every whitespace character.
def basic : CharTables where
  toUnicode :=
    { Unicode.basic with
      space := fun c => whitespaceCodes.contains c.toNat
      space_ascii := fun _ h => space_codes_ascii h }
  word := asciiWord
  printable := asciiPrintable
  isUpper := Char.isUpper
  isLower := Char.isLower
  space_exact _ := rfl
  word_ascii _ _ := rfl
  printable_ascii _ _ := rfl
  word_of_digit _ h := asciiWord_of_digit h
  not_word_of_space _ h := asciiWord_of_code (List.mem_append_left _ (List.contains_iff_mem.mp h))
  not_word_of_format _ h := asciiWord_of_code (List.mem_append_right _ h)
  lower_of_isLower _ h := lower_basic_of_isLower h
  not_isLower_sigma := by decide

end CharTables

end PicoSentry.Foundation
