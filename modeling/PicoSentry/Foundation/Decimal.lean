import Mathlib.Tactic.IntervalCases
import PicoSentry.Foundation.Text

namespace PicoSentry.Foundation

def digitChar (d : Nat) : Char := Char.ofNat (48 + d)

def isDigit (c : Char) : Bool := decide (48 ≤ c.toNat) && decide (c.toNat ≤ 57)

def decimalFrom : Nat → Nat → Str → Str
  | 0, _, acc => acc
  | fuel + 1, n, acc =>
    if n < 10 then digitChar n :: acc else decimalFrom fuel (n / 10) (digitChar (n % 10) :: acc)

def decimal (n : Nat) : Str := decimalFrom (n + 1) n []

def intText : Int → Str
  | .ofNat n => decimal n
  | .negSucc n => '-' :: decimal (n + 1)

def digitsValue (v : Nat) (ds : Str) : Nat := ds.foldl (fun v c => 10 * v + (c.toNat - 48)) v

theorem digitsValue_concat (v : Nat) (ds : Str) (c : Char) :
    digitsValue v (ds ++ [c]) = 10 * digitsValue v ds + (c.toNat - 48) := by
  simp [digitsValue]

theorem toNat_digitChar {d : Nat} (h : d < 10) : (digitChar d).toNat = 48 + d := by
  interval_cases d <;> rfl

theorem isDigit_digitChar {d : Nat} (h : d < 10) : isDigit (digitChar d) = true := by
  simp only [isDigit, toNat_digitChar h, Bool.and_eq_true, decide_eq_true_eq]
  omega

theorem decimalFrom_spec (fuel n : Nat) (acc : Str) (h : n < fuel) :
    ∃ d ds, decimalFrom fuel n acc = d :: ds ++ acc ∧ (∀ c ∈ d :: ds, isDigit c = true) ∧
      digitsValue 0 (d :: ds) = n ∧ (d = '0' → n = 0 ∧ ds = []) := by
  induction fuel generalizing n acc with
  | zero => omega
  | succ fuel ih =>
    rw [decimalFrom]
    split
    · next hn =>
      refine ⟨digitChar n, [], rfl, ?_, ?_, ?_⟩
      · simpa using isDigit_digitChar hn
      · simp [digitsValue, toNat_digitChar hn]
      · intro he
        have hz := toNat_digitChar hn
        rw [he] at hz
        exact ⟨by simpa using hz, rfl⟩
    · next hn =>
      have hm : n % 10 < 10 := Nat.mod_lt _ (by omega)
      obtain ⟨d,ds,heq,hdig,hval,hzero⟩ := ih (n / 10) (digitChar (n % 10) :: acc) (by omega)
      refine ⟨d, ds ++ [digitChar (n % 10)], by simp [heq], ?_, ?_, ?_⟩
      · intro c hc
        rw [← List.cons_append, List.mem_append, List.mem_singleton] at hc
        rcases hc with hc | rfl
        · exact hdig c hc
        · exact isDigit_digitChar hm
      · rw [← List.cons_append, digitsValue_concat, hval, toNat_digitChar hm]
        omega
      · intro he
        have := (hzero he).1
        omega

theorem decimal_spec (n : Nat) :
    ∃ d ds, decimal n = d :: ds ∧ (∀ c ∈ d :: ds, isDigit c = true) ∧
      digitsValue 0 (d :: ds) = n ∧ (d = '0' → n = 0 ∧ ds = []) := by
  obtain ⟨d,ds,heq,h⟩ := decimalFrom_spec (n + 1) n [] (by omega)
  exact ⟨d, ds, by simpa [decimal] using heq, h⟩

theorem decimal_injective : Function.Injective decimal := by
  intro m n h
  obtain ⟨d,ds,hm,-,hvalue,-⟩ := decimal_spec m
  obtain ⟨d',ds',hn,-,hvalue',-⟩ := decimal_spec n
  rw [← hvalue, ← hvalue', ← hm, ← hn, h]

end PicoSentry.Foundation
