import Mathlib.Data.List.TakeWhile
import PicoSentry.Foundation.Text

namespace PicoSentry.Foundation

abbrev Bytes := List UInt8

section Utf8

def utf8 (s : Str) : Bytes := s.flatMap String.utf8EncodeChar

theorem utf8_append (s t : Str) : utf8 (s ++ t) = utf8 s ++ utf8 t := List.flatMap_append

theorem utf8_injective : Function.Injective utf8 := by
  intro s t h
  have hencode : ∀ r : Str, r.utf8Encode = (utf8 r).toByteArray := fun _ => rfl
  have hdecode : some s.toArray = some t.toArray := by
    rw [← List.utf8Decode?_utf8Encode, ← List.utf8Decode?_utf8Encode, hencode, hencode, h]
  exact List.toArray_inj (Option.some.inj hdecode)

theorem ofNat_ne_zero {n : Nat} (h : n % 256 ≠ 0) : UInt8.ofNat n ≠ 0 := by
  intro hzero
  have hnat := congrArg UInt8.toNat hzero
  rw [UInt8.toNat_ofNat'] at hnat
  exact h hnat

theorem zero_not_mem_utf8EncodeChar {c : Char} (h : c ≠ '\x00') : 0 ∉ String.utf8EncodeChar c := by
  have hpos : c.val.toNat ≠ 0 := fun hzero => h (Char.ext (UInt32.toNat_inj.mp hzero))
  have hne : ∀ n, n % 256 ≠ 0 → ¬(0 : UInt8) = UInt8.ofNat n := fun n hn heq => ofNat_ne_zero hn heq.symm
  rw [String.utf8EncodeChar]
  split_ifs
  · simp only [List.mem_cons, List.not_mem_nil, or_false]
    exact hne _ (by omega)
  · simp only [List.mem_cons, List.not_mem_nil, or_false, not_or]
    exact ⟨hne _ (by omega), hne _ (by omega)⟩
  · simp only [List.mem_cons, List.not_mem_nil, or_false, not_or]
    exact ⟨hne _ (by omega), hne _ (by omega), hne _ (by omega)⟩
  · simp only [List.mem_cons, List.not_mem_nil, or_false, not_or]
    exact ⟨hne _ (by omega), hne _ (by omega), hne _ (by omega), hne _ (by omega)⟩

theorem zero_not_mem_utf8 {s : Str} (h : '\x00' ∉ s) : 0 ∉ utf8 s := by
  intro hzero
  obtain ⟨c,hc,hbyte⟩ := List.mem_flatMap.mp hzero
  exact zero_not_mem_utf8EncodeChar (ne_of_mem_of_not_mem hc h) hbyte

end Utf8

section Records

-- A key up to its zero byte and a value of a fixed length.
def record (p : Bytes × Bytes) : Bytes := p.1 ++ 0 :: p.2

def records (ps : List (Bytes × Bytes)) : Bytes := ps.flatMap record

def token (bs : Bytes) : Bytes := bs.takeWhile (· ≠ 0)

structure Tagged (P : Bytes → Prop) (width : Nat) (p : Bytes × Bytes) : Prop where
  terminated : 0 ∉ p.1
  key : P p.1
  value : p.2.length = width

theorem token_append_zero {key : Bytes} (h : 0 ∉ key) (rest : Bytes) : token (key ++ 0 :: rest) = key := by
  rw [token, List.takeWhile_append_of_pos (fun b hb => decide_eq_true (ne_of_mem_of_not_mem hb h))]
  simp

variable {P : Bytes → Prop} {width : Nat} {ps qs : List (Bytes × Bytes)} {s t : Bytes}

theorem records_cons (p : Bytes × Bytes) (ps : List (Bytes × Bytes)) (s : Bytes) :
    records (p :: ps) ++ s = p.1 ++ 0 :: (p.2 ++ (records ps ++ s)) := by
  simp [records, record]

-- By induction on the records: the next key tells a further record from what follows the last one.
theorem records_append_inj (hp : ∀ p ∈ ps, Tagged P width p) (hq : ∀ q ∈ qs, Tagged P width q)
    (hs : ¬P (token s)) (ht : ¬P (token t)) (h : records ps ++ s = records qs ++ t) :
    ps = qs ∧ s = t := by
  induction ps generalizing qs with
  | nil =>
    cases qs with
    | nil => exact ⟨rfl, h⟩
    | cons q qs =>
      have hfirst := hq q List.mem_cons_self
      have hs' : s = q.1 ++ 0 :: (q.2 ++ (records qs ++ t)) := h.trans (records_cons q qs t)
      rw [hs', token_append_zero hfirst.terminated] at hs
      exact absurd hfirst.key hs
  | cons p ps ih =>
    have hfirst := hp p List.mem_cons_self
    cases qs with
    | nil =>
      have ht' : t = p.1 ++ 0 :: (p.2 ++ (records ps ++ s)) := h.symm.trans (records_cons p ps s)
      rw [ht', token_append_zero hfirst.terminated] at ht
      exact absurd hfirst.key ht
    | cons q qs =>
      have hsecond := hq q List.mem_cons_self
      rw [records_cons, records_cons] at h
      have hkey : p.1 = q.1 := by
        rw [← token_append_zero hfirst.terminated, h, token_append_zero hsecond.terminated]
      rw [hkey] at h
      have hvalue := (List.cons.inj (List.append_cancel_left h)).2
      obtain ⟨hval,hrest⟩ := List.append_inj hvalue (hfirst.value.trans hsecond.value.symm)
      obtain ⟨rfl,rfl⟩ := ih (fun p hp' => hp p (List.mem_cons_of_mem _ hp'))
        (fun q hq' => hq q (List.mem_cons_of_mem _ hq')) hrest
      exact ⟨by rw [Prod.ext hkey hval], rfl⟩

end Records

end PicoSentry.Foundation
