import PicoSentry.Foundation.Json

namespace PicoSentry.Foundation.Base64

section Alphabet

def digitChar (d : Nat) : Char :=
  if d < 26 then Char.ofNat (65 + d)
  else if d < 52 then Char.ofNat (71 + d)
  else if d < 62 then Char.ofNat (d - 4)
  else if d = 62 then '+'
  else '/'

def digitValue (c : Char) : Option Nat :=
  if 'A' ≤ c ∧ c ≤ 'Z' then some (c.toNat - 65)
  else if 'a' ≤ c ∧ c ≤ 'z' then some (c.toNat - 71)
  else if '0' ≤ c ∧ c ≤ '9' then some (c.toNat + 4)
  else if c = '+' then some 62
  else if c = '/' then some 63
  else none

def isDigit (c : Char) : Bool := (digitValue c).isSome

def toUrlsafe (c : Char) : Char := if c = '+' then '-' else if c = '/' then '_' else c

def ofUrlsafe (c : Char) : Char := if c = '-' then '+' else if c = '_' then '/' else c

theorem digitValue_digitChar {d : Nat} (h : d < 64) : digitValue (digitChar d) = some d := by
  have hall : ∀ d < 64, digitValue (digitChar d) = some d := by decide
  exact hall d h

theorem digitChar_ne_pad {d : Nat} (h : d < 64) : digitChar d ≠ '=' := by
  have hall : ∀ d < 64, digitChar d ≠ '=' := by decide
  exact hall d h

theorem ofUrlsafe_toUrlsafe_digitChar {d : Nat} (h : d < 64) : ofUrlsafe (toUrlsafe (digitChar d)) = digitChar d := by
  have hall : ∀ d < 64, ofUrlsafe (toUrlsafe (digitChar d)) = digitChar d := by decide
  exact hall d h

end Alphabet

section Decode

-- a2b_base64 of a text: where it stands in a quad, the bits left over and the padding it has seen.
def decodeFrom (quadPos leftchar pads : Nat) : Str → Option (List Nat)
  | [] => if quadPos = 0 then some [] else none
  | c :: rest =>
    if c = '=' then
      if 2 ≤ quadPos then
        if 4 ≤ quadPos + (pads + 1) then some [] else decodeFrom quadPos leftchar (pads + 1) rest
      else decodeFrom quadPos leftchar pads rest
    else
      match digitValue c with
      | none => decodeFrom quadPos leftchar pads rest
      | some d =>
        match quadPos with
        | 0 => decodeFrom 1 d 0 rest
        | 1 => (decodeFrom 2 (d % 16) 0 rest).map ((leftchar * 4 + d / 16) :: ·)
        | 2 => (decodeFrom 3 (d % 4) 0 rest).map ((leftchar * 16 + d / 4) :: ·)
        | _ => (decodeFrom 0 0 0 rest).map ((leftchar * 64 + d) :: ·)

def decode (s : Str) : Option (List Nat) := decodeFrom 0 0 0 s

def urlsafeDecode (s : Str) : Option (List Nat) := decode (s.map ofUrlsafe)

variable {d : Nat} (h : d < 64) (leftchar pads : Nat) (rest : Str)

include h

theorem decodeFrom_first : decodeFrom 0 leftchar pads (digitChar d :: rest) = decodeFrom 1 d 0 rest := by
  rw [decodeFrom, if_neg (digitChar_ne_pad h), digitValue_digitChar h]
  rfl

theorem decodeFrom_second : decodeFrom 1 leftchar pads (digitChar d :: rest) =
    (decodeFrom 2 (d % 16) 0 rest).map ((leftchar * 4 + d / 16) :: ·) := by
  rw [decodeFrom, if_neg (digitChar_ne_pad h), digitValue_digitChar h]
  rfl

theorem decodeFrom_third : decodeFrom 2 leftchar pads (digitChar d :: rest) =
    (decodeFrom 3 (d % 4) 0 rest).map ((leftchar * 16 + d / 4) :: ·) := by
  rw [decodeFrom, if_neg (digitChar_ne_pad h), digitValue_digitChar h]
  rfl

theorem decodeFrom_fourth : decodeFrom 3 leftchar pads (digitChar d :: rest) =
    (decodeFrom 0 0 0 rest).map ((leftchar * 64 + d) :: ·) := by
  rw [decodeFrom, if_neg (digitChar_ne_pad h), digitValue_digitChar h]
  rfl

end Decode

section Encode

def body : List Nat → Str
  | [] => []
  | [a] => [digitChar (a / 4), digitChar (a % 4 * 16)]
  | [a, b] => [digitChar (a / 4), digitChar (a % 4 * 16 + b / 16), digitChar (b % 16 * 4)]
  | a :: b :: c :: rest =>
    digitChar (a / 4) :: digitChar (a % 4 * 16 + b / 16) :: digitChar (b % 16 * 4 + c / 64) ::
      digitChar (c % 64) :: body rest

def padding (n : Nat) : Str := List.replicate ((3 - n % 3) % 3) '='

def encode (bs : List Nat) : Str := body bs ++ padding bs.length

def urlsafeBody (bs : List Nat) : Str := (body bs).map toUrlsafe

def urlsafeEncode (bs : List Nat) : Str := urlsafeBody bs ++ padding bs.length

theorem padding_step (n : Nat) : padding (n + 3) = padding n := by
  rw [padding, padding, Nat.add_mod_right]

theorem decode_encode (bs : List Nat) (h : ∀ b ∈ bs, b < 256) : decode (encode bs) = some bs := by
  rw [decode, encode]
  fun_induction body bs with
  | case1 => rfl
  | case2 a =>
    have ha := h a (by simp)
    have hpad : padding [a].length = ['=', '='] := rfl
    rw [hpad]
    simp only [List.cons_append, List.nil_append]
    rw [decodeFrom_first (by omega), decodeFrom_second (by omega)]
    have hbyte : a / 4 * 4 + a % 4 * 16 / 16 = a := by omega
    rw [hbyte]
    rfl
  | case3 a b =>
    have ha := h a (by simp)
    have hb := h b (by simp)
    have hpad : padding [a, b].length = ['='] := rfl
    rw [hpad]
    simp only [List.cons_append, List.nil_append]
    rw [decodeFrom_first (by omega), decodeFrom_second (by omega), decodeFrom_third (by omega)]
    have hfirst : a / 4 * 4 + (a % 4 * 16 + b / 16) / 16 = a := by omega
    have hsecond : (a % 4 * 16 + b / 16) % 16 * 16 + b % 16 * 4 / 4 = b := by omega
    rw [hfirst, hsecond]
    rfl
  | case4 a b c rest ih =>
    have ha := h a (by simp)
    have hb := h b (by simp)
    have hc := h c (by simp)
    have hpad : padding (a :: b :: c :: rest).length = padding rest.length := padding_step rest.length
    rw [hpad]
    simp only [List.cons_append]
    rw [decodeFrom_first (by omega), decodeFrom_second (by omega), decodeFrom_third (by omega),
      decodeFrom_fourth (by omega), ih fun x hx => h x (by simp [hx])]
    have hfirst : a / 4 * 4 + (a % 4 * 16 + b / 16) / 16 = a := by omega
    have hsecond : (a % 4 * 16 + b / 16) % 16 * 16 + (b % 16 * 4 + c / 64) / 4 = b := by omega
    have hthird : (b % 16 * 4 + c / 64) % 4 * 64 + c % 64 = c := by omega
    rw [hfirst, hsecond, hthird]
    rfl

theorem body_digits (bs : List Nat) (h : ∀ b ∈ bs, b < 256) : ∀ c ∈ body bs, ∃ d < 64, c = digitChar d := by
  fun_induction body bs with
  | case1 => simp
  | case2 a =>
    have ha := h a (by simp)
    simp only [List.mem_cons, List.not_mem_nil, or_false]
    rintro c (rfl | rfl)
    · exact ⟨_, by omega, rfl⟩
    · exact ⟨_, by omega, rfl⟩
  | case3 a b =>
    have ha := h a (by simp)
    have hb := h b (by simp)
    simp only [List.mem_cons, List.not_mem_nil, or_false]
    rintro c (rfl | rfl | rfl)
    · exact ⟨_, by omega, rfl⟩
    · exact ⟨_, by omega, rfl⟩
    · exact ⟨_, by omega, rfl⟩
  | case4 a b c rest ih =>
    have ha := h a (by simp)
    have hb := h b (by simp)
    have hc := h c (by simp)
    simp only [List.mem_cons]
    rintro x (rfl | rfl | rfl | rfl | hx)
    · exact ⟨_, by omega, rfl⟩
    · exact ⟨_, by omega, rfl⟩
    · exact ⟨_, by omega, rfl⟩
    · exact ⟨_, by omega, rfl⟩
    · exact ih (fun y hy => h y (by simp [hy])) x hx

theorem length_body (bs : List Nat) : 3 * (body bs).length = 4 * bs.length + (bs.length * 2) % 3 := by
  fun_induction body bs with
  | case1 => rfl
  | case2 a => rfl
  | case3 a b => simp
  | case4 a b c rest ih =>
    simp only [List.length_cons]
    omega

theorem map_ofUrlsafe_urlsafeEncode (bs : List Nat) (h : ∀ b ∈ bs, b < 256) :
    (urlsafeEncode bs).map ofUrlsafe = encode bs := by
  have hbody : ((body bs).map toUrlsafe).map ofUrlsafe = body bs := by
    rw [List.map_map]
    refine (List.map_congr_left fun c hc => ?_).trans (List.map_id _)
    obtain ⟨d,hd,rfl⟩ := body_digits bs h c hc
    exact ofUrlsafe_toUrlsafe_digitChar hd
  have hpad : (padding bs.length).map ofUrlsafe = padding bs.length := by
    rw [padding, List.map_replicate]
    rfl
  rw [urlsafeEncode, urlsafeBody, List.map_append, hbody, hpad, encode]

theorem urlsafeDecode_urlsafeEncode (bs : List Nat) (h : ∀ b ∈ bs, b < 256) :
    urlsafeDecode (urlsafeEncode bs) = some bs := by
  rw [urlsafeDecode, map_ofUrlsafe_urlsafeEncode bs h, decode_encode bs h]

end Encode

section Hex

-- bytes.fromhex of a text without blanks.
def fromHex : Str → Option (List Nat)
  | [] => some []
  | [_] => none
  | a :: b :: rest => do
      let x ← Json.hexValue a
      let y ← Json.hexValue b
      let bs ← fromHex rest
      return (16 * x + y) :: bs

inductive Hex : List Nat → Str → Prop
  | nil : Hex [] []
  | cons {b : Nat} {bs : List Nat} {x y : Char} {s : Str} (hx : Json.hexValue x = some (b / 16))
      (hy : Json.hexValue y = some (b % 16)) (hs : Hex bs s) : Hex (b :: bs) (x :: y :: s)

theorem Hex.fromHex {bs : List Nat} {s : Str} (h : Hex bs s) : fromHex s = some bs := by
  induction h with
  | nil => rfl
  | @cons b bs x y s hx hy _ ih =>
    have hbyte : 16 * (b / 16) + b % 16 = b := Nat.div_add_mod b 16
    simp only [Base64.fromHex, hx, hy, ih, Option.bind_eq_bind, Option.bind_some, Option.pure_def, hbyte]

theorem Hex.length {bs : List Nat} {s : Str} (h : Hex bs s) : s.length = 2 * bs.length := by
  induction h with
  | nil => rfl
  | cons _ _ _ ih =>
    simp only [List.length_cons]
    omega

theorem Hex.digits {bs : List Nat} {s : Str} (h : Hex bs s) : ∀ c ∈ s, (Json.hexValue c).isSome = true := by
  induction h with
  | nil => simp
  | cons hx hy _ ih =>
    refine List.forall_mem_cons.mpr ⟨?_, List.forall_mem_cons.mpr ⟨?_, ih⟩⟩
    · rw [hx]
      rfl
    · rw [hy]
      rfl

end Hex

end PicoSentry.Foundation.Base64
