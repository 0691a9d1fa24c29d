import PicoSentry.Foundation.Json

namespace PicoSentry.Foundation.Url

section Utf8

def replacement : Char := Char.ofNat 0xFFFD

-- A character begun: its bits so far, the bytes still due and the range of the next one.
structure Pending where
  value : Nat
  due : Nat
  low : Nat
  high : Nat
  low_ge : 0x80 ≤ low

def Pending.more (value due : Nat) : Pending := ⟨value, due, 0x80, 0xC0, le_refl _⟩

def leadByte (b : Nat) : Option Pending :=
  if 0xC2 ≤ b ∧ b ≤ 0xDF then some (.more (b - 0xC0) 1)
  else if b = 0xE0 then some ⟨0, 2, 0xA0, 0xC0, by decide⟩
  else if b = 0xED then some ⟨0xD, 2, 0x80, 0xA0, by decide⟩
  else if 0xE1 ≤ b ∧ b ≤ 0xEF then some (.more (b - 0xE0) 2)
  else if b = 0xF0 then some ⟨0, 3, 0x90, 0xC0, by decide⟩
  else if b = 0xF4 then some ⟨4, 3, 0x80, 0x90, by decide⟩
  else if 0xF1 ≤ b ∧ b ≤ 0xF3 then some (.more (b - 0xF0) 3)
  else none

def startByte (b : Nat) : Str × Option Pending :=
  if b < 0x80 then ([Char.ofNat b], none)
  else
    match leadByte b with
    | none => ([replacement], none)
    | some p => ([], some p)

def nextByte (pending : Option Pending) (b : Nat) : Str × Option Pending :=
  match pending with
  | none => startByte b
  | some p =>
    if p.low ≤ b ∧ b < p.high then
      if p.due = 1 then ([Char.ofNat (64 * p.value + b % 64)], none)
      else ([], some (.more (64 * p.value + b % 64) (p.due - 1)))
    else (replacement :: (startByte b).1, (startByte b).2)

-- bytes.decode("utf-8", "replace")
def decodeFrom (pending : Option Pending) : List Nat → Str
  | [] => if pending.isSome then [replacement] else []
  | b :: bs => (nextByte pending b).1 ++ decodeFrom (nextByte pending b).2 bs

def decodeUtf8 (bs : List Nat) : Str := decodeFrom none bs

def startIgnoring (b : Nat) : Str × Option Pending :=
  if b < 0x80 then ([Char.ofNat b], none) else ([], leadByte b)

def nextIgnoring (pending : Option Pending) (b : Nat) : Str × Option Pending :=
  match pending with
  | none => startIgnoring b
  | some p =>
    if p.low ≤ b ∧ b < p.high then
      if p.due = 1 then ([Char.ofNat (64 * p.value + b % 64)], none)
      else ([], some (.more (64 * p.value + b % 64) (p.due - 1)))
    else startIgnoring b

-- bytes.decode("utf-8", "ignore")
def ignoringFrom (pending : Option Pending) : List Nat → Str
  | [] => []
  | b :: bs => (nextIgnoring pending b).1 ++ ignoringFrom (nextIgnoring pending b).2 bs

def decodeIgnoring (bs : List Nat) : Str := ignoringFrom none bs

theorem decodeIgnoring_ascii {s : Str} (h : ∀ c ∈ s, c.toNat < 128) : decodeIgnoring (s.map Char.toNat) = s := by
  rw [decodeIgnoring]
  induction s with
  | nil => rfl
  | cons c s ih =>
    obtain ⟨hc,hs⟩ := List.forall_mem_cons.mp h
    have hnext : nextIgnoring none c.toNat = ([c], none) := by
      rw [nextIgnoring, startIgnoring, if_pos hc, Char.ofNat_toNat]
    rw [List.map_cons, ignoringFrom, hnext, ih hs]
    rfl

theorem decodeFrom_slash (pending : Option Pending) (bs : List Nat) :
    decodeFrom pending (bs ++ [47]) = decodeFrom pending bs ++ ['/'] := by
  induction bs generalizing pending with
  | nil =>
    cases pending with
    | none => rfl
    | some p =>
      have hlow : ¬(p.low ≤ 47 ∧ 47 < p.high) := fun h => by
        have hge := p.low_ge
        omega
      have hnext : nextByte (some p) 47 = (replacement :: (startByte 47).1, (startByte 47).2) :=
        if_neg hlow
      have hfrom : decodeFrom (some p) [47] =
          (nextByte (some p) 47).1 ++ decodeFrom (nextByte (some p) 47).2 [] := rfl
      rw [List.nil_append, hfrom, hnext]
      rfl
  | cons b bs ih => rw [List.cons_append, decodeFrom, decodeFrom, ih, List.append_assoc]

end Utf8

section Unquote

def unquoteBytes : Str → List Nat
  | [] => []
  | '%' :: a :: b :: rest =>
    match Json.hexValue a, Json.hexValue b with
    | some x, some y => (16 * x + y) :: unquoteBytes rest
    | _, _ => 37 :: unquoteBytes (a :: b :: rest)
  | c :: rest => c.toNat :: unquoteBytes rest

def unquoteRuns (run : Str) : Str → Str
  | [] => decodeUtf8 (unquoteBytes run)
  | c :: s =>
    if c.toNat < 128 then unquoteRuns (run ++ [c]) s
    else decodeUtf8 (unquoteBytes run) ++ c :: unquoteRuns [] s

def unquote (s : Str) : Str := if s.contains '%' then unquoteRuns [] s else s

theorem unquoteBytes_other {c : Char} (h : c ≠ '%') (rest : Str) :
    unquoteBytes (c :: rest) = c.toNat :: unquoteBytes rest := by
  rw [unquoteBytes]
  exact fun a b rest' hc _ => h hc

theorem unquoteBytes_escape (a b : Char) (rest : Str) :
    unquoteBytes ('%' :: a :: b :: rest) =
      match Json.hexValue a, Json.hexValue b with
      | some x, some y => (16 * x + y) :: unquoteBytes rest
      | _, _ => 37 :: unquoteBytes (a :: b :: rest) := by
  rw [unquoteBytes]

theorem unquoteBytes_slash (s : Str) : unquoteBytes (s ++ ['/']) = unquoteBytes s ++ [47] := by
  fun_induction unquoteBytes s with
  | case1 => rfl
  | case2 a b rest x y hx hy ih =>
    simp only [List.cons_append, unquoteBytes_escape, hx, hy, ih]
  | case3 a b rest hhex ih =>
    simp only [List.cons_append] at ih ⊢
    rw [unquoteBytes_escape, ih]
    split
    · next x y hx hy => exact absurd hy (hhex x y hx)
    · rfl
  | case4 c rest hother ih =>
    rw [List.cons_append, List.cons_append, ← ih]
    by_cases hc : c = '%'
    · subst hc
      match rest with
      | [] => rfl
      | [a] =>
        have hslash : Json.hexValue '/' = none := by decide
        rw [List.cons_append, List.nil_append, unquoteBytes_escape, hslash]
        cases Json.hexValue a <;> rfl
      | a :: b :: rest => exact absurd rfl (hother a b rest rfl)
    · exact unquoteBytes_other hc _

theorem unquoteRuns_slash (run s : Str) :
    unquoteRuns run (s ++ ['/']) = unquoteRuns run s ++ ['/'] := by
  induction s generalizing run with
  | nil =>
    have hrun : unquoteRuns run ['/'] = unquoteRuns (run ++ ['/']) [] := if_pos (by decide)
    rw [List.nil_append, hrun, unquoteRuns, unquoteRuns, unquoteBytes_slash]
    exact decodeFrom_slash none _
  | cons c s ih =>
    rw [List.cons_append, unquoteRuns, unquoteRuns, ih, ih]
    split
    · rfl
    · rw [List.append_assoc, List.cons_append]

theorem unquote_slash (s : Str) : unquote (s ++ ['/']) = unquote s ++ ['/'] := by
  have hcontains : (s ++ ['/']).contains '%' = s.contains '%' := by simp
  rw [unquote, unquote, hcontains, unquoteRuns_slash]
  split <;> rfl

theorem unquote_slashes (s : Str) (n : Nat) :
    unquote (s ++ List.replicate n '/') = unquote s ++ List.replicate n '/' := by
  induction n with
  | zero => simp
  | succ n ih => rw [List.replicate_succ', ← List.append_assoc, unquote_slash, ih, List.append_assoc]

end Unquote

end PicoSentry.Foundation.Url
