import Mathlib.Data.List.DropRight
import PicoSentry.Foundation.Text

namespace PicoSentry.Foundation

section Split

-- str.split(sep, 1): what stands before the first occurrence of sep and behind it.
def splitOnce (sep : Str) : Str → Option (Str × Str)
  | [] => none
  | c :: rest =>
    if sep <+: c :: rest then some ([], (c :: rest).drop sep.length)
    else (splitOnce sep rest).map fun parts => (c :: parts.1, parts.2)

variable {sep s before after : Str}

theorem splitOnce_eq_some (h : splitOnce sep s = some (before, after)) :
    s = before ++ sep ++ after ∧ (sep ≠ [] → ¬sep <:+: before) := by
  induction s generalizing before with
  | nil => cases h
  | cons c s ih =>
    rw [splitOnce] at h
    split at h
    · next hsep =>
      obtain ⟨rest,hrest⟩ := hsep
      cases h
      rw [← hrest, List.drop_left]
      exact ⟨rfl, fun hne hnil => hne (List.infix_nil.mp hnil)⟩
    · next hsep =>
      obtain ⟨⟨first,rest⟩,hrest,heq⟩ := Option.map_eq_some_iff.mp h
      cases heq
      obtain ⟨rfl,hfirst⟩ := ih hrest
      refine ⟨rfl, fun hne hinside => ?_⟩
      rcases List.infix_cons_iff.mp hinside with hbegins | hinside
      · refine hsep (hbegins.trans ?_)
        rw [List.append_assoc, ← List.cons_append]
        exact List.prefix_append _ _
      · exact hfirst hne hinside

theorem splitOnce_eq_none_iff (hsep : sep ≠ []) : splitOnce sep s = none ↔ ¬sep <:+: s := by
  induction s with
  | nil => exact iff_of_true rfl fun h => hsep (List.infix_nil.mp h)
  | cons c s ih =>
    rw [splitOnce, List.infix_cons_iff, not_or]
    split
    · next h => exact iff_of_false (by simp) fun hnot => hnot.1 h
    · next h => rw [Option.map_eq_none_iff, ih, and_iff_right h]

end Split

namespace Unicode

variable {U : Unicode} {s : Str}

theorem strip_eq_rdropWhile (s : Str) : U.strip s = (s.dropWhile U.space).rdropWhile U.space := rfl

theorem strip_parts (U : Unicode) (s : Str) : ∃ before after, s = before ++ U.strip s ++ after ∧
    (∀ c ∈ before, U.space c = true) ∧ ∀ c ∈ after, U.space c = true := by
  refine ⟨s.takeWhile U.space, (s.dropWhile U.space).rtakeWhile U.space, ?_, ?_, ?_⟩
  · rw [strip_eq_rdropWhile, List.append_assoc, List.rdropWhile_append_rtakeWhile,
      List.takeWhile_append_dropWhile]
  · exact fun c hc => List.mem_takeWhile_imp hc
  · exact fun c hc => List.mem_rtakeWhile_imp hc

theorem strip_append_spaces {after : Str} (hafter : ∀ c ∈ after, U.space c = true) (s : Str) :
    U.strip (s ++ after) = U.strip s := by
  rw [strip_eq_rdropWhile, strip_eq_rdropWhile, List.dropWhile_append]
  split
  · next h =>
    rw [List.isEmpty_iff.mp h, List.dropWhile_eq_nil_iff.mpr hafter]
  · rw [List.rdropWhile, List.reverse_append, List.dropWhile_append_of_pos (by simpa using hafter)]
    rfl

theorem strip_spaces_append {before : Str} (hbefore : ∀ c ∈ before, U.space c = true) (s : Str) :
    U.strip (before ++ s) = U.strip s := by
  rw [strip, List.dropWhile_append_of_pos hbefore]
  rfl

theorem strip_strip (s : Str) : U.strip (U.strip s) = U.strip s := by
  obtain ⟨before,after,hs,hbefore,hafter⟩ := strip_parts U s
  conv_rhs => rw [hs, strip_append_spaces hafter, strip_spaces_append hbefore]

theorem strip_inside (s : Str) : U.strip s <:+: s := by
  obtain ⟨before,after,hs,_⟩ := strip_parts U s
  exact ⟨before, after, hs.symm⟩

theorem mem_strip {c : Char} (hc : U.space c = false) : c ∈ U.strip s ↔ c ∈ s := by
  obtain ⟨before,after,hs,hbefore,hafter⟩ := strip_parts U s
  conv_rhs => rw [hs]
  simp only [List.mem_append]
  constructor
  · exact fun h => .inl (.inr h)
  · rintro ((h | h) | h)
    · rw [hbefore c h] at hc
      cases hc
    · exact h
    · rw [hafter c h] at hc
      cases hc

theorem space_head_strip {c : Char} {rest : Str} (h : U.strip s = c :: rest) : U.space c = false := by
  have hbegins : U.strip s <+: s.dropWhile U.space := List.rdropWhile_prefix _ _
  rw [h] at hbegins
  obtain ⟨tail,htail⟩ := hbegins
  have hhead := List.head?_dropWhile_not U.space s
  rw [← htail] at hhead
  simpa using hhead

theorem strip_takeWhile_append (p : Char → Bool) (s : Str) {after : Str}
    (hafter : ∀ c ∈ after, U.space c = true) : U.strip ((s ++ after).takeWhile p) = U.strip (s.takeWhile p) := by
  rw [List.takeWhile_append]
  split
  · next hlength =>
    rw [(List.takeWhile_prefix p).eq_of_length hlength, strip_append_spaces]
    exact fun c hc => hafter c ((List.takeWhile_prefix p).subset hc)
  · rfl

theorem strip_takeWhile {p : Char → Bool} (hp : ∀ c, U.space c = true → p c = true) (s : Str) :
    U.strip ((U.strip s).takeWhile p) = U.strip (s.takeWhile p) := by
  obtain ⟨before,after,hs,hbefore,hafter⟩ := strip_parts U s
  conv_rhs => rw [hs, strip_takeWhile_append p _ hafter,
    List.takeWhile_append_of_pos fun c hc => hp c (hbefore c hc), strip_spaces_append hbefore]

theorem strip_eq_rdropWhile_of_head (hhead : ∀ c, s.head? = some c → U.space c = false) :
    U.strip s = s.rdropWhile U.space := by
  rw [strip_eq_rdropWhile]
  cases s with
  | nil => rfl
  | cons c rest => rw [List.dropWhile_cons_of_neg (by simp [hhead c rfl])]

theorem strip_begins (hhead : ∀ c, s.head? = some c → U.space c = false) : U.strip s <+: s := by
  rw [strip_eq_rdropWhile_of_head hhead]
  exact List.rdropWhile_prefix _ _

theorem infix_strip {word : Str} {d : Char} (hd : U.space d = false)
    (hhead : ∀ c, s.head? = some c → U.space c = false) (h : word ++ [d] <:+: s) : word ++ [d] <:+: U.strip s := by
  obtain ⟨before,after,rfl⟩ := h
  rw [strip_eq_rdropWhile_of_head hhead, List.rdropWhile, List.reverse_append, List.dropWhile_append]
  split
  · rw [List.reverse_append, List.reverse_append, List.reverse_singleton, List.singleton_append, List.cons_append,
      List.dropWhile_cons_of_neg (by simp [hd])]
    exact ⟨before, [], by simp⟩
  · rw [List.reverse_append, List.reverse_reverse]
    exact ((List.infix_append' before _ []).trans (by simp)).trans List.infix_append_left

end Unicode

end PicoSentry.Foundation
