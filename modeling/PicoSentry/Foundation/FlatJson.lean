import PicoSentry.Foundation.CompactJson
import PicoSentry.Foundation.SortedBy

namespace PicoSentry.Foundation.Json

def strings (ps : Dict Str Str) : List (Str × Json) := ps.map fun p => (p.1, .str p.2)

def flat (ps : Dict Str Str) : Json := .obj (.ofList (strings ps))

section Sorted

theorem toList_insertField (k : Str) (j : Json) (fs : JsonFields) :
    (insertField k j fs).toList =
      fs.toList.orderedInsert (fun a b => a.1 ≤ b.1) (k, j) :=
  match fs with
  | .nil => rfl
  | .cons k' j' fs => by
    rw [insertField, JsonFields.toList, List.orderedInsert_cons]
    split
    · next hlt => rw [if_neg (not_le.mpr hlt), JsonFields.toList, toList_insertField k j fs]
    · next hle => rw [if_pos (not_lt.mp hle), JsonFields.toList, JsonFields.toList]

theorem toList_sortFields (fs : JsonFields) :
    (sortFields fs).toList = ascending Prod.fst (fs.toList.map fun f => (f.1, sortKeys f.2)) :=
  match fs with
  | .nil => rfl
  | .cons k j fs => by
    rw [sortFields, toList_insertField, toList_sortFields fs, JsonFields.toList, List.map_cons]
    rfl

theorem sortKeys_flat (ps : Dict Str Str) :
    sortKeys (flat ps) = flat (ascending Prod.fst ps) := by
  have hmap : ((strings ps).map fun f => (f.1, sortKeys f.2)) = strings ps := by
    rw [strings, List.map_map]
    rfl
  have hsort : ascending Prod.fst (strings ps) = strings (ascending Prod.fst ps) := by
    rw [strings, strings, ascending, ascending]
    exact (List.map_insertionSort (fun a b : Str × Str => a.1 ≤ b.1)
      (fun a b : Str × Json => a.1 ≤ b.1) (fun p => (p.1, .str p.2)) ps fun _ _ _ _ => Iff.rfl).symm
  have hlist := toList_sortFields (.ofList (strings ps))
  rw [toList_ofList, hmap, hsort] at hlist
  rw [flat, sortKeys, flat, ← hlist, ofList_toList]

end Sorted

section Inj

theorem renderFields_strings_inj {ps qs : Dict Str Str} {r r' : Str}
    (h : renderFields (.ofList (strings ps)) ++ r = renderFields (.ofList (strings qs)) ++ r') :
    ps = qs := by
  induction ps generalizing qs with
  | nil =>
    cases qs with
    | nil => rfl
    | cons q qs => exact absurd (List.cons.inj h).1 (by decide)
  | cons p ps ih =>
    cases qs with
    | nil => exact absurd (List.cons.inj h).1 (by decide)
    | cons q qs =>
      simp only [strings, List.map_cons, JsonFields.ofList, renderFields, render,
        List.append_assoc, List.append_cancel_left_eq] at h
      obtain ⟨hkey,h⟩ := quote_inj h
      obtain ⟨hvalue,h⟩ := quote_inj (List.append_cancel_left h)
      rw [Prod.ext hkey hvalue, ih h]

theorem render_flat_inj {ps qs : Dict Str Str} (h : render (flat ps) = render (flat qs)) :
    ps = qs := by
  cases ps with
  | nil =>
    cases qs with
    | nil => rfl
    | cons q qs => exact absurd (List.cons.inj (List.cons.inj h).2).1 (by decide)
  | cons p ps =>
    cases qs with
    | nil => exact absurd (List.cons.inj (List.cons.inj h).2).1 (by decide)
    | cons q qs =>
      refine @renderFields_strings_inj _ _ [] [] ?_
      rw [List.append_nil, List.append_nil]
      exact congrArg (", ".toList ++ ·) (List.cons.inj h).2

theorem dumps_flat_eq_iff {ps qs : Dict Str Str} (hps : ps.keys.Nodup) :
    dumps (flat ps) = dumps (flat qs) ↔ ps.Perm qs := by
  rw [dumps, dumps, sortKeys_flat, sortKeys_flat]
  constructor
  · exact fun h => perm_of_ascending_eq Prod.fst (render_flat_inj h)
  · intro h
    rw [ascending_eq_of_perm Prod.fst h fun p hp q hq hk => ?_]
    have hget := Dict.get?_of_mem hps hp
    rw [hk, Dict.get?_of_mem hps hq, Option.some.injEq] at hget
    exact Prod.ext hk hget.symm

end Inj

section Prefixed

inductive Place where
  | outside | afterColon | inside | escaped
deriving DecidableEq

def Place.next : Place → Char → Option Place
  | .outside, c => if c = '"' then some .inside else if c = '\\' then none
      else if c = ':' then some .afterColon else some .outside
  | .afterColon, c => if c = ' ' then some .outside else none
  | .inside, c => if c = '"' then some .outside else if c = '\\' then some .escaped
      else some .inside
  | .escaped, _ => some .inside

def Place.after : Place → Str → Option Place
  | p, [] => some p
  | p, c :: s => (p.next c).bind fun q => q.after s

theorem Place.after_append (p : Place) (s t : Str) :
    p.after (s ++ t) = (p.after s).bind fun q => q.after t := by
  induction s generalizing p with
  | nil => rfl
  | cons c s ih =>
    rw [List.cons_append, Place.after, Place.after, Option.bind_assoc]
    exact congrArg _ (funext ih)

theorem after_plain {s : Str} (h : ∀ c ∈ s, c ≠ '"' ∧ c ≠ '\\') :
    Place.inside.after s = some .inside := by
  induction s with
  | nil => rfl
  | cons c s ih =>
    obtain ⟨hquote,hslash⟩ := h c List.mem_cons_self
    rw [Place.after, Place.next, if_neg hquote, if_neg hslash]
    exact ih fun d hd => h d (List.mem_cons_of_mem c hd)

theorem after_escape (c : Char) {s : Str} (h : ∀ c ∈ s, c ≠ '"' ∧ c ≠ '\\') :
    Place.inside.after ('\\' :: c :: s) = some .inside := by
  have hplain := after_plain h
  exact hplain

theorem hexDigit_plain (d : Nat) (h : d < 16) : hexDigit d ≠ '"' ∧ hexDigit d ≠ '\\' := by
  interval_cases d <;> decide

theorem after_unicodeEscape {n : Nat} (h : n < 0x10000) :
    Place.inside.after (unicodeEscape n) = some .inside := by
  refine after_escape 'u' ?_
  intro c hc
  simp only [List.mem_cons, List.not_mem_nil, or_false] at hc
  rcases hc with rfl | rfl | rfl | rfl
  · exact hexDigit_plain _ (by omega)
  · exact hexDigit_plain _ (by omega)
  · exact hexDigit_plain _ (by omega)
  · exact hexDigit_plain _ (by omega)

theorem after_escapeChar (c : Char) : Place.inside.after (escapeChar c) = some .inside := by
  have hvalid : c.toNat < 0xD800 ∨ 0xDFFF < c.toNat ∧ c.toNat < 0x110000 := c.valid
  rw [escapeChar]
  split
  · rfl
  next hquote =>
  split
  · rfl
  next hslash =>
  iterate 5
    split
    · rfl
  split
  · exact after_plain (by simp [hquote, hslash])
  split
  · next h => exact after_unicodeEscape h
  · have hhigh : 0xD800 + (c.toNat - 0x10000) / 1024 < 0x10000 := by omega
    have hlow : 0xDC00 + (c.toNat - 0x10000) % 1024 < 0x10000 := by omega
    rw [Place.after_append, after_unicodeEscape hhigh, Option.bind_some, after_unicodeEscape hlow]

theorem after_quote (s : Str) : Place.outside.after (quote s) = some .outside := by
  have hbody : Place.inside.after (s.flatMap escapeChar) = some .inside := by
    induction s with
    | nil => rfl
    | cons c s ih =>
      rw [List.flatMap_cons, Place.after_append, after_escapeChar]
      exact ih
  rw [quote, List.cons_append, Place.after, Place.next, if_pos rfl, Option.bind_some,
    Place.after_append, hbody]
  rfl

theorem after_entry (k v : Str) (rest : Str) :
    Place.outside.after (quote k ++ ": ".toList ++ quote v ++ rest) = Place.outside.after rest := by
  rw [Place.after_append, Place.after_append, Place.after_append, after_quote, Option.bind_some]
  have hcolon : Place.outside.after ": ".toList = some .outside := rfl
  rw [hcolon, Option.bind_some, after_quote, Option.bind_some]

theorem after_renderFields (ps : Dict Str Str) :
    Place.outside.after (renderFields (.ofList (strings ps))) = some .outside := by
  induction ps with
  | nil => rfl
  | cons p ps ih =>
    simp only [strings, List.map_cons, JsonFields.ofList, renderFields, render]
    rw [List.append_assoc, List.append_assoc, List.append_assoc, Place.after_append]
    have hcomma : Place.outside.after ", ".toList = some .outside := rfl
    rw [hcomma, Option.bind_some, ← List.append_assoc, ← List.append_assoc, after_entry]
    exact ih

theorem after_render_flat (ps : Dict Str Str) :
    Place.outside.after (render (flat ps)) = some .outside := by
  cases ps with
  | nil => rfl
  | cons p ps =>
    exact (after_entry p.1 p.2 _).trans (after_renderFields ps)

def Place.opposite : Place → Place → Prop
  | .inside, q => q = .outside ∨ q = .afterColon
  | p, .inside => p = .outside ∨ p = .afterColon
  | _, _ => False

theorem opposite_next {p q p' q' : Place} (h : p.opposite q) {c : Char}
    (hp : p.next c = some p') (hq : q.next c = some q') : p'.opposite q' := by
  cases p <;> cases q <;> simp [Place.opposite, Place.next] at h hp hq <;>
    grind [Place.opposite]

theorem after_opposite {p q p' q' : Place} (h : p.opposite q) {s : Str}
    (hp : p.after s = some p') (hq : q.after s = some q') : p'.opposite q' := by
  induction s generalizing p q with
  | nil =>
    cases hp
    cases hq
    exact h
  | cons c s ih =>
    rw [Place.after, Option.bind_eq_some_iff] at hp hq
    obtain ⟨p₁,hp₁,hp⟩ := hp
    obtain ⟨q₁,hq₁,hq⟩ := hq
    exact ih (opposite_next h hp₁ hq₁) hp hq

theorem after_render_flat_ne {p : Place} (qs : Dict Str Str) (hp : p = .afterColon ∨ p = .inside) :
    p.after (render (flat qs)) ≠ some .outside := by
  intro h
  rcases hp with rfl | rfl
  · have hhead : ∃ t, render (flat qs) = '\x7b' :: t := by
      cases qs with
      | nil => exact ⟨_, rfl⟩
      | cons q qs => exact ⟨_, rfl⟩
    obtain ⟨t,ht⟩ := hhead
    rw [ht] at h
    cases h
  · exact after_opposite (p := .inside) (q := .outside) (.inl rfl) h (after_render_flat qs)

theorem render_flat_ne_prefixed (ps qs : Dict Str Str) (x : Str) :
    render (flat ps) ≠ x ++ ':' :: render (flat qs) := by
  intro h
  have hafter := after_render_flat ps
  rw [h, Place.after_append, Option.bind_eq_some_iff] at hafter
  obtain ⟨p,-,hafter⟩ := hafter
  rw [Place.after, Option.bind_eq_some_iff] at hafter
  obtain ⟨p',hp',hafter⟩ := hafter
  refine after_render_flat_ne qs ?_ hafter
  cases p with
  | outside => exact .inl (Option.some.inj hp').symm
  | afterColon => cases hp'
  | inside => exact .inr (Option.some.inj hp').symm
  | escaped => exact .inr (Option.some.inj hp').symm

theorem prefixed_flat_inj {n n' : Str} {ps qs : Dict Str Str}
    (h : n ++ ':' :: render (flat ps) = n' ++ ':' :: render (flat qs)) :
    n = n' ∧ ps = qs := by
  rcases List.append_eq_append_iff.mp h with ⟨x,rfl,hx⟩ | ⟨x,rfl,hx⟩
  · cases x with
    | nil => exact ⟨(List.append_nil n).symm, render_flat_inj (List.cons.inj hx).2⟩
    | cons c x => exact absurd (List.cons.inj hx).2 (render_flat_ne_prefixed ps qs x)
  · cases x with
    | nil => exact ⟨List.append_nil n', render_flat_inj (List.cons.inj hx).2.symm⟩
    | cons c x => exact absurd (List.cons.inj hx).2 (render_flat_ne_prefixed qs ps x)

theorem prefixed_dumps_eq_iff {n n' : Str} {ps qs : Dict Str Str} (hps : ps.keys.Nodup) :
    n ++ ':' :: dumps (flat ps) = n' ++ ':' :: dumps (flat qs) ↔ n = n' ∧ ps.Perm qs := by
  constructor
  · intro h
    rw [dumps, dumps, sortKeys_flat, sortKeys_flat] at h
    obtain ⟨hn,hsorted⟩ := prefixed_flat_inj h
    exact ⟨hn, perm_of_ascending_eq Prod.fst hsorted⟩
  · rintro ⟨rfl,hperm⟩
    rw [(dumps_flat_eq_iff hps).mpr hperm]

end Prefixed

end PicoSentry.Foundation.Json
