import Mathlib.Data.List.Basic

namespace PicoSentry.Foundation

abbrev Dict (κ ν : Type) := List (κ × ν)

namespace Dict

variable {κ ν : Type}

def keys (d : Dict κ ν) : List κ := d.map Prod.fst

@[simp] theorem keys_nil : keys ([] : Dict κ ν) = [] := rfl

@[simp] theorem keys_cons (p : κ × ν) (d : Dict κ ν) : keys (p :: d) = p.1 :: keys d := rfl

variable [DecidableEq κ]

def get? : Dict κ ν → κ → Option ν
  | [], _ => none
  | (k', v) :: d, k => if k' = k then some v else get? d k

def set : Dict κ ν → κ → ν → Dict κ ν
  | [], k, v => [(k, v)]
  | (k', v') :: d, k, v => if k' = k then (k', v) :: d else (k', v') :: set d k v

theorem get?_set (d : Dict κ ν) (k k' : κ) (v : ν) :
    get? (set d k v) k' = if k = k' then some v else get? d k' := by
  induction d with
  | nil => simp [set, get?]
  | cons p d ih =>
    obtain ⟨k'',v''⟩ := p
    by_cases h : k'' = k
    · subst h
      simp only [set, if_true, get?]
      split <;> rfl
    · simp only [set, if_neg h, get?, ih]
      by_cases h' : k'' = k'
      · subst h'
        simp [Ne.symm h]
      · simp [h']

@[simp] theorem get?_set_self (d : Dict κ ν) (k : κ) (v : ν) : get? (set d k v) k = some v := by
  simp [get?_set]

theorem mem_set {d : Dict κ ν} {k : κ} {v : ν} {p : κ × ν} (h : p ∈ set d k v) :
    p ∈ d ∨ p = (k, v) := by
  induction d with
  | nil => exact .inr (List.mem_singleton.mp h)
  | cons q d ih =>
    obtain ⟨k',v'⟩ := q
    rw [set] at h
    split at h
    · next hk =>
      subst hk
      rcases List.mem_cons.mp h with h | h
      · exact .inr h
      · exact .inl (List.mem_cons_of_mem _ h)
    · rcases List.mem_cons.mp h with h | h
      · exact .inl (h ▸ List.mem_cons_self)
      · rcases ih h with h | h
        · exact .inl (List.mem_cons_of_mem _ h)
        · exact .inr h

theorem mem_set_self (d : Dict κ ν) (k : κ) (v : ν) : (k, v) ∈ set d k v := by
  induction d with
  | nil => exact List.mem_singleton_self _
  | cons p d ih =>
    obtain ⟨k',v'⟩ := p
    rw [set]
    split
    · next hk => exact hk ▸ List.mem_cons_self
    · exact List.mem_cons_of_mem _ ih

theorem mem_set_of_ne {d : Dict κ ν} {k k' : κ} {v v' : ν} (h : (k', v') ∈ d) (hne : k' ≠ k) :
    (k', v') ∈ set d k v := by
  induction d with
  | nil => exact absurd h List.not_mem_nil
  | cons p d ih =>
    obtain ⟨k'',v''⟩ := p
    rw [set]
    rcases List.mem_cons.mp h with h | h
    · cases h
      rw [if_neg hne]
      exact List.mem_cons_self
    · split
      · exact List.mem_cons_of_mem _ h
      · exact List.mem_cons_of_mem _ (ih h)

theorem keys_set (d : Dict κ ν) (k : κ) (v : ν) :
    keys (set d k v) = if k ∈ keys d then keys d else keys d ++ [k] := by
  induction d with
  | nil => simp [set]
  | cons p d ih =>
    obtain ⟨k',v'⟩ := p
    simp only [set, keys_cons, List.mem_cons]
    split
    · next h => simp [h]
    · next h =>
      rw [keys_cons, ih]
      simp only [Ne.symm h, false_or]
      split
      · rfl
      · rw [List.cons_append]

theorem length_set (d : Dict κ ν) (k : κ) (v : ν) :
    (set d k v).length = if k ∈ keys d then d.length else d.length + 1 := by
  have hlen := congrArg List.length (keys_set d k v)
  rw [keys, List.length_map, apply_ite List.length, List.length_append, keys, List.length_map] at hlen
  exact hlen

theorem length_set_le (d : Dict κ ν) (k : κ) (v : ν) : d.length ≤ (set d k v).length := by
  rw [length_set]
  split <;> omega

theorem mem_keys_set (d : Dict κ ν) (k k' : κ) (v : ν) :
    k' ∈ keys (set d k v) ↔ k' ∈ keys d ∨ k' = k := by
  rw [keys_set]
  split
  · next hk =>
    constructor
    · exact .inl
    · rintro (h | rfl)
      · exact h
      · exact hk
  · simp

theorem keys_set_nodup {d : Dict κ ν} (h : (keys d).Nodup) (k : κ) (v : ν) :
    (keys (set d k v)).Nodup := by
  rw [keys_set]
  split
  · exact h
  · next hk =>
    refine List.nodup_append.mpr ⟨h, by simp, ?_⟩
    rintro a ha b hb rfl
    rw [List.mem_singleton] at hb
    exact hk (hb ▸ ha)

theorem eq_of_keys_eq {d e : Dict κ ν} (hd : (keys d).Nodup) (hk : keys d = keys e)
    (hget : ∀ k ∈ keys d, get? d k = get? e k) : d = e := by
  induction d generalizing e with
  | nil => cases e with
    | nil => rfl
    | cons q e => simp at hk
  | cons p d ih =>
    obtain ⟨k,v⟩ := p
    cases e with
    | nil => simp at hk
    | cons q e =>
      obtain ⟨k',v'⟩ := q
      simp only [keys_cons, List.cons.injEq] at hk
      obtain ⟨rfl,hk⟩ := hk
      simp only [keys_cons, List.nodup_cons] at hd
      have hv : v = v' := by simpa [get?] using hget k (by simp)
      have hrest : d = e := by
        apply ih hd.2 hk
        intro k' hk'
        have hne : k ≠ k' := fun he => hd.1 (he ▸ hk')
        have := hget k' (by simp [hk'])
        simpa [get?, hne] using this
      rw [hv, hrest]

def erase (d : Dict κ ν) (k : κ) : Dict κ ν := d.filter fun p => p.1 ≠ k

theorem get?_erase (d : Dict κ ν) (k k' : κ) :
    get? (erase d k) k' = if k = k' then none else get? d k' := by
  induction d with
  | nil => simp [erase, get?]
  | cons p d ih =>
    obtain ⟨k'',v⟩ := p
    rw [erase] at ih ⊢
    by_cases h : k'' = k
    · subst h
      rw [List.filter_cons_of_neg (by simp), ih, get?]
      split <;> rfl
    · rw [List.filter_cons_of_pos (by simpa using h), get?, ih, get?]
      by_cases hk : k = k'
      · subst hk
        simp [h]
      · simp [hk]

theorem get?_eraseAll (d : Dict κ ν) (ks : List κ) (k : κ) :
    get? (ks.foldl erase d) k = if k ∈ ks then none else get? d k := by
  induction ks generalizing d with
  | nil => simp
  | cons k' ks ih =>
    rw [List.foldl_cons, ih, get?_erase]
    by_cases hk : k ∈ ks
    · simp [hk]
    · simp [hk, eq_comm]

theorem keys_erase_nodup {d : Dict κ ν} (h : (keys d).Nodup) (k : κ) : (keys (erase d k)).Nodup :=
  (List.filter_sublist.map Prod.fst).nodup h

theorem mem_keys_of_get? {d : Dict κ ν} {k : κ} {v : ν} (h : get? d k = some v) : k ∈ keys d := by
  induction d with
  | nil => cases h
  | cons p d ih =>
    rw [keys_cons, List.mem_cons]
    rw [get?] at h
    split at h
    · next hk => exact .inl hk.symm
    · exact .inr (ih h)

theorem exists_get?_of_mem_keys {d : Dict κ ν} {k : κ} (h : k ∈ keys d) :
    ∃ v, get? d k = some v := by
  induction d with
  | nil => cases h
  | cons p d ih =>
    rw [get?]
    split
    · exact ⟨p.2, rfl⟩
    · next hne =>
      rcases List.mem_cons.mp h with rfl | h
      · exact absurd rfl hne
      · exact ih h

theorem not_mem_keys_iff {d : Dict κ ν} {k : κ} : k ∉ keys d ↔ get? d k = none := by
  rw [Option.eq_none_iff_forall_ne_some]
  constructor
  · exact fun h v hv => h (mem_keys_of_get? hv)
  · intro h hk
    obtain ⟨v,hv⟩ := exists_get?_of_mem_keys hk
    exact h v hv

theorem length_erase {d : Dict κ ν} (h : (keys d).Nodup) {k : κ} (hk : k ∈ keys d) :
    (erase d k).length + 1 = d.length := by
  have hkeys : keys (erase d k) = (keys d).erase k := by
    rw [h.erase_eq_filter, keys, keys, erase, List.filter_map]
    exact congrArg (List.map Prod.fst) (List.filter_congr fun p _ => by
      rw [decide_not, Function.comp, bne, beq_eq_decide])
  have hlen := congrArg List.length hkeys
  have hpos := List.length_pos_of_mem hk
  rw [List.length_erase_of_mem hk, keys, List.length_map, keys, List.length_map] at hlen
  rw [keys, List.length_map] at hpos
  omega

theorem mem_of_get? {d : Dict κ ν} {k : κ} {v : ν} (h : get? d k = some v) : (k, v) ∈ d := by
  induction d with
  | nil => cases h
  | cons p d ih =>
    rw [get?] at h
    split at h
    · next hk =>
      cases h
      subst hk
      exact List.mem_cons_self
    · exact List.mem_cons_of_mem _ (ih h)

theorem get?_mapValues {ν' : Type} (d : Dict κ ν) (f : ν → ν') (k : κ) :
    get? (d.map fun p => (p.1, f p.2)) k = (get? d k).map f := by
  induction d with
  | nil => rfl
  | cons p d ih =>
    rw [List.map_cons, get?, get?, ih]
    split <;> rfl

theorem get?_filter {d : Dict κ ν} {k : κ} {v : ν} {f : κ × ν → Bool} (h : get? d k = some v)
    (hf : f (k, v) = true) : get? (d.filter f) k = some v := by
  induction d with
  | nil => cases h
  | cons p d ih =>
    obtain ⟨k',v'⟩ := p
    rw [get?] at h
    split at h
    · next hk =>
      cases h
      subst hk
      rw [List.filter_cons_of_pos hf, get?, if_pos rfl]
    · next hk =>
      rw [List.filter_cons]
      split
      · rw [get?, if_neg hk]
        exact ih h
      · exact ih h

theorem get?_of_mem {d : Dict κ ν} (hd : (keys d).Nodup) {k : κ} {v : ν} (h : (k, v) ∈ d) :
    get? d k = some v := by
  induction d with
  | nil => cases h
  | cons p d ih =>
    rw [keys_cons, List.nodup_cons] at hd
    rw [get?]
    rcases List.mem_cons.mp h with rfl | h
    · rw [if_pos rfl]
    · have hne : p.1 ≠ k := by
        rintro rfl
        exact hd.1 (List.mem_map.mpr ⟨_, h, rfl⟩)
      rw [if_neg hne]
      exact ih hd.2 h

theorem get?_perm {d e : Dict κ ν} (hd : (keys d).Nodup) (h : d.Perm e) (k : κ) :
    get? d k = get? e k := by
  have he : (keys e).Nodup := (h.map Prod.fst).nodup_iff.mp hd
  cases hget : get? d k with
  | some v => exact (get?_of_mem he (h.mem_iff.mp (mem_of_get? hget))).symm
  | none =>
    rw [eq_comm, ← not_mem_keys_iff]
    exact fun hk => not_mem_keys_iff.mpr hget ((h.map Prod.fst).mem_iff.mpr hk)

theorem filter_filterMap_key {β : Type} {f : κ → ν → Option β} {g : β → κ}
    (hg : ∀ k v b, f k v = some b → g b = k) {d : Dict κ ν} (hd : (keys d).Nodup) (k : κ) :
    (d.filterMap fun p => f p.1 p.2).filter (fun b => g b = k) =
      ((get? d k).bind (f k)).toList := by
  induction d with
  | nil => rfl
  | cons p d ih =>
    obtain ⟨k',v⟩ := p
    rw [keys_cons, List.nodup_cons] at hd
    have hrest : k' = k → get? d k = none := by
      rintro rfl
      cases hget : get? d k' with
      | none => rfl
      | some w => exact absurd (mem_keys_of_get? hget) hd.1
    rw [get?, List.filterMap_cons]
    cases hf : f k' v with
    | none =>
      dsimp only
      rw [ih hd.2]
      split
      · next hk =>
        rw [hrest hk, ← hk]
        simp [hf]
      · rfl
    | some b =>
      dsimp only
      rw [List.filter_cons, ih hd.2, hg k' v b hf]
      by_cases hk : k' = k
      · subst hk
        simp [hrest rfl, hf]
      · simp [hk]

theorem filter_flatMap_key {β : Type} {g : β → κ} {d : Dict κ (List β)} (hd : (keys d).Nodup)
    (hg : ∀ p ∈ d, ∀ b ∈ p.2, g b = p.1) (k : κ) :
    (d.flatMap Prod.snd).filter (fun b => g b = k) = (get? d k).getD [] := by
  induction d with
  | nil => rfl
  | cons p d ih =>
    obtain ⟨k',bs⟩ := p
    rw [keys_cons, List.nodup_cons] at hd
    have hrest := ih hd.2 fun p hp => hg p (by simp [hp])
    have hbs : ∀ b ∈ bs, g b = k' := hg (k', bs) (by simp)
    rw [List.flatMap_cons, List.filter_append, hrest, get?]
    split
    · next hk =>
      subst hk
      have hnone : get? d k' = none := by
        cases hget : get? d k' with
        | none => rfl
        | some w => exact absurd (mem_keys_of_get? hget) hd.1
      rw [hnone, List.filter_eq_self.mpr (by simpa using hbs)]
      simp
    · next hk =>
      rw [List.filter_eq_nil_iff.mpr, List.nil_append]
      intro b hb
      simp [hbs b hb, hk]

def modify (d : Dict κ ν) (k : κ) (f : ν → ν) : Dict κ ν :=
  match get? d k with
  | none => d
  | some v => set d k (f v)

theorem get?_modify (d : Dict κ ν) (k : κ) (f : ν → ν) (k' : κ) :
    get? (modify d k f) k' = if k = k' then (get? d k').map f else get? d k' := by
  rw [modify]
  split
  · next hnone =>
    split
    · next hk =>
      subst hk
      rw [hnone]
      rfl
    · rfl
  · next v hget =>
    rw [get?_set]
    split
    · next hk =>
      subst hk
      rw [hget]
      rfl
    · rfl

theorem keys_modify_nodup {d : Dict κ ν} (h : (keys d).Nodup) (k : κ) (f : ν → ν) :
    (keys (modify d k f)).Nodup := by
  rw [modify]
  split
  · exact h
  · exact keys_set_nodup h k _

def setDefault (d : Dict κ ν) (k : κ) (v : ν) : Dict κ ν :=
  if (get? d k).isSome then d else set d k v

theorem isSome_get?_setDefault (d : Dict κ ν) (k k' : κ) (v : ν) :
    (get? (setDefault d k v) k').isSome ↔ k = k' ∨ (get? d k').isSome := by
  rw [setDefault]
  split
  · next h =>
    constructor
    · exact .inr
    · rintro (rfl | h')
      · exact h
      · exact h'
  · rw [get?_set]
    split
    · next h => simp [h]
    · next h => simp [h]

theorem get?_append (d e : Dict κ ν) (k : κ) : get? (d ++ e) k = (get? d k).or (get? e k) := by
  induction d with
  | nil => rfl
  | cons p d ih =>
    rw [List.cons_append, get?, get?, ih]
    split <;> rfl

section OfPairs

def setAll (d : Dict κ ν) (ps : List (κ × ν)) : Dict κ ν := ps.foldl (fun d p => set d p.1 p.2) d

def ofPairs (ps : List (κ × ν)) : Dict κ ν := setAll [] ps

def lastOf (ps : List (κ × ν)) (k : κ) : Option ν :=
  (ps.reverse.find? fun p => p.1 = k).map Prod.snd

theorem get?_setAll (d : Dict κ ν) (ps : List (κ × ν)) (k : κ) :
    get? (setAll d ps) k = (lastOf ps k).or (get? d k) := by
  induction ps generalizing d with
  | nil => simp [setAll, lastOf]
  | cons p ps ih =>
    rw [setAll, List.foldl_cons, ← setAll, ih, get?_set]
    simp only [lastOf, List.reverse_cons, List.find?_append]
    cases ps.reverse.find? fun p => p.1 = k with
    | some q => simp
    | none => by_cases hk : p.1 = k <;> simp [hk]

theorem mem_setAll {d : Dict κ ν} {ps : List (κ × ν)} {p : κ × ν} (h : p ∈ setAll d ps) :
    p ∈ d ∨ p ∈ ps := by
  induction ps generalizing d with
  | nil => exact .inl h
  | cons q ps ih =>
    rcases ih h with h | h
    · rcases mem_set h with h | rfl
      · exact .inl h
      · exact .inr List.mem_cons_self
    · exact .inr (List.mem_cons_of_mem _ h)

theorem mem_ofPairs {ps : List (κ × ν)} {p : κ × ν} (h : p ∈ ofPairs ps) : p ∈ ps :=
  (mem_setAll h).resolve_left List.not_mem_nil

theorem lastOf_eq_none {ps : Dict κ ν} {k : κ} (h : get? ps k = none) : lastOf ps k = none := by
  rw [← not_mem_keys_iff] at h
  rw [lastOf, Option.map_eq_none_iff, List.find?_eq_none]
  intro p hp hk
  rw [decide_eq_true_eq] at hk
  exact h (List.mem_map.mpr ⟨p, List.mem_reverse.mp hp, hk⟩)

theorem lastOf_of_nodup {ps : Dict κ ν} (h : (keys ps).Nodup) (k : κ) : lastOf ps k = get? ps k := by
  induction ps with
  | nil => rfl
  | cons p ps ih =>
    rw [keys_cons, List.nodup_cons] at h
    have hcons : lastOf (p :: ps) k = (lastOf ps k).or (if p.1 = k then some p.2 else none) := by
      simp only [lastOf, List.reverse_cons, List.find?_append]
      cases ps.reverse.find? fun p => p.1 = k with
      | some q => simp
      | none => by_cases hk : p.1 = k <;> simp [hk]
    rw [hcons, ih h.2, get?]
    split
    · next hk =>
      subst hk
      cases hget : get? ps p.1 with
      | none => rfl
      | some v => exact absurd (mem_keys_of_get? hget) h.1
    · rw [Option.or_none]

theorem get?_ofPairs (ps : List (κ × ν)) (k : κ) : get? (ofPairs ps) k = lastOf ps k := by
  simp [ofPairs, get?_setAll, get?]

theorem keys_setAll_nodup {d : Dict κ ν} (h : (keys d).Nodup) (ps : List (κ × ν)) :
    (keys (setAll d ps)).Nodup := by
  induction ps generalizing d with
  | nil => exact h
  | cons p ps ih => exact ih (keys_set_nodup h p.1 p.2)

theorem set_of_not_mem {d : Dict κ ν} {k : κ} (h : k ∉ keys d) (v : ν) : set d k v = d ++ [(k, v)] := by
  induction d with
  | nil => rfl
  | cons p d ih =>
    rw [keys_cons, List.mem_cons, not_or] at h
    rw [set, if_neg (Ne.symm h.1), ih h.2, List.cons_append]

theorem setAll_of_nodup {d : Dict κ ν} {ps : List (κ × ν)} (h : (keys (d ++ ps)).Nodup) :
    setAll d ps = d ++ ps := by
  induction ps generalizing d with
  | nil => simp [setAll]
  | cons p ps ih =>
    have hp : p.1 ∉ keys d := by
      rw [keys, List.map_append, List.map_cons, List.nodup_append] at h
      exact fun hmem => h.2.2 p.1 hmem p.1 List.mem_cons_self rfl
    have happend : d ++ p :: ps = d ++ [(p.1, p.2)] ++ ps := by simp
    rw [happend] at h ⊢
    rw [setAll, List.foldl_cons, ← setAll, set_of_not_mem hp, ih h]

theorem ofPairs_of_nodup {ps : List (κ × ν)} (h : (keys ps).Nodup) : ofPairs ps = ps :=
  setAll_of_nodup h

theorem keys_setAll_congr {d e : Dict κ ν} (h : keys d = keys e) {ps qs : List (κ × ν)}
    (hk : ps.map Prod.fst = qs.map Prod.fst) : keys (setAll d ps) = keys (setAll e qs) := by
  induction ps generalizing d e qs with
  | nil => cases qs with
    | nil => exact h
    | cons q qs => simp at hk
  | cons p ps ih => cases qs with
    | nil => simp at hk
    | cons q qs =>
      simp only [List.map_cons, List.cons.injEq] at hk
      have hset : keys (set d p.1 p.2) = keys (set e q.1 q.2) := by
        rw [keys_set, keys_set, h, hk.1]
      exact ih hset hk.2

theorem mem_keys_setAll (d : Dict κ ν) (ps : List (κ × ν)) (k : κ) :
    k ∈ keys (setAll d ps) ↔ k ∈ keys d ∨ k ∈ ps.map Prod.fst := by
  induction ps generalizing d with
  | nil => simp [setAll]
  | cons p ps ih =>
    rw [setAll, List.foldl_cons, ← setAll, ih, keys_set, List.map_cons, List.mem_cons]
    split
    · next hp =>
      constructor
      · rintro (h | h)
        · exact .inl h
        · exact .inr (.inr h)
      · rintro (h | rfl | h)
        · exact .inl h
        · exact .inl hp
        · exact .inr h
    · simp [or_assoc]

theorem ofPairs_eq_iff {ps qs : List (κ × ν)} (hk : ps.map Prod.fst = qs.map Prod.fst) :
    ofPairs ps = ofPairs qs ↔ ∀ k ∈ ps.map Prod.fst, lastOf ps k = lastOf qs k := by
  constructor
  · intro h k _
    rw [← get?_ofPairs, h, get?_ofPairs]
  · intro h
    refine eq_of_keys_eq (keys_setAll_nodup (by simp) ps) (keys_setAll_congr rfl hk) ?_
    intro k hmem
    rw [get?_ofPairs, get?_ofPairs]
    exact h k (by simpa using (mem_keys_setAll [] ps k).mp hmem)

end OfPairs

section Present

variable {κ ν : Type}

-- A dict display whose optional entries are left out.
def present (entries : List (κ × Option ν)) : Dict κ ν :=
  entries.filterMap fun e => e.2.map fun v => (e.1, v)

theorem keys_present_sublist (entries : List (κ × Option ν)) :
    (keys (present entries)).Sublist (entries.map Prod.fst) := by
  induction entries with
  | nil => exact List.Sublist.slnil
  | cons e entries ih =>
    obtain ⟨k,_ | v⟩ := e
    · exact ih.cons k
    · exact ih.cons_cons k

theorem keys_present_nodup {entries : List (κ × Option ν)} (h : (entries.map Prod.fst).Nodup) :
    (keys (present entries)).Nodup := h.sublist (keys_present_sublist entries)

theorem mem_present {entries : List (κ × Option ν)} {p : κ × ν} :
    p ∈ present entries ↔ (p.1, some p.2) ∈ entries := by
  simp only [present, List.mem_filterMap, Option.map_eq_some_iff]
  constructor
  · rintro ⟨⟨k,_⟩,he,v,rfl,rfl⟩
    exact he
  · intro h
    exact ⟨_, h, p.2, rfl, rfl⟩

theorem get?_present [DecidableEq κ] {entries : Dict κ (Option ν)} (h : (keys entries).Nodup)
    (k : κ) : get? (present entries) k = (get? entries k).join := by
  induction entries with
  | nil => rfl
  | cons e entries ih =>
    rw [keys_cons, List.nodup_cons] at h
    obtain ⟨k',v⟩ := e
    rw [get?]
    cases v with
    | some v =>
      change get? ((k', v) :: present entries) k = _
      rw [get?, ih h.2]
      split <;> rfl
    | none =>
      change get? (present entries) k = _
      rw [ih h.2]
      split
      · next hk =>
        rw [← hk, not_mem_keys_iff.mp h.1]
        rfl
      · rfl

end Present

end Dict

end PicoSentry.Foundation
