import PicoSentry.Foundation.Dict

namespace PicoSentry.Foundation

-- A dict that keeps every record under the record's own key.
structure Table {κ ρ : Type} (key : ρ → κ) where
  entries : Dict κ ρ
  nodup : entries.keys.Nodup
  key_eq : ∀ p ∈ entries, key p.2 = p.1

namespace Table

variable {κ ρ : Type} {key : ρ → κ}

def empty : Table key := ⟨[], List.nodup_nil, fun _ h => by cases h⟩

def all (t : Table key) : List ρ := t.entries.map Prod.snd

theorem all_nodup_key (t : Table key) : (t.all.map key).Nodup := by
  have hkeys : t.all.map key = t.entries.keys := by
    rw [all, List.map_map]
    exact List.map_congr_left t.key_eq
  exact hkeys ▸ t.nodup

variable [DecidableEq κ]

def load (t : Table key) (k : κ) : Option ρ := t.entries.get? k

def save (t : Table key) (r : ρ) : Table key where
  entries := t.entries.set (key r) r
  nodup := Dict.keys_set_nodup t.nodup (key r) r
  key_eq p hp := by
    rcases Dict.mem_set hp with hp | rfl
    · exact t.key_eq p hp
    · rfl

def erase (t : Table key) (k : κ) : Table key where
  entries := t.entries.erase k
  nodup := Dict.keys_erase_nodup t.nodup k
  key_eq p hp := t.key_eq p (List.mem_filter.mp hp).1

@[simp] theorem load_empty (k : κ) : (empty : Table key).load k = none := rfl

theorem load_save (t : Table key) (r : ρ) (k : κ) :
    (t.save r).load k = if key r = k then some r else t.load k :=
  Dict.get?_set t.entries (key r) k r

@[simp] theorem load_save_self (t : Table key) (r : ρ) : (t.save r).load (key r) = some r := by
  rw [load_save, if_pos rfl]

theorem load_save_of_ne {t : Table key} {r : ρ} {k : κ} (h : key r ≠ k) :
    (t.save r).load k = t.load k := by
  rw [load_save, if_neg h]

theorem load_erase (t : Table key) (k k' : κ) :
    (t.erase k).load k' = if k = k' then none else t.load k' :=
  Dict.get?_erase t.entries k k'

theorem key_of_load {t : Table key} {k : κ} {r : ρ} (h : t.load k = some r) : key r = k :=
  t.key_eq (k, r) (Dict.mem_of_get? h)

theorem mem_all {t : Table key} {r : ρ} : r ∈ t.all ↔ t.load (key r) = some r := by
  rw [all, List.mem_map]
  constructor
  · rintro ⟨p,hp,rfl⟩
    exact Dict.get?_of_mem t.nodup (t.key_eq p hp ▸ hp)
  · exact fun h => ⟨(key r, r), Dict.mem_of_get? h, rfl⟩

theorem filter_entries {d : Dict κ ρ} (hd : d.keys.Nodup) (hkey : ∀ p ∈ d, key p.2 = p.1) (k : κ) :
    (d.map Prod.snd).filter (fun r => key r = k) = (d.get? k).toList := by
  induction d with
  | nil => rfl
  | cons p d ih =>
    rw [Dict.keys_cons, List.nodup_cons] at hd
    have hrest := ih hd.2 fun q hq => hkey q (List.mem_cons_of_mem _ hq)
    rw [List.map_cons, List.filter_cons, hrest, Dict.get?, hkey p List.mem_cons_self]
    split
    · next he =>
      rw [decide_eq_true_eq] at he
      subst he
      rw [if_pos rfl, Dict.not_mem_keys_iff.mp hd.1]
      rfl
    · next he =>
      rw [if_neg (by simpa using he)]

theorem filter_all (t : Table key) (k : κ) :
    t.all.filter (fun r => key r = k) = (t.load k).toList :=
  filter_entries t.nodup t.key_eq k

theorem countP_set {d : Dict κ ρ} (hd : d.keys.Nodup) (k : κ) (r : ρ) (p : ρ → Bool) :
    ((d.set k r).map Prod.snd).countP p + (d.get? k).elim 0 (fun old => (p old).toNat) =
      (d.map Prod.snd).countP p + (p r).toNat := by
  have hcons : ∀ (a : ρ) (as : List ρ), (a :: as).countP p = as.countP p + (p a).toNat := by
    intro a as
    cases h : p a <;> simp [h]
  induction d with
  | nil => simp [Dict.set, Dict.get?, hcons]
  | cons q d ih =>
    rw [Dict.keys_cons, List.nodup_cons] at hd
    rw [Dict.set, Dict.get?]
    split
    · simp only [List.map_cons, hcons, Option.elim_some]
      omega
    · have := ih hd.2
      simp only [List.map_cons, hcons]
      omega

theorem countP_save (t : Table key) (r : ρ) (p : ρ → Bool) :
    (t.save r).all.countP p + (t.load (key r)).elim 0 (fun old => (p old).toNat) =
      t.all.countP p + (p r).toNat :=
  countP_set t.nodup (key r) r p

end Table

end PicoSentry.Foundation
