import Mathlib.Algebra.Order.Ring.Rat
import PicoSentry.Foundation.Dict
import PicoSentry.Foundation.Result
import PicoSentry.Foundation.SortedBy

namespace PicoSentry.Foundation

abbrev TtlCache (κ ν : Type) := Dict κ (ℚ × ν)

namespace TtlCache

variable {κ ν : Type} [DecidableEq κ]

-- An entry past its expiry is dropped by the lookup that meets it.
def lookup (store : TtlCache κ ν) (key : κ) (now : ℚ) : Option ν × TtlCache κ ν :=
  match store.get? key with
  | none => (none, store)
  | some (expiresAt, value) =>
    if now > expiresAt then (none, store.erase key) else (some value, store)

-- min over an empty dict raises ValueError.
def insert (store : TtlCache κ ν) (maxEntries : Nat) (key : κ) (value : ν) (expiresAt : ℚ) :
    Except PyError (TtlCache κ ν) :=
  if store.get? key = none ∧ maxEntries ≤ store.length then
    match ascending (fun entry => entry.2.1) store with
    | [] => .error .valueError
    | oldest :: _ => .ok ((store.erase oldest.1).set key (expiresAt, value))
  else .ok (store.set key (expiresAt, value))

theorem lookup_some {store : TtlCache κ ν} {key : κ} {now : ℚ} {value : ν}
    (h : (lookup store key now).1 = some value) :
    ∃ expiresAt, store.get? key = some (expiresAt, value) ∧ now ≤ expiresAt := by
  rw [lookup] at h
  cases hget : store.get? key with
  | none =>
    rw [hget] at h
    cases h
  | some entry =>
    rw [hget] at h
    simp only at h
    split at h
    · cases h
    · next hle =>
      cases h
      exact ⟨entry.1, rfl, not_lt.mp hle⟩

theorem get?_lookup {store : TtlCache κ ν} {key key' : κ} {now : ℚ} {entry : ℚ × ν}
    (h : (lookup store key now).2.get? key' = some entry) : store.get? key' = some entry := by
  rw [lookup] at h
  split at h
  · exact h
  · split at h
    · rw [Dict.get?_erase] at h
      split at h
      · cases h
      · exact h
    · exact h

theorem get?_lookup_miss {store : TtlCache κ ν} {key : κ} {now : ℚ} (h : (lookup store key now).1 = none) :
    (lookup store key now).2.get? key = none := by
  rw [lookup] at h ⊢
  split at h
  · next hnone => exact hnone
  · split at h
    · next hlate => rw [if_pos hlate, Dict.get?_erase, if_pos rfl]
    · cases h

theorem insert_isOk {maxEntries : Nat} (hpos : 0 < maxEntries) (store : TtlCache κ ν) (key : κ)
    (value : ν) (expiresAt : ℚ) : ∃ store', insert store maxEntries key value expiresAt = .ok store' := by
  rw [insert]
  split
  · next hfull =>
    have hne : store ≠ [] := List.ne_nil_of_length_pos (by omega)
    obtain ⟨oldest,rest,hsort,-,-⟩ := head_ascending (fun entry : κ × ℚ × ν => entry.2.1) hne
    rw [hsort]
    exact ⟨_, rfl⟩
  · exact ⟨_, rfl⟩

theorem insert_isOk_iff (maxEntries : Nat) (store : TtlCache κ ν) (key : κ) (value : ν) (expiresAt : ℚ) :
    (∃ store', insert store maxEntries key value expiresAt = .ok store') ↔ ¬(maxEntries = 0 ∧ store = []) := by
  constructor
  · rintro ⟨store',h⟩ ⟨rfl,rfl⟩
    cases h
  · intro h
    rcases Nat.eq_zero_or_pos maxEntries with rfl | hpos
    · have hne : store ≠ [] := fun hnil => h ⟨rfl, hnil⟩
      obtain ⟨oldest,rest,hsort,-,-⟩ := head_ascending (fun entry : κ × ℚ × ν => entry.2.1) hne
      rw [insert]
      split
      · rw [hsort]
        exact ⟨_, rfl⟩
      · exact ⟨_, rfl⟩
    · exact insert_isOk hpos store key value expiresAt

theorem get?_insert_self {maxEntries : Nat} {store store' : TtlCache κ ν} {key : κ} {value : ν} {expiresAt : ℚ}
    (h : insert store maxEntries key value expiresAt = .ok store') : store'.get? key = some (expiresAt, value) := by
  rw [insert] at h
  split at h
  · split at h
    · cases h
    · cases h
      exact Dict.get?_set_self _ _ _
  · cases h
    exact Dict.get?_set_self _ _ _

theorem get?_insert {maxEntries : Nat} {store store' : TtlCache κ ν} {key key' : κ} {value : ν}
    {expiresAt : ℚ} {entry : ℚ × ν} (h : insert store maxEntries key value expiresAt = .ok store')
    (hget : store'.get? key' = some entry) :
    store.get? key' = some entry ∨ key' = key ∧ entry = (expiresAt, value) := by
  have hset : ∀ base : TtlCache κ ν,
      (∀ entry, base.get? key' = some entry → store.get? key' = some entry) →
      (base.set key (expiresAt, value)).get? key' = some entry →
        store.get? key' = some entry ∨ key' = key ∧ entry = (expiresAt, value) := by
    intro base hbase hentry
    rw [Dict.get?_set] at hentry
    split at hentry
    · next heq => exact .inr ⟨heq.symm, (Option.some.inj hentry).symm⟩
    · exact .inl (hbase entry hentry)
  rw [insert] at h
  split at h
  · split at h
    · cases h
    · cases h
      refine hset _ (fun entry hentry => ?_) hget
      rw [Dict.get?_erase] at hentry
      split at hentry
      · cases hentry
      · exact hentry
  · cases h
    exact hset store (fun _ hentry => hentry) hget

end TtlCache

end PicoSentry.Foundation
