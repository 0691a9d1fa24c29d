import PicoSentry.Serve.RateLimit

namespace PicoSentry.Serve.RateLimit

open Foundation

section Sets

variable {xs : List ℚ} {t : ℚ}

theorem mem_sortedSet : t ∈ sortedSet xs ↔ t ∈ xs := by
  rw [sortedSet, List.mem_insertionSort, List.mem_dedup]

theorem nodup_sortedSet (xs : List ℚ) : (sortedSet xs).Nodup :=
  (List.perm_insertionSort (· ≤ ·) xs.dedup).nodup_iff.mpr (List.nodup_dedup xs)

end Sets

section Buckets

variable {c : Counters} {k k' : Key} {v : List ℚ} {t cutoff : ℚ}

theorem get?_setBucket (c : Counters) (k k' : Key) (v : List ℚ) :
    (setBucket c k v k'.1).get? k'.2 = if k = k' then some v else (c k'.1).get? k'.2 := by
  obtain ⟨type,key⟩ := k
  obtain ⟨type',key'⟩ := k'
  rw [setBucket]
  dsimp only
  by_cases htype : type' = type
  · subst htype
    rw [if_pos rfl, Dict.get?_set]
    by_cases hkey : key = key'
    · rw [if_pos hkey, if_pos (by rw [hkey])]
    · rw [if_neg hkey, if_neg (fun h => hkey (Prod.mk.inj h).2)]
  · rw [if_neg htype, if_neg (fun h => htype (Prod.mk.inj h).1.symm)]

theorem bucket_setBucket (c : Counters) (k k' : Key) (v : List ℚ) :
    bucket (setBucket c k v) k' = if k = k' then v else bucket c k' := by
  rw [bucket, get?_setBucket]
  split <;> rfl

theorem row_set (table : Table) (k k' : Key) (v : List ℚ) :
    row (table.set k v) k' = if k = k' then v else row table k' := by
  rw [row, Dict.get?_set, row]
  split <;> rfl

theorem exists_get?_of_mem_bucket (h : t ∈ bucket c k) :
    ∃ v, (c k.1).get? k.2 = some v ∧ bucket c k = v ∧ t ∈ v := by
  cases hget : (c k.1).get? k.2 with
  | none =>
    rw [bucket, hget] at h
    cases h
  | some v =>
    have hv : bucket c k = v := by rw [bucket, hget]; rfl
    exact ⟨v, rfl, hv, hv ▸ h⟩

theorem exists_get?_of_mem_row {table : Table} (h : t ∈ row table k) :
    ∃ v, table.get? k = some v ∧ t ∈ v := by
  cases hget : table.get? k with
  | none =>
    rw [row, hget] at h
    cases h
  | some v =>
    rw [row, hget] at h
    exact ⟨v, rfl, h⟩

theorem get?_removeKeys (d : Dict Str (List ℚ)) (ks : List Str) (key : Str) :
    (removeKeys d ks).get? key = if key ∈ ks then none else d.get? key := by
  induction ks generalizing d with
  | nil => simp [removeKeys]
  | cons key' ks ih =>
    rw [removeKeys, List.foldl_cons, ← removeKeys, ih, Dict.get?_erase]
    by_cases hkey : key' = key
    · simp [hkey]
    · simp [hkey, Ne.symm hkey]

theorem get?_evictBuckets {cfg : Config} {now : ℚ} {d : Dict Str (List ℚ)} {key : Str}
    (h : ((evictBuckets cfg now d).get? key).isSome) :
    (evictBuckets cfg now d).get? key = d.get? key := by
  rw [evictBuckets] at h ⊢
  rw [get?_removeKeys] at h ⊢
  split at h
  · cases h
  · next hover =>
    rw [if_neg hover, get?_removeKeys]
    rw [get?_removeKeys] at h
    split at h
    · cases h
    · next hstale => rw [if_neg hstale]

theorem bucket_evictIfNeeded {cfg : Config} {now : ℚ} {w : Worker}
    (h : (((evictIfNeeded cfg now w).counters k.1).get? k.2).isSome) :
    bucket (evictIfNeeded cfg now w).counters k = bucket w.counters k := by
  rw [evictIfNeeded] at h ⊢
  split
  · rfl
  · next hdue =>
    rw [if_neg hdue] at h
    rw [bucket, bucket, get?_evictBuckets h]

theorem bucket_liveBuckets {cfg : Config} {now : ℚ} (hv : t ∈ bucket c k)
    (hlast : now - cfg.window < lastTime (bucket c k)) :
    ((liveBuckets cfg now c k.1).get? k.2) = some (bucket c k) := by
  obtain ⟨v,hget,heq,hmem⟩ := exists_get?_of_mem_bucket hv
  rw [heq] at hlast ⊢
  apply Dict.get?_filter hget
  have hne : v ≠ [] := List.ne_nil_of_mem hmem
  simp [hne, hlast]

theorem mem_snapRows {snap : Counters} (h : (snap k.1).get? k.2 = some v) :
    (k, v) ∈ snapRows snap := by
  have hmem := Dict.mem_of_get? h
  obtain ⟨type,key⟩ := k
  cases type with
  | ip => exact List.mem_append_left _ (List.mem_map.mpr ⟨_, hmem, rfl⟩)
  | org => exact List.mem_append_right _ (List.mem_map.mpr ⟨_, hmem, rfl⟩)

end Buckets

section Flush

variable {cutoff t : ℚ} {table : Table} {k : Key}

theorem mem_mergeRow_of_row {timestamps : List ℚ} (h : t ∈ row table k) (ht : cutoff < t) :
    t ∈ mergeRow cutoff table k timestamps := by
  rw [mergeRow, mem_sortedSet]
  exact List.mem_append_right _ (List.mem_filter.mpr ⟨h, by simpa using ht⟩)

theorem mem_mergeRow_of_mem {timestamps : List ℚ} (h : t ∈ timestamps) :
    t ∈ mergeRow cutoff table k timestamps := by
  rw [mergeRow, mem_sortedSet]
  exact List.mem_append_left _ h

theorem mem_row_merged {k' : Key} {timestamps : List ℚ} (h : t ∈ row table k) (ht : cutoff < t) :
    t ∈ row (table.set k' (mergeRow cutoff table k' timestamps)) k := by
  rw [row_set]
  split
  · next hk =>
    subst hk
    exact mem_mergeRow_of_row h ht
  · exact h

theorem flushRows_keeps {flushed : Nat} {rows : List (Key × List ℚ)} (h : t ∈ row table k)
    (ht : cutoff < t) : t ∈ row (flushRows cutoff flushed table rows) k := by
  induction rows generalizing flushed table with
  | nil => exact h
  | cons p rows ih =>
    obtain ⟨k',timestamps⟩ := p
    rw [flushRows]
    split
    · exact ih h
    · dsimp only
      split
      · exact mem_row_merged h ht
      · exact ih (mem_row_merged h ht)

theorem flushRows_adds {flushed : Nat} {rows : List (Key × List ℚ)} {v : List ℚ}
    (hmem : (k, v) ∈ rows) (hv : t ∈ v) (ht : cutoff < t) (hlast : cutoff < lastTime v)
    (hbatch : flushed + rows.length ≤ flushBatch) :
    t ∈ row (flushRows cutoff flushed table rows) k := by
  induction rows generalizing flushed table with
  | nil => cases hmem
  | cons p rows ih =>
    obtain ⟨k',timestamps⟩ := p
    rw [List.length_cons] at hbatch
    rw [flushRows]
    rcases List.mem_cons.mp hmem with heq | hmem
    · cases heq
      have hne : v ≠ [] := List.ne_nil_of_mem hv
      have hnow : t ∈ row (table.set k (mergeRow cutoff table k v)) k := by
        rw [row_set, if_pos rfl]
        exact mem_mergeRow_of_mem hv
      rw [if_neg (by simp [hne, hlast])]
      dsimp only
      split
      · exact hnow
      · exact flushRows_keeps hnow ht
    · split
      · exact ih hmem (by omega)
      · dsimp only
        split
        · next hfull =>
          have hpos : 0 < rows.length := List.length_pos_of_mem hmem
          omega
        · exact ih hmem (by omega)

end Flush

section Sync

variable {cutoff t : ℚ} {c : Counters} {k : Key}

theorem mem_bucket_merged {k' : Key} {foreign : List ℚ} (h : t ∈ bucket c k) :
    t ∈ bucket (setBucket c k' (sortedSet (bucket c k' ++ foreign))) k := by
  rw [bucket_setBucket]
  split
  · next hk =>
    subst hk
    rw [mem_sortedSet]
    exact List.mem_append_left _ h
  · exact h

theorem syncRows_keeps {rows : List (Key × List ℚ)} (h : t ∈ bucket c k) :
    t ∈ bucket (syncRows cutoff c rows) k := by
  induction rows generalizing c with
  | nil => exact h
  | cons p rows ih =>
    obtain ⟨k',timestamps⟩ := p
    rw [syncRows]
    split
    · exact ih h
    · exact ih (mem_bucket_merged h)

theorem syncRows_adds {rows : List (Key × List ℚ)} {v : List ℚ} (hmem : (k, v) ∈ rows)
    (hv : t ∈ v) (ht : cutoff < t) : t ∈ bucket (syncRows cutoff c rows) k := by
  induction rows generalizing c with
  | nil => cases hmem
  | cons p rows ih =>
    obtain ⟨k',timestamps⟩ := p
    rw [syncRows]
    rcases List.mem_cons.mp hmem with heq | hmem
    · cases heq
      have hforeign : t ∈ v.filter fun t => cutoff < t :=
        List.mem_filter.mpr ⟨hv, by simpa using ht⟩
      rw [if_neg (by simpa using List.ne_nil_of_mem hforeign)]
      apply syncRows_keeps
      rw [bucket_setBucket, if_pos rfl, mem_sortedSet]
      exact List.mem_append_right _ hforeign
    · split
      · exact ih hmem
      · exact ih hmem

end Sync

section Soundness

variable {made : Key → ℚ → Prop} {c : Counters} {k : Key} {v : List ℚ} {cutoff : ℚ}

structure Sound (made : Key → ℚ → Prop) (k : Key) (v : List ℚ) : Prop where
  nodup : v.Nodup
  made : ∀ t ∈ v, made k t

def CountersSound (made : Key → ℚ → Prop) (c : Counters) : Prop :=
  ∀ type, ∀ p ∈ c type, Sound made (type, p.1) p.2

def RowsSound (made : Key → ℚ → Prop) (rows : List (Key × List ℚ)) : Prop :=
  ∀ p ∈ rows, Sound made p.1 p.2

theorem Sound.mono {made' : Key → ℚ → Prop} (h : Sound made k v)
    (himp : ∀ k t, made k t → made' k t) : Sound made' k v :=
  ⟨h.nodup, fun t ht => himp k t (h.made t ht)⟩

theorem Sound.filter (h : Sound made k v) (f : ℚ → Bool) : Sound made k (v.filter f) :=
  ⟨h.nodup.filter f, fun t ht => h.made t (List.mem_filter.mp ht).1⟩

theorem sound_sortedSet (h : ∀ t ∈ v, made k t) : Sound made k (sortedSet v) :=
  ⟨nodup_sortedSet v, fun t ht => h t (mem_sortedSet.mp ht)⟩

theorem CountersSound.bucket (h : CountersSound made c) (k : Key) : Sound made k (bucket c k) := by
  cases hget : (c k.1).get? k.2 with
  | none =>
    rw [RateLimit.bucket, hget]
    exact ⟨List.nodup_nil, fun t ht => by cases ht⟩
  | some v =>
    rw [RateLimit.bucket, hget]
    exact h k.1 (k.2, v) (Dict.mem_of_get? hget)

theorem RowsSound.row {table : Table} (h : RowsSound made table) (k : Key) :
    Sound made k (row table k) := by
  cases hget : table.get? k with
  | none =>
    rw [RateLimit.row, hget]
    exact ⟨List.nodup_nil, fun t ht => by cases ht⟩
  | some v =>
    rw [RateLimit.row, hget]
    exact h (k, v) (Dict.mem_of_get? hget)

theorem CountersSound.setBucket (h : CountersSound made c) (hv : Sound made k v) :
    CountersSound made (setBucket c k v) := by
  intro type p hp
  rw [RateLimit.setBucket] at hp
  split at hp
  · next htype =>
    subst htype
    rcases Dict.mem_set hp with hp | rfl
    · exact h k.1 p hp
    · exact hv
  · exact h type p hp

theorem mem_removeKeys {d : Dict Str (List ℚ)} {ks : List Str} {p : Str × List ℚ}
    (h : p ∈ removeKeys d ks) : p ∈ d := by
  induction ks generalizing d with
  | nil => exact h
  | cons key ks ih => exact (List.mem_filter.mp (ih h)).1

theorem CountersSound.evict {cfg : Config} {now : ℚ} {w : Worker}
    (h : CountersSound made w.counters) : CountersSound made (evictIfNeeded cfg now w).counters := by
  rw [evictIfNeeded]
  split
  · exact h
  · intro type p hp
    exact h type p (mem_removeKeys (mem_removeKeys hp))

theorem CountersSound.live {cfg : Config} {now : ℚ} (h : CountersSound made c) :
    CountersSound made (liveBuckets cfg now c) := by
  intro type p hp
  exact h type p (List.mem_filter.mp hp).1

theorem RowsSound.snap {snap : Counters} (h : CountersSound made snap) :
    RowsSound made (snapRows snap) := by
  intro p hp
  rcases List.mem_append.mp hp with hp | hp
  · obtain ⟨q,hq,rfl⟩ := List.mem_map.mp hp
    exact h .ip q hq
  · obtain ⟨q,hq,rfl⟩ := List.mem_map.mp hp
    exact h .org q hq

theorem RowsSound.merged {table : Table} (h : RowsSound made table) (hv : ∀ t ∈ v, made k t) :
    RowsSound made (table.set k (mergeRow cutoff table k v)) := by
  intro p hp
  rcases Dict.mem_set hp with hp | rfl
  · exact h p hp
  · apply sound_sortedSet
    intro t ht
    rcases List.mem_append.mp ht with ht | ht
    · exact hv t ht
    · exact (h.row k).made t (List.mem_filter.mp ht).1

theorem RowsSound.flush {flushed : Nat} {table : Table} {rows : List (Key × List ℚ)}
    (h : RowsSound made table) (hrows : RowsSound made rows) :
    RowsSound made (flushRows cutoff flushed table rows) := by
  induction rows generalizing flushed table with
  | nil => exact h
  | cons p rows ih =>
    obtain ⟨k,timestamps⟩ := p
    have hhead := hrows (k, timestamps) List.mem_cons_self
    have hrest : RowsSound made rows := fun p hp => hrows p (List.mem_cons_of_mem _ hp)
    rw [flushRows]
    split
    · exact ih h hrest
    · dsimp only
      split
      · exact h.merged hhead.made
      · exact ih (h.merged hhead.made) hrest

theorem CountersSound.sync {rows : List (Key × List ℚ)} (h : CountersSound made c)
    (hrows : RowsSound made rows) : CountersSound made (syncRows cutoff c rows) := by
  induction rows generalizing c with
  | nil => exact h
  | cons p rows ih =>
    obtain ⟨k,timestamps⟩ := p
    have hhead := hrows (k, timestamps) List.mem_cons_self
    have hrest : RowsSound made rows := fun p hp => hrows p (List.mem_cons_of_mem _ hp)
    rw [syncRows]
    split
    · exact ih h hrest
    · apply ih _ hrest
      apply h.setBucket
      apply sound_sortedSet
      intro t ht
      rcases List.mem_append.mp ht with ht | ht
      · exact (h.bucket k).made t ht
      · exact hhead.made t (List.mem_filter.mp ht).1

theorem CountersSound.restore {rows : List (Key × List ℚ)} (h : CountersSound made c)
    (hrows : RowsSound made rows) : CountersSound made (restoreRows cutoff c rows) := by
  induction rows generalizing c with
  | nil => exact h
  | cons p rows ih =>
    obtain ⟨k,timestamps⟩ := p
    have hhead := hrows (k, timestamps) List.mem_cons_self
    have hrest : RowsSound made rows := fun p hp => hrows p (List.mem_cons_of_mem _ hp)
    rw [restoreRows]
    split
    · exact ih h hrest
    · exact ih (h.setBucket (hhead.filter _)) hrest

end Soundness

end PicoSentry.Serve.RateLimit
