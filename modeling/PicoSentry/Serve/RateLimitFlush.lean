import Mathlib.Algebra.Order.BigOperators.Group.List
import PicoSentry.Foundation.Decimal
import PicoSentry.Foundation.Recent
import PicoSentry.Serve.RateLimitConvergence

namespace PicoSentry.Serve.RateLimit

open Foundation
open Run (exec exec_cons Meets)

structure Tick where
  wait : ℚ≥0
  syncFails : Bool
  deriving DecidableEq

-- A call of _background_flush from beginning to end. The flush succeeds; a sync that fails is logged.
def tickSteps (worker : Nat) (t : Tick) : List Step :=
  [.advance t.wait, .snapshot worker, .transact worker false, .readTable worker t.syncFails] ++
    if t.syncFails then [] else [.merge worker]

def tick (cfg : Config) (worker : Nat) (s : State) (t : Tick) : Option (State × List Made) :=
  exec (step cfg) s (tickSteps worker t)

def activeBuckets (cfg : Config) (now : ℚ) (c : Counters) : List (Key × List ℚ) :=
  snapRows (liveBuckets cfg now c)

def StaysActive (cfg : Config) (worker : Nat) (ks : List Key) (s : State) (t : Tick) : Prop :=
  ∀ w ∈ s.workers[worker]?, ∀ k ∈ ks,
    k ∈ (activeBuckets cfg (s.clock + t.wait) (evictIfNeeded cfg (s.clock + t.wait) w).counters).map Prod.fst

instance (cfg : Config) (worker : Nat) (ks : List Key) (s : State) (t : Tick) :
    Decidable (StaysActive cfg worker ks s t) :=
  inferInstanceAs (Decidable (∀ w ∈ s.workers[worker]?, ∀ k ∈ ks, _))

section Order

variable {α : Type} {xs ys zs : List α} {a : α}

theorem mem_take_of_sublist (h : xs.Sublist ys) (hys : ys.Nodup) {n : Nat} (ha : a ∈ xs)
    (htake : a ∈ ys.take n) : a ∈ xs.take n := by
  induction h generalizing n with
  | slnil => cases ha
  | cons y hsub ih =>
    cases n with
    | zero => cases htake
    | succ n =>
      obtain ⟨hy,hys⟩ := List.nodup_cons.mp hys
      rcases List.mem_cons.mp htake with rfl | htake
      · exact absurd (hsub.subset ha) hy
      · exact List.take_subset_take_left _ (Nat.le_succ n) (ih hys ha htake)
  | cons_cons y hsub ih =>
    cases n with
    | zero => cases htake
    | succ n =>
      obtain ⟨hy,hys⟩ := List.nodup_cons.mp hys
      rcases List.mem_cons.mp ha with rfl | ha
      · exact List.mem_cons_self
      · rcases List.mem_cons.mp htake with heq | htake
        · exact absurd (hsub.subset ha) (heq ▸ hy)
        · exact List.mem_cons_of_mem _ (ih hys ha htake)

theorem filter_mem_eq [DecidableEq α] (hys : ys.Sublist zs) (hzs : zs.Nodup) : zs.filter (· ∈ ys) = ys := by
  have hself : ys.filter (· ∈ ys) = ys := List.filter_eq_self.mpr fun _ ha => decide_eq_true ha
  have hsub : ys.Sublist (zs.filter (· ∈ ys)) := by
    have h := hys.filter (· ∈ ys)
    rwa [hself] at h
  have hle : (zs.filter (· ∈ ys)).Subperm ys :=
    List.subperm_of_subset (hzs.filter _) fun _ ha => of_decide_eq_true (List.mem_filter.mp ha).2
  exact (hsub.eq_of_length_le hle.length_le).symm

theorem sublist_of_subset [DecidableEq α] (hxs : xs.Sublist zs) (hys : ys.Sublist zs) (hzs : zs.Nodup)
    (hsub : xs ⊆ ys) : xs.Sublist ys := by
  have h := hxs.filter (· ∈ ys)
  rwa [filter_mem_eq hys hzs, List.filter_eq_self.mpr fun _ ha => decide_eq_true (hsub ha)] at h

end Order

section Keys

variable {cfg : Config} {c : Counters} {k : Key} {v : List ℚ} {now now' cutoff : ℚ}

def allKeys (c : Counters) : List Key := (snapRows c).map Prod.fst

theorem snapRows_sublist {c' : Counters} (h : ∀ type, (c' type).Sublist (c type)) :
    (snapRows c').Sublist (snapRows c) :=
  ((h .ip).map _).append ((h .org).map _)

theorem removeKeys_sublist (d : Dict Str (List ℚ)) (ks : List Str) : (removeKeys d ks).Sublist d := by
  induction ks generalizing d with
  | nil => exact List.Sublist.refl d
  | cons key ks ih => exact (ih (d.erase key)).trans List.filter_sublist

theorem evictIfNeeded_sublist (cfg : Config) (now : ℚ) (w : Worker) (type : BucketType) :
    ((evictIfNeeded cfg now w).counters type).Sublist (w.counters type) := by
  rw [evictIfNeeded]
  split
  · exact List.Sublist.refl _
  · exact (removeKeys_sublist _ _).trans (removeKeys_sublist _ _)

theorem allKeys_evictIfNeeded (cfg : Config) (now : ℚ) (w : Worker) :
    (allKeys (evictIfNeeded cfg now w).counters).Sublist (allKeys w.counters) :=
  (snapRows_sublist (evictIfNeeded_sublist cfg now w)).map Prod.fst

theorem activeBuckets_sublist (cfg : Config) (now : ℚ) (c : Counters) :
    (activeBuckets cfg now c).Sublist (snapRows c) :=
  snapRows_sublist fun _ => List.filter_sublist

theorem activeBuckets_later (hnow : now ≤ now') {c' : Counters} (h : ∀ type, (c' type).Sublist (c type)) :
    (activeBuckets cfg now' c').Sublist (activeBuckets cfg now c) := by
  refine snapRows_sublist fun type => ?_
  refine (List.monotone_filter_right _ fun p hp => ?_).trans ((h type).filter _)
  simp only [Bool.and_eq_true, decide_eq_true_eq] at hp ⊢
  exact ⟨hp.1, by linarith⟩

theorem nodup_allKeys (h : ∀ type, (c type).keys.Nodup) : (allKeys c).Nodup := by
  have hinj : ∀ type : BucketType, Function.Injective fun key : Str => (type, key) :=
    fun type key key' heq => (Prod.mk.inj heq).2
  rw [allKeys, snapRows, List.map_append, List.map_map, List.map_map]
  refine List.Nodup.append ?_ ?_ ?_
  · exact List.map_map (f := Prod.fst) ▸ (h .ip).map (hinj .ip)
  · exact List.map_map (f := Prod.fst) ▸ (h .org).map (hinj .org)
  · intro k hip horg
    obtain ⟨p,-,rfl⟩ := List.mem_map.mp hip
    obtain ⟨q,-,heq⟩ := List.mem_map.mp horg
    cases heq

theorem allKeys_sublist {c' : Counters} (h : ∀ type, (c type).keys.Sublist (c' type).keys) :
    (allKeys c).Sublist (allKeys c') := by
  have hkeys : ∀ c : Counters, allKeys c = (c .ip).keys.map (BucketType.ip, ·) ++ (c .org).keys.map (BucketType.org, ·) := by
    intro c
    rw [allKeys, snapRows, List.map_append, List.map_map, List.map_map, Dict.keys, Dict.keys, List.map_map, List.map_map]
    rfl
  rw [hkeys, hkeys]
  exact ((h .ip).map _).append ((h .org).map _)

theorem keys_setBucket (c : Counters) (k : Key) (v : List ℚ) (type : BucketType) :
    (c type).keys.Sublist (setBucket c k v type).keys := by
  rw [setBucket]
  split
  · rw [Dict.keys_set]
    split
    · exact List.Sublist.refl _
    · exact List.sublist_append_left _ _
  · exact List.Sublist.refl _

theorem nodup_setBucket (h : ∀ type, (c type).keys.Nodup) (k : Key) (v : List ℚ) (type : BucketType) :
    (setBucket c k v type).keys.Nodup := by
  rw [setBucket]
  split
  · exact Dict.keys_set_nodup (h type) _ _
  · exact h type

theorem syncRows_invariant {P : Counters → Prop} (hset : ∀ c k foreign, P c → P (setBucket c k (sortedSet (bucket c k ++ foreign))))
    (rows : List (Key × List ℚ)) (h : P c) : P (syncRows cutoff c rows) := by
  induction rows generalizing c with
  | nil => exact h
  | cons p rows ih =>
    obtain ⟨k,timestamps⟩ := p
    rw [syncRows]
    split
    · exact ih h
    · exact ih (hset c k _ h)

theorem keys_syncRows (rows : List (Key × List ℚ)) (type : BucketType) :
    (c type).keys.Sublist (syncRows cutoff c rows type).keys :=
  syncRows_invariant (P := fun c' => (c type).keys.Sublist (c' type).keys)
    (fun c' k _ h => h.trans (keys_setBucket c' k _ type)) rows (List.Sublist.refl _)

theorem nodup_syncRows (h : ∀ type, (c type).keys.Nodup) (rows : List (Key × List ℚ)) :
    ∀ type, (syncRows cutoff c rows type).keys.Nodup :=
  syncRows_invariant (P := fun c => ∀ type, (c type).keys.Nodup) (fun _ k _ h => nodup_setBucket h k _) rows h

theorem bucket_of_mem (h : ∀ type, (c type).keys.Nodup) (hmem : (k, v) ∈ snapRows c) : bucket c k = v := by
  obtain ⟨type,key⟩ := k
  rcases List.mem_append.mp hmem with hmem | hmem
  · obtain ⟨p,hp,heq⟩ := List.mem_map.mp hmem
    cases heq
    rw [bucket, Dict.get?_of_mem (h .ip) hp]
    rfl
  · obtain ⟨p,hp,heq⟩ := List.mem_map.mp hmem
    cases heq
    rw [bucket, Dict.get?_of_mem (h .org) hp]
    rfl

theorem active_of_mem {p : Key × List ℚ} (h : p ∈ activeBuckets cfg now c) :
    (p.2.isEmpty || decide (lastTime p.2 ≤ now - cfg.window)) = false := by
  rcases List.mem_append.mp h with h | h
  all_goals
    obtain ⟨q,hq,rfl⟩ := List.mem_map.mp h
    obtain ⟨-,hq⟩ := List.mem_filter.mp hq
    simp only [Bool.and_eq_true, Bool.not_eq_true', decide_eq_true_eq] at hq
    rw [hq.1, Bool.false_or, decide_eq_false_iff_not]
    exact not_le.mpr hq.2

end Keys

section Batch

variable {cutoff t : ℚ} {table : Table} {k : Key} {v : List ℚ}

def mergeRows (cutoff : ℚ) (table : Table) (rows : List (Key × List ℚ)) : Table :=
  rows.foldl (fun table p => table.set p.1 (mergeRow cutoff table p.1 p.2)) table

theorem flushRows_eq {flushed : Nat} (hflushed : flushed < flushBatch) {rows : List (Key × List ℚ)}
    (hactive : ∀ p ∈ rows, (p.2.isEmpty || decide (lastTime p.2 ≤ cutoff)) = false) :
    flushRows cutoff flushed table rows = mergeRows cutoff table (rows.take (flushBatch - flushed)) := by
  induction rows generalizing flushed table with
  | nil => rw [List.take_nil]; rfl
  | cons p rows ih =>
    obtain ⟨k,timestamps⟩ := p
    have hrest := fun q hq => hactive q (List.mem_cons_of_mem _ hq)
    obtain ⟨n,hn⟩ : ∃ n, flushBatch - flushed = n + 1 := ⟨flushBatch - flushed - 1, by omega⟩
    rw [flushRows, if_neg (by simpa using hactive _ List.mem_cons_self), hn, List.take_succ_cons]
    dsimp only
    split
    · next hfull =>
      obtain rfl : n = 0 := by omega
      rw [List.take_zero]
      rfl
    · rw [ih (by omega) hrest, show flushBatch - (flushed + 1) = n by omega]
      rfl

theorem row_mergeRows_of_notMem {rows : List (Key × List ℚ)} (h : k ∉ rows.map Prod.fst) :
    row (mergeRows cutoff table rows) k = row table k := by
  induction rows generalizing table with
  | nil => rfl
  | cons p rows ih =>
    rw [List.map_cons, List.mem_cons, not_or] at h
    rw [mergeRows, List.foldl_cons, ← mergeRows, ih h.2, row_set, if_neg (Ne.symm h.1)]

theorem mem_row_mergeRows {rows : List (Key × List ℚ)} (hrows : (rows.map Prod.fst).Nodup)
    (hmem : (k, v) ∈ rows) (ht : t ∈ v) : t ∈ row (mergeRows cutoff table rows) k := by
  induction rows generalizing table with
  | nil => cases hmem
  | cons p rows ih =>
    obtain ⟨hp,hrows⟩ := List.nodup_cons.mp hrows
    rw [mergeRows, List.foldl_cons, ← mergeRows]
    rcases List.mem_cons.mp hmem with rfl | hmem
    · rw [row_mergeRows_of_notMem hp, row_set, if_pos rfl]
      exact mem_mergeRow_of_mem ht
    · exact ih hrows hmem

end Batch

section Ticks

variable {cfg : Config} {worker : Nat} {s s' : State} {w : Worker} {t : Tick} {es : List Made}

def batch (cfg : Config) (now : ℚ) (w : Worker) : List (Key × List ℚ) :=
  (activeBuckets cfg now (evictIfNeeded cfg now w).counters).take flushBatch

theorem flushed_batch (cfg : Config) (now : ℚ) (w : Worker) (table : Table) :
    flushRows (now - cfg.window) 0 table (snapRows (liveBuckets cfg now (evictIfNeeded cfg now w).counters)) =
      mergeRows (now - cfg.window) table (batch cfg now w) :=
  flushRows_eq (by decide) fun _ => active_of_mem

theorem setWorker_self (hw : s.workers[worker]? = some w) (w' : Worker) :
    (s.setWorker worker w').workers[worker]? = some w' :=
  (getElem?_setWorker hw w' worker).trans (if_pos rfl)

theorem snapshot_spec (hw : s.workers[worker]? = some w) (h : step cfg s (.snapshot worker) = some (s', es)) :
    s'.clock = s.clock ∧ s'.table = s.table ∧ s'.workers[worker]? = some { evictIfNeeded cfg s.clock w with
      stage := .snapped (liveBuckets cfg s.clock (evictIfNeeded cfg s.clock w).counters) s.clock } := by
  cases moved_of_step _ h with
  | snapped hw' _ =>
    cases hw.symm.trans hw'
    exact ⟨rfl, rfl, setWorker_self hw _⟩

theorem transact_spec {snap : Counters} {now : ℚ} (hw : s.workers[worker]? = some w)
    (hstage : w.stage = .snapped snap now) (h : step cfg s (.transact worker false) = some (s', es)) :
    s'.clock = s.clock ∧ s'.table = flushRows (now - cfg.window) 0 s.table (snapRows snap) ∧
      s'.workers[worker]? = some { w with stage := .flushed now } := by
  cases moved_of_step _ h with
  | transacted _ hw' hstage' =>
    cases hw.symm.trans hw'
    cases hstage.symm.trans hstage'
    exact ⟨rfl, rfl, setWorker_self hw _⟩

theorem readTable_spec {fails : Bool} {now : ℚ} (hw : s.workers[worker]? = some w) (hstage : w.stage = .flushed now)
    (h : step cfg s (.readTable worker fails) = some (s', es)) :
    s'.clock = s.clock ∧ s'.table = s.table ∧
      s'.workers[worker]? = some { w with stage := if fails then .idle else .read s.table now } := by
  cases moved_of_step _ h with
  | tableRead _ hw' hstage' =>
    cases hw.symm.trans hw'
    cases hstage.symm.trans hstage'
    exact ⟨rfl, rfl, setWorker_self hw _⟩

theorem merge_spec {rows : Table} {now : ℚ} (hw : s.workers[worker]? = some w) (hstage : w.stage = .read rows now)
    (h : step cfg s (.merge worker) = some (s', es)) :
    s'.clock = s.clock ∧ s'.table = s.table ∧ s'.workers[worker]? =
      some { w with counters := syncRows (now - cfg.window) w.counters rows, stage := .idle } := by
  cases moved_of_step _ h with
  | merged hw' hstage' =>
    cases hw.symm.trans hw'
    cases hstage.symm.trans hstage'
    exact ⟨rfl, rfl, setWorker_self hw _⟩

theorem tick_spec (hw : s.workers[worker]? = some w) (h : tick cfg worker s t = some (s', es)) :
    s'.clock = s.clock + t.wait ∧
    s'.table = mergeRows (s.clock + t.wait - cfg.window) s.table (batch cfg (s.clock + t.wait) w) ∧
    ∃ w', s'.workers[worker]? = some w' ∧ w'.lastEviction = (evictIfNeeded cfg (s.clock + t.wait) w).lastEviction ∧
      (w'.counters = (evictIfNeeded cfg (s.clock + t.wait) w).counters ∨
        w'.counters = syncRows (s.clock + t.wait - cfg.window) (evictIfNeeded cfg (s.clock + t.wait) w).counters s'.table) := by
  rw [tick, tickSteps] at h
  obtain ⟨s₁,_,_,h₁,hrest₁,-⟩ := exec_cons.mp h
  obtain ⟨s₂,_,_,h₂,hrest₂,-⟩ := exec_cons.mp hrest₁
  obtain ⟨s₃,_,_,h₃,hrest₃,-⟩ := exec_cons.mp hrest₂
  obtain ⟨s₄,_,_,h₄,hrest₄,-⟩ := exec_cons.mp hrest₃
  cases h₁
  obtain ⟨hclock₂,htable₂,hw₂⟩ := snapshot_spec (s := { s with clock := s.clock + t.wait }) hw h₂
  obtain ⟨hclock₃,htable₃,hw₃⟩ := transact_spec hw₂ rfl h₃
  obtain ⟨hclock₄,htable₄,hw₄⟩ := readTable_spec hw₃ rfl h₄
  have hclock : s₄.clock = s.clock + t.wait := hclock₄.trans (hclock₃.trans hclock₂)
  have htable : s₄.table = mergeRows (s.clock + t.wait - cfg.window) s.table (batch cfg (s.clock + t.wait) w) := by
    rw [htable₄, htable₃, htable₂, flushed_batch]
  cases hfails : t.syncFails with
  | true =>
    rw [hfails] at hrest₄
    cases hrest₄
    exact ⟨hclock, htable, _, hw₄, rfl, .inl rfl⟩
  | false =>
    rw [hfails] at hrest₄
    rw [hfails] at hw₄
    obtain ⟨s₅,_,_,h₅,hrest₅,-⟩ := exec_cons.mp hrest₄
    cases hrest₅
    obtain ⟨hclock₅,htable₅,hw₅⟩ := merge_spec hw₄ rfl h₅
    exact ⟨hclock₅.trans hclock, htable₅.trans htable, _, hw₅, rfl, .inr (by rw [htable₅, htable₄])⟩

end Ticks

section Progress

variable {cfg : Config} {worker : Nat} {s s' r : State} {w : Worker} {t : Tick} {es : List Made}
  {buckets : List (Key × List ℚ)} {first table : Table}

structure Holding (buckets : List (Key × List ℚ)) (first : Table) (w : Worker) (table : Table) : Prop where
  nodup : ∀ type, (w.counters type).keys.Nodup
  order : (buckets.map Prod.fst).Sublist (allKeys w.counters)
  kept : ∀ p ∈ buckets, ∀ t ∈ p.2, t ∈ bucket w.counters p.1
  waiting : ∀ p ∈ buckets.drop flushBatch, row table p.1 = row first p.1

def Flushed (buckets : List (Key × List ℚ)) (table : Table) : Prop :=
  ∀ p ∈ buckets.take flushBatch, ∀ t ∈ p.2, t ∈ row table p.1

theorem nodup_evictIfNeeded (h : ∀ type, (w.counters type).keys.Nodup) (now : ℚ) (type : BucketType) :
    ((evictIfNeeded cfg now w).counters type).keys.Nodup :=
  ((evictIfNeeded_sublist cfg now w type).map Prod.fst).nodup (h type)

theorem isSome_of_mem_snapRows {c : Counters} {k : Key} {v : List ℚ} (h : (k, v) ∈ snapRows c) :
    ((c k.1).get? k.2).isSome := by
  have hkey : k.2 ∈ (c k.1).keys := by
    rcases List.mem_append.mp h with h | h
    all_goals
      obtain ⟨q,hq,heq⟩ := List.mem_map.mp h
      cases heq
      exact List.mem_map_of_mem hq
  obtain ⟨v',hget⟩ := Dict.exists_get?_of_mem_keys hkey
  rw [hget]
  rfl

theorem bucket_of_active (h : ∀ type, (w.counters type).keys.Nodup) {now : ℚ} {k : Key} {v : List ℚ}
    (hmem : (k, v) ∈ activeBuckets cfg now (evictIfNeeded cfg now w).counters) :
    bucket (evictIfNeeded cfg now w).counters k = v ∧ bucket w.counters k = v := by
  have hsnap := (activeBuckets_sublist cfg now _).subset hmem
  have hv := bucket_of_mem (nodup_evictIfNeeded h now) hsnap
  exact ⟨hv, (bucket_evictIfNeeded (isSome_of_mem_snapRows hsnap)).symm.trans hv⟩

theorem nodup_active (h : ∀ type, (w.counters type).keys.Nodup) (now : ℚ) :
    ((activeBuckets cfg now (evictIfNeeded cfg now w).counters).map Prod.fst).Nodup :=
  ((activeBuckets_sublist cfg now _).map Prod.fst).nodup (nodup_allKeys (nodup_evictIfNeeded h now))

theorem mem_row_batch (h : ∀ type, (w.counters type).keys.Nodup) {now : ℚ} {k : Key} {x cutoff : ℚ}
    (hk : k ∈ (batch cfg now w).map Prod.fst) (hx : x ∈ bucket w.counters k) :
    x ∈ row (mergeRows cutoff table (batch cfg now w)) k := by
  obtain ⟨⟨k,v⟩,hmem,rfl⟩ := List.mem_map.mp hk
  have hv := (bucket_of_active h (List.mem_of_mem_take hmem)).2
  refine mem_row_mergeRows ?_ hmem (hv ▸ hx)
  exact ((List.take_sublist _ _).map Prod.fst).nodup (nodup_active h now)

theorem Holding.sublist_active (h : Holding buckets first w table) {now : ℚ}
    (hactive : ∀ k ∈ buckets.map Prod.fst,
      k ∈ (activeBuckets cfg now (evictIfNeeded cfg now w).counters).map Prod.fst) :
    (buckets.map Prod.fst).Sublist
      ((activeBuckets cfg now (evictIfNeeded cfg now w).counters).map Prod.fst) :=
  sublist_of_subset h.order
    (((activeBuckets_sublist cfg now _).map Prod.fst).trans (allKeys_evictIfNeeded cfg now w))
    (nodup_allKeys h.nodup) hactive

theorem Holding.notMem_batch (h : Holding buckets first w table) {now : ℚ}
    (hactive : ∀ k ∈ buckets.map Prod.fst,
      k ∈ (activeBuckets cfg now (evictIfNeeded cfg now w).counters).map Prod.fst)
    {p : Key × List ℚ} (hp : p ∈ buckets.drop flushBatch) : p.1 ∉ (batch cfg now w).map Prod.fst := by
  intro hbatch
  rw [batch, List.map_take] at hbatch
  have hmem : p.1 ∈ (buckets.map Prod.fst).drop flushBatch := List.map_drop ▸ List.mem_map_of_mem hp
  have htake := mem_take_of_sublist (h.sublist_active hactive) (nodup_active h.nodup now)
    (List.mem_of_mem_drop hmem) hbatch
  exact List.disjoint_take_drop (h.order.nodup (nodup_allKeys h.nodup)) (Nat.le_refl _) htake hmem

theorem Holding.tick (h : Holding buckets first w s.table) (hw : s.workers[worker]? = some w)
    (hactive : StaysActive cfg worker (buckets.map Prod.fst) s t) (htick : tick cfg worker s t = some (s', es)) :
    ∃ w', s'.workers[worker]? = some w' ∧ Holding buckets first w' s'.table := by
  have hactive := hactive w hw
  obtain ⟨-,htable,w',hw',-,hcounters⟩ := tick_spec hw htick
  have horder : (buckets.map Prod.fst).Sublist (allKeys (evictIfNeeded cfg (s.clock + t.wait) w).counters) :=
    (h.sublist_active hactive).trans ((activeBuckets_sublist cfg _ _).map Prod.fst)
  have hkept : ∀ p ∈ buckets, ∀ x ∈ p.2, x ∈ bucket (evictIfNeeded cfg (s.clock + t.wait) w).counters p.1 := by
    intro p hp x hx
    obtain ⟨⟨k,v⟩,hmem,hk⟩ := List.mem_map.mp (hactive p.1 (List.mem_map_of_mem hp))
    obtain rfl : k = p.1 := hk
    obtain ⟨hevicted,hbefore⟩ := bucket_of_active h.nodup hmem
    rw [hevicted, ← hbefore]
    exact h.kept p hp x hx
  have hwaiting : ∀ p ∈ buckets.drop flushBatch, row s'.table p.1 = row first p.1 := by
    intro p hp
    rw [htable, row_mergeRows_of_notMem (h.notMem_batch hactive hp)]
    exact h.waiting p hp
  refine ⟨w', hw', ?_⟩
  rcases hcounters with hcounters | hcounters
  · exact {
      nodup := by rw [hcounters]; exact nodup_evictIfNeeded h.nodup _
      order := by rw [hcounters]; exact horder
      kept := by rw [hcounters]; exact hkept
      waiting := hwaiting }
  · exact {
      nodup := by rw [hcounters]; exact nodup_syncRows (nodup_evictIfNeeded h.nodup _) _
      order := by rw [hcounters]; exact horder.trans (allKeys_sublist (keys_syncRows _))
      kept := by rw [hcounters]; exact fun p hp x hx => syncRows_keeps (hkept p hp x hx)
      waiting := hwaiting }

theorem Flushed.tick (h : Holding buckets first w s.table) (hflushed : Flushed buckets s.table)
    (hw : s.workers[worker]? = some w) (htick : RateLimit.tick cfg worker s t = some (s', es)) :
    Flushed buckets s'.table := by
  intro p hp x hx
  rw [(tick_spec hw htick).2.1]
  by_cases hbatch : p.1 ∈ (batch cfg (s.clock + t.wait) w).map Prod.fst
  · exact mem_row_batch h.nodup hbatch (h.kept p (List.mem_of_mem_take hp) x hx)
  · rw [row_mergeRows_of_notMem hbatch]
    exact hflushed p hp x hx

theorem holding_start (h : ∀ type, (w.counters type).keys.Nodup) (now : ℚ) (table : Table) :
    Holding (activeBuckets cfg now w.counters) table w table where
  nodup := h
  order := (activeBuckets_sublist cfg now _).map Prod.fst
  kept p hp x hx := by
    rw [bucket_of_mem h ((activeBuckets_sublist cfg now _).subset hp)]
    exact hx
  waiting _ _ := rfl

theorem flushed_first (h : ∀ type, (w.counters type).keys.Nodup) (hw : s.workers[worker]? = some w)
    (hactive : StaysActive cfg worker ((activeBuckets cfg s.clock w.counters).map Prod.fst) s t)
    (htick : tick cfg worker s t = some (s', es)) : Flushed (activeBuckets cfg s.clock w.counters) s'.table := by
  intro p hp x hx
  have hlater : ((activeBuckets cfg (s.clock + t.wait) (evictIfNeeded cfg (s.clock + t.wait) w).counters).map
      Prod.fst).Sublist ((activeBuckets cfg s.clock w.counters).map Prod.fst) :=
    (activeBuckets_later (le_add_of_nonneg_right t.wait.coe_nonneg) (evictIfNeeded_sublist cfg (s.clock + t.wait) w)).map Prod.fst
  have hkeys : ((activeBuckets cfg s.clock w.counters).map Prod.fst).Nodup :=
    ((activeBuckets_sublist cfg _ _).map Prod.fst).nodup (nodup_allKeys h)
  have hp' := List.mem_of_mem_take hp
  have htake : p.1 ∈ ((activeBuckets cfg s.clock w.counters).map Prod.fst).take flushBatch :=
    List.map_take ▸ List.mem_map_of_mem hp
  have hbatch : p.1 ∈ (batch cfg (s.clock + t.wait) w).map Prod.fst := by
    rw [batch, List.map_take]
    exact mem_take_of_sublist hlater hkeys (hactive w hw p.1 (List.mem_map_of_mem hp')) htake
  rw [(tick_spec hw htick).2.1]
  exact mem_row_batch h hbatch ((holding_start h s.clock s.table).kept p hp' x hx)

theorem holding_run {ticks : List Tick} (h : Holding buckets first w s.table) (hw : s.workers[worker]? = some w)
    (hmeets : Meets (tick cfg worker) (StaysActive cfg worker (buckets.map Prod.fst)) s ticks)
    (hrun : exec (tick cfg worker) s ticks = some (r, es)) :
    ∃ w', r.workers[worker]? = some w' ∧ Holding buckets first w' r.table ∧
      (Flushed buckets s.table → Flushed buckets r.table) := by
  induction ticks generalizing s w es with
  | nil =>
    cases hrun
    exact ⟨w, hw, h, id⟩
  | cons t ticks ih =>
    obtain ⟨s',es',es'',htick,hrest,-⟩ := exec_cons.mp hrun
    obtain ⟨w',hw',h'⟩ := h.tick hw hmeets.1 htick
    obtain ⟨v,hv,hholding,hflushed⟩ := ih h' hw' (hmeets.2 _ htick) hrest
    exact ⟨v, hv, hholding, fun hs => hflushed (Flushed.tick h hs hw htick)⟩

theorem every_bucket_flushed_iff {ticks : List Tick} (hw : s.workers[worker]? = some w)
    (hkeys : ∀ type, (w.counters type).keys.Nodup)
    (hticks : ticks.length = ((activeBuckets cfg s.clock w.counters).length + flushBatch - 1) / flushBatch)
    (hactive : Meets (tick cfg worker)
      (StaysActive cfg worker ((activeBuckets cfg s.clock w.counters).map Prod.fst)) s ticks)
    (hrun : exec (tick cfg worker) s ticks = some (r, es)) :
    (∀ p ∈ activeBuckets cfg s.clock w.counters, ∀ x ∈ p.2, x ∈ row r.table p.1) ↔
      ∀ p ∈ (activeBuckets cfg s.clock w.counters).drop flushBatch, ∀ x ∈ p.2, x ∈ row s.table p.1 := by
  have hstart : Holding (activeBuckets cfg s.clock w.counters) s.table w s.table := holding_start hkeys s.clock s.table
  obtain ⟨_,_,hholding,_⟩ := holding_run hstart hw hactive hrun
  have hflushed : Flushed (activeBuckets cfg s.clock w.counters) r.table := by
    cases ticks with
    | nil =>
      have hnone : (activeBuckets cfg s.clock w.counters).length = 0 := by
        rw [List.length_nil, flushBatch] at hticks
        omega
      intro p hp
      rw [List.length_eq_zero_iff.mp hnone] at hp
      cases hp
    | cons t ticks =>
      obtain ⟨s',es',es'',htick,hrest,-⟩ := exec_cons.mp hrun
      obtain ⟨w',hw',h'⟩ := hstart.tick hw hactive.1 htick
      obtain ⟨_,_,_,hlater⟩ := holding_run h' hw' (hactive.2 _ htick) hrest
      exact hlater (flushed_first hkeys hw hactive.1 htick)
  constructor
  · intro h p hp x hx
    rw [← hholding.waiting p hp]
    exact h p (List.mem_of_mem_drop hp) x hx
  · intro h p hp x hx
    rw [← List.take_append_drop flushBatch (activeBuckets cfg s.clock w.counters)] at hp
    rcases List.mem_append.mp hp with hp | hp
    · exact hflushed p hp x hx
    · rw [hholding.waiting p hp]
      exact h p hp x hx

end Progress

section Window

variable {cfg : Config} {worker : Nat} {s s' r : State} {w : Worker} {t : Tick} {es : List Made}
  {buckets : List (Key × List ℚ)}

theorem le_lastTime_sortedSet {xs : List ℚ} {x : ℚ} (h : x ∈ xs) : x ≤ lastTime (sortedSet xs) := by
  refine Recent.le_of_le_getLast (List.pairwise_insertionSort (· ≤ ·) xs.dedup) ?_ x (mem_sortedSet.mpr h)
  intro last hlast
  rw [lastTime, sortedSet, Option.mem_def.mp hlast, Option.getD_some]

def Retained (buckets : List (Key × List ℚ)) (c : Counters) : Prop :=
  ∀ p ∈ buckets, ∃ v, (c p.1.1).get? p.1.2 = some v ∧ v ≠ [] ∧ lastTime p.2 ≤ lastTime v

theorem retained_setBucket {c : Counters} (h : Retained buckets c) (k : Key) (foreign : List ℚ) :
    Retained buckets (setBucket c k (sortedSet (bucket c k ++ foreign))) := by
  intro p hp
  obtain ⟨v,hget,hne,hlast⟩ := h p hp
  obtain ⟨⟨type,key⟩,times⟩ := p
  obtain ⟨type',key'⟩ := k
  dsimp only at hget hlast ⊢
  rw [setBucket]
  dsimp only
  split
  · next htype =>
    subst htype
    rw [Dict.get?_set]
    split
    · next hkey =>
      subst hkey
      have hmem : ∀ x ∈ v, x ∈ bucket c (type, key') ++ foreign := by
        intro x hx
        rw [bucket, hget]
        exact List.mem_append_left _ hx
      obtain ⟨x,hx⟩ := List.exists_mem_of_ne_nil v hne
      refine ⟨_, rfl, List.ne_nil_of_mem (mem_sortedSet.mpr (hmem x hx)), hlast.trans ?_⟩
      have hv : lastTime v = v.getLast hne := by rw [lastTime, List.getLast?_eq_getLast_of_ne_nil hne, Option.getD_some]
      rw [hv]
      exact le_lastTime_sortedSet (hmem _ (List.getLast_mem hne))
    · exact ⟨v, hget, hne, hlast⟩
  · exact ⟨v, hget, hne, hlast⟩

theorem Retained.active {c : Counters} (h : Retained buckets c) {now : ℚ} {p : Key × List ℚ} (hp : p ∈ buckets)
    (hnow : now - cfg.window < lastTime p.2) : p.1 ∈ (activeBuckets cfg now c).map Prod.fst := by
  obtain ⟨v,hget,hne,hlast⟩ := h p hp
  refine List.mem_map.mpr ⟨(p.1, v), mem_snapRows (Dict.get?_filter hget ?_), rfl⟩
  simp only [Bool.and_eq_true, Bool.not_eq_true', List.isEmpty_eq_false_iff, decide_eq_true_eq]
  exact ⟨hne, hnow.trans_le hlast⟩

theorem staysActive_run {ticks : List Tick} {last : ℚ} (hw : s.workers[worker]? = some w)
    (hretained : Retained buckets w.counters) (hlast : ∀ p ∈ buckets, last ≤ lastTime p.2)
    (hwindow : s.clock + (ticks.map fun t => (t.wait : ℚ)).sum - cfg.window < last)
    (heviction : s.clock + (ticks.map fun t => (t.wait : ℚ)).sum - w.lastEviction < evictionInterval) :
    Meets (tick cfg worker) (StaysActive cfg worker (buckets.map Prod.fst)) s ticks := by
  induction ticks generalizing s w with
  | nil => trivial
  | cons t ticks ih =>
    have hsum : 0 ≤ (ticks.map fun t => (t.wait : ℚ)).sum :=
      List.sum_nonneg fun x hx => by obtain ⟨t,-,rfl⟩ := List.mem_map.mp hx; exact t.wait.coe_nonneg
    rw [List.map_cons, List.sum_cons] at hwindow heviction
    have hevict : evictIfNeeded cfg (s.clock + t.wait) w = w := if_pos (by linarith)
    refine ⟨fun w' hw' k hk => ?_, fun r hr => ?_⟩
    · cases hw.symm.trans hw'
      obtain ⟨p,hp,rfl⟩ := List.mem_map.mp hk
      rw [hevict]
      exact hretained.active hp (by have := hlast p hp; linarith)
    · obtain ⟨hclock,-,w',hw',heq,hcounters⟩ := tick_spec hw hr
      rw [hevict] at heq hcounters
      refine ih hw' ?_ (by rw [hclock]; linarith) (by rw [hclock, heq]; linarith)
      rcases hcounters with hcounters | hcounters
      · exact hcounters ▸ hretained
      · exact hcounters ▸ syncRows_invariant (P := Retained buckets) (fun _ k _ h => retained_setBucket h k _) _ hretained

end Window

section Crowd

def crowd (n : Nat) : Counters
  | .ip => (List.range n).map fun i => ("fd00::".toList ++ decimal i, [0])
  | .org => []

def crowded (n : Nat) : State := ⟨0, [], [⟨crowd n, 0, .idle⟩]⟩

theorem activeBuckets_crowd (n : Nat) : activeBuckets minuteWindow 0 (crowd n) =
    (List.range n).map fun i => ((.ip, "fd00::".toList ++ decimal i), [0]) := by
  have hlive : liveBuckets minuteWindow 0 (crowd n) .ip = crowd n .ip := by
    refine List.filter_eq_self.mpr fun p hp => ?_
    obtain ⟨i,-,rfl⟩ := List.mem_map.mp hp
    have hnow : (0 : ℚ) - minuteWindow.window < lastTime [0] := by decide +kernel
    exact decide_eq_true hnow
  have horg : liveBuckets minuteWindow 0 (crowd n) .org = [] := rfl
  rw [activeBuckets, snapRows, hlive, horg, List.map_nil, List.append_nil, crowd, List.map_map]
  rfl

theorem nodup_crowd (n : Nat) (type : BucketType) : (crowd n type).keys.Nodup := by
  cases type with
  | ip =>
    rw [crowd, Dict.keys, List.map_map]
    exact List.nodup_range.map fun _ _ h => decimal_injective (List.append_cancel_left h)
  | org => exact List.nodup_nil

theorem meets_crowd (n : Nat) {ticks : List Tick} (h : (ticks.map fun t => (t.wait : ℚ)).sum < evictionInterval) :
    Meets (tick minuteWindow 0)
      (StaysActive minuteWindow 0 ((activeBuckets minuteWindow 0 (crowd n)).map Prod.fst)) (crowded n) ticks := by
  have hlast : ∀ p ∈ activeBuckets minuteWindow 0 (crowd n), 0 ≤ lastTime p.2 := by
    intro p hp
    rw [activeBuckets_crowd] at hp
    obtain ⟨i,-,rfl⟩ := List.mem_map.mp hp
    exact le_rfl
  have hwindow : (minuteWindow.window : ℚ) = evictionInterval := by decide +kernel
  refine staysActive_run (s := crowded n) rfl ?_ hlast (by rw [hwindow]; simp only [crowded]; linarith)
    (by simp only [crowded]; linarith)
  · intro p hp
    have hmem := (activeBuckets_sublist minuteWindow 0 _).subset hp
    have hvalue := bucket_of_mem (nodup_crowd n) hmem
    rw [activeBuckets_crowd] at hp
    obtain ⟨i,-,rfl⟩ := List.mem_map.mp hp
    obtain ⟨v,hv⟩ := Option.isSome_iff_exists.mp (isSome_of_mem_snapRows hmem)
    rw [bucket, hv, Option.getD_some] at hvalue
    rw [hvalue] at hv
    exact ⟨[0], hv, List.cons_ne_nil _ _, le_rfl⟩

def oneTick : List Tick := [⟨(5 : Nat), false⟩]

theorem both_buckets_flushed : ∃ r es, exec (tick minuteWindow 0) (crowded 2) oneTick = some (r, es) ∧
    ∀ p ∈ activeBuckets minuteWindow 0 (crowd 2), ∀ x ∈ p.2, x ∈ row r.table p.1 := by
  have hmeets := @meets_crowd 2 oneTick (by decide +kernel)
  have hruns : (exec (tick minuteWindow 0) (crowded 2) oneTick).isSome := by decide +kernel
  obtain ⟨⟨r,es⟩,hrun⟩ := Option.isSome_iff_exists.mp hruns
  have hlength : (activeBuckets minuteWindow 0 (crowd 2)).length = 2 := by
    rw [activeBuckets_crowd, List.length_map, List.length_range]
  have hticks : oneTick.length =
      ((activeBuckets minuteWindow 0 (crowd 2)).length + flushBatch - 1) / flushBatch := by
    rw [hlength]
    rfl
  have hshort : (activeBuckets minuteWindow 0 (crowd 2)).length ≤ flushBatch := by
    rw [hlength, flushBatch]
    omega
  have hnone := List.drop_of_length_le hshort
  have hiff := @every_bucket_flushed_iff minuteWindow 0 (crowded 2) r ⟨crowd 2, 0, .idle⟩ es oneTick rfl
    (nodup_crowd 2)
  dsimp only [crowded] at hiff
  refine ⟨r, es, hrun, (hiff hticks hmeets hrun).mpr fun p hp => ?_⟩
  rw [hnone] at hp
  cases hp

def twoTicks : List Tick := [⟨(5 : Nat), false⟩, ⟨(5 : Nat), false⟩]

theorem last_bucket_never_flushed : ∃ r es, exec (tick minuteWindow 0) (crowded 1001) twoTicks = some (r, es) ∧
    twoTicks.length = ((activeBuckets minuteWindow 0 (crowd 1001)).length + flushBatch - 1) / flushBatch ∧
    Meets (tick minuteWindow 0)
      (StaysActive minuteWindow 0 ((activeBuckets minuteWindow 0 (crowd 1001)).map Prod.fst)) (crowded 1001) twoTicks ∧
    ¬∀ p ∈ activeBuckets minuteWindow 0 (crowd 1001), ∀ x ∈ p.2, x ∈ row r.table p.1 := by
  have hmeets := @meets_crowd 1001 twoTicks (by decide +kernel)
  have hruns : (exec (tick minuteWindow 0) (crowded 1001) twoTicks).isSome := by decide +kernel
  obtain ⟨⟨r,es⟩,hrun⟩ := Option.isSome_iff_exists.mp hruns
  refine ⟨r, es, hrun, ?_, hmeets, fun h => ?_⟩
  · rw [activeBuckets_crowd, List.length_map, List.length_range]
    rfl
  · obtain ⟨_,_,hholding,-⟩ := holding_run (s := crowded 1001)
      (holding_start (w := ⟨crowd 1001, 0, .idle⟩) (nodup_crowd 1001) 0 []) rfl hmeets hrun
    have hlast : ((BucketType.ip, "fd00::".toList ++ decimal 1000), [0]) ∈
        (activeBuckets minuteWindow 0 (crowd 1001)).drop flushBatch := by
      rw [activeBuckets_crowd, ← List.map_drop]
      refine List.mem_map_of_mem (List.mem_drop_iff_getElem.mpr ⟨0, ?_, List.getElem_range _⟩)
      rw [List.length_range, flushBatch]
      omega
    have hrow := h _ (List.mem_of_mem_drop hlast) 0 (List.mem_singleton_self 0)
    rw [hholding.waiting _ hlast] at hrow
    cases hrow

end Crowd

end PicoSentry.Serve.RateLimit
