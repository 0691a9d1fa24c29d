import PicoSentry.Sandbox.JobStore

namespace PicoSentry.Sandbox.JobStore

open Foundation

def canon (job : Job) : Json := Json.sortKeys (toJson job)

section Canon

variable {job job' : Job}

theorem get?_of_canon_eq (h : canon job = canon job') (k : Str) :
    (job.get? k).map Json.sortKeys = (job'.get? k).map Json.sortKeys := by
  have hfields : Json.sortFields (.ofList job) = Json.sortFields (.ofList job') := Json.obj.inj h
  have hget := congrArg (fun fs => Dict.get? (JsonFields.toList fs) k) hfields
  simpa [Json.get?_sortFields, Json.toList_ofList] using hget

theorem textField_eq (job : Job) (key : String) :
    textField job key = match (job.get? key.toList).map Json.sortKeys with
      | some (.str s) => s
      | _ => [] := by
  rw [textField]
  cases job.get? key.toList with
  | none => rfl
  | some j => cases j <;> rfl

theorem textField_of_canon_eq (h : canon job = canon job') (key : String) :
    textField job key = textField job' key := by
  rw [textField_eq, textField_eq, get?_of_canon_eq h]

theorem createdAt_of_canon_eq (h : canon job = canon job') : createdAt job = createdAt job' :=
  textField_of_canon_eq h "created_at"

theorem jobId_of_canon_eq (h : canon job = canon job') : jobId job = jobId job' :=
  textField_of_canon_eq h "job_id"

end Canon

def Survives (job : Job) : Prop :=
  ∃ job', Json.loads (dumpLine job) = some (toJson job') ∧ canon job' = canon job

theorem Survives.of_canon_eq {job job' : Job} (h : canon job = canon job') (hs : Survives job') :
    Survives job := by
  obtain ⟨r,hr,hc⟩ := hs
  refine ⟨r,?_,hc.trans h.symm⟩
  rwa [dumpLine, Json.dumps, ← canon, h]

section Reading

variable (U : Unicode)

theorem strip_dumpLine (job : Job) : U.strip (dumpLine job) = dumpLine job := by
  obtain ⟨hhead,t,ht⟩ := Json.render_obj_ends (Json.sortFields (.ofList job))
  refine U.strip_eq_of_ends (c := '\x7b') (d := '\x7d') hhead ht ?_ ?_
  · rw [U.space_ascii _ (by decide)]
    decide
  · rw [U.space_ascii _ (by decide)]
    decide

theorem dumpLine_ne_nil (job : Job) : dumpLine job ≠ [] := by
  obtain ⟨-,t,ht⟩ := Json.render_obj_ends (Json.sortFields (.ofList job))
  intro h
  have hnil : t ++ ['\x7d'] = [] := ht.symm.trans h
  simp at hnil

theorem readLine_dumpLine {job : Job} (hs : Survives job) (hid : jobId job ≠ []) :
    ∃ job', canon job' = canon job ∧
      ∀ jobs, readLine U jobs (dumpLine job) = .ok (jobs.set (jobId job) job') := by
  obtain ⟨job',hload,hcanon⟩ := hs
  refine ⟨job',hcanon,fun jobs => ?_⟩
  have hjid : jobId job' = jobId job := jobId_of_canon_eq hcanon
  simp [readLine, strip_dumpLine, dumpLine_ne_nil, hload, toJson, Json.toList_ofList, hjid, hid]

theorem readJobs_concat {lines : List Str} {line : Str} {jobs : Dict Str Job}
    (h : readJobs U lines = .ok jobs) : readJobs U (lines ++ [line]) = readLine U jobs line := by
  rw [readJobs] at h ⊢
  rw [List.foldlM_append, h]
  exact bind_pure (readLine U jobs line)

end Reading

structure Covers (maxJobs : Nat) (disk live : Dict Str Job) : Prop where
  nodup : (Dict.keys disk).Nodup
  ids : ∀ id job, disk.get? id = some job → jobId job = id
  kept : ∀ id job, live.get? id = some job →
    ∃ job', disk.get? id = some job' ∧ canon job' = canon job
  older : ∀ id job, disk.get? id = some job → live.get? id = none →
    maxJobs ≤ live.length ∧ ∀ id' job', live.get? id' = some job' → createdAt job < createdAt job'

def SameJobs (jobs jobs' : Dict Str Job) : Prop :=
  ∀ id, (jobs.get? id).map canon = (jobs'.get? id).map canon

theorem SameJobs.get?_eq_none {jobs jobs' : Dict Str Job} (h : SameJobs jobs jobs') {id : Str} :
    jobs.get? id = none ↔ jobs'.get? id = none := by
  rw [← Option.map_eq_none_iff (f := canon), h id, Option.map_eq_none_iff]

theorem SameJobs.get?_eq_some {jobs jobs' : Dict Str Job} (h : SameJobs jobs jobs') {id : Str}
    {job : Job} (hget : jobs.get? id = some job) :
    ∃ job', jobs'.get? id = some job' ∧ canon job' = canon job := by
  have hid := h id
  rw [hget, Option.map_some, eq_comm, Option.map_eq_some_iff] at hid
  exact hid

theorem length_le_of_keys {jobs : Dict Str Job} (jobs' : Dict Str Job)
    (hn : (Dict.keys jobs).Nodup)
    (h : ∀ id job, jobs.get? id = some job → ∃ job', jobs'.get? id = some job') :
    jobs.length ≤ jobs'.length := by
  have hsub : Dict.keys jobs ⊆ Dict.keys jobs' := by
    intro id hid
    obtain ⟨job,hget⟩ := Dict.exists_get?_of_mem_keys hid
    obtain ⟨job',hget'⟩ := h id job hget
    exact Dict.mem_keys_of_get? hget'
  simpa [Dict.keys] using (List.subperm_of_subset hn hsub).length_le

section Loading

variable {maxJobs : Nat} {disk live : Dict Str Job}

theorem get?_byId {jobs : List Job} (hn : (jobs.map jobId).Nodup) {id : Str} {job : Job} :
    (byId jobs).get? id = some job ↔ job ∈ jobs ∧ jobId job = id := by
  have hkeys : Dict.keys (jobs.map fun job => (jobId job, job)) = jobs.map jobId := by
    simp [Dict.keys]
  rw [byId, Dict.get?_ofPairs, Dict.lastOf_of_nodup (hkeys ▸ hn)]
  constructor
  · intro h
    obtain ⟨job',hmem,heq⟩ := List.mem_map.mp (Dict.mem_of_get? h)
    cases heq
    exact ⟨hmem, rfl⟩
  · rintro ⟨hmem,rfl⟩
    exact Dict.get?_of_mem (hkeys ▸ hn) (List.mem_map.mpr ⟨job, hmem, rfl⟩)

theorem Covers.ids_nodup (hc : Covers maxJobs disk live) :
    ((disk.map Prod.snd).map jobId).Nodup := by
  have hkeys : (disk.map Prod.snd).map jobId = Dict.keys disk := by
    rw [List.map_map, Dict.keys, List.map_inj_left]
    intro p hp
    exact hc.ids p.1 p.2 (Dict.get?_of_mem hc.nodup hp)
  exact hkeys ▸ hc.nodup

def isLive (live : Dict Str Job) (job : Job) : Bool := (live.get? (jobId job)).isSome

theorem Covers.separated (hc : Covers maxJobs disk live) :
    ∀ a ∈ disk.map Prod.snd, ∀ b ∈ disk.map Prod.snd, isLive live a = true →
      isLive live b = false → createdAt b < createdAt a := by
  intro a ha b hb hla hlb
  obtain ⟨⟨id,_⟩,hpa,rfl⟩ := List.mem_map.mp ha
  obtain ⟨⟨id',_⟩,hpb,rfl⟩ := List.mem_map.mp hb
  have hga := Dict.get?_of_mem hc.nodup hpa
  have hgb := Dict.get?_of_mem hc.nodup hpb
  rw [isLive, hc.ids _ _ hga, Option.isSome_iff_exists] at hla
  rw [isLive, hc.ids _ _ hgb, Option.isSome_eq_false_iff, Option.isNone_iff_eq_none] at hlb
  obtain ⟨job,hjob⟩ := hla
  obtain ⟨job',hget',hcanon⟩ := hc.kept _ _ hjob
  rw [hga] at hget'
  cases hget'
  rw [createdAt_of_canon_eq hcanon]
  exact (hc.older _ _ hgb hlb).2 _ _ hjob

theorem Covers.countP_isLive (hc : Covers maxJobs disk live) (hn : (Dict.keys live).Nodup) :
    (disk.map Prod.snd).countP (isLive live) = live.length := by
  have hfilter : ((Dict.keys disk).filter fun id => (live.get? id).isSome).Perm
      (Dict.keys live) := by
    rw [List.perm_ext_iff_of_nodup (hc.nodup.filter _) hn]
    intro id
    rw [List.mem_filter, Option.isSome_iff_exists]
    constructor
    · rintro ⟨-,job,hget⟩
      exact Dict.mem_keys_of_get? hget
    · intro hid
      obtain ⟨job,hget⟩ := Dict.exists_get?_of_mem_keys hid
      obtain ⟨job',hget',-⟩ := hc.kept id job hget
      exact ⟨Dict.mem_keys_of_get? hget', job, hget⟩
  have hlen := hfilter.length_eq
  rw [← List.countP_eq_length_filter, Dict.keys, List.countP_map, Dict.keys, List.length_map] at hlen
  rw [List.countP_map, ← hlen]
  refine List.countP_congr ?_
  intro p hp
  rw [Function.comp, Function.comp, isLive, hc.ids _ _ (Dict.get?_of_mem hc.nodup hp)]

theorem Covers.exists_dead (hc : Covers maxJobs disk live) (hlt : live.length < disk.length) :
    ∃ id job, disk.get? id = some job ∧ live.get? id = none := by
  by_contra hno
  have hle := length_le_of_keys live hc.nodup fun id job hget =>
    Option.ne_none_iff_exists'.mp fun hnone => hno ⟨id, job, hget, hnone⟩
  omega

def loaded (maxJobs : Nat) (disk : Dict Str Job) : Dict Str Job :=
  if disk.length > maxJobs then byId (newest maxJobs (disk.map Prod.snd)) else disk

theorem Covers.newest_perm (hc : Covers maxJobs disk live) (hn : (Dict.keys live).Nodup)
    (hfull : live.length = maxJobs) :
    (newest maxJobs (disk.map Prod.snd)).Perm ((disk.map Prod.snd).filter (isLive live)) := by
  rw [newest, ← hfull, ← hc.countP_isLive hn]
  exact take_descending createdAt hc.separated

theorem Covers.loaded_same (hc : Covers maxJobs disk live) (hn : (Dict.keys live).Nodup)
    (hle : live.length ≤ maxJobs) : SameJobs (loaded maxJobs disk) live := by
  intro id
  rw [loaded]
  split
  · next hlt =>
    obtain ⟨_,_,hdead,hnone⟩ := hc.exists_dead (by omega)
    have hfull : live.length = maxJobs := by
      have := (hc.older _ _ hdead hnone).1
      omega
    have hperm := hc.newest_perm hn hfull
    have hids : ((newest maxJobs (disk.map Prod.snd)).map jobId).Nodup :=
      (hperm.map jobId).nodup_iff.mpr ((List.filter_sublist.map jobId).nodup hc.ids_nodup)
    cases hget : live.get? id with
    | none =>
      rw [Option.map_none, Option.map_eq_none_iff, Option.eq_none_iff_forall_ne_some]
      intro job hjob
      obtain ⟨hmem,rfl⟩ := (get?_byId hids).mp hjob
      have hlive := (List.mem_filter.mp (hperm.mem_iff.mp hmem)).2
      rw [isLive, hget] at hlive
      exact Bool.false_ne_true hlive
    | some job =>
      obtain ⟨job',hget',hcanon⟩ := hc.kept id job hget
      have hid := hc.ids id job' hget'
      have hmem : job' ∈ newest maxJobs (disk.map Prod.snd) := by
        refine hperm.mem_iff.mpr (List.mem_filter.mpr ⟨?_, by simp [isLive, hid, hget]⟩)
        exact List.mem_map.mpr ⟨_, Dict.mem_of_get? hget', rfl⟩
      rw [(get?_byId hids).mpr ⟨hmem, hid⟩, Option.map_some, Option.map_some, hcanon]
  · next hle' =>
    cases hget : live.get? id with
    | some job =>
      obtain ⟨job',hget',hcanon⟩ := hc.kept id job hget
      rw [hget', Option.map_some, Option.map_some, hcanon]
    | none =>
      rw [Option.map_none, Option.map_eq_none_iff, Option.eq_none_iff_forall_ne_some]
      intro job hjob
      have hfull := (hc.older id job hjob hget).1
      have hlt : live.length < disk.length := by
        have hsub : Dict.keys ((id, job) :: live) ⊆ Dict.keys disk := by
          intro id' hmem
          rcases List.mem_cons.mp hmem with rfl | hmem
          · exact Dict.mem_keys_of_get? hjob
          · obtain ⟨k,hk⟩ := Dict.exists_get?_of_mem_keys hmem
            obtain ⟨k',hk',-⟩ := hc.kept id' k hk
            exact Dict.mem_keys_of_get? hk'
        have hnodup : (Dict.keys ((id, job) :: live)).Nodup :=
          List.nodup_cons.mpr ⟨Dict.not_mem_keys_iff.mpr hget, hn⟩
        exact Nat.lt_of_succ_le (by simpa [Dict.keys] using
          (List.subperm_of_subset hnodup hsub).length_le)
      omega

end Loading

section Steps

variable {maxJobs : Nat} {disk live : Dict Str Job}

theorem Covers.of_same (hc : Covers maxJobs disk live) {live' : Dict Str Job}
    (hsame : SameJobs live' live) (hlen : live'.length = live.length) :
    Covers maxJobs disk live' := by
  refine ⟨hc.nodup,hc.ids,?_,?_⟩
  · intro id job hget
    obtain ⟨job₁,hget₁,hc₁⟩ := hsame.get?_eq_some hget
    obtain ⟨job₂,hget₂,hc₂⟩ := hc.kept id job₁ hget₁
    exact ⟨job₂,hget₂,hc₂.trans hc₁⟩
  · intro id job hget hnone
    obtain ⟨hfull,hold⟩ := hc.older id job hget (hsame.get?_eq_none.mp hnone)
    refine ⟨hlen ▸ hfull,fun id' job' hget' => ?_⟩
    obtain ⟨job₁,hget₁,hc₁⟩ := hsame.get?_eq_some hget'
    exact createdAt_of_canon_eq hc₁ ▸ hold id' job₁ hget₁

theorem Covers.set (hc : Covers maxJobs disk live) {job job' : Job}
    (hcanon : canon job' = canon job)
    (hold : ∀ id k, disk.get? id = some k → live.get? id = none → id ≠ jobId job →
      createdAt k < createdAt job) :
    Covers maxJobs (disk.set (jobId job) job') (live.set (jobId job) job) := by
  refine ⟨Dict.keys_set_nodup hc.nodup _ _,?_,?_,?_⟩
  · intro id k hget
    rw [Dict.get?_set] at hget
    split at hget
    · next hid =>
      cases hget
      exact hid ▸ jobId_of_canon_eq hcanon
    · exact hc.ids id k hget
  · intro id k hget
    rw [Dict.get?_set] at hget ⊢
    split at hget
    · cases hget
      exact ⟨job',if_pos ‹_›,hcanon⟩
    · next hid =>
      rw [if_neg hid]
      exact hc.kept id k hget
  · intro id k hget hnone
    rw [Dict.get?_set] at hget hnone
    split at hnone
    · cases hnone
    · next hid =>
      rw [if_neg hid] at hget
      obtain ⟨hfull,hlt⟩ := hc.older id k hget hnone
      have hlen := Dict.length_set_le live (jobId job) job
      refine ⟨le_trans hfull hlen,fun id' k' hget' => ?_⟩
      rw [Dict.get?_set] at hget'
      split at hget'
      · cases hget'
        exact hold id k hget hnone (Ne.symm hid)
      · exact hlt id' k' hget'

theorem Covers.erase (hc : Covers maxJobs disk live) {id₀ : Str} {job₀ : Job}
    (hget₀ : live.get? id₀ = some job₀)
    (hlt : ∀ id job, live.get? id = some job → id ≠ id₀ → createdAt job₀ < createdAt job)
    (hfull : maxJobs ≤ (live.erase id₀).length) : Covers maxJobs disk (live.erase id₀) := by
  refine ⟨hc.nodup,hc.ids,?_,?_⟩
  · intro id job hget
    rw [Dict.get?_erase] at hget
    split at hget
    · cases hget
    · exact hc.kept id job hget
  · intro id job hget hnone
    refine ⟨hfull,fun id' job' hget' => ?_⟩
    rw [Dict.get?_erase] at hnone hget'
    split at hget'
    · cases hget'
    · next hne' =>
      split at hnone
      · next hid =>
        subst hid
        obtain ⟨k,hk,hcanon⟩ := hc.kept id₀ job₀ hget₀
        rw [hget] at hk
        cases hk
        rw [createdAt_of_canon_eq hcanon]
        exact hlt id' job' hget' (Ne.symm hne')
      · exact (hc.older id job hget hnone).2 id' job' hget'

theorem evictOldest_overfull {jobs : Dict Str Job} (hn : (Dict.keys jobs).Nodup)
    (hids : ∀ id job, jobs.get? id = some job → jobId job = id)
    (hlen : jobs.length = maxJobs + 1) :
    ∃ id₀ job₀, jobs.get? id₀ = some job₀ ∧
      (∀ id job, jobs.get? id = some job → createdAt job₀ ≤ createdAt job) ∧
      evictOldest maxJobs jobs = jobs.erase id₀ ∧ (jobs.erase id₀).length = maxJobs := by
  have hne : jobs.map Prod.snd ≠ [] := by
    rw [← List.length_pos_iff, List.length_map, hlen]
    omega
  obtain ⟨job₀,rest,hsort,hmem,hmin⟩ := head_ascending createdAt hne
  obtain ⟨⟨id₀,_⟩,hpair,rfl⟩ := List.mem_map.mp hmem
  have hget₀ := Dict.get?_of_mem hn hpair
  refine ⟨id₀,_,hget₀,?_,?_,?_⟩
  · intro id job hget
    exact hmin job (List.mem_map.mpr ⟨_, Dict.mem_of_get? hget, rfl⟩)
  · have hover : jobs.length - maxJobs = 1 := by omega
    rw [evictOldest, hover, hsort, List.take_succ_cons, List.take_zero, List.foldl_cons,
      List.foldl_nil, hids _ _ hget₀]
  · have := Dict.length_erase hn (Dict.mem_keys_of_get? hget₀)
    omega

theorem evictOldest_fits {jobs : Dict Str Job} (hle : jobs.length ≤ maxJobs) :
    evictOldest maxJobs jobs = jobs := by
  rw [evictOldest, Nat.sub_eq_zero_of_le hle, List.take_zero, List.foldl_nil]

def SingleOldest (jobs : Dict Str Job) : Prop :=
  ∃ id₀ job₀, jobs.get? id₀ = some job₀ ∧
    ∀ id job, jobs.get? id = some job → id ≠ id₀ → createdAt job₀ < createdAt job

theorem SingleOldest.eq_of_minimal {jobs : Dict Str Job} (h : SingleOldest jobs) {id₁ : Str}
    {job₁ : Job} (hget₁ : jobs.get? id₁ = some job₁)
    (hmin : ∀ id job, jobs.get? id = some job → createdAt job₁ ≤ createdAt job) :
    ∀ id job, jobs.get? id = some job → id ≠ id₁ → createdAt job₁ < createdAt job := by
  obtain ⟨id₀,job₀,hget₀,hlt⟩ := h
  have hid : id₁ = id₀ := by
    by_contra hne
    exact absurd (hmin _ _ hget₀) (not_le.mpr (hlt _ _ hget₁ hne))
  subst hid
  rw [hget₀] at hget₁
  cases hget₁
  exact hlt

section Evict

variable {jobs : Dict Str Job} (hn : (Dict.keys jobs).Nodup)
  (hids : ∀ id job, jobs.get? id = some job → jobId job = id)
  (hlen : jobs.length ≤ maxJobs + 1)
include hn hids hlen

theorem keys_evictOldest_nodup : (Dict.keys (evictOldest maxJobs jobs)).Nodup := by
  rcases Nat.lt_or_eq_of_le hlen with hle | hfull
  · rwa [evictOldest_fits (Nat.le_of_lt_succ hle)]
  · obtain ⟨_,_,-,-,heq,-⟩ := evictOldest_overfull hn hids hfull
    exact heq ▸ Dict.keys_erase_nodup hn _

theorem length_evictOldest : (evictOldest maxJobs jobs).length = min maxJobs jobs.length := by
  rcases Nat.lt_or_eq_of_le hlen with hle | hfull
  · rw [evictOldest_fits (Nat.le_of_lt_succ hle)]
    omega
  · obtain ⟨_,_,-,-,heq,hl⟩ := evictOldest_overfull hn hids hfull
    rw [heq, hl]
    omega

theorem mem_of_mem_evictOldest {p : Str × Job} (h : p ∈ evictOldest maxJobs jobs) : p ∈ jobs := by
  rcases Nat.lt_or_eq_of_le hlen with hle | hfull
  · rwa [evictOldest_fits (Nat.le_of_lt_succ hle)] at h
  · obtain ⟨_,_,-,-,heq,-⟩ := evictOldest_overfull hn hids hfull
    rw [heq, Dict.erase] at h
    exact List.mem_of_mem_filter h

theorem Covers.evictOldest {disk : Dict Str Job} (hc : Covers maxJobs disk jobs)
    (hsingle : maxJobs < jobs.length → SingleOldest jobs) :
    Covers maxJobs disk (evictOldest maxJobs jobs) := by
  rcases Nat.lt_or_eq_of_le hlen with hle | hfull
  · rwa [evictOldest_fits (Nat.le_of_lt_succ hle)]
  · obtain ⟨id₀,job₀,hget₀,hmin,heq,hl⟩ := evictOldest_overfull hn hids hfull
    rw [heq]
    exact hc.erase hget₀ ((hsingle (by omega)).eq_of_minimal hget₀ hmin) hl.ge

end Evict

theorem readJobs_lines (U : Unicode) {jobs : Dict Str Job}
    (hs : ∀ p ∈ jobs, Survives p.2 ∧ jobId p.2 = p.1 ∧ p.1 ≠ []) (acc : Dict Str Job) :
    ∃ pairs : List (Str × Job), (jobs.map fun p => dumpLine p.2).foldlM (readLine U) acc =
        .ok (acc.setAll pairs) ∧
      (pairs.map fun p => (p.1, canon p.2)) = jobs.map fun p => (p.1, canon p.2) := by
  induction jobs generalizing acc with
  | nil => exact ⟨[], rfl, rfl⟩
  | cons p jobs ih =>
    obtain ⟨hsurv,hid,hne⟩ := hs p List.mem_cons_self
    obtain ⟨job',hcanon,hread⟩ := readLine_dumpLine U hsurv (hid ▸ hne)
    obtain ⟨pairs,hfold,hpairs⟩ := ih (fun q hq => hs q (List.mem_cons_of_mem _ hq))
      (acc.set p.1 job')
    refine ⟨(p.1, job') :: pairs,?_,?_⟩
    · rw [List.map_cons, List.foldlM_cons, hread, hid]
      exact hfold
    · rw [List.map_cons, List.map_cons, hpairs, hcanon]

theorem covers_rewrite (U : Unicode) {jobs : Dict Str Job} (hn : (Dict.keys jobs).Nodup)
    (hs : ∀ p ∈ jobs, Survives p.2 ∧ jobId p.2 = p.1 ∧ p.1 ≠ []) :
    ∃ disk, readJobs U (jobs.map fun p => dumpLine p.2) = .ok disk ∧
      Covers maxJobs disk jobs := by
  obtain ⟨pairs,hread,hpairs⟩ := readJobs_lines U hs []
  refine ⟨.ofPairs pairs,hread,?_⟩
  have hkeys : Dict.keys pairs = Dict.keys jobs := by
    have := congrArg (List.map Prod.fst) hpairs
    simpa [Dict.keys, Function.comp_def] using this
  have hsame : SameJobs (.ofPairs pairs) jobs := by
    intro id
    rw [Dict.get?_ofPairs, Dict.lastOf_of_nodup (hkeys ▸ hn), ← Dict.get?_mapValues, hpairs,
      Dict.get?_mapValues]
  refine ⟨Dict.keys_setAll_nodup (d := []) List.nodup_nil pairs,?_,?_,?_⟩
  · intro id job hget
    obtain ⟨job',hget',hcanon⟩ := hsame.get?_eq_some hget
    rw [← jobId_of_canon_eq hcanon]
    exact (hs _ (Dict.mem_of_get? hget')).2.1
  · intro id job hget
    have hid := hsame id
    rw [hget, Option.map_some, Option.map_eq_some_iff] at hid
    exact hid
  · intro id job hget hnone
    rw [hsame.get?_eq_none.mpr hnone] at hget
    cases hget

end Steps

section Calls

variable (U : Unicode) (maxJobs : Nat)

structure Inv (s : Store) : Prop where
  nodup : (Dict.keys s.jobs).Nodup
  bounded : s.jobs.length ≤ maxJobs
  ids : ∀ p ∈ s.jobs, Survives p.2 ∧ jobId p.2 = p.1 ∧ p.1 ≠ []
  disk : ∃ disk, readJobs U (s.storeFile.getD []) = .ok disk ∧ Covers maxJobs disk s.jobs

def Legal (s : Store) : Call → Prop
  | .add id command actor now => id ≠ [] ∧ Survives (newJob id command actor now)
  | .update id kwargs now =>
    ∀ job, s.jobs.get? id = some job → Survives (updateJob job kwargs.args now)
  | .reconcileOnStart now => ∀ p ∈ s.jobs, orphaned p.2 = true → Survives (failJob now p.2)
  | .restart => fileSize (s.storeFile.getD []) ≤ maxFileSize

def DeadOlder (s : Store) (job : Job) : Prop :=
  ∀ disk, readJobs U (s.storeFile.getD []) = .ok disk → ∀ id k, disk.get? id = some k →
    s.jobs.get? id = none → id ≠ jobId job → createdAt k < createdAt job

def Rewrites (s : Store) (job : Job) : Prop :=
  min maxJobs (s.jobs.set (jobId job) job).length < s.appendsSinceRewrite + 1

def NoTie (s : Store) : Call → Prop
  | .add id command actor now =>
    let job := newJob id command actor now
    let jobs := s.jobs.set (jobId job) job
    Rewrites maxJobs s job ∨ DeadOlder U s job ∧ (maxJobs < jobs.length → SingleOldest jobs)
  | .update .. => True
  | .reconcileOnStart _ => True
  | .restart => True

def Durable (s : Store) : Prop :=
  fileSize (s.storeFile.getD []) ≤ maxFileSize →
    ∃ jobs storeFile, loadFromDisk U maxJobs s.storeFile = .ok (jobs, storeFile) ∧
      SameJobs jobs s.jobs

variable {U maxJobs}

theorem loadFromDisk_eq {s : Store} {disk : Dict Str Job}
    (hread : readJobs U (s.storeFile.getD []) = .ok disk)
    (hsize : fileSize (s.storeFile.getD []) ≤ maxFileSize) :
    loadFromDisk U maxJobs s.storeFile = .ok (loaded maxJobs disk, s.storeFile) := by
  obtain ⟨_,_,storeFile⟩ := s
  cases storeFile with
  | none =>
    cases hread
    rfl
  | some lines =>
    rw [Option.getD_some] at hread hsize
    rw [loadFromDisk, if_neg (not_lt.mpr hsize), hread]
    rfl

theorem Inv.durable {s : Store} (h : Inv U maxJobs s) : Durable U maxJobs s := by
  intro hsize
  obtain ⟨disk,hread,hcovers⟩ := h.disk
  exact ⟨_, _, loadFromDisk_eq hread hsize, hcovers.loaded_same h.nodup h.bounded⟩

theorem inv_rewriteDisk {s : Store} (hn : (Dict.keys s.jobs).Nodup) (hle : s.jobs.length ≤ maxJobs)
    (hs : ∀ p ∈ s.jobs, Survives p.2 ∧ jobId p.2 = p.1 ∧ p.1 ≠ []) :
    Inv U maxJobs (rewriteDisk s) :=
  ⟨hn, hle, hs, covers_rewrite U hn hs⟩

theorem inv_add {s : Store} (h : Inv U maxJobs s) {job : Job} (hid : jobId job ≠ [])
    (hs : Survives job)
    (htie : Rewrites maxJobs s job ∨ DeadOlder U s job ∧
      (maxJobs < (s.jobs.set (jobId job) job).length →
        SingleOldest (s.jobs.set (jobId job) job))) :
    Inv U maxJobs (add maxJobs s job) := by
  have hn := Dict.keys_set_nodup h.nodup (jobId job) job
  have hmem : ∀ p ∈ s.jobs.set (jobId job) job, Survives p.2 ∧ jobId p.2 = p.1 ∧ p.1 ≠ [] := by
    intro p hp
    rcases Dict.mem_set hp with hp | rfl
    · exact h.ids p hp
    · exact ⟨hs,rfl,hid⟩
  have hids : ∀ id k, (s.jobs.set (jobId job) job).get? id = some k → jobId k = id :=
    fun id k hget => (hmem _ (Dict.mem_of_get? hget)).2.1
  have hlen : (s.jobs.set (jobId job) job).length ≤ maxJobs + 1 := by
    have hb := h.bounded
    rw [Dict.length_set]
    split <;> omega
  have hevict : (if (s.jobs.set (jobId job) job).length > maxJobs then
      evictOldest maxJobs (s.jobs.set (jobId job) job) else s.jobs.set (jobId job) job) =
      evictOldest maxJobs (s.jobs.set (jobId job) job) := by
    split
    · rfl
    · next hle => rw [evictOldest_fits (not_lt.mp hle)]
  have hkept : ∀ p ∈ evictOldest maxJobs (s.jobs.set (jobId job) job),
      Survives p.2 ∧ jobId p.2 = p.1 ∧ p.1 ≠ [] :=
    fun p hp => hmem p (mem_of_mem_evictOldest hn hids hlen hp)
  have hcap := length_evictOldest hn hids hlen
  simp only [add, hevict, appendToDisk]
  split
  · exact inv_rewriteDisk (keys_evictOldest_nodup hn hids hlen) (by simp only; omega) hkept
  · next happ =>
    rcases htie with hrw | ⟨hold,hsingle⟩
    · rw [Rewrites] at hrw
      omega
    · refine ⟨keys_evictOldest_nodup hn hids hlen, by simp only; omega, hkept, ?_⟩
      obtain ⟨disk,hread,hcovers⟩ := h.disk
      obtain ⟨job',hcanon,hline⟩ := readLine_dumpLine U hs hid
      refine ⟨disk.set (jobId job) job',?_,?_⟩
      · exact (readJobs_concat U hread).trans (hline disk)
      · exact (hcovers.set hcanon (hold disk hread)).evictOldest hn hids hlen hsingle

theorem jobId_eq_of_get? {job job' : Job}
    (h : job'.get? "job_id".toList = job.get? "job_id".toList) : jobId job' = jobId job := by
  rw [jobId, jobId, textField, textField, h]

theorem jobId_updateJob (job : Job) (kwargs : UpdateArgs) (now : Str) :
    jobId (updateJob job kwargs.args now) = jobId job := by
  have hset : (job.setAll kwargs.args).get? "job_id".toList = job.get? "job_id".toList := by
    rw [Dict.get?_setAll, Dict.lastOf_eq_none kwargs.no_job_id, Option.none_or]
  refine jobId_eq_of_get? ?_
  rw [updateJob]
  split
  · rw [Dict.get?_set, if_neg (by decide), hset]
  · exact hset

theorem jobId_failJob (now : Str) (job : Job) : jobId (failJob now job) = jobId job := by
  refine jobId_eq_of_get? ?_
  rw [failJob, Dict.get?_set, if_neg (by decide), Dict.get?_set, if_neg (by decide),
    Dict.get?_set, if_neg (by decide)]

theorem inv_update {s : Store} (h : Inv U maxJobs s) {id : Str} {kwargs : UpdateArgs} {now : Str}
    (hs : ∀ job, s.jobs.get? id = some job → Survives (updateJob job kwargs.args now)) :
    Inv U maxJobs (update s id kwargs now) := by
  rw [update]
  cases hget : s.jobs.get? id with
  | none => exact h
  | some job =>
    have hmem := Dict.mem_of_get? hget
    refine inv_rewriteDisk (Dict.keys_set_nodup h.nodup _ _) ?_ ?_
    · rw [Dict.length_set, if_pos (Dict.mem_keys_of_get? hget)]
      exact h.bounded
    · intro p hp
      rcases Dict.mem_set hp with hp | rfl
      · exact h.ids p hp
      · obtain ⟨-,hid,hne⟩ := h.ids _ hmem
        exact ⟨hs job hget,(jobId_updateJob job kwargs now).trans hid,hne⟩

theorem inv_reconcileOnStart {s : Store} (h : Inv U maxJobs s) {now : Str}
    (hs : ∀ p ∈ s.jobs, orphaned p.2 = true → Survives (failJob now p.2)) :
    Inv U maxJobs (reconcileOnStart s now) := by
  rw [reconcileOnStart]
  split
  · exact h
  · refine inv_rewriteDisk ?_ ?_ ?_
    · simpa [Dict.keys, Function.comp_def] using h.nodup
    · simpa using h.bounded
    · intro p hp
      obtain ⟨q,hq,rfl⟩ := List.mem_map.mp hp
      obtain ⟨hsurv,hid,hne⟩ := h.ids q hq
      simp only
      split
      · next ho => exact ⟨hs q hq ho,(jobId_failJob now q.2).trans hid,hne⟩
      · exact ⟨hsurv,hid,hne⟩

theorem keys_loaded_nodup (maxJobs : Nat) {disk : Dict Str Job} (hn : (Dict.keys disk).Nodup) :
    (Dict.keys (loaded maxJobs disk)).Nodup := by
  rw [loaded]
  split
  · exact Dict.keys_setAll_nodup (d := []) List.nodup_nil _
  · exact hn

theorem inv_restart {s : Store} (h : Inv U maxJobs s)
    (hsize : fileSize (s.storeFile.getD []) ≤ maxFileSize) :
    ∃ s', step U maxJobs s .restart = some (s', []) ∧ Inv U maxJobs s' := by
  obtain ⟨disk,hread,hcovers⟩ := h.disk
  have hsame := hcovers.loaded_same h.nodup h.bounded
  have hn := keys_loaded_nodup maxJobs hcovers.nodup
  have hlen : (loaded maxJobs disk).length = s.jobs.length := by
    refine le_antisymm (length_le_of_keys _ hn ?_) (length_le_of_keys _ h.nodup ?_)
    · intro id job hget
      obtain ⟨job',hget',-⟩ := hsame.get?_eq_some hget
      exact ⟨job',hget'⟩
    · intro id job hget
      refine Option.ne_none_iff_exists'.mp fun hnone => ?_
      rw [hsame.get?_eq_none.mp hnone] at hget
      cases hget
  have hstep : step U maxJobs s .restart =
      some ({ jobs := loaded maxJobs disk, storeFile := s.storeFile }, []) := by
    rw [step, loadFromDisk_eq hread hsize]
  refine ⟨_,hstep,hn,?_,?_,disk,hread,?_⟩
  · exact hlen ▸ h.bounded
  · intro p hp
    obtain ⟨job,hget,hcanon⟩ := hsame.get?_eq_some (Dict.get?_of_mem hn hp)
    obtain ⟨hsurv,hid,hne⟩ := h.ids _ (Dict.mem_of_get? hget)
    exact ⟨hsurv.of_canon_eq hcanon.symm,(jobId_of_canon_eq hcanon.symm).trans hid,hne⟩
  · exact hcovers.of_same hsame hlen

theorem inv_step {s s' : Store} {call : Call} {es : List Unit} (h : Inv U maxJobs s)
    (hlegal : Legal s call) (htie : NoTie U maxJobs s call)
    (hstep : step U maxJobs s call = some (s', es)) : Inv U maxJobs s' := by
  cases call with
  | add id command actor now =>
    cases hstep
    exact inv_add h hlegal.1 hlegal.2 htie
  | update id kwargs now =>
    cases hstep
    exact inv_update h hlegal
  | reconcileOnStart now =>
    cases hstep
    exact inv_reconcileOnStart h hlegal
  | restart =>
    obtain ⟨s₁,hs₁,hinv⟩ := inv_restart h hlegal
    rw [hs₁] at hstep
    cases hstep
    exact hinv

theorem inv_empty : Inv U maxJobs {} where
  nodup := List.nodup_nil
  bounded := Nat.zero_le _
  ids := by simp
  disk := ⟨[], rfl, List.nodup_nil, by simp [Dict.get?], by simp [Dict.get?], by simp [Dict.get?]⟩

end Calls

theorem restart_loads_live_jobs (U : Unicode) (maxJobs : Nat) (calls : List Call) (s : Store)
    (es : List Unit)
    (hmeets : Run.Meets (step U maxJobs) (fun s call => Legal s call ∧ NoTie U maxJobs s call)
      {} calls)
    (hrun : Run.exec (step U maxJobs) {} calls = some (s, es)) : Durable U maxJobs s := by
  have hstep : ∀ (past : List Unit) (s : Store) (call : Call) (s' : Store) (es : List Unit),
      Inv U maxJobs s → Legal s call ∧ NoTie U maxJobs s call →
        step U maxJobs s call = some (s', es) → Inv U maxJobs s' :=
    fun _ _ _ _ _ h hcond hs => inv_step h hcond.1 hcond.2 hs
  exact (Run.exec_invariant hstep [] inv_empty hmeets hrun).durable

theorem survives_of_plain {job : Job} (hp : Json.plain (canon job) = true)
    (hi : Json.sortKeys (canon job) = canon job) : Survives job := by
  have hobj : toJson (Json.sortFields (.ofList job)).toList = canon job := by
    rw [toJson, Json.ofList_toList]
    rfl
  refine ⟨(Json.sortFields (.ofList job)).toList,?_,?_⟩
  · rw [hobj]
    exact Json.loads_render hp
  · rw [canon, hobj, hi]

def noon : String := "2026-01-01T12:00:00Z"

def tick : String := "2026-01-01T12:00:01Z"

def addAt (id now : String) : Call := .add id.toList [] "ci".toList now.toList

def jobAt (id now : String) : Job := newJob id.toList [] "ci".toList now.toList

def threeAdds (now : String) : List Call := [addAt "a" noon, addAt "b" noon, addAt "c" now]

def afterThree (now : String) : Store where
  jobs := [("c".toList, jobAt "c" now)]
  appendsSinceRewrite := 1
  storeFile := some [dumpLine (jobAt "b" noon), dumpLine (jobAt "c" now)]

theorem survives_jobAt (id now : String) (h : Json.plain (canon (jobAt id now)) = true) :
    Survives (jobAt id now) :=
  survives_of_plain h rfl

theorem not_durable_afterThree : ¬Durable .basic 1 (afterThree noon) := by
  intro h
  obtain ⟨jobs,storeFile,hload,hsame⟩ := h (by decide +kernel)
  have hb := survives_jobAt "b" noon (by decide +kernel)
  have hc := survives_jobAt "c" noon (by decide +kernel)
  obtain ⟨jb,hjb,hreadb⟩ := readLine_dumpLine .basic hb (by decide)
  obtain ⟨jc,hjc,hreadc⟩ := readLine_dumpLine .basic hc (by decide)
  have hread : readJobs .basic ((afterThree noon).storeFile.getD []) =
      .ok [("b".toList, jb), ("c".toList, jc)] := by
    have hnil : readJobs .basic [] = .ok [] := rfl
    exact (readJobs_concat .basic ((readJobs_concat .basic hnil).trans (hreadb []))).trans
      (hreadc [("b".toList, jb)])
  rw [loadFromDisk_eq hread (by decide +kernel)] at hload
  cases hload
  -- Both jobs carry the same second, so the stable sort keeps the one the file names first.
  have hnewest : newest 1 [jb, jc] = [jb] := by
    have hle : createdAt jc ≤ createdAt jb := by
      rw [createdAt_of_canon_eq hjb, createdAt_of_canon_eq hjc]
      exact le_refl _
    simp [newest, descending, hle]
  have hkept : loaded 1 [("b".toList, jb), ("c".toList, jc)] = [("b".toList, jb)] := by
    rw [loaded, List.length_cons, List.length_singleton, if_pos (Nat.lt_succ_self 1),
      List.map_cons, List.map_cons, List.map_nil, hnewest, byId,
      List.map_cons, List.map_nil, jobId_of_canon_eq hjb]
    rfl
  have hgone := hsame "c".toList
  rw [hkept] at hgone
  cases hgone

theorem evicted_job_comes_back :
    ∃ s es, Run.exec (step .basic 1) {} (threeAdds noon) = some (s, es) ∧
      Run.Meets (step .basic 1) Legal {} (threeAdds noon) ∧ ¬Durable .basic 1 s := by
  refine ⟨afterThree noon,[],rfl,?_,not_durable_afterThree⟩
  refine ⟨⟨by decide, survives_jobAt "a" noon (by decide +kernel)⟩,?_⟩
  rintro _ ⟨⟩
  refine ⟨⟨by decide, survives_jobAt "b" noon (by decide +kernel)⟩,?_⟩
  rintro _ ⟨⟩
  exact ⟨⟨by decide, survives_jobAt "c" noon (by decide +kernel)⟩,by rintro _ ⟨⟩; trivial⟩

theorem restart_loads_live_jobs_after_eviction : Durable .basic 1 (afterThree tick) := by
  refine restart_loads_live_jobs .basic 1 (threeAdds tick) (afterThree tick) [] ?_ rfl
  refine ⟨⟨⟨by decide, survives_jobAt "a" noon (by decide +kernel)⟩,.inr ⟨?_,?_⟩⟩,?_⟩
  · rintro _ ⟨⟩ id k hget
    cases hget
  · intro hlt
    exact absurd hlt (by decide)
  rintro _ ⟨⟩
  refine ⟨⟨⟨by decide, survives_jobAt "b" noon (by decide +kernel)⟩,.inl ?_⟩,?_⟩
  · exact Nat.lt_of_lt_of_le (Nat.lt_succ_self 1) (le_refl _)
  rintro _ ⟨⟩
  refine ⟨⟨⟨by decide, survives_jobAt "c" tick (by decide +kernel)⟩,.inr ⟨?_,?_⟩⟩,
    by rintro _ ⟨⟩; trivial⟩
  · intro disk hdisk id k hget hnone
    obtain ⟨jb,-,hreadb⟩ := readLine_dumpLine .basic
      (survives_jobAt "b" noon (by decide +kernel)) (by decide)
    have hread : readJobs .basic [dumpLine (jobAt "b" noon)] = .ok [("b".toList, jb)] :=
      (readJobs_concat .basic (rfl : readJobs .basic [] = .ok [])).trans (hreadb [])
    cases hread.symm.trans hdisk
    have hid : "b".toList = id := by
      by_contra hne
      rw [Dict.get?, if_neg hne] at hget
      cases hget
    subst hid
    cases hnone
  · intro _
    refine ⟨"b".toList,jobAt "b" noon,rfl,fun id job hget hne => ?_⟩
    rw [Dict.get?_set] at hget
    split at hget
    · cases hget
      decide +kernel
    · cases (if_neg (Ne.symm hne)).symm.trans hget

end PicoSentry.Sandbox.JobStore
