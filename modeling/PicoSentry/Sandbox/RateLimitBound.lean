import PicoSentry.Sandbox.RateLimiter

namespace PicoSentry.Sandbox.RateLimiter

open Foundation Foundation.Run

def admitted (actor : Str) (s t : ℚ) (ds : List Decision) : List Decision :=
  ds.filter fun d => d.allowed ∧ d.call.actor = actor ∧ s ≤ d.call.clock.refill ∧
    d.call.clock.refill ≤ t

theorem Clocked.le_refill {now : ℚ} {calls : List Call} (h : Clocked now calls) :
    ∀ call ∈ calls, now ≤ call.clock.refill := by
  induction calls generalizing now with
  | nil => exact fun _ hcall => absurd hcall List.not_mem_nil
  | cons first calls ih =>
    intro call hcall
    rcases List.mem_cons.mp hcall with rfl | hcall
    · exact h.1.le_refill
    · exact h.1.le_refill.trans (h.1.refill_le.trans (ih h.2 call hcall))

theorem calls_of_exec {c : RateLimitConfig} {l l' : TokenBucketLimiter} {calls : List Call}
    {ds : List Decision} (hrun : exec (step c) l calls = some (l', ds)) :
    ∀ d ∈ ds, d.call ∈ calls := by
  induction calls generalizing l ds with
  | nil =>
    cases hrun
    exact fun _ hd => absurd hd List.not_mem_nil
  | cons call calls ih =>
    obtain ⟨_,_,ds',hstep,hrest,rfl⟩ := exec_cons.mp hrun
    cases hstep
    intro d hd
    rcases List.mem_append.mp hd with hd | hd
    · exact List.mem_singleton.mp hd ▸ List.mem_cons_self
    · exact List.mem_cons_of_mem call (ih hrest d hd)

section Capped

variable {c : RateLimitConfig} {l : TokenBucketLimiter} {call : Call}

def Capped (c : RateLimitConfig) (buckets : Buckets) : Prop :=
  ∀ entry ∈ buckets, entry.2.burst = (c.burstSize : ℚ)

theorem consumeActor_capped (h : Capped c l.buckets) :
    Capped c (consumeActor c l call).1.buckets ∧
      ((consumeActor c l call).2 = true → call.tokens ≤ c.burstSize) := by
  have hswept : ∀ {buckets : Buckets} (now : ℚ), Capped c buckets →
      Capped c (cleanupStale c buckets now) :=
    fun _ hb entry hentry => hb entry (List.mem_of_mem_filter hentry)
  have hfound : Capped c (actorBucket c l.buckets call).1 ∧
      (actorBucket c l.buckets call).2.burst = (c.burstSize : ℚ) := by
    rw [actorBucket]
    split
    · next bucket hget => exact ⟨h, h _ (Dict.mem_of_get? hget)⟩
    · split
      · exact ⟨hswept _ h, rfl⟩
      · exact ⟨h, rfl⟩
  have hburst : ((actorBucket c l.buckets call).2.consume call.tokens call.clock.refill).1.burst =
      (c.burstSize : ℚ) := by
    by_cases hle : call.tokens ≤ (actorBucket c l.buckets call).2.available call.clock.refill
    · rw [TokenBucket.consume_of_le hle]
      exact hfound.2
    · rw [TokenBucket.consume_of_not_le hle]
      exact hfound.2
  have hset : Capped c ((actorBucket c l.buckets call).1.set call.actor
      ((actorBucket c l.buckets call).2.consume call.tokens call.clock.refill).1) := by
    intro entry hentry
    rcases Dict.mem_set hentry with hentry | rfl
    · exact hfound.1 entry hentry
    · exact hburst
  have hallowed : ((actorBucket c l.buckets call).2.consume call.tokens call.clock.refill).2 = true →
      call.tokens ≤ c.burstSize := by
    rw [TokenBucket.consume_snd]
    exact fun hle => (of_decide_eq_true hle).trans (hfound.2 ▸ TokenBucket.available_le_burst _ _)
  rw [consumeActor]
  dsimp only
  split
  · exact ⟨hswept _ hset, hallowed⟩
  · exact ⟨hset, hallowed⟩

theorem allow_capped (h : Capped c l.buckets) : Capped c (allow c l call).1.buckets ∧
    ((allow c l call).2 = true → call.tokens ≤ c.burstSize) := by
  rw [allow]
  split
  · exact consumeActor_capped h
  · next bucket passed _ =>
    cases passed with
    | true => exact consumeActor_capped (l := { l with globalBucket := some bucket }) h
    | false => exact ⟨h, fun hfalse => absurd hfalse Bool.false_ne_true⟩

theorem nothing_admitted {l' : TokenBucketLimiter} {calls : List Call} {ds : List Decision}
    {actor : Str} (hsmall : c.burstSize < 1)
    (hcost : ∀ call ∈ calls, call.actor = actor → 1 ≤ call.tokens) (h : Capped c l.buckets)
    (hrun : exec (step c) l calls = some (l', ds)) (s t : ℚ) : admitted actor s t ds = [] := by
  induction calls generalizing l ds with
  | nil =>
    cases hrun
    rfl
  | cons call calls ih =>
    obtain ⟨_,_,ds',hstep,hrest,rfl⟩ := exec_cons.mp hrun
    cases hstep
    obtain ⟨hcapped,hallowed⟩ := @allow_capped c l call h
    have hnone := ih (fun call hcall => hcost call (List.mem_cons_of_mem _ hcall)) hcapped hrest
    rw [admitted] at hnone
    rw [admitted, List.filter_append, hnone, List.append_nil, List.filter_eq_nil_iff]
    intro d hd hd'
    obtain rfl := List.mem_singleton.mp hd
    obtain ⟨hyes,hactor,_⟩ := of_decide_eq_true hd'
    have hle := (hcost call List.mem_cons_self hactor).trans (hallowed hyes)
    have hlt : (c.burstSize : ℚ) < 1 := by exact_mod_cast hsmall
    exact absurd hle hlt.not_ge

end Capped

section Spending

variable {c : RateLimitConfig} {l l' : TokenBucketLimiter} {call : Call} {calls : List Call}
  {buckets : Buckets} {ds : List Decision} {actor : Str} {now s t u x y : ℚ}

theorem available_le_burst (h : Sound c now buckets) (x : ℚ) :
    available c buckets actor x ≤ c.burstSize := by
  rw [available]
  split
  · exact le_refl _
  · next bucket hget => exact (h.get? hget).burst_eq ▸ bucket.available_le_burst x

theorem available_nonneg (hc : Refilling c) (hburst : 0 ≤ c.burstSize) (h : Sound c now buckets)
    (hx : now ≤ x) : 0 ≤ available c buckets actor x := by
  have hcast : (0 : ℚ) ≤ c.burstSize := by exact_mod_cast hburst
  rw [available]
  split
  · exact hcast
  · next bucket hget =>
    exact min_eq_left hcast ▸ (h.get? hget).floor_le_available hc.rate_nonneg hx

theorem available_le (hc : Refilling c) (h : Sound c now buckets) (hxy : x ≤ y) :
    available c buckets actor y ≤ available c buckets actor x + (y - x) * c.ratePerSecond :=
  (available_advance hc h hxy).trans_le (min_le_right _ _)

theorem paid (hc : Refilling c) (h : Sound c now l.buckets) (hclock : call.clock.From now)
    (hcost : call.actor = actor → 1 ≤ call.tokens) (hx : call.clock.finalSweep ≤ x) :
    ((if (allow c l call).2 = true ∧ call.actor = actor then 1 else 0 : ℚ) +
        available c (allow c l call).1.buckets actor x ≤
      available c l.buckets actor call.clock.refill + (x - call.clock.refill) * c.ratePerSecond) ∧
    ((allow c l call).2 = true ∧ call.actor = actor →
      1 ≤ available c l.buckets actor call.clock.refill) := by
  have hgrow : available c l.buckets actor x ≤ available c l.buckets actor call.clock.refill +
      (x - call.clock.refill) * c.ratePerSecond := available_le hc h (hclock.refill_le.trans hx)
  cases hdenied : deniedGlobally l call with
  | true =>
    obtain ⟨hbuckets,hfalse⟩ := allow_deniedGlobally (c := c) hdenied
    rw [hbuckets, hfalse, if_neg fun hyes => Bool.false_ne_true hyes.1, zero_add]
    exact ⟨hgrow, fun hyes => absurd hyes.1 Bool.false_ne_true⟩
  | false =>
    have hconsumed := allow_consumed hc h hclock hdenied
    by_cases hactor : call.actor = actor
    · subst hactor
      have hone := hcost rfl
      have hown := (hconsumed.own x hx).trans_le (min_le_right _ _)
      have hyes : (allow c l call).2 = true ↔
          call.tokens ≤ available c l.buckets call.actor call.clock.refill := by
        rw [hconsumed.allowed, decide_eq_true_eq]
      rw [spent] at hown
      by_cases hle : call.tokens ≤ available c l.buckets call.actor call.clock.refill
      · rw [if_pos hle] at hown
        rw [if_pos ⟨hyes.mpr hle, rfl⟩]
        exact ⟨by linarith, fun _ => hone.trans hle⟩
      · rw [if_neg hle] at hown
        rw [if_neg fun hboth => hle (hyes.mp hboth.1)]
        exact ⟨by linarith, fun hboth => absurd (hyes.mp hboth.1) hle⟩
    · rw [if_neg fun hyes => hactor hyes.2, zero_add, hconsumed.others x hx actor (Ne.symm hactor)]
      exact ⟨hgrow, fun hyes => absurd hyes.2 hactor⟩

theorem admitted_after (hlate : ∀ call ∈ calls, t < call.clock.refill)
    (hrun : exec (step c) l calls = some (l', ds)) : admitted actor s t ds = [] := by
  rw [admitted, List.filter_eq_nil_iff]
  intro d hd hd'
  exact absurd (of_decide_eq_true hd').2.2.2 (hlate d.call (calls_of_exec hrun d hd)).not_ge

theorem length_admitted_cons (d : Decision) :
    ((admitted actor s t (d :: ds)).length : ℚ) ≤
      (if d.allowed = true ∧ d.call.actor = actor ∧ d.call.clock.refill ≤ t then 1 else 0) +
        (admitted actor s t ds).length := by
  rw [admitted, List.filter_cons]
  split
  · next hcounted =>
    obtain ⟨hyes,hactor,_,hle⟩ := of_decide_eq_true hcounted
    rw [if_pos ⟨hyes, hactor, hle⟩, List.length_cons, Nat.cast_succ, add_comm]
    exact le_refl _
  · refine le_add_of_nonneg_left ?_
    split
    · exact zero_le_one
    · exact le_refl _

theorem admitted_le_available (hc : Refilling c) (hburst : 0 ≤ c.burstSize)
    (hcost : ∀ call ∈ calls, call.actor = actor → 1 ≤ call.tokens) (h : Sound c now l.buckets)
    (hclocked : Clocked now calls) (hnow : now ≤ u) (hu : ∀ call ∈ calls, u ≤ call.clock.refill)
    (hut : u ≤ t) (hrun : exec (step c) l calls = some (l', ds)) :
    ((admitted actor s t ds).length : ℚ) ≤
      available c l.buckets actor u + (t - u) * c.ratePerSecond := by
  induction calls generalizing l ds now u with
  | nil =>
    cases hrun
    exact add_nonneg (available_nonneg hc hburst h hnow)
      (TokenBucket.gain_nonneg hc.rate_nonneg hut)
  | cons call calls ih =>
    obtain ⟨hclock,hclocked⟩ := hclocked
    obtain ⟨_,_,ds',hstep,hrest,rfl⟩ := exec_cons.mp hrun
    cases hstep
    have hrefill : u ≤ call.clock.refill := hu call List.mem_cons_self
    have hgrow : available c l.buckets actor call.clock.refill ≤
        available c l.buckets actor u + (call.clock.refill - u) * c.ratePerSecond :=
      available_le hc h hrefill
    have hpaid := fun x => paid (x := x) hc h hclock (hcost call List.mem_cons_self)
    have hcons : ((admitted actor s t (⟨call, (allow c l call).2⟩ :: ds')).length : ℚ) ≤
        (if (allow c l call).2 = true ∧ call.actor = actor ∧ call.clock.refill ≤ t then 1 else 0) +
          (admitted actor s t ds').length := length_admitted_cons _
    rcases le_or_gt call.clock.finalSweep t with hle | hlt
    · have hih := ih (fun call hcall => hcost call (List.mem_cons_of_mem _ hcall))
        (sound_allow hc h hclock) hclocked (le_refl _) hclocked.le_refill hle hrest
      obtain ⟨hstep,_⟩ := hpaid _ (le_refl _)
      have hdrop : (if (allow c l call).2 = true ∧ call.actor = actor ∧ call.clock.refill ≤ t then 1
          else 0 : ℚ) ≤ if (allow c l call).2 = true ∧ call.actor = actor then 1 else 0 := by
        split
        · next hyes => rw [if_pos ⟨hyes.1, hyes.2.1⟩]
        · split
          · exact zero_le_one
          · exact le_refl _
      rw [List.singleton_append]
      linarith
    · have hnone : admitted actor s t ds' = [] :=
        admitted_after (fun call hcall => hlt.trans_le (hclocked.le_refill call hcall)) hrest
      rw [List.singleton_append]
      rw [hnone, List.length_nil, Nat.cast_zero, add_zero] at hcons
      refine hcons.trans ?_
      have hnonneg : 0 ≤ available c l.buckets actor u + (t - u) * c.ratePerSecond :=
        add_nonneg (available_nonneg hc hburst h hnow)
          (TokenBucket.gain_nonneg hc.rate_nonneg hut)
      split
      · next hyes =>
        obtain ⟨_,hone⟩ := hpaid _ (le_refl _)
        have hgain := TokenBucket.gain_nonneg hc.rate_nonneg hyes.2.2
        have := hone ⟨hyes.1, hyes.2.1⟩
        linarith
      · exact hnonneg

theorem admitted_in_window (hc : Refilling c) (hburst : 0 ≤ c.burstSize)
    (hcost : ∀ call ∈ calls, call.actor = actor → 1 ≤ call.tokens) (h : Sound c now l.buckets)
    (hclocked : Clocked now calls) (hst : s ≤ t) (hrun : exec (step c) l calls = some (l', ds)) :
    ((admitted actor s t ds).length : ℚ) ≤ c.burstSize + (t - s) * c.ratePerSecond := by
  have hnonneg : (0 : ℚ) ≤ c.burstSize + (t - s) * c.ratePerSecond :=
    add_nonneg (by exact_mod_cast hburst) (TokenBucket.gain_nonneg hc.rate_nonneg hst)
  induction calls generalizing l ds now with
  | nil =>
    cases hrun
    exact hnonneg
  | cons call calls ih =>
    rcases lt_or_ge call.clock.refill s with hbefore | hafter
    · obtain ⟨hclock,hclocked⟩ := hclocked
      obtain ⟨_,_,ds',hstep,hrest,rfl⟩ := exec_cons.mp hrun
      cases hstep
      have hskipped : admitted actor s t ([⟨call, (allow c l call).2⟩] ++ ds') =
          admitted actor s t ds' := by
        rw [admitted, List.singleton_append, List.filter_cons, if_neg, admitted]
        exact fun hcounted => absurd (of_decide_eq_true hcounted).2.2.1 hbefore.not_ge
      rw [hskipped]
      exact ih (fun call hcall => hcost call (List.mem_cons_of_mem _ hcall))
        (sound_allow hc h hclock) hclocked hrest
    · have hall : ∀ later ∈ call :: calls, max now s ≤ later.clock.refill := by
        intro later hlater
        refine max_le (hclocked.le_refill later hlater) ?_
        rcases List.mem_cons.mp hlater with rfl | hlater
        · exact hafter
        · exact hafter.trans (hclocked.1.refill_le.trans (hclocked.2.le_refill later hlater))
      rcases le_or_gt (max now s) t with hle | hlt
      · have hspent := admitted_le_available (s := s) hc hburst hcost h hclocked
          (le_max_left now s) hall hle hrun
        have hfull : available c l.buckets actor (max now s) ≤ c.burstSize :=
          available_le_burst h (max now s)
        have hgain : (t - max now s) * c.ratePerSecond ≤ (t - s) * c.ratePerSecond :=
          mul_le_mul_of_nonneg_right (sub_le_sub_left (le_max_right now s) t) hc.rate_nonneg
        linarith
      · have hnone : admitted actor s t ds = [] :=
          admitted_after (fun later hlater => hlt.trans_le (hall later hlater)) hrun
        rw [hnone]
        exact hnonneg

end Spending

section Bound

variable {c : RateLimitConfig} {l : TokenBucketLimiter} {calls : List Call} {ds : List Decision}
  {actor : Str} {now s t startedAt globalAt : ℚ}

theorem refilling_of_burst (hidle : (c.burstSize : ℚ) ≤ c.idleTimeoutSeconds * c.ratePerSecond)
    (hsign : 0 ≤ c.ratePerSecond ∨ 0 ≤ c.idleTimeoutSeconds) (hburst : 1 ≤ c.burstSize) :
    Refilling c := by
  refine ⟨?_, hidle⟩
  rcases hsign with hrate | hwait
  · exact hrate
  · by_contra hneg
    have hcast : (0 : ℚ) ≤ c.idleTimeoutSeconds := by exact_mod_cast hwait
    have hone : (1 : ℚ) ≤ c.burstSize := by exact_mod_cast hburst
    have hprod := mul_nonpos_of_nonneg_of_nonpos hcast (not_le.mp hneg).le
    linarith

theorem admitted_le_burst_plus_refill
    (hidle : (c.burstSize : ℚ) ≤ c.idleTimeoutSeconds * c.ratePerSecond)
    (hsign : 0 ≤ c.ratePerSecond ∨ 0 ≤ c.idleTimeoutSeconds)
    (hcost : ∀ call ∈ calls, call.actor = actor → 1 ≤ call.tokens) (hclocked : Clocked now calls)
    (hst : s ≤ t) (hrun : exec (step c) (.init c startedAt globalAt) calls = some (l, ds)) :
    ((admitted actor s t ds).length : ℚ) ≤ max 0 (c.burstSize + c.ratePerSecond * (t - s)) := by
  rcases lt_or_ge c.burstSize 1 with hsmall | hburst
  · rw [nothing_admitted hsmall hcost (fun _ hentry => absurd hentry List.not_mem_nil) hrun]
    exact le_max_left _ _
  · have hempty : Sound c now (TokenBucketLimiter.init c startedAt globalAt).buckets :=
      ⟨List.nodup_nil, fun _ hentry => absurd hentry List.not_mem_nil⟩
    have hwindow := admitted_in_window (refilling_of_burst hidle hsign hburst)
      (zero_le_one.trans hburst) hcost hempty hclocked hst hrun
    rw [mul_comm]
    exact hwindow.trans (le_max_right _ _)

def oneActor : RateLimitConfig where
  ratePerSecond := 1
  burstSize := 2
  maxActors := 1
  idleTimeoutSeconds := 2
  globalRps := 0

def visits : List Call := [requestAt "a" 0, requestAt "a" 0, requestAt "b" 5, requestAt "a" 5]

-- The bucket of a is dropped for the one of b, and is full again when a returns.
theorem admitted_le_after_eviction :
    ∃ l ds, exec (step oneActor) (.init oneActor 0 0) visits = some (l, ds) ∧
      ds.map Decision.allowed = [true, true, true, true] ∧
      ((admitted "a".toList 0 10 ds).length : ℚ) ≤
        max 0 (oneActor.burstSize + oneActor.ratePerSecond * (10 - 0)) := by
  have hallowed : (exec (step oneActor) (.init oneActor 0 0) visits).map
      (fun r => r.2.map Decision.allowed) = some [true, true, true, true] := by decide +kernel
  obtain ⟨r,hrun,hdecided⟩ := Option.map_eq_some_iff.mp hallowed
  have hcost : ∀ call ∈ visits, call.actor = "a".toList → 1 ≤ call.tokens := by
    simp [visits, requestAt]
  have hlater : (0 : ℚ) ≤ 5 := by norm_num
  have hclocked : Clocked 0 visits := ⟨Readings.at_from (le_refl 0), Readings.at_from (le_refl 0),
    Readings.at_from hlater, Readings.at_from (le_refl 5), trivial⟩
  have hidle : (oneActor.burstSize : ℚ) ≤ oneActor.idleTimeoutSeconds * oneActor.ratePerSecond := by
    norm_num [oneActor]
  have hrate : 0 ≤ oneActor.ratePerSecond := by norm_num [oneActor]
  have hwindow : (0 : ℚ) ≤ 10 := by norm_num
  exact ⟨r.1, r.2, hrun, hdecided,
    admitted_le_burst_plus_refill hidle (.inl hrate) hcost hclocked hwindow hrun⟩

def negativeBurst : RateLimitConfig := { burstSize := -1, ratePerSecond := 1 }

def negativeRate : RateLimitConfig :=
  { burstSize := 1, ratePerSecond := -1, idleTimeoutSeconds := -1, globalRps := 0 }

def singleToken : RateLimitConfig :=
  { burstSize := 1, ratePerSecond := 1, idleTimeoutSeconds := 1, globalRps := 0 }

def freeRequests : List Call :=
  [{ requestAt "a" 0 with tokens := 0 }, { requestAt "a" 0 with tokens := 0 }]

-- No request against a negative burst, one against a negative rate, and two that ask for no token.
theorem bound_fails_for_odd_settings :
    ((negativeBurst.burstSize : ℚ) ≤ negativeBurst.idleTimeoutSeconds * negativeBurst.ratePerSecond ∧
      Clocked 0 [] ∧ ∃ l ds, exec (step negativeBurst) (.init negativeBurst 0 0) [] = some (l, ds) ∧
        negativeBurst.burstSize + negativeBurst.ratePerSecond * (0 - 0) <
          ((admitted "a".toList 0 0 ds).length : ℚ)) ∧
    ((negativeRate.burstSize : ℚ) ≤ negativeRate.idleTimeoutSeconds * negativeRate.ratePerSecond ∧
      Clocked 0 [requestAt "a" 0] ∧ ∃ l ds,
        exec (step negativeRate) (.init negativeRate 0 0) [requestAt "a" 0] = some (l, ds) ∧
        negativeRate.burstSize + negativeRate.ratePerSecond * (9 - 0) <
          ((admitted "a".toList 0 9 ds).length : ℚ)) ∧
    ((singleToken.burstSize : ℚ) ≤ singleToken.idleTimeoutSeconds * singleToken.ratePerSecond ∧
      Clocked 0 freeRequests ∧ ∃ l ds,
        exec (step singleToken) (.init singleToken 0 0) freeRequests = some (l, ds) ∧
        singleToken.burstSize + singleToken.ratePerSecond * (0 - 0) <
          ((admitted "a".toList 0 0 ds).length : ℚ)) := by
  have hrun : ∀ {c : RateLimitConfig} {calls : List Call} {s t bound : ℚ},
      (((exec (step c) (.init c 0 0) calls).map fun r => decide
        (bound < ((admitted "a".toList s t r.2).length : ℚ))) = some true) →
      ∃ l ds, exec (step c) (.init c 0 0) calls = some (l, ds) ∧
        bound < ((admitted "a".toList s t ds).length : ℚ) := by
    intro c calls s t bound h
    obtain ⟨r,hr,hbound⟩ := Option.map_eq_some_iff.mp h
    exact ⟨r.1, r.2, hr, of_decide_eq_true hbound⟩
  have hstart := Readings.at_from (le_refl 0)
  exact ⟨⟨by decide +kernel, trivial, hrun (by decide +kernel)⟩,
    ⟨by decide +kernel, ⟨hstart, trivial⟩, hrun (by decide +kernel)⟩,
    by decide +kernel, ⟨hstart, hstart, trivial⟩, hrun (by decide +kernel)⟩

end Bound

end PicoSentry.Sandbox.RateLimiter
