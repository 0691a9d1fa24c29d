import PicoSentry.Serve.TotpReplay

namespace PicoSentry.Serve.Login

open Foundation
open Foundation.Run

def failuresSince : Int → List Commit → Int
  | n, [] => n
  | n, .failure _ :: cs => failuresSince (n + 1) cs
  | _, .success _ :: cs => failuresSince 0 cs
  | n, .timestep _ :: cs => failuresSince n cs

theorem failuresSince_append (n : Int) (cs cs' : List Commit) :
    failuresSince n (cs ++ cs') = failuresSince (failuresSince n cs) cs' := by
  induction cs generalizing n with
  | nil => rfl
  | cons c cs ih => cases c <;> exact ih _

def SuccessAfter (c c' : Commit) : Prop :=
  ∀ lockedUntil time, c = .failure (some lockedUntil) → c' = .success time → lockedUntil ≤ time

def recordsSuccess : Proc → Bool
  | .recordSuccess _ _ => true
  | _ => false

def WriteKept (cfg : Config) (s : State) (p : Proc) (user : UserRow) : Prop :=
  (recordsSuccess p = true → ∀ t ∈ user.lockedUntil, t ≤ s.clock) ∧
    ∀ w ∈ pendingFailure cfg user p, w.2 = storedAttempts user + 1 ∧
      ∀ t' ∈ lockout cfg w.1 w.2, ∀ t ∈ user.lockedUntil, t ≤ t'

instance (cfg : Config) (s : State) (p : Proc) (user : UserRow) :
    Decidable (WriteKept cfg s p user) :=
  inferInstanceAs (Decidable (_ ∧ _))

def LockoutKept (cfg : Config) (s : State) : Step → Prop
  | .advance i _ => ∀ p ∈ s.procs[i]?, ∀ user ∈ s.user, WriteKept cfg s p user
  | _ => True

instance (cfg : Config) (s : State) : ∀ l, Decidable (LockoutKept cfg s l)
  | .advance i _ =>
    inferInstanceAs (Decidable (∀ p ∈ s.procs[i]?, ∀ user ∈ s.user, WriteKept cfg s p user))
  | .tick _ => isTrue trivial
  | .login _ => isTrue trivial
  | .verifyTotpForUser _ => isTrue trivial

structure LockoutInv (attempts : Int) (past : List Commit) (s : State) (user : UserRow) :
    Prop where
  row : s.user = some user
  ordered : past.Pairwise SuccessAfter
  locks : ∀ t, .failure (some t) ∈ past → t ≤ s.clock ∨ ∃ t' ∈ user.lockedUntil, t ≤ t'
  counted : storedAttempts user = failuresSince attempts past

section Step

variable {cfg : Config} {attempts : Int} {past : List Commit} {s s' : State} {user user' : UserRow}

theorem LockoutInv.keep (hi : LockoutInv attempts past s user) {cs : List Commit}
    (hcs : ∀ c ∈ cs, ∃ m, c = .timestep m) (hrow : s'.user = some user')
    (hlock : user'.lockedUntil = user.lockedUntil)
    (hatt : storedAttempts user' = storedAttempts user) (hclock : s.clock ≤ s'.clock) :
    LockoutInv attempts (past ++ cs) s' user' := by
  refine ⟨hrow, ?_, ?_, ?_⟩
  · refine List.pairwise_append.mpr ⟨hi.ordered, ?_, ?_⟩
    · refine List.Pairwise.imp_of_mem ?_ (List.pairwise_of_forall fun _ _ => trivial)
      rintro c c' hc _ _ t time rfl _
      obtain ⟨m,hm⟩ := hcs _ hc
      cases hm
    · rintro c _ c' hc' t time _ rfl
      obtain ⟨m,hm⟩ := hcs _ hc'
      cases hm
  · intro t ht
    rcases List.mem_append.mp ht with ht | ht
    · rw [hlock]
      exact (hi.locks t ht).imp_left fun h => h.trans hclock
    · obtain ⟨m,hm⟩ := hcs _ ht
      cases hm
  · have hsame : ∀ n, failuresSince n cs = n := by
      intro n
      induction cs with
      | nil => rfl
      | cons c cs ih =>
        obtain ⟨m,rfl⟩ := hcs c (by simp)
        exact ih fun c' hc' => hcs c' (by simp [hc'])
    rw [failuresSince_append, hsame, hatt, hi.counted]

theorem LockoutInv.success (hi : LockoutInv attempts past s user) {now : Int}
    (hrow : s'.user = some (writeSuccess now user)) (hclock : s.clock ≤ s'.clock)
    (hlocked : ∀ t ∈ user.lockedUntil, t ≤ s.clock) :
    LockoutInv attempts (past ++ [.success s.clock]) s' (writeSuccess now user) := by
  have hpast : ∀ t, .failure (some t) ∈ past → t ≤ s.clock := by
    intro t ht
    rcases hi.locks t ht with h | ⟨t',ht',h⟩
    · exact h
    · exact h.trans (hlocked t' ht')
  refine ⟨hrow, ?_, ?_, ?_⟩
  · refine List.pairwise_append.mpr ⟨hi.ordered, List.pairwise_singleton _ _, ?_⟩
    rintro c hc c' hc' t time rfl rfl
    cases List.mem_singleton.mp hc'
    exact hpast t hc
  · intro t ht
    rcases List.mem_append.mp ht with ht | ht
    · exact .inl ((hpast t ht).trans hclock)
    · cases List.mem_singleton.mp ht
  · rw [failuresSince_append]
    rfl

theorem storedAttempts_writeFailure (now a : Int) :
    storedAttempts (writeFailure cfg now a user) = a := by
  rw [writeFailure]
  split <;> rfl

theorem lockedUntil_writeFailure (now a : Int) :
    (writeFailure cfg now a user).lockedUntil = (lockout cfg now a).or user.lockedUntil := by
  rw [writeFailure]
  split
  · next h => rw [h]; rfl
  · next h => rw [h]; rfl

theorem LockoutInv.failure (hi : LockoutInv attempts past s user) {now a : Int}
    (hrow : s'.user = some (writeFailure cfg now a user)) (hclock : s.clock ≤ s'.clock)
    (ha : a = storedAttempts user + 1)
    (hlock : ∀ t' ∈ lockout cfg now a, ∀ t ∈ user.lockedUntil, t ≤ t') :
    LockoutInv attempts (past ++ [.failure (lockout cfg now a)]) s'
      (writeFailure cfg now a user) := by
  refine ⟨hrow, ?_, ?_, ?_⟩
  · refine List.pairwise_append.mpr ⟨hi.ordered, List.pairwise_singleton _ _, ?_⟩
    rintro c _ c' hc' t time _ rfl
    cases List.mem_singleton.mp hc'
  · intro t ht
    rw [lockedUntil_writeFailure]
    rcases List.mem_append.mp ht with ht | ht
    · rcases hi.locks t ht with h | ⟨t₀,ht₀,h⟩
      · exact .inl (h.trans hclock)
      · right
        cases hl : lockout cfg now a with
        | none => exact ⟨t₀, by simpa using ht₀, h⟩
        | some t' => exact ⟨t', rfl, h.trans (hlock t' hl t₀ ht₀)⟩
    · right
      have he : lockout cfg now a = some t := (Commit.failure.inj (List.mem_singleton.mp ht)).symm
      rw [he]
      exact ⟨t, rfl, le_rfl⟩
  · rw [storedAttempts_writeFailure, failuresSince_append, ← hi.counted, ha]
    rfl

theorem lockoutInv_step {l : Step} {cs : List Commit} (hi : LockoutInv attempts past s user)
    (hkept : LockoutKept cfg s l) (h : step cfg s l = some (s', cs)) :
    ∃ user', LockoutInv attempts (past ++ cs) s' user' := by
  rcases step_cases hi.row h with ⟨hu,rfl,hclock,_⟩ | ⟨i,e,p,out,rfl,hp,heff,rfl,hs'⟩
  · exact ⟨user, hi.keep (by simp) hu rfl rfl hclock⟩
  · have hrow : s'.user = out.user := by rw [hs']
    have hclock : s.clock ≤ s'.clock := by
      rw [hs']
      exact Int.le_add_of_nonneg_right (by simp)
    obtain ⟨hsucc,hfail⟩ := hkept p hp user hi.row
    cases heff with
    | silent hq => exact ⟨_, hi.keep (by simp) hrow rfl rfl hclock⟩
    | timestep hq hm => exact ⟨_, hi.keep (by simp) hrow rfl rfl hclock⟩
    | success hq => exact ⟨_, hi.success hrow hclock (hsucc (by rw [hq]; rfl))⟩
    | failure hq _ =>
      obtain ⟨ha,hlock⟩ := hfail _ hq
      exact ⟨_, hi.failure hrow hclock ha hlock⟩

end Step

theorem lockout_holds (cfg : Config) (s s' : State) (user : UserRow) (hu : s.user = some user)
    (ls : List Step) (cs : List Commit) (hrun : exec (step cfg) s ls = some (s', cs))
    (hkept : Meets (step cfg) (LockoutKept cfg) s ls) :
    cs.Pairwise SuccessAfter ∧
      ∃ user', s'.user = some user' ∧
        storedAttempts user' = failuresSince (storedAttempts user) cs := by
  have hinit : LockoutInv (storedAttempts user) [] s user := ⟨hu, .nil, by simp, rfl⟩
  have hstep : ∀ (past : List Commit) (t : State) (l : Step) (t' : State) (es : List Commit),
      (∃ u, LockoutInv (storedAttempts user) past t u) → LockoutKept cfg t l →
      step cfg t l = some (t', es) →
      ∃ u, LockoutInv (storedAttempts user) (past ++ es) t' u := by
    rintro past t l t' es ⟨u,hi⟩ hk ht
    exact lockoutInv_step hi hk ht
  obtain ⟨user',hi⟩ := exec_invariant hstep [] ⟨user, hinit⟩ hkept hrun
  exact ⟨hi.ordered, user', hi.row, hi.counted⟩

def plainUser : UserRow := ⟨"hunter2".toList, true, none, some 4, none, none, none⟩

def plainState : State := ⟨90, some plainUser, false, []⟩

def rightPassword : LoginArgs := { password := "hunter2".toList }

def wrongPassword : LoginArgs := { password := "letmein".toList }

def lockedThenLogin : List Step :=
  [.login wrongPassword, .advance 0 0, .advance 0 0, .tick 900, .login rightPassword,
   .advance 1 0, .advance 1 0, .advance 1 0]

theorem lockout_holds_lockedThenLogin :
    ∃ s cs, exec (step sqliteConfig) plainState lockedThenLogin = some (s, cs) ∧
      cs = [.failure (some 990), .success 990] ∧ cs.Pairwise SuccessAfter := by
  refine ⟨_, _, rfl, rfl, ?_⟩
  exact (lockout_holds sqliteConfig plainState _ plainUser rfl lockedThenLogin _ rfl
    (by decide)).1

def staleLogin : List Step :=
  [.login rightPassword, .advance 0 0, .login wrongPassword, .advance 1 0, .advance 1 0,
   .advance 0 0, .advance 0 0]

def postgresConfig : Config := { sqliteConfig with backend := .postgres }

def racingFailures : List Step :=
  [.login wrongPassword, .login wrongPassword, .advance 0 0, .advance 1 0, .advance 0 0,
   .advance 1 0, .advance 0 0, .advance 1 0]

theorem stale_login_succeeds_while_locked :
    (∃ s cs, exec (step sqliteConfig) plainState staleLogin = some (s, cs) ∧
      s.procs[0]? = some (.done .ok none) ∧ ¬cs.Pairwise SuccessAfter) ∧
    ∃ s cs user, exec (step postgresConfig) plainState racingFailures = some (s, cs) ∧
      s.user = some user ∧ storedAttempts user = 5 ∧
      failuresSince (storedAttempts plainUser) cs = 6 := by
  refine ⟨⟨_, [.failure (some 990), .success 90], rfl, rfl, ?_⟩, _, _, _, rfl, rfl, rfl, rfl⟩
  intro h
  have hle : (990 : Int) ≤ 90 := (List.pairwise_cons.mp h).1 _ (by simp) 990 90 rfl rfl
  omega

end PicoSentry.Serve.Login
