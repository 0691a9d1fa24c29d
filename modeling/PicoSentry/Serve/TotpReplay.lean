import Mathlib.Algebra.Order.Ring.Int
import PicoSentry.Serve.Login

namespace PicoSentry.Serve.Login

open Foundation
open Foundation.Run

def Accepted (s : State) (i : Nat) (m : Int) : Prop :=
  s.procs[i]? = some (.done .ok (some m)) ∨ s.procs[i]? = some (.done (.verified true) (some m))

def Holds (s : State) (i : Nat) (m : Int) : Prop :=
  ∃ p, s.procs[i]? = some p ∧ timestepOf p = some m

theorem Accepted.holds {s : State} {i : Nat} {m : Int} (h : Accepted s i m) : Holds s i m := by
  rcases h with h | h
  · exact ⟨_, h, rfl⟩
  · exact ⟨_, h, rfl⟩

def FreshTimestep (s : State) : Step → Prop
  | .advance i _ =>
    ∀ m ∈ s.procs[i]?.bind pendingTimestep, ∀ user ∈ s.user, lastTimestep user < m
  | _ => True

instance (s : State) : ∀ l, Decidable (FreshTimestep s l)
  | .advance i _ =>
    inferInstanceAs (Decidable (∀ m ∈ s.procs[i]?.bind pendingTimestep,
      ∀ user ∈ s.user, lastTimestep user < m))
  | .tick _ => isTrue trivial
  | .login _ => isTrue trivial
  | .verifyTotpForUser _ => isTrue trivial

structure Consumed (s : State) (user : UserRow) : Prop where
  row : s.user = some user
  bounded : ∀ i m, Holds s i m → m ≤ lastTimestep user
  unique : ∀ i j m, Holds s i m → Holds s j m → i = j

section Step

variable {cfg : Config} {s s' : State} {user : UserRow} {l : Step} {cs : List Commit}

theorem holds_append {ps : List Proc} (hps : ∀ p ∈ ps, timestepOf p = none)
    (h : s'.procs = s.procs ++ ps) {i : Nat} {m : Int} (hm : Holds s' i m) : Holds s i m := by
  obtain ⟨p,hp,ht⟩ := hm
  rw [h] at hp
  rcases lt_or_ge i s.procs.length with hi | hi
  · rw [List.getElem?_append_left hi] at hp
    exact ⟨p, hp, ht⟩
  · rw [List.getElem?_append_right hi] at hp
    rw [hps p (List.mem_of_getElem? hp)] at ht
    cases ht

theorem holds_set {i : Nat} {q : Proc} (h : s'.procs = s.procs.set i q) {j : Nat} {m : Int}
    (hm : Holds s' j m) : (j = i ∧ timestepOf q = some m) ∨ (j ≠ i ∧ Holds s j m) := by
  obtain ⟨p,hp,ht⟩ := hm
  rw [h] at hp
  by_cases hji : i = j
  · subst hji
    rw [List.getElem?_set_self'] at hp
    obtain ⟨_,_,rfl⟩ := Option.map_eq_some_iff.mp hp
    exact .inl ⟨rfl, ht⟩
  · rw [List.getElem?_set_ne hji] at hp
    exact .inr ⟨Ne.symm hji, p, hp, ht⟩

theorem Consumed.keep (hc : Consumed s user) {user' : UserRow} (hrow : s'.user = some user')
    (hlast : lastTimestep user' = lastTimestep user)
    (hsub : ∀ i m, Holds s' i m → Holds s i m) : Consumed s' user' := by
  refine ⟨hrow, ?_, ?_⟩
  · intro i m hm
    rw [hlast]
    exact hc.bounded i m (hsub i m hm)
  · intro i j m hi hj
    exact hc.unique i j m (hsub i m hi) (hsub j m hj)

theorem Consumed.consume (hc : Consumed s user) {i : Nat} {q : Proc} {m : Int}
    (hrow : s'.user = some (writeTimestep m user)) (hprocs : s'.procs = s.procs.set i q)
    (hq : timestepOf q = some m) (hlt : lastTimestep user < m) :
    Consumed s' (writeTimestep m user) := by
  have hold : ∀ j k, Holds s' j k → (j = i ∧ k = m) ∨ (j ≠ i ∧ Holds s j k) := by
    intro j k hk
    rcases holds_set hprocs hk with ⟨rfl,hk⟩ | hk
    · rw [hq] at hk
      cases hk
      exact .inl ⟨rfl, rfl⟩
    · exact .inr hk
  refine ⟨hrow, ?_, ?_⟩
  · intro j k hk
    rcases hold j k hk with ⟨_,rfl⟩ | ⟨_,hk⟩
    · exact le_rfl
    · exact (hc.bounded j k hk).trans hlt.le
  · intro j j' k hk hk'
    rcases hold j k hk with ⟨rfl,rfl⟩ | ⟨_,hk⟩ <;> rcases hold j' k hk' with ⟨rfl,he⟩ | ⟨_,hk'⟩
    · rfl
    · exact absurd (hc.bounded j' _ hk') (not_le.mpr hlt)
    · subst he
      exact absurd (hc.bounded j _ hk) (not_le.mpr hlt)
    · exact hc.unique j j' k hk hk'

theorem lastTimestep_writeFailure (now a : Int) :
    lastTimestep (writeFailure cfg now a user) = lastTimestep user := by
  rw [writeFailure]
  split <;> rfl

theorem consumed_step (hc : Consumed s user) (hfresh : FreshTimestep s l)
    (h : step cfg s l = some (s', cs)) :
    ∃ user', Consumed s' user' ∧ lastTimestep user ≤ lastTimestep user' := by
  rcases step_cases hc.row h with ⟨hu,_,_,ps,hps,hnone⟩ | ⟨i,e,p,out,rfl,hp,heff,_,hs'⟩
  · exact ⟨user, hc.keep hu rfl fun j m => holds_append hnone hps, le_rfl⟩
  · have hprocs : s'.procs = s.procs.set i out.proc := by rw [hs']
    have hrow : s'.user = out.user := by rw [hs']
    have hsame : timestepOf out.proc = timestepOf p ∨ timestepOf out.proc = none →
        ∀ j m, Holds s' j m → Holds s j m := by
      rintro hsame j m hm
      rcases holds_set hprocs hm with ⟨rfl,hm⟩ | ⟨_,hm⟩
      · rcases hsame with hsame | hsame
        · exact ⟨p, hp, hsame ▸ hm⟩
        · rw [hsame] at hm
          cases hm
      · exact hm
    cases heff with
    | silent hq => exact ⟨user, hc.keep hrow rfl (hsame (.inl hq)), le_rfl⟩
    | @timestep q m hq hm =>
      have hlt : lastTimestep user < m := by
        rcases hm with hm | hm
        · exact hfresh m (by simp [hp, hm]) user (by simp [hc.row])
        · exact hm
      exact ⟨_, hc.consume hrow hprocs hq hlt, hlt.le⟩
    | success hq => exact ⟨_, hc.keep hrow rfl (hsame (.inl (by rw [hq]; rfl))), le_rfl⟩
    | failure hq _ =>
      have hlast : ∀ now a, lastTimestep (writeFailure cfg now a user) = lastTimestep user :=
        lastTimestep_writeFailure
      exact ⟨_, hc.keep hrow (hlast _ _) (hsame (.inr rfl)), (hlast _ _).ge⟩

theorem consumed_exec (hc : Consumed s user) {ls : List Step}
    (hmeets : Meets (step cfg) FreshTimestep s ls) (hrun : exec (step cfg) s ls = some (s', cs)) :
    ∃ user', Consumed s' user' ∧ lastTimestep user ≤ lastTimestep user' := by
  have hstep : ∀ (past : List Commit) (t : State) (l : Step) (t' : State) (es : List Commit),
      (∃ u, Consumed t u ∧ lastTimestep user ≤ lastTimestep u) → FreshTimestep t l →
      step cfg t l = some (t', es) →
      ∃ u, Consumed t' u ∧ lastTimestep user ≤ lastTimestep u := by
    rintro _ t l t' es ⟨u,hu,hle⟩ hf ht
    obtain ⟨u',hu',hle'⟩ := consumed_step hu hf ht
    exact ⟨u', hu', hle.trans hle'⟩
  exact exec_invariant hstep [] ⟨user, hc, le_rfl⟩ hmeets hrun

end Step

theorem totp_accepted_once (cfg : Config) (s s₁ s₂ : State) (user : UserRow)
    (hu : s.user = some user) (hprocs : s.procs = []) (ls₁ ls₂ : List Step)
    (cs₁ cs₂ : List Commit) (hrun₁ : exec (step cfg) s ls₁ = some (s₁, cs₁))
    (hrun₂ : exec (step cfg) s₁ ls₂ = some (s₂, cs₂))
    (hfresh : Meets (step cfg) FreshTimestep s (ls₁ ++ ls₂)) :
    (∀ i j m, Accepted s₂ i m → Accepted s₂ j m → i = j) ∧
      ∃ u₁ u₂, s₁.user = some u₁ ∧ s₂.user = some u₂ ∧ lastTimestep u₁ ≤ lastTimestep u₂ := by
  have hinit : Consumed s user := by
    refine ⟨hu, ?_, ?_⟩
    · rintro i m ⟨p,hp,_⟩
      simp [hprocs] at hp
    · rintro i j m ⟨p,hp,_⟩ _
      simp [hprocs] at hp
  obtain ⟨hfresh₁,hfresh₂⟩ := hfresh.append hrun₁
  obtain ⟨u₁,hc₁,_⟩ := consumed_exec hinit hfresh₁ hrun₁
  obtain ⟨u₂,hc₂,hle⟩ := consumed_exec hc₁ hfresh₂ hrun₂
  refine ⟨?_, u₁, u₂, hc₁.row, hc₂.row, hle⟩
  intro i j m hi hj
  exact hc₂.unique i j m hi.holds hj.holds

def countingOtp (counter : Int) : Str := List.replicate counter.toNat '1'

def countingPyotp : Pyotp where
  interval := 30
  verify _ code time :=
    [time.fdiv 30 - 1, time.fdiv 30, time.fdiv 30 + 1].any fun c => countingOtp c = code
  generateOtp _ counter := countingOtp counter

def sqliteConfig : Config where
  backend := .sqlite
  verifyPassword password hash := password = hash
  pyotp := some countingPyotp
  lockoutMaxAttempts := 5
  lockoutWindow := 900

def totpUser : UserRow :=
  ⟨"hunter2".toList, true, none, some 4, some "secret".toList, some 2, none⟩

def totpState : State := ⟨90, some totpUser, false, []⟩

def codeThree : LoginArgs := { password := "hunter2".toList, totpCode := some (countingOtp 3) }

def loginSteps : List Step := .login codeThree :: List.replicate 5 (.advance 0 0)

def laterVerify : List Step := [.tick 30, .verifyTotpForUser (countingOtp 4), .advance 1 0]

theorem totp_accepted_once_login_then_verify :
    ∃ s₁ s₂ cs₁ cs₂, exec (step sqliteConfig) totpState loginSteps = some (s₁, cs₁) ∧
      exec (step sqliteConfig) s₁ laterVerify = some (s₂, cs₂) ∧
      Accepted s₂ 0 3 ∧ Accepted s₂ 1 4 ∧
      ∀ i j m, Accepted s₂ i m → Accepted s₂ j m → i = j := by
  refine ⟨_, _, _, _, rfl, rfl, .inl rfl, .inr rfl, ?_⟩
  exact (totp_accepted_once sqliteConfig totpState _ _ totpUser rfl rfl loginSteps laterVerify _ _
    rfl rfl (by decide)).1

def racingLogins : List Step :=
  [.login codeThree, .login codeThree] ++
    (List.replicate 5 [.advance 0 0, .advance 1 0]).flatten

theorem racing_logins_accept_one_code_twice :
    ∃ s cs, exec (step sqliteConfig) totpState racingLogins = some (s, cs) ∧
      Accepted s 0 3 ∧ Accepted s 1 3 :=
  ⟨_, _, rfl, .inl rfl, .inl rfl⟩

end PicoSentry.Serve.Login
