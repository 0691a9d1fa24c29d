import PicoSentry.Foundation.Run
import PicoSentry.Serve.RowDict

namespace PicoSentry.Serve.Login

open Foundation
open Database (Backend)

structure UserRow where
  passwordHash : Str
  isActive : Bool
  lockedUntil : Option Int
  failedLoginAttempts : Option Int
  totpSecret : Option Str
  totpLastTimestep : Option Int
  lastLogin : Option Int
  deriving DecidableEq, Repr

structure Pyotp where
  interval : Int
  verify : Str → Str → Int → Bool
  generateOtp : Str → Int → Str

structure Config where
  backend : Backend
  verifyPassword : Str → Str → Bool
  pyotp : Option Pyotp
  lockoutMaxAttempts : Int
  lockoutWindow : Int

structure LoginArgs where
  password : Str
  totpCode : Option Str := none
  mfaVerified : Bool := false
  deriving DecidableEq, Repr

inductive MfaMethod where
  | totp
  | webauthn
  deriving DecidableEq, Repr

inductive Response where
  | ok
  | invalid
  | locked
  | mfaRequired (methods : List MfaMethod)
  | verified (accepted : Bool)
  | raised (e : PyError)
  deriving DecidableEq, Repr

inductive Proc where
  | readUser (args : LoginArgs) (now : Int)
  | readWebauthn (args : LoginArgs) (now : Int) (user : UserRow)
  | matchTotp (args : LoginArgs) (now : Int) (user : UserRow) (secret : Str) (hasWebauthn : Bool)
  | persistTimestep (now matched : Int)
  | recordSuccess (now : Int) (matched : Option Int)
  | readAttempts (now : Int) (response : Response)
  | recordFailure (now : Int) (response : Response) (attempts : Int)
  | readTotpUser (code : Str)
  | consumeTimestep (matched : Int)
  | done (response : Response) (matched : Option Int)
  deriving DecidableEq, Repr

inductive Commit where
  | failure (lockedUntil : Option Int)
  | success (time : Int)
  | timestep (matched : Int)
  deriving DecidableEq, Repr

structure State where
  clock : Int
  user : Option UserRow
  webauthn : Bool
  procs : List Proc
  deriving DecidableEq, Repr

inductive Step where
  | tick (elapsed : Nat)
  | login (args : LoginArgs)
  | verifyTotpForUser (code : Str)
  | advance (proc : Nat) (elapsed : Nat)
  deriving DecidableEq, Repr

def textOf (s : Option Str) : Option Str := s.filter (· ≠ [])

def totpMatchTimestep (cfg : Config) (secret code : Str) (verifiedAt countedAt : Int) :
    Except PyError (Option Int) :=
  match cfg.pyotp with
  | none => .ok none
  | some totp =>
    if totp.verify secret code verifiedAt then
      let counter := countedAt.fdiv totp.interval
      if totp.generateOtp secret (counter + 1) = code then .ok (some (counter + 1))
      else if totp.generateOtp secret counter = code then .ok (some counter)
      else if totp.generateOtp secret (counter - 1) = code then .ok (some (counter - 1))
      else .error .valueError
    else .ok none

def lastTimestep (user : UserRow) : Int := user.totpLastTimestep.getD 0

def totpReplayOk (user : UserRow) (matched : Int) : Bool := lastTimestep user < matched

def storedAttempts (user : UserRow) : Int := user.failedLoginAttempts.getD 0

-- psycopg2 returns the TIMESTAMP column without a time zone, and Python refuses to order it
-- against an aware datetime.
def isLocked (backend : Backend) (user : UserRow) (now : Int) : Except PyError Bool :=
  match user.lockedUntil, backend with
  | none, _ => .ok false
  | some lockedUntil, .sqlite => .ok (now < lockedUntil)
  | some _, .postgres => .error .typeError

def afterUserRead (cfg : Config) (args : LoginArgs) (now : Int) (row : Option UserRow) : Proc :=
  match row.filter UserRow.isActive with
  | none => .done .invalid none
  | some user =>
    match isLocked cfg.backend user now with
    | .error e => .done (.raised e) none
    | .ok true => .done .locked none
    | .ok false =>
      if !cfg.verifyPassword args.password user.passwordHash then .readAttempts now .invalid
      else if args.mfaVerified then .recordSuccess now none
      else .readWebauthn args now user

def afterWebauthnRead (args : LoginArgs) (now : Int) (user : UserRow) (hasWebauthn : Bool) :
    Proc :=
  match textOf user.totpSecret with
  | some secret => .matchTotp args now user secret hasWebauthn
  | none =>
    if hasWebauthn then .done (.mfaRequired [.webauthn]) none else .recordSuccess now none

def afterTotpMatch (cfg : Config) (args : LoginArgs) (now : Int) (user : UserRow) (secret : Str)
    (hasWebauthn : Bool) (verifiedAt countedAt : Int) : Proc :=
  let response := .mfaRequired (.totp :: if hasWebauthn then [.webauthn] else [])
  match textOf args.totpCode with
  | none => .done response none
  | some code =>
    match totpMatchTimestep cfg secret code verifiedAt countedAt with
    | .error e => .done (.raised e) none
    | .ok none => .readAttempts now response
    | .ok (some matched) =>
      if totpReplayOk user matched then .persistTimestep now matched
      else .readAttempts now response

def lockout (cfg : Config) (now attempts : Int) : Option Int :=
  if cfg.lockoutMaxAttempts ≤ attempts then some (now + cfg.lockoutWindow) else none

def writeFailure (cfg : Config) (now attempts : Int) (user : UserRow) : UserRow :=
  match lockout cfg now attempts with
  | some lockedUntil =>
    { user with failedLoginAttempts := some attempts, lockedUntil := some lockedUntil }
  | none => { user with failedLoginAttempts := some attempts }

def writeSuccess (now : Int) (user : UserRow) : UserRow :=
  { user with failedLoginAttempts := some 0, lockedUntil := none, lastLogin := some now }

def writeTimestep (matched : Int) (user : UserRow) : UserRow :=
  { user with totpLastTimestep := some matched }

structure Outcome where
  proc : Proc
  user : Option UserRow
  commits : List Commit := []

def matchForUser (cfg : Config) (user : UserRow) (code : Str) (verifiedAt countedAt : Int) :
    Except PyError (Option Int) :=
  match textOf user.totpSecret with
  | none => .ok none
  | some secret => do
      let matched ← totpMatchTimestep cfg secret code verifiedAt countedAt
      return matched.filter (totpReplayOk user)

def readTotp (cfg : Config) (row : Option UserRow) (code : Str) (verifiedAt countedAt : Int) :
    Outcome :=
  match row with
  | none => { proc := .done (.verified false) none, user := row }
  | some user =>
    match matchForUser cfg user code verifiedAt countedAt, cfg.backend with
    | .error e, _ => { proc := .done (.raised e) none, user := row }
    | .ok none, _ => { proc := .done (.verified false) none, user := row }
    | .ok (some matched), .sqlite =>
      { proc := .done (.verified true) (some matched)
        user := some (writeTimestep matched user)
        commits := [.timestep matched] }
    | .ok (some matched), .postgres => { proc := .consumeTimestep matched, user := row }

def readFailures (cfg : Config) (row : Option UserRow) (now : Int) (response : Response) :
    Outcome :=
  match row, cfg.backend with
  | none, _ => { proc := .done response none, user := row }
  | some user, .sqlite =>
    { proc := .done response none
      user := some (writeFailure cfg now (storedAttempts user + 1) user)
      commits := [.failure (lockout cfg now (storedAttempts user + 1))] }
  | some user, .postgres =>
    { proc := .recordFailure now response (storedAttempts user + 1), user := row }

def advance (cfg : Config) (s : State) (elapsed : Nat) : Proc → Option Outcome
  | .readUser args now => some { proc := afterUserRead cfg args now s.user, user := s.user }
  | .readWebauthn args now user =>
    some { proc := afterWebauthnRead args now user s.webauthn, user := s.user }
  | .matchTotp args now user secret hasWebauthn =>
    some
      { proc := afterTotpMatch cfg args now user secret hasWebauthn s.clock (s.clock + elapsed)
        user := s.user }
  | .persistTimestep now matched =>
    some
      { proc := .recordSuccess now (some matched)
        user := s.user.map (writeTimestep matched)
        commits := [.timestep matched] }
  | .recordSuccess now matched =>
    some
      { proc := .done .ok matched
        user := s.user.map (writeSuccess now)
        commits := [.success s.clock] }
  | .readAttempts now response => some (readFailures cfg s.user now response)
  | .recordFailure now response attempts =>
    some
      { proc := .done response none
        user := s.user.map (writeFailure cfg now attempts)
        commits := [.failure (lockout cfg now attempts)] }
  | .readTotpUser code => some (readTotp cfg s.user code s.clock (s.clock + elapsed))
  | .consumeTimestep matched =>
    some
      { proc := .done (.verified true) (some matched)
        user := s.user.map (writeTimestep matched)
        commits := [.timestep matched] }
  | .done _ _ => none

def step (cfg : Config) (s : State) : Step → Option (State × List Commit)
  | .tick elapsed => some ({ s with clock := s.clock + elapsed }, [])
  | .login args => some ({ s with procs := s.procs ++ [.readUser args s.clock] }, [])
  | .verifyTotpForUser code => some ({ s with procs := s.procs ++ [.readTotpUser code] }, [])
  | .advance i elapsed => do
      let proc ← s.procs[i]?
      let out ← advance cfg s elapsed proc
      return ({ s with clock := s.clock + elapsed, user := out.user,
                       procs := s.procs.set i out.proc }, out.commits)

def timestepOf : Proc → Option Int
  | .recordSuccess _ matched => matched
  | .done _ matched => matched
  | _ => none

def pendingTimestep : Proc → Option Int
  | .persistTimestep _ matched => some matched
  | .consumeTimestep matched => some matched
  | _ => none

def pendingFailure (cfg : Config) (user : UserRow) : Proc → Option (Int × Int)
  | .readAttempts now _ =>
    match cfg.backend with
    | .sqlite => some (now, storedAttempts user + 1)
    | .postgres => none
  | .recordFailure now _ attempts => some (now, attempts)
  | _ => none

inductive Effect (cfg : Config) (s : State) (user : UserRow) (p : Proc) : Outcome → Prop
  | silent {q : Proc} (h : timestepOf q = timestepOf p) : Effect cfg s user p ⟨q, some user, []⟩
  | timestep {q : Proc} {m : Int} (hq : timestepOf q = some m)
      (h : pendingTimestep p = some m ∨ lastTimestep user < m) :
      Effect cfg s user p ⟨q, some (writeTimestep m user), [.timestep m]⟩
  | success {now : Int} {m : Option Int} (h : p = .recordSuccess now m) :
      Effect cfg s user p ⟨.done .ok m, some (writeSuccess now user), [.success s.clock]⟩
  | failure {now a : Int} {r : Response} (h : pendingFailure cfg user p = some (now, a))
      (hp : timestepOf p = none) :
      Effect cfg s user p
        ⟨.done r none, some (writeFailure cfg now a user), [.failure (lockout cfg now a)]⟩

section Inversion

variable {cfg : Config} {s s' : State} {user : UserRow} {elapsed : Nat} {p : Proc}

theorem timestepOf_afterUserRead (args : LoginArgs) (now : Int) (row : Option UserRow) :
    timestepOf (afterUserRead cfg args now row) = none := by
  rw [afterUserRead]
  repeat' split
  all_goals rfl

theorem timestepOf_afterWebauthnRead (args : LoginArgs) (now : Int) (hasWebauthn : Bool) :
    timestepOf (afterWebauthnRead args now user hasWebauthn) = none := by
  rw [afterWebauthnRead]
  repeat' split
  all_goals rfl

theorem timestepOf_afterTotpMatch (args : LoginArgs) (now : Int) (secret : Str)
    (hasWebauthn : Bool) (t t' : Int) :
    timestepOf (afterTotpMatch cfg args now user secret hasWebauthn t t') = none := by
  simp only [afterTotpMatch]
  repeat' split
  all_goals rfl

theorem matchForUser_replayOk {code : Str} {t t' m : Int}
    (h : matchForUser cfg user code t t' = .ok (some m)) : lastTimestep user < m := by
  rw [matchForUser] at h
  split at h
  · cases h
  · obtain ⟨matched,_,h⟩ := bind_eq_ok.mp h
    cases matched with
    | none => cases h
    | some m' =>
      simp only [pure, Except.pure, Except.ok.injEq, Option.filter_eq_some_iff] at h
      obtain ⟨he,hok⟩ := h
      cases he
      simpa [totpReplayOk] using hok

theorem effect_readTotp (code : Str) (t t' : Int) (hp : timestepOf p = none) :
    Effect cfg s user p (readTotp cfg (some user) code t t') := by
  simp only [readTotp]
  split
  · exact .silent hp.symm
  · exact .silent hp.symm
  · next h _ => exact .timestep rfl (.inr (matchForUser_replayOk h))
  · exact .silent hp.symm

theorem effect_readFailures (now : Int) (response : Response) :
    Effect cfg s user (.readAttempts now response) (readFailures cfg (some user) now response) := by
  simp only [readFailures]
  split
  · next hb => cases hb
  · next hu hb =>
    cases hu
    exact .failure (by simp [pendingFailure, hb]) rfl
  · next hu hb =>
    cases hu
    exact .silent rfl

theorem effect_advance {out : Outcome} (hu : s.user = some user)
    (h : advance cfg s elapsed p = some out) : Effect cfg s user p out := by
  cases p with
  | readUser args now =>
    cases h
    rw [hu]
    exact .silent (timestepOf_afterUserRead args now _)
  | readWebauthn args now copy =>
    cases h
    rw [hu]
    exact .silent (timestepOf_afterWebauthnRead args now _)
  | matchTotp args now copy secret hasWebauthn =>
    cases h
    rw [hu]
    exact .silent (timestepOf_afterTotpMatch args now secret hasWebauthn _ _)
  | persistTimestep now m =>
    cases h
    rw [hu]
    exact .timestep rfl (.inl rfl)
  | recordSuccess now m =>
    cases h
    rw [hu]
    exact .success rfl
  | readAttempts now response =>
    cases h
    rw [hu]
    exact effect_readFailures now response
  | recordFailure now response a =>
    cases h
    rw [hu]
    exact .failure rfl rfl
  | readTotpUser code =>
    cases h
    rw [hu]
    exact effect_readTotp code _ _ rfl
  | consumeTimestep m =>
    cases h
    rw [hu]
    exact .timestep rfl (.inl rfl)
  | done response m => cases h

theorem step_cases {l : Step} {cs : List Commit} (hu : s.user = some user)
    (h : step cfg s l = some (s', cs)) :
    (s'.user = some user ∧ cs = [] ∧ s.clock ≤ s'.clock ∧
      ∃ ps, s'.procs = s.procs ++ ps ∧ ∀ p ∈ ps, timestepOf p = none) ∨
    ∃ i elapsed p out, l = .advance i elapsed ∧ s.procs[i]? = some p ∧
      Effect cfg s user p out ∧ cs = out.commits ∧
      s' = ⟨s.clock + elapsed, out.user, s.webauthn, s.procs.set i out.proc⟩ := by
  cases l with
  | tick elapsed =>
    cases h
    exact .inl ⟨hu, rfl, Int.le_add_of_nonneg_right (by simp), [], by simp, by simp⟩
  | login args =>
    cases h
    exact .inl ⟨hu, rfl, Int.le_refl _, [_], rfl, by simp [timestepOf]⟩
  | verifyTotpForUser code =>
    cases h
    exact .inl ⟨hu, rfl, Int.le_refl _, [_], rfl, by simp [timestepOf]⟩
  | advance i elapsed =>
    simp only [step, Option.bind_eq_bind, Option.bind_eq_some_iff] at h
    obtain ⟨p,hp,out,hout,h⟩ := h
    cases h
    exact .inr ⟨i, elapsed, p, out, rfl, hp, effect_advance hu hout, rfl, rfl⟩

end Inversion

end PicoSentry.Serve.Login
