import Mathlib.Algebra.Order.Ring.Int
import PicoSentry.Foundation.Run
import PicoSentry.Serve.RowDict

namespace PicoSentry.Serve.Revocation

open Foundation
open Foundation.Run
open Database (Backend)

inductive AuthError where
  | runtimeError
  | keyError
  | integrityError
  deriving DecidableEq, Repr

inductive JwtError where
  | expiredSignatureError
  | invalidTokenError
  deriving DecidableEq, Repr

structure Payload where
  userId : Option Int
  username : Option Str
  role : Option Str
  jti : Option Str
  exp : Option Int
  iat : Option Int
  orgId : Option Int
  deriving DecidableEq, Repr

inductive Key (κ : Type) where
  | rsaPrivate (key : κ)
  | rsaPublic (key : κ)
  | secret (text : Str)

structure PyJwt (κ : Type) where
  encode : Payload → Key κ → Str → Option Str → Str
  unverifiedKid : Str → Except JwtError (Option Str)
  decode : Int → Str → Key κ → List Str → Except JwtError Payload

def microseconds : Int := 1000000

structure PyJwt.Lawful {κ : Type} (jwt : PyJwt κ) : Prop where
  payload : ∀ now p key alg kid key' algs p',
    jwt.decode now (jwt.encode p key alg kid) key' algs = .ok p' → p' = p
  expiry : ∀ now token key algs p, jwt.decode now token key algs = .ok p →
    ∀ exp ∈ p.exp, now / microseconds ≤ exp

structure AuthService (κ : Type) where
  jwt : Option (PyJwt κ)
  keys : Dict Str κ
  secretKey : Str
  algorithm : Str
  expirationHours : Int
  backend : Backend

structure RevokedRow where
  id : Nat
  jti : Str
  userId : Option Int
  revokedAt : Int
  deriving DecidableEq, Repr

structure RevokedTokens where
  rows : List RevokedRow
  lastId : Nat
  jtis : (rows.map RevokedRow.jti).Nodup

namespace RevokedTokens

def insert (t : RevokedTokens) (jti : Str) (userId : Option Int) (revokedAt : Int)
    (h : jti ∉ t.rows.map RevokedRow.jti) : RevokedTokens where
  rows := t.rows ++ [⟨t.lastId + 1, jti, userId, revokedAt⟩]
  lastId := t.lastId + 1
  jtis := by
    rw [List.map_append, List.nodup_append]
    refine ⟨t.jtis, by simp, ?_⟩
    rintro a ha b hb rfl
    have hjti : a = jti := by simpa using hb
    exact h (hjti ▸ ha)

def delete (t : RevokedTokens) (p : RevokedRow → Bool) : RevokedTokens where
  rows := t.rows.filter fun row => !p row
  lastId := t.lastId
  jtis := (List.Sublist.map _ List.filter_sublist).nodup t.jtis

end RevokedTokens

structure TokenBytes where
  bytes : List (Fin 256)
  length : bytes.length = 16

def urlsafeAlphabet : Str :=
  "ABCDEFGHIJKLMNOPQRSTUVWXYZabcdefghijklmnopqrstuvwxyz0123456789-_".toList

def sextet (n : Nat) : Char := urlsafeAlphabet.getD (n % 64) 'A'

def urlsafeB64encode : List (Fin 256) → Str
  | [] => []
  | [a] => [sextet (a / 4), sextet (a * 16)]
  | [a, b] => [sextet (a / 4), sextet (a * 16 + b / 16), sextet (b * 4)]
  | a :: b :: c :: rest =>
    [sextet (a / 4), sextet (a * 16 + b / 16), sextet (b * 4 + c / 64), sextet c] ++
      urlsafeB64encode rest

def tokenUrlsafe (draw : TokenBytes) : Str := urlsafeB64encode draw.bytes

theorem tokenUrlsafe_ne_nil (draw : TokenBytes) : tokenUrlsafe draw ≠ [] := by
  obtain ⟨bytes,hlen⟩ := draw
  rw [tokenUrlsafe]
  fun_cases urlsafeB64encode bytes
  · simp at hlen
  · simp
  · simp
  · simp

structure TokenUser where
  id : Int
  userId : Int
  username : Str
  role : Str
  jti : Option Str
  orgId : Option Int
  deriving DecidableEq, Repr

structure TokenArgs where
  userId : Int
  username : Str
  role : Str
  orgId : Option Int
  deriving DecidableEq, Repr

section Service

variable {κ : Type} (svc : AuthService κ)

def rs256 : Str := "RS256".toList

def lifetime : Int := svc.expirationHours * 3600 * microseconds

-- Both claims are rendered by PyJWT as whole seconds.
def tokenPayload (now iat : Int) (draw : TokenBytes) (args : TokenArgs) : Payload where
  userId := some args.userId
  username := some args.username
  role := some args.role
  jti := some (tokenUrlsafe draw)
  exp := some ((now + lifetime svc) / microseconds)
  iat := some (iat / microseconds)
  orgId := args.orgId

def generateToken (payload : Payload) : Except AuthError Str :=
  match svc.jwt with
  | none => .error .runtimeError
  | some jwt =>
    match svc.keys.getLast? with
    | some (kid, key) => .ok (jwt.encode payload (.rsaPrivate key) rs256 (some kid))
    | none => .ok (jwt.encode payload (.secret svc.secretKey) svc.algorithm none)

def candidates (jwt : PyJwt κ) (token : Str) : List κ :=
  let kid := match jwt.unverifiedKid token with
    | .ok kid => kid
    | .error _ => none
  match kid.bind svc.keys.get? with
  | some key => [key]
  | none => svc.keys.map Prod.snd

def decodeFrom (jwt : PyJwt κ) (now : Int) (token : Str) : List κ → Option Payload
  | [] =>
    match jwt.decode now token (.secret svc.secretKey) [svc.algorithm] with
    | .ok payload => some payload
    | .error _ => none
  | key :: rest =>
    match jwt.decode now token (.rsaPublic key) [rs256] with
    | .ok payload => some payload
    | .error .expiredSignatureError => none
    | .error .invalidTokenError => decodeFrom jwt now token rest

def decodeToken (jwt : PyJwt κ) (now : Int) (token : Str) : Option Payload :=
  decodeFrom svc jwt now token (candidates svc jwt token)

def isTokenRevoked (t : RevokedTokens) (jti : Str) : Bool := t.rows.any (·.jti = jti)

def required {α : Type} : Option α → Except AuthError α
  | some a => .ok a
  | none => .error .keyError

def tokenUser (p : Payload) : Except AuthError TokenUser := do
  let userId ← required p.userId
  let username ← required p.username
  let role ← required p.role
  return ⟨userId, userId, username, role, p.jti, p.orgId⟩

def validateToken (t : RevokedTokens) (now : Int) (token : Str) :
    Except AuthError (Option TokenUser) :=
  if "simple:".toList.isPrefixOf token then .ok none
  else
    match svc.jwt with
    | none => .ok none
    | some jwt =>
      match decodeToken svc jwt now token with
      | none => .ok none
      | some p =>
        if p.jti.any fun jti => jti ≠ [] && isTokenRevoked t jti then .ok none
        else (tokenUser p).map some

def currentTimestamp (now : Int) : Int :=
  match svc.backend with
  | .sqlite => now / microseconds * microseconds
  | .postgres => now

def foreignKeyHolds (users : List Int) : Option Int → Bool
  | none => true
  | some userId => svc.backend = .sqlite || users.contains userId

def revokeToken (users : List Int) (t : RevokedTokens) (now : Int) (jti : Str)
    (userId : Option Int) : Except AuthError Bool × RevokedTokens :=
  if h : jti ∈ t.rows.map RevokedRow.jti then (.ok false, t)
  else if foreignKeyHolds svc users userId then
    (.ok true, t.insert jti userId (currentTimestamp svc now) h)
  else (.error .integrityError, t)

def cutoff (now : Int) : Int := (now - lifetime svc) / microseconds * microseconds

def purgeExpiredRevocations (t : RevokedTokens) (now : Int) : Nat × RevokedTokens :=
  ((t.rows.filter fun row => row.revokedAt < cutoff svc now).length,
   t.delete fun row => row.revokedAt < cutoff svc now)

inductive Call where
  | generateToken (draw : TokenBytes) (lag : Nat) (args : TokenArgs)
  | revokeToken (jti : Str) (userId : Option Int)
  | purgeExpiredRevocations
  | validateToken (token : Str)

inductive Event where
  | issued (token : Str) (payload : Payload)
  | failed (error : AuthError)
  | revoked (jti : Str) (result : Except AuthError Bool)
  | purged (count : Nat)
  | validated (token : Str) (result : Except AuthError (Option TokenUser))

structure State where
  now : Int
  users : List Int
  table : RevokedTokens

def perform (s : State) (now : Int) : Call → State × Event
  | .generateToken draw lag args =>
    let payload := tokenPayload svc now (now + lag) draw args
    ({ s with now := now + lag },
     match generateToken svc payload with
     | .ok token => .issued token payload
     | .error e => .failed e)
  | .revokeToken jti userId =>
    let r := revokeToken svc s.users s.table now jti userId
    ({ s with now := now, table := r.2 }, .revoked jti r.1)
  | .purgeExpiredRevocations =>
    let r := purgeExpiredRevocations svc s.table now
    ({ s with now := now, table := r.2 }, .purged r.1)
  | .validateToken token =>
    ({ s with now := now }, .validated token (validateToken svc s.table now token))

def step (s : State) : Int × Call → Option (State × List Event)
  | (now, call) =>
    if now < s.now then none
    else some ((perform svc s now call).1, [(perform svc s now call).2])

end Service

def FreshJti (s : State) : Int × Call → Prop
  | (_, .generateToken draw _ _) => isTokenRevoked s.table (tokenUrlsafe draw) = false
  | _ => True

instance (s : State) : ∀ c, Decidable (FreshJti s c)
  | (_, .generateToken draw _ _) =>
    inferInstanceAs (Decidable (isTokenRevoked s.table (tokenUrlsafe draw) = false))
  | (_, .revokeToken _ _) => isTrue trivial
  | (_, .purgeExpiredRevocations) => isTrue trivial
  | (_, .validateToken _) => isTrue trivial

def RevokedAfterIssue (past : List Event) (token : Str) (payload : Payload) : Prop :=
  ∃ before after jti accepted, past = before ++ .revoked jti (.ok accepted) :: after ∧
    .issued token payload ∈ before ∧ payload.jti = some jti

theorem append_cons_of_concat {α : Type} {xs before after : List α} {x y : α}
    (h : xs ++ [x] = before ++ y :: after) :
    (xs = before ∧ x = y) ∨ ∃ rest, xs = before ++ y :: rest := by
  rcases List.eq_nil_or_concat' after with rfl | ⟨rest,z,rfl⟩
  · obtain ⟨hxs,hx⟩ := List.append_inj' h rfl
    cases hx
    exact .inl ⟨hxs, rfl⟩
  · rw [← List.cons_append, ← List.append_assoc] at h
    exact .inr ⟨rest, (List.append_inj' h rfl).1⟩

theorem revokedAfterIssue_concat {past : List Event} {e : Event} {token : Str}
    {payload : Payload} (h : RevokedAfterIssue (past ++ [e]) token payload) :
    RevokedAfterIssue past token payload ∨
      ∃ jti accepted, e = .revoked jti (.ok accepted) ∧ payload.jti = some jti := by
  obtain ⟨before,after,jti,accepted,heq,hin,hjti⟩ := h
  rcases append_cons_of_concat heq with ⟨_,he⟩ | ⟨rest,hpast⟩
  · exact .inr ⟨jti, accepted, he, hjti⟩
  · exact .inl ⟨before, rest, jti, accepted, hpast, hin, hjti⟩

theorem RevokedAfterIssue.issued {past : List Event} {token : Str} {payload : Payload}
    (h : RevokedAfterIssue past token payload) : .issued token payload ∈ past := by
  obtain ⟨before,after,jti,accepted,rfl,hin,_⟩ := h
  exact List.mem_append_left _ hin

section Times

variable {κ : Type} {svc : AuthService κ}

theorem expiry_le_lifetime {issuedAt now : Int} (h : issuedAt ≤ now) :
    (issuedAt + lifetime svc) / microseconds * microseconds ≤
      now / microseconds * microseconds + lifetime svc := by
  rw [lifetime, microseconds]
  omega

theorem roundDown_le_currentTimestamp (now : Int) :
    now / microseconds * microseconds ≤ currentTimestamp svc now := by
  rw [currentTimestamp]
  split
  · exact le_rfl
  · rw [microseconds]
    omega

theorem expired_of_purged {exp revokedAt now : Int}
    (hrow : exp * microseconds ≤ revokedAt + lifetime svc) (hcut : revokedAt < cutoff svc now) :
    exp < now / microseconds := by
  rw [cutoff] at hcut
  simp only [lifetime, microseconds] at *
  omega

theorem expired_mono {exp now later : Int} (h : exp < now / microseconds) (hle : now ≤ later) :
    exp < later / microseconds := by
  rw [microseconds] at *
  omega

end Times

section Invariant

variable {κ : Type} {svc : AuthService κ} {s s' : State} {past : List Event}

structure Issued (svc : AuthService κ) (s : State) (token : Str) (payload : Payload)
    (jti : Str) (exp : Int) : Prop where
  jti_eq : payload.jti = some jti
  jti_ne : jti ≠ []
  exp_eq : payload.exp = some exp
  encoded : ∀ jwt ∈ svc.jwt, ∃ key alg kid, token = jwt.encode payload key alg kid
  issuedAt : ∃ t, t ≤ s.now ∧ exp = (t + lifetime svc) / microseconds
  rows : ∀ row ∈ s.table.rows, row.jti = jti →
    exp * microseconds ≤ row.revokedAt + lifetime svc

structure Recorded (svc : AuthService κ) (past : List Event) (s : State) : Prop where
  issued : ∀ token payload, .issued token payload ∈ past →
    ∃ jti exp, Issued svc s token payload jti exp
  revoked : ∀ token payload, RevokedAfterIssue past token payload →
    (∃ row ∈ s.table.rows, payload.jti = some row.jti) ∨
      ∃ exp, payload.exp = some exp ∧ exp < s.now / microseconds
  validated : ∀ before after token payload result,
    past = before ++ .validated token result :: after →
    RevokedAfterIssue before token payload → result = .ok none

structure Evolves (svc : AuthService κ) (s s' : State) : Prop where
  now : s.now ≤ s'.now
  stamped : ∀ row ∈ s'.table.rows,
    row ∈ s.table.rows ∨ s'.now / microseconds * microseconds ≤ row.revokedAt
  purged : ∀ row ∈ s.table.rows, row ∈ s'.table.rows ∨ row.revokedAt < cutoff svc s'.now

theorem evolves_later {later : Int} (h : s.now ≤ later) : Evolves svc s { s with now := later } :=
  ⟨h, fun _ hrow => .inl hrow, fun _ hrow => .inl hrow⟩

theorem Issued.evolve {token : Str} {payload : Payload} {jti : Str} {exp : Int}
    (h : Issued svc s token payload jti exp) (hev : Evolves svc s s') :
    Issued svc s' token payload jti exp := by
  obtain ⟨t,ht,hexp⟩ := h.issuedAt
  refine ⟨h.jti_eq, h.jti_ne, h.exp_eq, h.encoded, ⟨t, ht.trans hev.now, hexp⟩, ?_⟩
  intro row hrow hjti
  rcases hev.stamped row hrow with hold | hnew
  · exact h.rows row hold hjti
  · have hle : (t + lifetime svc) / microseconds * microseconds ≤
        s'.now / microseconds * microseconds + lifetime svc :=
      expiry_le_lifetime (ht.trans hev.now)
    rw [← hexp] at hle
    exact hle.trans (by omega)

theorem Recorded.revoked_evolve (hr : Recorded svc past s) (hev : Evolves svc s s')
    {token : Str} {payload : Payload} (h : RevokedAfterIssue past token payload) :
    (∃ row ∈ s'.table.rows, payload.jti = some row.jti) ∨
      ∃ exp, payload.exp = some exp ∧ exp < s'.now / microseconds := by
  rcases hr.revoked token payload h with ⟨row,hrow,hjti⟩ | ⟨exp,hexp,hlt⟩
  · rcases hev.purged row hrow with hkept | hgone
    · exact .inl ⟨row, hkept, hjti⟩
    · obtain ⟨jti,exp,hiss⟩ := hr.issued token payload h.issued
      have hsame : row.jti = jti := Option.some.inj (hjti.symm.trans hiss.jti_eq)
      exact .inr ⟨exp, hiss.exp_eq, expired_of_purged (hiss.rows row hrow hsame) hgone⟩
  · exact .inr ⟨exp, hexp, expired_mono hlt hev.now⟩

theorem Recorded.concat (hr : Recorded svc past s) (hev : Evolves svc s s') {e : Event}
    (hissued : ∀ token payload, e = .issued token payload →
      ∃ jti exp, Issued svc s' token payload jti exp)
    (hrevoked : ∀ jti accepted, e = .revoked jti (.ok accepted) →
      ∃ row ∈ s'.table.rows, row.jti = jti)
    (hvalidated : ∀ token payload result, e = .validated token result →
      RevokedAfterIssue past token payload → result = .ok none) :
    Recorded svc (past ++ [e]) s' := by
  refine ⟨?_, ?_, ?_⟩
  · intro token payload hin
    rcases List.mem_append.mp hin with hin | hin
    · obtain ⟨jti,exp,hiss⟩ := hr.issued token payload hin
      exact ⟨jti, exp, hiss.evolve hev⟩
    · exact hissued token payload (List.mem_singleton.mp hin).symm
  · intro token payload h
    rcases revokedAfterIssue_concat h with h | ⟨jti,accepted,he,hjti⟩
    · exact hr.revoked_evolve hev h
    · obtain ⟨row,hrow,rfl⟩ := hrevoked jti accepted he
      exact .inl ⟨row, hrow, hjti⟩
  · intro before after token payload result heq h
    rcases append_cons_of_concat heq with ⟨rfl,he⟩ | ⟨rest,hpast⟩
    · exact hvalidated token payload result he h
    · exact hr.validated before rest token payload result hpast h

end Invariant

section Calls

variable {κ : Type} {svc : AuthService κ} {s s' : State} {past : List Event} {now : Int}

theorem decodeFrom_eq_some {jwt : PyJwt κ} {token : Str} {keys : List κ} {p : Payload}
    (h : decodeFrom svc jwt now token keys = some p) :
    ∃ key algs, jwt.decode now token key algs = .ok p := by
  induction keys with
  | nil =>
    rw [decodeFrom] at h
    split at h
    · next hd =>
      cases h
      exact ⟨_, _, hd⟩
    · cases h
  | cons key rest ih =>
    rw [decodeFrom] at h
    split at h
    · next hd =>
      cases h
      exact ⟨_, _, hd⟩
    · cases h
    · exact ih h

theorem validateToken_of_revoked (hjwt : ∀ jwt ∈ svc.jwt, jwt.Lawful) {token : Str}
    {payload : Payload} {jti : Str} {exp : Int} (hiss : Issued svc s token payload jti exp)
    (h : (∃ row ∈ s.table.rows, payload.jti = some row.jti) ∨
      ∃ exp, payload.exp = some exp ∧ exp < s.now / microseconds) :
    validateToken svc s.table s.now token = .ok none := by
  rw [validateToken]
  split
  · rfl
  split
  · rfl
  next jwt hj =>
    obtain ⟨key,alg,kid,htoken⟩ := hiss.encoded jwt hj
    split
    · rfl
    next p hdec =>
      obtain ⟨key',algs,hok⟩ := decodeFrom_eq_some hdec
      have hp : p = payload := (hjwt jwt hj).payload _ _ _ _ _ _ _ _ (htoken ▸ hok)
      subst hp
      rcases h with ⟨row,hrow,hrj⟩ | ⟨exp',hexp,hlt⟩
      · have hjti : row.jti = jti := Option.some.inj (hrj.symm.trans hiss.jti_eq)
        have hrev : isTokenRevoked s.table jti = true :=
          List.any_eq_true.mpr ⟨row, hrow, by simpa using hjti⟩
        rw [if_pos]
        simp [hiss.jti_eq, hiss.jti_ne, hrev]
      · have hle := (hjwt jwt hj).expiry _ _ _ _ _ hok exp' hexp
        exact absurd hlt (not_lt.mpr hle)

theorem generateToken_encoded {payload : Payload} {token : Str}
    (h : generateToken svc payload = .ok token) :
    ∀ jwt ∈ svc.jwt, ∃ key alg kid, token = jwt.encode payload key alg kid := by
  intro jwt hj
  rw [generateToken, Option.mem_def.mp hj] at h
  simp only at h
  split at h
  · cases h
    exact ⟨_, _, _, rfl⟩
  · cases h
    exact ⟨_, _, _, rfl⟩

theorem recorded_generateToken (hr : Recorded svc past s) (hnow : s.now ≤ now)
    {draw : TokenBytes} {lag : Nat} {args : TokenArgs}
    (hfresh : isTokenRevoked s.table (tokenUrlsafe draw) = false) :
    Recorded svc (past ++ [(perform svc s now (.generateToken draw lag args)).2])
      (perform svc s now (.generateToken draw lag args)).1 := by
  have hlater : now ≤ now + lag := by omega
  refine hr.concat (evolves_later (hnow.trans hlater)) ?_ ?_ ?_
  · intro token payload he
    rw [perform] at he
    split at he
    · next hgen =>
      cases he
      refine ⟨tokenUrlsafe draw, _, rfl, tokenUrlsafe_ne_nil draw, rfl,
        generateToken_encoded hgen, ⟨now, hlater, rfl⟩, ?_⟩
      intro row hrow hjti
      have hrev : isTokenRevoked s.table (tokenUrlsafe draw) = true :=
        List.any_eq_true.mpr ⟨row, hrow, by simpa using hjti⟩
      rw [hfresh] at hrev
      cases hrev
    · cases he
  · intro jti accepted he
    rw [perform] at he
    split at he <;> cases he
  · intro token payload result he
    rw [perform] at he
    split at he <;> cases he

theorem recorded_revokeToken (hr : Recorded svc past s) (hnow : s.now ≤ now) {jti : Str}
    {userId : Option Int} :
    Recorded svc (past ++ [(perform svc s now (.revokeToken jti userId)).2])
      (perform svc s now (.revokeToken jti userId)).1 := by
  rw [perform, revokeToken]
  split
  · next hin =>
    refine hr.concat (evolves_later hnow) ?_ ?_ ?_
    · intro token payload he
      cases he
    · intro jti' accepted he
      cases he
      obtain ⟨row,hrow,hjti⟩ := List.mem_map.mp hin
      exact ⟨row, hrow, hjti⟩
    · intro token payload result he
      cases he
  · split
    · refine hr.concat ⟨hnow, ?_, fun row hrow => .inl (List.mem_append_left _ hrow)⟩ ?_ ?_ ?_
      · intro row hrow
        rcases List.mem_append.mp hrow with hrow | hrow
        · exact .inl hrow
        · rw [List.mem_singleton.mp hrow]
          exact .inr (roundDown_le_currentTimestamp now)
      · intro token payload he
        cases he
      · intro jti' accepted he
        cases he
        exact ⟨_, List.mem_append_right _ (List.mem_singleton_self _), rfl⟩
      · intro token payload result he
        cases he
    · refine hr.concat (evolves_later hnow) ?_ ?_ ?_
      · intro token payload he
        cases he
      · intro jti' accepted he
        cases he
      · intro token payload result he
        cases he

theorem recorded_purge (hr : Recorded svc past s) (hnow : s.now ≤ now) :
    Recorded svc (past ++ [(perform svc s now .purgeExpiredRevocations).2])
      (perform svc s now .purgeExpiredRevocations).1 := by
  refine hr.concat ⟨hnow, ?_, ?_⟩ ?_ ?_ ?_
  · intro row hrow
    exact .inl (List.mem_filter.mp hrow).1
  · intro row hrow
    by_cases hold : row.revokedAt < cutoff svc now
    · exact .inr hold
    · exact .inl (List.mem_filter.mpr ⟨hrow, by simpa using hold⟩)
  · intro token payload he
    cases he
  · intro jti accepted he
    cases he
  · intro token payload result he
    cases he

theorem recorded_validateToken (hjwt : ∀ jwt ∈ svc.jwt, jwt.Lawful) (hr : Recorded svc past s)
    (hnow : s.now ≤ now) {token : Str} :
    Recorded svc (past ++ [(perform svc s now (.validateToken token)).2])
      (perform svc s now (.validateToken token)).1 := by
  have hev : Evolves svc s { s with now := now } := evolves_later hnow
  refine hr.concat hev ?_ ?_ ?_
  · intro token payload he
    cases he
  · intro jti accepted he
    cases he
  · intro token payload result he hrev
    cases he
    obtain ⟨jti,exp,hiss⟩ := hr.issued token payload hrev.issued
    exact validateToken_of_revoked (s := { s with now := now }) hjwt (hiss.evolve hev)
      (hr.revoked_evolve hev hrev)

theorem recorded_step (hjwt : ∀ jwt ∈ svc.jwt, jwt.Lawful) (past : List Event) (s : State)
    (c : Int × Call) (s' : State) (es : List Event) (hr : Recorded svc past s)
    (hfresh : FreshJti s c) (h : step svc s c = some (s', es)) : Recorded svc (past ++ es) s' := by
  obtain ⟨now,call⟩ := c
  rw [step] at h
  split at h
  · cases h
  · next hlt =>
    have hnow : s.now ≤ now := not_lt.mp hlt
    cases h
    cases call with
    | generateToken draw lag args => exact recorded_generateToken hr hnow hfresh
    | revokeToken jti userId => exact recorded_revokeToken hr hnow
    | purgeExpiredRevocations => exact recorded_purge hr hnow
    | validateToken token => exact recorded_validateToken hjwt hr hnow

end Calls

theorem revoked_token_never_accepted {κ : Type} (svc : AuthService κ)
    (hjwt : ∀ jwt ∈ svc.jwt, jwt.Lawful) (s₀ s : State) (calls : List (Int × Call))
    (es before after : List Event) (token : Str) (payload : Payload)
    (result : Except AuthError (Option TokenUser))
    (hrun : exec (step svc) s₀ calls = some (s, es)) (hfresh : Meets (step svc) FreshJti s₀ calls)
    (hes : es = before ++ .validated token result :: after)
    (hrev : RevokedAfterIssue before token payload) : result = .ok none := by
  have hinit : Recorded svc [] s₀ := by
    refine ⟨?_, ?_, ?_⟩
    · intro token payload hin
      cases hin
    · intro token payload h
      cases h.issued
    · intro before after token payload result heq
      simp at heq
  have hend := exec_invariant (recorded_step hjwt) [] hinit hfresh hrun
  exact hend.validated before after token payload result hes hrev

def zeroBytes : TokenBytes := ⟨List.replicate 16 0, rfl⟩

def analyst : TokenArgs := ⟨7, "ana".toList, "operator".toList, none⟩

def analystPayload : Payload where
  userId := some 7
  username := some "ana".toList
  role := some "operator".toList
  jti := some (tokenUrlsafe zeroBytes)
  exp := some 1700086400
  iat := some 1700000000
  orgId := none

def analystToken : Str := "header.payload.signature".toList

def analystJwt : PyJwt Unit where
  encode p _ _ _ := if p = analystPayload then analystToken else "other.payload.signature".toList
  unverifiedKid _ := .ok none
  decode now token _ _ :=
    if token = analystToken then
      if 1700086400 * microseconds ≤ now then .error .expiredSignatureError else .ok analystPayload
    else .error .invalidTokenError

theorem analystJwt_lawful : analystJwt.Lawful := by
  refine ⟨?_, ?_⟩
  · intro now p key alg kid key' algs p' h
    have hother : "other.payload.signature".toList ≠ analystToken := by decide
    by_cases hp : p = analystPayload
    · simp only [analystJwt, hp, reduceIte] at h
      split at h
      · cases h
      · cases h
        exact hp.symm
    · simp only [analystJwt, if_neg hp, if_neg hother] at h
      cases h
  · intro now token key algs p h exp hexp
    simp only [analystJwt] at h
    split at h
    · split at h
      · cases h
      · next hlt =>
        cases h
        cases hexp
        rw [microseconds] at *
        omega
    · cases h

def analystService : AuthService Unit where
  jwt := some analystJwt
  keys := []
  secretKey := "0123456789abcdef0123456789abcdef".toList
  algorithm := "HS256".toList
  expirationHours := 24
  backend := .sqlite

def emptyState : State := ⟨1700000000000000, [7], ⟨[], 0, List.nodup_nil⟩⟩

def revokedRun : List (Int × Call) :=
  [(1700000000900000, .generateToken zeroBytes 10 analyst),
   (1700000000920000, .validateToken analystToken),
   (1700000000950000, .revokeToken (tokenUrlsafe zeroBytes) (some 7)),
   (1700086399990000, .purgeExpiredRevocations),
   (1700086399995000, .validateToken analystToken)]

def analystUser : TokenUser :=
  ⟨7, 7, "ana".toList, "operator".toList, some (tokenUrlsafe zeroBytes), none⟩

theorem revoked_token_never_accepted_last_second :
    ∃ s result, exec (step analystService) emptyState revokedRun = some (s,
      [.issued analystToken analystPayload, .validated analystToken (.ok (some analystUser)),
       .revoked (tokenUrlsafe zeroBytes) (.ok true), .purged 0,
       .validated analystToken result]) ∧ result = .ok none := by
  refine ⟨_, _, rfl, ?_⟩
  refine revoked_token_never_accepted analystService ?_ emptyState _ revokedRun _
    [.issued analystToken analystPayload, .validated analystToken (.ok (some analystUser)),
     .revoked (tokenUrlsafe zeroBytes) (.ok true), .purged 0] []
    analystToken analystPayload _ rfl (by decide) rfl ?_
  · rintro jwt hj
    cases hj
    exact analystJwt_lawful
  · exact ⟨[.issued analystToken analystPayload,
      .validated analystToken (.ok (some analystUser))], [.purged 0], tokenUrlsafe zeroBytes, true,
      rfl, by simp, rfl⟩

end PicoSentry.Serve.Revocation
