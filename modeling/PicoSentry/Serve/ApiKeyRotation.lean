import Mathlib.Algebra.Order.Ring.Int
import PicoSentry.Foundation.Run
import PicoSentry.Serve.ApiKeys

namespace PicoSentry.Serve.ApiKeyRotation

open Foundation
open Foundation.Run
open ApiKeys (ApiKeyRow viewer)

inductive Request where
  | revoke (userId : Option Int)
  | rotate (userId : Int)
  deriving DecidableEq

inductive Stage where
  | called
  | checked
  | fetched (userId : Int) (key : ApiKeyRow)
  | revoked
  | rotated
  | refused
  | raised
  deriving DecidableEq

structure Call where
  request : Request
  stage : Stage
  deriving DecidableEq

structure State where
  apiKeys : List ApiKeyRow
  nextId : Int
  successors : List Int
  calls : List Call

inductive Step where
  | read (call : Nat)
  | write (call : Nat) (now : Int) (keyHash : Str)
  | fail (call : Nat)

def ninetyDays : Int := 7776000000000

def isActive (r : ApiKeyRow) : Bool := r.isActive = some true

def selectKey (key userId : Int) (rows : List ApiKeyRow) : Option ApiKeyRow :=
  rows.find? fun r => r.id = key && r.userId = some userId && isActive r

def deactivate (key now : Int) (r : ApiKeyRow) : ApiKeyRow :=
  if r.id = key then { r with isActive := some false, revokedAt := some now } else r

-- value or default
def orElse (value : Option Str) (default : Str) : Str :=
  match value with
  | some (c :: cs) => c :: cs
  | _ => default

def successor (id now : Int) (keyHash : Str) (userId : Int) (key : ApiKeyRow) : ApiKeyRow where
  id := id
  keyHash := keyHash
  userId := some userId
  name := some (orElse key.name "rotated-key".toList)
  permissions := some (orElse key.permissions "read".toList)
  expiresAt := some (now + ninetyDays)
  lastUsed := none
  isActive := some true
  revokedAt := none
  createdAt := some now
  role := some (orElse key.role viewer)
  orgId := key.orgId

def readKey (key : Int) (rows : List ApiKeyRow) : Request → Stage
  | .revoke none => .checked
  | .revoke (some userId) => if (selectKey key userId rows).isSome then .checked else .refused
  | .rotate userId =>
    match selectKey key userId rows with
    | some row => .fetched userId row
    | none => .refused

def State.setStage (s : State) (call : Nat) (c : Call) (stage : Stage) : State :=
  { s with calls := s.calls.set call { c with stage := stage } }

def Stage.finished : Stage → Bool
  | .called => false
  | .checked => false
  | .fetched _ _ => false
  | _ => true

def revokeKey (key now : Int) (s : State) : State :=
  { s with apiKeys := s.apiKeys.map (deactivate key now) }

def rotateKey (key now : Int) (keyHash : Str) (userId : Int) (row : ApiKeyRow) (s : State) : State :=
  { s with
    apiKeys := s.apiKeys.map (deactivate key now) ++ [successor s.nextId now keyHash userId row]
    nextId := s.nextId + 1
    successors := s.successors ++ [s.nextId] }

-- Each write is one transaction: of two, the second waits for the first to commit.
def step (key : Int) (s : State) : Step → Option (State × List Int)
  | .read call => do
      let c ← s.calls[call]?
      if c.stage = .called then
        return (s.setStage call c (readKey key s.apiKeys c.request), [])
      else none
  | .write call now keyHash => do
      let c ← s.calls[call]?
      match c.stage with
      | .checked => return ((revokeKey key now s).setStage call c .revoked, [])
      | .fetched userId row =>
        return ((rotateKey key now keyHash userId row s).setStage call c .rotated, [s.nextId])
      | _ => none
  | .fail call => do
      let c ← s.calls[call]?
      if c.stage.finished then none else return (s.setStage call c .raised, [])

def KeyActive (key : Int) (s : State) : Prop := ∃ r ∈ s.apiKeys, r.id = key ∧ isActive r

def activeAmong (ids : List Int) (rows : List ApiKeyRow) : List ApiKeyRow :=
  rows.filter fun r => r.id ∈ ids && isActive r

def activeSuccessors (s : State) : List ApiKeyRow := activeAmong s.successors s.apiKeys

def Revoked (s : State) : Prop := ∃ c ∈ s.calls, c.stage = .revoked

instance (key : Int) (s : State) : Decidable (KeyActive key s) :=
  inferInstanceAs (Decidable (∃ r ∈ s.apiKeys, r.id = key ∧ isActive r))

instance (s : State) : Decidable (Revoked s) :=
  inferInstanceAs (Decidable (∃ c ∈ s.calls, c.stage = .revoked))

structure OneSuccessor (s : State) : Prop where
  single : (activeSuccessors s).length ≤ 1
  gone : Revoked s → activeSuccessors s = []

-- What a write would have to find: the key that its read found, or no successor to outlive it.
def Unraced (key : Int) (s : State) : Step → Prop
  | .write call _ _ =>
    match s.calls[call]? with
    | some ⟨_, .fetched _ _⟩ => KeyActive key s
    | some ⟨_, .checked⟩ => activeSuccessors s = []
    | _ => True
  | _ => True

section Rows

variable {key now : Int} {ids : List Int} {rows : List ApiKeyRow}

@[simp] theorem id_deactivate (key now : Int) (r : ApiKeyRow) : (deactivate key now r).id = r.id := by
  rw [deactivate]
  split <;> rfl

theorem deactivate_of_ne {r : ApiKeyRow} (h : r.id ≠ key) : deactivate key now r = r := by
  rw [deactivate, if_neg h]

theorem not_active_deactivate {r : ApiKeyRow} (h : r.id = key) :
    isActive (deactivate key now r) = false := by
  simp [deactivate, h, isActive]

theorem activeAmong_deactivate (h : key ∉ ids) :
    activeAmong ids (rows.map (deactivate key now)) = activeAmong ids rows := by
  induction rows with
  | nil => rfl
  | cons r rows ih =>
    rw [activeAmong, activeAmong] at ih
    by_cases heq : r.id = key
    · have hout : r.id ∉ ids := by rwa [heq]
      simp [activeAmong, hout, ih]
    · simp [activeAmong, deactivate_of_ne heq, List.filter_cons, ih]

theorem activeAmong_concat_id (ids : List Int) {id : Int} (h : ∀ r ∈ rows, r.id ≠ id) :
    activeAmong (ids ++ [id]) rows = activeAmong ids rows := by
  refine List.filter_congr ?_
  intro r hr
  simp [h r hr]

theorem not_keyActive_deactivate {s : State} (h : s.apiKeys = rows.map (deactivate key now)) :
    ¬ KeyActive key s := by
  rintro ⟨r,hr,hid,hactive⟩
  rw [h] at hr
  obtain ⟨old,-,rfl⟩ := List.mem_map.mp hr
  rw [id_deactivate] at hid
  rw [not_active_deactivate hid] at hactive
  cases hactive

end Rows

def Stage.isFetched : Stage → Bool
  | .fetched _ _ => true
  | _ => false

def HasFetched (s : State) : Prop := ∃ c ∈ s.calls, c.stage.isFetched = true

structure Inv (key : Int) (s : State) : Prop where
  issued : ∀ r ∈ s.apiKeys, r.id < s.nextId
  old : key < s.nextId
  apart : key ∉ s.successors
  later : ∀ id ∈ s.successors, id < s.nextId
  count : (activeSuccessors s).length = s.successors.length
  active : KeyActive key s → s.successors = [] ∧ ¬ Revoked s
  fetched : HasFetched s → KeyActive key s ∨ s.successors ≠ [] ∨ Revoked s

section Steps

variable {key now : Int} {keyHash : Str} {s : State} {call : Nat} {c : Call} {stage : Stage}

theorem revoked_setStage_iff (hget : s.calls[call]? = some c) (hstage : c.stage ≠ .revoked) :
    Revoked (s.setStage call c stage) ↔ stage = .revoked ∨ Revoked s :=
  exists_mem_set_iff _ hget hstage

theorem hasFetched_of_setStage (h : HasFetched (s.setStage call c stage)) :
    stage.isFetched = true ∨ HasFetched s := by
  obtain ⟨c',hmem,hfetched⟩ := h
  rcases List.mem_or_eq_of_mem_set hmem with hmem | rfl
  · exact .inr ⟨c', hmem, hfetched⟩
  · exact .inl hfetched

theorem Inv.oneSuccessor_iff (h : Inv key s) :
    OneSuccessor s ↔ s.successors.length ≤ 1 ∧ (Revoked s → s.successors = []) := by
  have hnil : activeSuccessors s = [] ↔ s.successors = [] := by
    rw [← List.length_eq_zero_iff, h.count, List.length_eq_zero_iff]
  constructor
  · rintro ⟨hsingle,hgone⟩
    exact ⟨h.count ▸ hsingle, fun hrevoked => hnil.mp (hgone hrevoked)⟩
  · rintro ⟨hsingle,hgone⟩
    exact ⟨h.count.symm ▸ hsingle, fun hrevoked => hnil.mpr (hgone hrevoked)⟩

theorem Inv.setStage (h : Inv key s) (hget : s.calls[call]? = some c) (hc : c.stage ≠ .revoked)
    (hstage : stage ≠ .revoked) (hfetched : stage.isFetched = true → KeyActive key s) :
    Inv key (s.setStage call c stage) := by
  have hrevoked : Revoked (s.setStage call c stage) ↔ Revoked s := by
    rw [revoked_setStage_iff hget hc, or_iff_right hstage]
  refine ⟨h.issued, h.old, h.apart, h.later, h.count, ?_, ?_⟩
  · intro hactive
    rw [hrevoked]
    exact h.active hactive
  · intro hhas
    rw [hrevoked]
    rcases hasFetched_of_setStage hhas with hnew | hhas
    · exact .inl (hfetched hnew)
    · exact h.fetched hhas

theorem Inv.oneSuccessor_setStage_iff (h : Inv key s) (hget : s.calls[call]? = some c)
    (hc : c.stage ≠ .revoked) (hstage : stage ≠ .revoked)
    (hfetched : stage.isFetched = true → KeyActive key s) :
    OneSuccessor (s.setStage call c stage) ↔ OneSuccessor s := by
  rw [(h.setStage hget hc hstage hfetched).oneSuccessor_iff, h.oneSuccessor_iff,
    revoked_setStage_iff hget hc, or_iff_right hstage]
  rfl

theorem Inv.revoke (h : Inv key s) (now : Int) (hget : s.calls[call]? = some c)
    (hc : c.stage ≠ .revoked) : Inv key ((revokeKey key now s).setStage call c .revoked) := by
  have hrevoked : Revoked ((revokeKey key now s).setStage call c .revoked) :=
    (revoked_setStage_iff hget hc).mpr (.inl rfl)
  refine ⟨?_, h.old, h.apart, h.later, ?_, ?_, fun _ => .inr (.inr hrevoked)⟩
  · intro r hr
    obtain ⟨old,hold,rfl⟩ := List.mem_map.mp hr
    rw [id_deactivate]
    exact h.issued old hold
  · exact (congrArg List.length (activeAmong_deactivate h.apart)).trans h.count
  · intro hactive
    exact absurd hactive (not_keyActive_deactivate rfl)

theorem Inv.rotate (h : Inv key s) (now : Int) (keyHash : Str) (userId : Int) (row : ApiKeyRow)
    (c : Call) : Inv key ((rotateKey key now keyHash userId row s).setStage call c .rotated) := by
  have hids : ∀ r ∈ s.apiKeys.map (deactivate key now), r.id < s.nextId := by
    intro r hr
    obtain ⟨old,hold,rfl⟩ := List.mem_map.mp hr
    rw [id_deactivate]
    exact h.issued old hold
  have hcount : activeAmong (s.successors ++ [s.nextId])
      (s.apiKeys.map (deactivate key now) ++ [successor s.nextId now keyHash userId row]) =
        activeSuccessors s ++ [successor s.nextId now keyHash userId row] := by
    have hold := activeAmong_concat_id s.successors fun r hr => (hids r hr).ne
    rw [activeAmong, List.filter_append, ← activeAmong, hold, activeAmong_deactivate h.apart]
    simp [activeSuccessors, successor, isActive]
  refine ⟨?_, ?_, ?_, ?_, ?_, ?_, fun _ => .inr (.inl (by simp [rotateKey, State.setStage]))⟩
  · intro r hr
    rcases List.mem_append.mp hr with hr | hr
    · exact (hids r hr).trans (Int.lt_succ _)
    · rw [List.mem_singleton.mp hr]
      exact Int.lt_succ _
  · exact h.old.trans (Int.lt_succ _)
  · simpa [rotateKey, State.setStage, h.apart] using h.old.ne
  · intro id hid
    rcases List.mem_append.mp hid with hid | hid
    · exact (h.later id hid).trans (Int.lt_succ _)
    · rw [List.mem_singleton.mp hid]
      exact Int.lt_succ _
  · have hlen := congrArg List.length hcount
    rw [List.length_append, h.count] at hlen
    simpa [activeSuccessors, rotateKey, State.setStage] using hlen
  · rintro ⟨r,hr,hid,hactive⟩
    rcases List.mem_append.mp hr with hr | hr
    · exact absurd ⟨r, hr, hid, hactive⟩
        (not_keyActive_deactivate (s := { s with apiKeys := s.apiKeys.map (deactivate key now) }) rfl)
    · rw [List.mem_singleton.mp hr] at hid
      exact absurd hid.symm h.old.ne

theorem readKey_ne_revoked (rows : List ApiKeyRow) (request : Request) :
    readKey key rows request ≠ .revoked := by
  cases request with
  | revoke userId =>
    cases userId with
    | none => simp [readKey]
    | some userId => rw [readKey]; split <;> simp
  | rotate userId => rw [readKey]; split <;> simp

theorem keyActive_of_readKey {request : Request}
    (h : (readKey key s.apiKeys request).isFetched = true) : KeyActive key s := by
  cases request with
  | revoke userId =>
    cases userId with
    | none => simp [readKey, Stage.isFetched] at h
    | some userId => rw [readKey] at h; split at h <;> simp [Stage.isFetched] at h
  | rotate userId =>
    rw [readKey] at h
    split at h
    · rename_i row hrow
      have hmatch := List.find?_some hrow
      simp only [Bool.and_eq_true, decide_eq_true_eq] at hmatch
      exact ⟨row, List.mem_of_find?_eq_some hrow, hmatch.1.1, hmatch.2⟩
    · simp [Stage.isFetched] at h

theorem Inv.oneSuccessor_revoke_iff (h : Inv key s) (hone : OneSuccessor s)
    (hget : s.calls[call]? = some c) (hc : c.stage ≠ .revoked) :
    OneSuccessor ((revokeKey key now s).setStage call c .revoked) ↔ activeSuccessors s = [] := by
  have hrevoked : Revoked ((revokeKey key now s).setStage call c .revoked) :=
    (revoked_setStage_iff hget hc).mpr (.inl rfl)
  have hnil : activeSuccessors s = [] ↔ s.successors = [] := by
    rw [← List.length_eq_zero_iff, h.count, List.length_eq_zero_iff]
  rw [(h.revoke now hget hc).oneSuccessor_iff, hnil]
  exact ⟨fun hafter => hafter.2 hrevoked, fun hempty => ⟨(h.oneSuccessor_iff.mp hone).1, fun _ => hempty⟩⟩

theorem Inv.oneSuccessor_rotate_iff (h : Inv key s) {userId : Int} {row : ApiKeyRow}
    (hget : s.calls[call]? = some c) (hc : c.stage = .fetched userId row) :
    OneSuccessor ((rotateKey key now keyHash userId row s).setStage call c .rotated) ↔
      KeyActive key s := by
  have hne : c.stage ≠ .revoked := by simp [hc]
  have hrevoked : Revoked ((rotateKey key now keyHash userId row s).setStage call c .rotated) ↔
      Revoked s := (revoked_setStage_iff hget hne).trans (or_iff_right (by simp))
  rw [(h.rotate now keyHash userId row c).oneSuccessor_iff, hrevoked]
  constructor
  · rintro ⟨hsingle,hgone⟩
    have hempty : s.successors = [] := by
      simpa [rotateKey, State.setStage] using hsingle
    have hlive : ¬ Revoked s := fun hr => by simpa [rotateKey, State.setStage] using hgone hr
    have hfetched : HasFetched s :=
      ⟨c, List.mem_of_getElem? hget, by rw [hc]; rfl⟩
    rcases h.fetched hfetched with hactive | hsome | hr
    · exact hactive
    · exact absurd hempty hsome
    · exact absurd hr hlive
  · intro hactive
    obtain ⟨hempty,hlive⟩ := h.active hactive
    exact ⟨by simp [rotateKey, State.setStage, hempty], fun hr => absurd hr hlive⟩

end Steps

section Runs

variable {key : Int} {s : State}

theorem step_cases {l : Step} {r : State × List Int} (h : step key s l = some r) :
    (∃ call c, l = .read call ∧ s.calls[call]? = some c ∧ c.stage = .called ∧
      r.1 = s.setStage call c (readKey key s.apiKeys c.request)) ∨
    (∃ call now keyHash c, l = .write call now keyHash ∧ s.calls[call]? = some c ∧
      c.stage = .checked ∧ r.1 = (revokeKey key now s).setStage call c .revoked) ∨
    (∃ call now keyHash c userId row, l = .write call now keyHash ∧ s.calls[call]? = some c ∧
      c.stage = .fetched userId row ∧
      r.1 = (rotateKey key now keyHash userId row s).setStage call c .rotated) ∨
    (∃ call c, l = .fail call ∧ s.calls[call]? = some c ∧ c.stage.finished = false ∧
      r.1 = s.setStage call c .raised) := by
  cases l with
  | read call =>
    obtain ⟨c,hget,h⟩ := Option.bind_eq_some_iff.mp h
    split at h
    · rename_i hcalled
      cases h
      exact .inl ⟨call, c, rfl, hget, hcalled, rfl⟩
    · cases h
  | write call now keyHash =>
    obtain ⟨c,hget,h⟩ := Option.bind_eq_some_iff.mp h
    split at h
    · rename_i hchecked
      cases h
      exact .inr (.inl ⟨call, now, keyHash, c, rfl, hget, hchecked, rfl⟩)
    · rename_i userId row hfetched
      cases h
      exact .inr (.inr (.inl ⟨call, now, keyHash, c, userId, row, rfl, hget, hfetched, rfl⟩))
    · cases h
  | fail call =>
    obtain ⟨c,hget,h⟩ := Option.bind_eq_some_iff.mp h
    split at h
    · cases h
    · rename_i hopen
      cases h
      exact .inr (.inr (.inr ⟨call, c, rfl, hget, by simpa using hopen, rfl⟩))

theorem Inv.step {l : Step} {r : State × List Int} (h : Inv key s)
    (hstep : ApiKeyRotation.step key s l = some r) : Inv key r.1 := by
  obtain ⟨call,c,rfl,hget,hc,heq⟩ | ⟨call,now,keyHash,c,rfl,hget,hc,heq⟩ |
    ⟨call,now,keyHash,c,userId,row,rfl,hget,hc,heq⟩ | ⟨call,c,rfl,hget,hc,heq⟩ := step_cases hstep
  · rw [heq]
    exact h.setStage hget (by simp [hc]) (readKey_ne_revoked _ _) keyActive_of_readKey
  · rw [heq]
    exact h.revoke now hget (by simp [hc])
  · rw [heq]
    exact h.rotate now keyHash userId row c
  · rw [heq]
    have hne : c.stage ≠ .revoked := fun hr => by simp [hr, Stage.finished] at hc
    exact h.setStage hget hne (by simp) (by simp [Stage.isFetched])

theorem oneSuccessor_step_iff {l : Step} {r : State × List Int} (h : Inv key s)
    (hone : OneSuccessor s) (hstep : step key s l = some r) :
    OneSuccessor r.1 ↔ Unraced key s l := by
  obtain ⟨call,c,rfl,hget,hc,heq⟩ | ⟨call,now,keyHash,c,rfl,hget,hc,heq⟩ |
    ⟨call,now,keyHash,c,userId,row,rfl,hget,hc,heq⟩ | ⟨call,c,rfl,hget,hc,heq⟩ := step_cases hstep
  · rw [heq, h.oneSuccessor_setStage_iff hget (by simp [hc]) (readKey_ne_revoked _ _)
      keyActive_of_readKey]
    exact iff_of_true hone trivial
  · rw [heq, h.oneSuccessor_revoke_iff hone hget (by simp [hc])]
    obtain ⟨request,stage⟩ := c
    cases hc
    simp only [Unraced, hget]
  · rw [heq, h.oneSuccessor_rotate_iff hget hc]
    obtain ⟨request,stage⟩ := c
    cases hc
    simp only [Unraced, hget]
  · have hne : c.stage ≠ .revoked := fun hr => by simp [hr, Stage.finished] at hc
    rw [heq, h.oneSuccessor_setStage_iff hget hne (by simp) (by simp [Stage.isFetched])]
    exact iff_of_true hone trivial

end Runs

structure ApiKeyTable where
  rows : List ApiKeyRow
  nextId : Int
  issued : ∀ r ∈ rows, r.id < nextId

def initial (t : ApiKeyTable) (requests : List Request) : State where
  apiKeys := t.rows
  nextId := t.nextId
  successors := []
  calls := requests.map fun request => ⟨request, .called⟩

section Initial

variable {t : ApiKeyTable} {requests : List Request}

theorem called_of_mem_initial {c : Call} (h : c ∈ (initial t requests).calls) : c.stage = .called := by
  obtain ⟨request,-,rfl⟩ := List.mem_map.mp h
  rfl

theorem activeSuccessors_initial : activeSuccessors (initial t requests) = [] := by
  simp [activeSuccessors, activeAmong, initial]

theorem not_revoked_initial : ¬ Revoked (initial t requests) := by
  rintro ⟨c,hc,hstage⟩
  rw [called_of_mem_initial hc] at hstage
  cases hstage

theorem inv_initial {key : Int} (hkey : key < t.nextId) : Inv key (initial t requests) := by
  refine ⟨t.issued, hkey, by simp [initial], by simp [initial], ?_,
    fun _ => ⟨rfl, not_revoked_initial⟩, ?_⟩
  · rw [activeSuccessors_initial]
    rfl
  · rintro ⟨c,hc,hfetched⟩
    rw [called_of_mem_initial hc] at hfetched
    cases hfetched

theorem oneSuccessor_initial : OneSuccessor (initial t requests) :=
  ⟨by simp [activeSuccessors_initial], fun _ => activeSuccessors_initial⟩

end Initial

theorem one_successor_iff (t : ApiKeyTable) (key : Int) (hkey : key < t.nextId)
    (requests : List Request) (ls : List Step) (s : State) (es : List Int)
    (hrun : exec (step key) (initial t requests) ls = some (s, es)) :
    Always (step key) OneSuccessor (initial t requests) ls ↔
      Meets (step key) (Unraced key) (initial t requests) ls := by
  have hkept : ∀ s l r, Inv key s → step key s l = some r → Inv key r.1 :=
    fun _ _ _ hs hstep => hs.step hstep
  have hiff : ∀ s l r, Inv key s → OneSuccessor s → step key s l = some r →
      (OneSuccessor r.1 ↔ Unraced key s l) :=
    fun _ _ _ hs hone hstep => oneSuccessor_step_iff hs hone hstep
  exact always_iff_meets_of_exec hkept hiff (inv_initial hkey) oneSuccessor_initial hrun

def oneKey : ApiKeyTable where
  rows := [successor 1 0 "0a".toList 7
    ⟨1, [], none, some "deploy".toList, none, none, none, none, none, none, none, none⟩]
  nextId := 2
  issued := fun r hr => by rw [List.mem_singleton.mp hr]; decide

def rotateThenRevoke : List Step := [.read 0, .write 0 5 "0b".toList, .read 1]

theorem one_successor_rotateThenRevoke :
    ∃ s es, exec (step 1) (initial oneKey [.rotate 7, .revoke (some 7)]) rotateThenRevoke = some (s, es) ∧
      Always (step 1) OneSuccessor (initial oneKey [.rotate 7, .revoke (some 7)]) rotateThenRevoke := by
  refine ⟨_, _, rfl, (one_successor_iff oneKey 1 (by decide) _ rotateThenRevoke _ _ rfl).mpr ?_⟩
  refine ⟨trivial, fun _ h₀ => ⟨?_, fun _ h₁ => ⟨trivial, fun _ _ => trivial⟩⟩⟩
  cases h₀
  exact ⟨_, .head _, rfl, rfl⟩

def bothRead : List Step := [.read 0, .read 1, .write 0 5 "0b".toList, .write 1 6 "0c".toList]

theorem racing_calls_leave_successors :
    (∃ s es, exec (step 1) (initial oneKey [.rotate 7, .rotate 7]) bothRead = some (s, es) ∧
      (activeSuccessors s).length = 2) ∧
    (∃ s es, exec (step 1) (initial oneKey [.rotate 7, .revoke (some 7)]) bothRead = some (s, es) ∧
      Revoked s ∧ (activeSuccessors s).map ApiKeyRow.id = [2]) :=
  ⟨⟨_, _, rfl, by decide⟩, ⟨_, _, rfl, by decide, by decide⟩⟩

end PicoSentry.Serve.ApiKeyRotation
