import Mathlib.Data.List.Nodup
import PicoSentry.Serve.RowDict

namespace PicoSentry.Serve.ApiKeys

open Foundation
open Database

structure UserRow where
  id : Int
  username : Str
  role : Option Str
  isActive : Option Bool
  deriving DecidableEq, Repr

structure ApiKeyRow where
  id : Int
  keyHash : Str
  userId : Option Int
  name : Option Str
  permissions : Option Str
  expiresAt : Option Int
  lastUsed : Option Int
  isActive : Option Bool
  revokedAt : Option Int
  createdAt : Option Int
  role : Option Str
  orgId : Option Int
  deriving DecidableEq, Repr

structure Tables where
  users : List UserRow
  apiKeys : List ApiKeyRow
  userIds : (users.map UserRow.id).Nodup
  keyHashes : (apiKeys.map ApiKeyRow.keyHash).Nodup

structure ApiKeyInfo where
  id : SqlValue
  keyId : SqlValue
  userId : SqlValue
  username : SqlValue
  role : SqlValue
  orgId : SqlValue
  permissions : SqlValue
  deriving DecidableEq, Repr

def viewer : Str := "viewer".toList
def operator : Str := "operator".toList
def admin : Str := "admin".toList

def apiKeyRoles : List Str := [viewer, operator, admin]

def apiKeyPermissions : List Str := ["read".toList, "write".toList, "admin".toList]

def joinedColumns : List Str :=
  ["id".toList, "key_hash".toList, "user_id".toList, "name".toList, "permissions".toList,
   "expires_at".toList, "last_used".toList, "is_active".toList, "revoked_at".toList,
   "created_at".toList, "role".toList, "org_id".toList, "username".toList, "role".toList]

def joinedRow (ak : ApiKeyRow) (u : UserRow) : FetchedRow where
  columns := joinedColumns
  values :=
    [.int ak.id, .text ak.keyHash, .ofOption .int ak.userId, .ofOption .text ak.name,
     .ofOption .text ak.permissions, .ofOption .time ak.expiresAt, .ofOption .time ak.lastUsed,
     .ofOption .bool ak.isActive, .ofOption .time ak.revokedAt, .ofOption .time ak.createdAt,
     .ofOption .text ak.role, .ofOption .int ak.orgId, .text u.username, .ofOption .text u.role]
  width := rfl

def usable (keyHash : Str) (now : Int) (ak : ApiKeyRow) (u : UserRow) : Bool :=
  ak.userId = some u.id && ak.keyHash = keyHash && ak.isActive = some true &&
    u.isActive = some true && ak.expiresAt.all (now < ·)

def selectKey (t : Tables) (keyHash : Str) (now : Int) : List FetchedRow :=
  t.apiKeys.flatMap fun ak =>
    (t.users.filter fun u => usable keyHash now ak u).map fun u => joinedRow ak u

def item (d : Dict Str SqlValue) (name : Str) : Except PyError SqlValue :=
  match d.get? name with
  | some v => .ok v
  | none => .error .keyError

def asText : SqlValue → Except PyError Str
  | .text s => .ok s
  | _ => .error .attributeError

def permissionSet (U : Unicode) (permissions : Str) : List Str :=
  ((permissions.splitOn ',').filter fun p => U.strip p ≠ []).map U.strip

def keyRole (d : Dict Str SqlValue) : SqlValue :=
  let role := (d.get? "role".toList).getD .null
  if role.truthy then role else .text viewer

def touch (usedAt : Int) (id : SqlValue) (ak : ApiKeyRow) : ApiKeyRow :=
  if .int ak.id = id then { ak with lastUsed := some usedAt } else ak

theorem touch_keyHash (usedAt : Int) (id : SqlValue) (ak : ApiKeyRow) :
    (touch usedAt id ak).keyHash = ak.keyHash := by
  simp only [touch, apply_ite ApiKeyRow.keyHash, ite_self]

def updateLastUsed (t : Tables) (usedAt : Int) (id : SqlValue) : Tables where
  users := t.users
  apiKeys := t.apiKeys.map (touch usedAt id)
  userIds := t.userIds
  keyHashes := by
    simpa [Function.comp_def, touch_keyHash] using t.keyHashes

def acceptKey (U : Unicode) (keyHash : Str) (key : Dict Str SqlValue) :
    Except PyError (Option ApiKeyInfo) := do
  let stored ← item key "key_hash".toList >>= asText
  if stored ≠ keyHash then return none
  let permissions ← item key "permissions".toList
  let text ← asText permissions
  if (permissionSet U text).any (· ∉ apiKeyPermissions) then return none
  let role := keyRole key
  if role ∉ apiKeyRoles.map SqlValue.text then return none
  let id ← item key "id".toList
  let userId ← item key "user_id".toList
  let username ← item key "username".toList
  return some
    { id := id, keyId := id, userId := userId, username := username, role := role,
      orgId := (key.get? "org_id".toList).getD .null, permissions := permissions }

def validateApiKey (U : Unicode) (hash : Str → Str) (backend : Backend) (t : Tables)
    (apiKey : Str) (now usedAt : Int) : Except PyError (Option ApiKeyInfo × Tables) := do
  let keyHash := hash apiKey
  let keys ← (selectKey t keyHash now).mapM (rowToDict backend)
  match keys.head? with
  | none => return (none, t)
  | some key =>
    match ← acceptKey U keyHash key with
    | none => return (none, t)
    | some info => return (some info, updateLastUsed t usedAt info.id)

def storedRole (role : Option Str) : Str :=
  match role with
  | none => viewer
  | some r => if r = [] then viewer else r

section Acceptance

variable {U : Unicode} {keyHash : Str} {key : Dict Str SqlValue} {info : ApiKeyInfo}

theorem acceptKey_role (h : acceptKey U keyHash key = .ok (some info)) :
    info.role = keyRole key := by
  obtain ⟨stored,_,h⟩ := bind_eq_ok.mp h
  split at h
  · cases h
  obtain ⟨permissions,_,h⟩ := bind_eq_ok.mp h
  obtain ⟨text,_,h⟩ := bind_eq_ok.mp h
  split at h
  · cases h
  simp only at h
  split at h
  · cases h
  obtain ⟨id,_,h⟩ := bind_eq_ok.mp h
  obtain ⟨userId,_,h⟩ := bind_eq_ok.mp h
  obtain ⟨username,_,h⟩ := bind_eq_ok.mp h
  cases h
  rfl

theorem ofOption_text_role (role : Option Str) :
    (if (SqlValue.ofOption .text role).truthy then SqlValue.ofOption .text role
      else .text viewer) = .text (storedRole role) := by
  cases role with
  | none => rfl
  | some r => cases r with
    | nil => rfl
    | cons c r => rfl

theorem keyRole_joinedRow_sqlite {ak : ApiKeyRow} {u : UserRow}
    (h : rowToDict .sqlite (joinedRow ak u) = .ok key) :
    keyRole key = .text (storedRole ak.role) := by
  rw [rowToDict_sqlite, Except.ok.injEq] at h
  have hrole : key.get? "role".toList = some (SqlValue.ofOption .text ak.role) := by
    have hmem : "role".toList ∈ (joinedRow ak u).columns :=
      show "role".toList ∈ joinedColumns by decide
    rw [← h, Dict.get?_ofPairs, lastOf_itemPairs (joinedRow ak u) hmem]
    rfl
  simp only [keyRole, hrole, Option.getD_some, ofOption_text_role]

theorem keyRole_joinedRow_postgres {ak : ApiKeyRow} {u : UserRow}
    (h : rowToDict .postgres (joinedRow ak u) = .ok key) :
    keyRole key = .text (storedRole u.role) := by
  rw [rowToDict, Except.ok.injEq] at h
  have hrole : key.get? "role".toList = some (SqlValue.ofOption .text u.role) := by
    rw [← h, Dict.get?_ofPairs]
    rfl
  simp only [keyRole, hrole, Option.getD_some, ofOption_text_role]

variable {hash : Str → Str} {backend : Backend} {t t' : Tables} {apiKey : Str} {now usedAt : Int}

theorem validateApiKey_accepted
    (h : validateApiKey U hash backend t apiKey now usedAt = .ok (some info, t')) :
    ∃ ak ∈ t.apiKeys, ∃ u ∈ t.users, ak.userId = some u.id ∧ ak.keyHash = hash apiKey ∧
      ∃ key, rowToDict backend (joinedRow ak u) = .ok key ∧ info.role = keyRole key := by
  obtain ⟨keys,hkeys,h⟩ := bind_eq_ok.mp h
  split at h
  · cases h
  · next key hkey =>
    obtain ⟨accepted,hacc,h⟩ := bind_eq_ok.mp h
    split at h
    · cases h
    · cases h
      obtain ⟨row,hrow,hdict⟩ := mapM_head? hkeys hkey
      obtain ⟨ak,hak,hrow⟩ := List.mem_flatMap.mp hrow
      obtain ⟨u,hu,rfl⟩ := List.mem_map.mp hrow
      rw [List.mem_filter] at hu
      have huse := hu.2
      simp only [usable, Bool.and_eq_true, decide_eq_true_eq] at huse
      exact ⟨ak, hak, u, hu.1, huse.1.1.1.1, huse.1.1.1.2, key, hdict, acceptKey_role hacc⟩

theorem role_reported (h : validateApiKey U hash backend t apiKey now usedAt = .ok (some info, t'))
    {ak : ApiKeyRow} (hak : ak ∈ t.apiKeys) (hhash : ak.keyHash = hash apiKey)
    {u : UserRow} (hu : u ∈ t.users) (howner : ak.userId = some u.id) :
    info.role = .text (storedRole (if backend = .sqlite then ak.role else u.role)) := by
  obtain ⟨ak',hak',u',hu',howner',hhash',key,hdict,hrole⟩ := validateApiKey_accepted h
  have hsame : ak' = ak :=
    List.inj_on_of_nodup_map t.keyHashes hak' hak (hhash'.trans hhash.symm)
  subst hsame
  have huser : u' = u := by
    refine List.inj_on_of_nodup_map t.userIds hu' hu ?_
    rw [howner] at howner'
    exact (Option.some.inj howner').symm
  subst huser
  cases backend with
  | sqlite => rw [hrole, keyRole_joinedRow_sqlite hdict]; rfl
  | postgres => rw [hrole, keyRole_joinedRow_postgres hdict]; rfl

end Acceptance

theorem key_role_kept_iff (U : Unicode) (hash : Str → Str) (backend : Backend) (t t' : Tables)
    (apiKey : Str) (now usedAt : Int) (info : ApiKeyInfo) (row : FetchedRow) :
    (validateApiKey U hash backend t apiKey now usedAt = .ok (some info, t') →
      ∀ ak ∈ t.apiKeys, ak.keyHash = hash apiKey → ∀ u ∈ t.users, ak.userId = some u.id →
        (info.role = .text (storedRole ak.role) ↔
          backend = .sqlite ∨ storedRole u.role = storedRole ak.role)) ∧
    (rowToDict .sqlite row = rowToDict .postgres row ↔ row.NamesAgree) := by
  refine ⟨?_, rowToDict_eq_iff row⟩
  intro h ak hak hhash u hu howner
  rw [role_reported h hak hhash hu howner, SqlValue.text.injEq]
  cases backend with
  | sqlite => simp
  | postgres => simp

def ownerRow : UserRow := ⟨1, "root".toList, some admin, some true⟩

def viewerKey : ApiKeyRow :=
  ⟨7, "k".toList, some 1, none, some "read".toList, none, none, some true, none, none,
   some viewer, none⟩

def viewerKeyTables : Tables := ⟨[ownerRow], [viewerKey], by decide, by decide⟩

def infoWithRole (role : Str) : ApiKeyInfo :=
  ⟨.int 7, .int 7, .int 1, .text "root".toList, .text role, .null, .text "read".toList⟩

theorem key_role_kept_sqlite :
    validateApiKey .basic id .sqlite viewerKeyTables "k".toList 0 5 =
        .ok (some (infoWithRole viewer), updateLastUsed viewerKeyTables 5 (.int 7)) ∧
      (infoWithRole viewer).role = .text (storedRole viewerKey.role) := by
  have h : validateApiKey .basic id .sqlite viewerKeyTables "k".toList 0 5 =
      .ok (some (infoWithRole viewer), updateLastUsed viewerKeyTables 5 (.int 7)) := by rfl
  have hrole := (key_role_kept_iff _ _ _ _ _ _ _ _ _ (joinedRow viewerKey ownerRow)).1 h
  exact ⟨h, (hrole viewerKey (by decide) (by decide) ownerRow (by decide) (by decide)).mpr
    (.inl rfl)⟩

theorem viewer_key_reported_admin_on_postgres :
    validateApiKey .basic id .postgres viewerKeyTables "k".toList 0 5 =
        .ok (some (infoWithRole admin), updateLastUsed viewerKeyTables 5 (.int 7)) ∧
      (infoWithRole admin).role ≠ .text (storedRole viewerKey.role) ∧
      rowToDict .sqlite (joinedRow viewerKey ownerRow) ≠
        rowToDict .postgres (joinedRow viewerKey ownerRow) := by
  refine ⟨by rfl, by decide, ?_⟩
  rw [ne_eq, rowToDict_eq_iff]
  decide

end PicoSentry.Serve.ApiKeys
