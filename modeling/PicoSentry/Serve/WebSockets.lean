import Mathlib.Data.List.Dedup
import PicoSentry.Foundation.Decimal
import PicoSentry.Foundation.Dict
import PicoSentry.Foundation.Directory
import PicoSentry.Foundation.IndentedJson
import PicoSentry.Foundation.Result
import PicoSentry.Foundation.Run

namespace PicoSentry.Serve.WebSockets

open Foundation

abbrev Socket := Nat

def maxChannels : Nat := 16

def outboundQueueSize : Nat := 256

def wildcard : Str := "*".toList

inductive OrgId where
  | int (n : Int)
  | text (s : Str)

def normalizeOrgId : Option OrgId → Option Str
  | none => none
  | some (.int n) => some (intText n)
  | some (.text s) => some s

def channelChar (c : Char) : Bool := c.isAlphanum || c = '_' || c = '.' || c = ':' || c = '-'

-- The dollar of the pattern also matches in front of a line break at the end.
def channelName (name : Str) : Bool :=
  let body := if name.getLast? = some '\n' then name.dropLast else name
  decide (1 ≤ body.length) && decide (body.length ≤ 64) && body.all channelChar

def validateChannel : Json → Except PyError Str
  | .str name => if name = wildcard ∨ channelName name = true then .ok name else .error .valueError
  | _ => .error .typeError

def validateChannels (channels : List Json) : Except PyError (List Str) :=
  if channels.length > maxChannels then .error .valueError else channels.mapM validateChannel

def listOf : Json → Except PyError (List Json)
  | .arr items => .ok items.toList
  | .str s => .ok (s.map fun c => .str [c])
  | .obj fields => .ok (fields.toList.map fun f => .str f.1)
  | _ => .error .typeError

def orEvery (channels : Json) : Json :=
  if channels.truthy then channels else .arr (.cons (.str wildcard) .nil)

def subscribedChannels (channels : Json) : Except PyError (List Str) := do
  let requested ← listOf (orEvery channels)
  let channels ← validateChannels requested
  return channels.dedup

-- json.dumps turns it into the text that is sent.
def messageOf (eventType : Str) (payload : Json) (org : Option Str) (timestamp : Str) : Json :=
  .obj (.ofList [("type".toList, .str eventType), ("payload".toList, payload),
    ("org_id".toList, (org.map Json.str).getD .null), ("timestamp".toList, .str timestamp)])

-- The outbound queue of a socket with the task that empties it: the two are made and dropped together.
structure Pump where
  queue : List Json := []
  sending : Option Json := none
  done : Bool := false

-- A set is a list here, and nothing below depends on its order.
structure ConnectionManager where
  connections : Dict Str (List Socket) := []
  clientChannels : Dict Socket (List Str) := []
  clientOrgs : Dict Socket (Option Str) := []
  outbound : Dict Socket Pump := []
  dropped : Nat := 0

namespace ConnectionManager

def listeners (connections : Dict Str (List Socket)) (channel : Str) : List Socket :=
  (connections.get? channel).getD []

def addToChannel (ws : Socket) (connections : Dict Str (List Socket)) (channel : Str) :
    Dict Str (List Socket) :=
  connections.set channel ((listeners connections channel).insert ws)

def removeFromChannel (ws : Socket) (connections : Dict Str (List Socket)) (channel : Str) :
    Dict Str (List Socket) :=
  match connections.get? channel with
  | none => connections
  | some sockets =>
    if sockets.filter (· ≠ ws) = [] then connections.erase channel
    else connections.set channel (sockets.filter (· ≠ ws))

def addSub (m : ConnectionManager) (ws : Socket) (channels : List Str) : ConnectionManager :=
  { m with
    clientChannels := m.clientChannels.set ws channels
    connections := channels.foldl (addToChannel ws) m.connections }

def leaveChannels (m : ConnectionManager) (ws : Socket) : ConnectionManager :=
  match m.clientChannels.get? ws with
  | none => m
  | some channels => { m with connections := channels.foldl (removeFromChannel ws) m.connections }

def setOrg (m : ConnectionManager) (ws : Socket) (org : Option OrgId) : ConnectionManager :=
  { m with clientOrgs := m.clientOrgs.set ws (normalizeOrgId org) }

def connect (m : ConnectionManager) (ws : Socket) (channels : Option (List Str)) (org : Option OrgId) :
    ConnectionManager :=
  (m.setOrg ws org).addSub ws ((channels.map List.dedup).getD [wildcard])

def subscribe (m : ConnectionManager) (ws : Socket) (channels : Json) :
    Except PyError ConnectionManager := do
  let channels ← subscribedChannels channels
  return (m.leaveChannels ws).addSub ws channels

def disconnect (m : ConnectionManager) (ws : Socket) : ConnectionManager :=
  { m.leaveChannels ws with
    clientChannels := m.clientChannels.erase ws
    clientOrgs := m.clientOrgs.erase ws
    outbound := m.outbound.erase ws }

def candidates (m : ConnectionManager) (eventType : Str) (org : Option Str) : List Socket :=
  let sockets := (listeners m.connections wildcard ++ listeners m.connections eventType).dedup
  match org with
  | some org => sockets.filter fun ws => m.clientOrgs.get? ws = some (some org)
  | none => sockets.filter fun ws => (m.clientChannels.get? ws).isSome

def pumpOf (m : ConnectionManager) (ws : Socket) : Pump :=
  match m.outbound.get? ws with
  | some pump => if pump.done then {} else pump
  | none => {}

def enqueue (message : Json) (m : ConnectionManager) (ws : Socket) : ConnectionManager :=
  if outboundQueueSize ≤ (m.pumpOf ws).queue.length then { m with dropped := m.dropped + 1 }
  else
    let pump := m.pumpOf ws
    { m with outbound := m.outbound.set ws { pump with queue := pump.queue ++ [message] } }

def broadcast (m : ConnectionManager) (eventType : Str) (payload : Json) (org : Option OrgId)
    (timestamp : Str) : ConnectionManager :=
  (m.candidates eventType (normalizeOrgId org)).foldl
    (enqueue (messageOf eventType payload (normalizeOrgId org) timestamp)) m

end ConnectionManager

-- A websocket_endpoint call: in its receive loop, waiting for the organization of the user who has
-- just authenticated, or over.
inductive Session where
  | receiving (authenticated : Bool)
  | resolving
  | closed
  deriving DecidableEq

structure State where
  manager : ConnectionManager := {}
  sessions : Dict Socket Session := []

-- What the endpoints, the pumps and the broadcasts do from one await to the next. A user is given by
-- the organization that is found for it.
inductive Action where
  | accept (ws : Socket) (user : Option (Option OrgId))
  | auth (ws : Socket) (valid : Bool)
  | resolved (ws : Socket) (org : Option OrgId)
  | subscribe (ws : Socket) (channels : Json)
  | hangUp (ws : Socket)
  | broadcast (eventType : Str) (payload : Json) (org : Option OrgId) (timestamp : Str)
  | send (ws : Socket)
  | sent (ws : Socket) (ok : Bool)

abbrev Delivery := Socket × Json

namespace State

def accept (s : State) (ws : Socket) (user : Option (Option OrgId)) : Option State :=
  match s.sessions.get? ws with
  | some _ => none
  | none => some {
      manager := s.manager.connect ws (some []) user.join
      sessions := s.sessions.set ws (.receiving user.isSome) }

def auth (s : State) (ws : Socket) (valid : Bool) : Option State :=
  match s.sessions.get? ws with
  | some (.receiving true) => some s
  | some (.receiving false) =>
    some { s with sessions := s.sessions.set ws (if valid then .resolving else .closed) }
  | _ => none

def resolved (s : State) (ws : Socket) (org : Option OrgId) : Option State :=
  match s.sessions.get? ws with
  | some .resolving => some {
      manager := s.manager.setOrg ws org
      sessions := s.sessions.set ws (.receiving true) }
  | _ => none

def close (s : State) (ws : Socket) : State where
  manager := s.manager.disconnect ws
  sessions := s.sessions.set ws .closed

def subscribe (s : State) (ws : Socket) (channels : Json) : Option State :=
  match s.sessions.get? ws with
  | some (.receiving true) =>
    match s.manager.subscribe ws (orEvery channels) with
    | .ok manager => some { s with manager := manager }
    | .error .valueError => some s
    | .error _ => some (s.close ws)
  | some (.receiving false) => some s
  | _ => none

def hangUp (s : State) (ws : Socket) : Option State :=
  match s.sessions.get? ws with
  | some (.receiving _) => some (s.close ws)
  | some .resolving => some (s.close ws)
  | _ => none

def setPump (s : State) (ws : Socket) (pump : Pump) : State :=
  { s with manager := { s.manager with outbound := s.manager.outbound.set ws pump } }

def send (s : State) (ws : Socket) : Option State :=
  match s.manager.outbound.get? ws with
  | some { queue := message :: queue, sending := none, done := false } =>
    some (s.setPump ws { queue := queue, sending := some message })
  | _ => none

def sent (s : State) (ws : Socket) (ok : Bool) : Option (State × List Delivery) :=
  match s.manager.outbound.get? ws with
  | some { queue := queue, sending := some message, done := _ } =>
    some (s.setPump ws { queue := queue, done := !ok }, if ok then [(ws, message)] else [])
  | _ => none

end State

def step (s : State) : Action → Option (State × List Delivery)
  | .accept ws user => (s.accept ws user).map (·, [])
  | .auth ws valid => (s.auth ws valid).map (·, [])
  | .resolved ws org => (s.resolved ws org).map (·, [])
  | .subscribe ws channels => (s.subscribe ws channels).map (·, [])
  | .hangUp ws => (s.hangUp ws).map (·, [])
  | .broadcast eventType payload org timestamp =>
    some ({ s with manager := s.manager.broadcast eventType payload org timestamp }, [])
  | .send ws => (s.send ws).map (·, [])
  | .sent ws ok => s.sent ws ok

namespace ConnectionManager

section Index

variable {m : ConnectionManager} {ws ws' : Socket}

theorem listeners_addToChannel (ws : Socket) (connections : Dict Str (List Socket)) (channel c : Str) :
    listeners (addToChannel ws connections channel) c =
      if channel = c then (listeners connections c).insert ws else listeners connections c := by
  rw [listeners, addToChannel, Dict.get?_set]
  split
  · next h =>
    subst h
    rfl
  · rfl

theorem listeners_removeFromChannel (ws : Socket) (connections : Dict Str (List Socket))
    (channel c : Str) : listeners (removeFromChannel ws connections channel) c =
      if channel = c then (listeners connections c).filter (· ≠ ws) else listeners connections c := by
  rw [removeFromChannel]
  split
  · next hnone =>
    split
    · next h =>
      subst h
      rw [listeners, hnone]
      rfl
    · rfl
  · next sockets hget =>
    have hkept : (listeners connections channel).filter (· ≠ ws) = sockets.filter (· ≠ ws) := by
      rw [listeners, hget]
      rfl
    split
    · next hempty =>
      rw [listeners, Dict.get?_erase]
      split
      · next h => rw [← h, hkept, hempty]; rfl
      · rfl
    · rw [listeners, Dict.get?_set]
      split
      · next h => rw [← h, hkept]; rfl
      · rfl

theorem mem_listeners_addAll (channels : List Str) (connections : Dict Str (List Socket)) (c : Str) :
    ws' ∈ listeners (channels.foldl (addToChannel ws) connections) c ↔
      ws' ∈ listeners connections c ∨ ws' = ws ∧ c ∈ channels := by
  induction channels generalizing connections with
  | nil => simp
  | cons channel channels ih =>
    rw [List.foldl_cons, ih, listeners_addToChannel, List.mem_cons]
    split
    · next h =>
      subst h
      rw [List.mem_insert_iff]
      tauto
    · next h =>
      have hne : c ≠ channel := Ne.symm h
      tauto

theorem mem_listeners_removeAll (channels : List Str) (connections : Dict Str (List Socket)) (c : Str) :
    ws' ∈ listeners (channels.foldl (removeFromChannel ws) connections) c ↔
      ws' ∈ listeners connections c ∧ ¬(ws' = ws ∧ c ∈ channels) := by
  induction channels generalizing connections with
  | nil => simp
  | cons channel channels ih =>
    rw [List.foldl_cons, ih, listeners_removeFromChannel, List.mem_cons]
    split
    · next h =>
      subst h
      rw [List.mem_filter, decide_eq_true_iff]
      tauto
    · next h =>
      have hne : c ≠ channel := Ne.symm h
      tauto

def NoneEmpty (connections : Dict Str (List Socket)) : Prop :=
  Dict.Holds (fun _ sockets => sockets ≠ []) connections

theorem noneEmpty_addAll {connections : Dict Str (List Socket)} (h : NoneEmpty connections)
    (channels : List Str) : NoneEmpty (channels.foldl (addToChannel ws) connections) := by
  induction channels generalizing connections with
  | nil => exact h
  | cons channel channels ih =>
    exact ih (h.set (List.ne_nil_of_mem List.mem_insert_self))

theorem noneEmpty_removeFromChannel {connections : Dict Str (List Socket)} (h : NoneEmpty connections)
    (channel : Str) : NoneEmpty (removeFromChannel ws connections channel) := by
  rw [removeFromChannel]
  split
  · exact h
  · split
    · exact h.erase channel
    · next hne => exact h.set hne

theorem noneEmpty_removeAll {connections : Dict Str (List Socket)} (h : NoneEmpty connections)
    (channels : List Str) : NoneEmpty (channels.foldl (removeFromChannel ws) connections) := by
  induction channels generalizing connections with
  | nil => exact h
  | cons channel channels ih => exact ih (noneEmpty_removeFromChannel h channel)

-- connections is client_channels read the other way round, and no channel is kept for nobody.
structure Linked (m : ConnectionManager) : Prop where
  index : ∀ ws c, ws ∈ listeners m.connections c ↔
    ∃ channels, m.clientChannels.get? ws = some channels ∧ c ∈ channels
  noneEmpty : NoneEmpty m.connections

theorem linked_empty : Linked {} := by
  refine ⟨fun ws c => ?_, Dict.holds_nil⟩
  simp [listeners, Dict.get?]

theorem Linked.leave (h : Linked m) (ws : Socket) :
    (∀ ws' c, ws' ∈ listeners (m.leaveChannels ws).connections c ↔
      ws' ≠ ws ∧ ∃ channels, m.clientChannels.get? ws' = some channels ∧ c ∈ channels) ∧
      NoneEmpty (m.leaveChannels ws).connections := by
  rw [leaveChannels]
  split
  · next hnone =>
    refine ⟨fun ws' c => (h.index ws' c).trans ?_, h.noneEmpty⟩
    refine ⟨fun hsub => ⟨?_, hsub⟩, And.right⟩
    rintro rfl
    obtain ⟨channels,hget,-⟩ := hsub
    exact Option.some_ne_none _ (hget.symm.trans hnone)
  · next channels hget =>
    refine ⟨fun ws' c => ?_, noneEmpty_removeAll h.noneEmpty channels⟩
    rw [mem_listeners_removeAll, h.index]
    constructor
    · rintro ⟨⟨own,hown,hc⟩,hnot⟩
      refine ⟨?_, own, hown, hc⟩
      rintro rfl
      rw [hget] at hown
      cases hown
      exact hnot ⟨rfl, hc⟩
    · rintro ⟨hne,hsub⟩
      exact ⟨hsub, fun heq => hne heq.1⟩

theorem Linked.setOrg (h : Linked m) (ws : Socket) (org : Option OrgId) : Linked (m.setOrg ws org) :=
  ⟨h.index, h.noneEmpty⟩

theorem Linked.addSub (hindex : ∀ ws' c, ws' ∈ listeners m.connections c ↔
    ws' ≠ ws ∧ ∃ channels, m.clientChannels.get? ws' = some channels ∧ c ∈ channels)
    (hnone : NoneEmpty m.connections) (channels : List Str) : Linked (m.addSub ws channels) := by
  refine ⟨fun ws' c => ?_, noneEmpty_addAll hnone channels⟩
  rw [ConnectionManager.addSub, mem_listeners_addAll, hindex]
  dsimp only
  rw [Dict.get?_set]
  by_cases heq : ws = ws'
  · subst heq
    simp
  · rw [if_neg heq]
    have hne := Ne.symm heq
    rw [or_iff_left fun h => hne h.1, and_iff_right hne]

theorem Linked.connect (h : Linked m) (hnew : m.clientChannels.get? ws = none)
    (channels : Option (List Str)) (org : Option OrgId) : Linked (m.connect ws channels org) := by
  refine Linked.addSub (fun ws' c => ((h.setOrg ws org).index ws' c).trans ?_) h.noneEmpty _
  refine ⟨fun hsub => ⟨?_, hsub⟩, And.right⟩
  rintro rfl
  obtain ⟨channels,hget,-⟩ := hsub
  exact Option.some_ne_none _ (hget.symm.trans hnew)

theorem clientChannels_leaveChannels (m : ConnectionManager) (ws : Socket) :
    (m.leaveChannels ws).clientChannels = m.clientChannels := by
  rw [leaveChannels]
  split <;> rfl

theorem clientOrgs_leaveChannels (m : ConnectionManager) (ws : Socket) :
    (m.leaveChannels ws).clientOrgs = m.clientOrgs := by
  rw [leaveChannels]
  split <;> rfl

theorem Linked.resubscribe (h : Linked m) (ws : Socket) (channels : List Str) :
    Linked ((m.leaveChannels ws).addSub ws channels) := by
  obtain ⟨hindex,hnone⟩ := h.leave ws
  refine Linked.addSub (fun ws' c => ?_) hnone channels
  rw [clientChannels_leaveChannels]
  exact hindex ws' c

theorem Linked.disconnect (h : Linked m) (ws : Socket) : Linked (m.disconnect ws) := by
  obtain ⟨hindex,hnone⟩ := h.leave ws
  refine ⟨fun ws' c => (hindex ws' c).trans ?_, hnone⟩
  rw [ConnectionManager.disconnect]
  dsimp only
  rw [Dict.get?_erase]
  by_cases heq : ws = ws'
  · subst heq
    simp
  · rw [if_neg heq]
    exact and_iff_right (Ne.symm heq)

end Index

end ConnectionManager

structure Client where
  session : Option Session := none
  channels : Option (List Str) := none
  orgId : Option (Option Str) := none

def State.client (s : State) (ws : Socket) : Client where
  session := s.sessions.get? ws
  channels := s.manager.clientChannels.get? ws
  orgId := s.manager.clientOrgs.get? ws

def Action.socket : Action → Option Socket
  | .accept ws _ => some ws
  | .auth ws _ => some ws
  | .resolved ws _ => some ws
  | .subscribe ws _ => some ws
  | .hangUp ws => some ws
  | _ => none

namespace Client

def closed : Client := { session := some .closed }

def act (c : Client) : Action → Client
  | .accept _ user =>
    { session := some (.receiving user.isSome), channels := some [],
      orgId := some (normalizeOrgId user.join) }
  | .auth _ valid =>
    if c.session = some (.receiving false) then
      { c with session := some (if valid then .resolving else .closed) }
    else c
  | .resolved _ org => { c with session := some (.receiving true), orgId := some (normalizeOrgId org) }
  | .subscribe _ channels =>
    if c.session = some (.receiving true) then
      match subscribedChannels (orEvery channels) with
      | .ok channels => { c with channels := some channels }
      | .error .valueError => c
      | .error _ => closed
    else c
  | .hangUp _ => closed
  | _ => c

def after (c : Client) (ws : Socket) (acts : List Action) : Client :=
  (acts.filter fun a => a.socket = some ws).foldl act c

def hears (c : Client) (eventType : Str) (org : Option Str) : Bool :=
  decide (c.session = some (.receiving true)) &&
    (c.channels.getD []).any (fun channel => channel = wildcard || channel = eventType) &&
      match org with
      | some org => decide (c.orgId = some (some org))
      | none => true

end Client

section Views

variable {s s' : State} {ws ws' : Socket}

theorem client_of_ne {manager : ConnectionManager} {session : Session} (hne : ws ≠ ws')
    (hchannels : manager.clientChannels.get? ws' = s.manager.clientChannels.get? ws')
    (horgs : manager.clientOrgs.get? ws' = s.manager.clientOrgs.get? ws') :
    State.client ⟨manager, s.sessions.set ws session⟩ ws' = s.client ws' := by
  rw [State.client, State.client, Dict.get?_set, if_neg hne, hchannels, horgs]

theorem client_accept {user : Option (Option OrgId)} (h : s.accept ws user = some s') :
    s.sessions.get? ws = none ∧ s'.manager = s.manager.connect ws (some []) user.join ∧
      ∀ ws', s'.client ws' =
        if ws = ws' then (s.client ws').act (.accept ws user) else s.client ws' := by
  rw [State.accept] at h
  split at h
  · cases h
  · next hnone =>
    cases h
    refine ⟨hnone, rfl, fun ws' => ?_⟩
    split
    · next heq =>
      subst heq
      simp [State.client, Client.act, ConnectionManager.connect, ConnectionManager.addSub,
        ConnectionManager.setOrg]
    · next hne =>
      refine client_of_ne hne ?_ ?_ <;>
        simp [ConnectionManager.connect, ConnectionManager.addSub, ConnectionManager.setOrg,
          Dict.get?_set, hne]

theorem client_close (s : State) (ws ws' : Socket) :
    (s.close ws).client ws' = if ws = ws' then Client.closed else s.client ws' := by
  split
  · next heq =>
    subst heq
    simp [State.client, State.close, Client.closed, ConnectionManager.disconnect, Dict.get?_erase]
  · next hne =>
    refine client_of_ne hne ?_ ?_ <;> simp [ConnectionManager.disconnect, Dict.get?_erase, hne]

theorem client_auth {valid : Bool} (h : s.auth ws valid = some s') : s'.manager = s.manager ∧
    ∀ ws', s'.client ws' = if ws = ws' then (s.client ws').act (.auth ws valid) else s.client ws' := by
  rw [State.auth] at h
  split at h
  · next hsession =>
    cases h
    refine ⟨rfl, fun ws' => ?_⟩
    by_cases heq : ws = ws'
    · subst heq
      simp [State.client, Client.act, hsession]
    · rw [if_neg heq]
  · next hsession =>
    cases h
    refine ⟨rfl, fun ws' => ?_⟩
    by_cases heq : ws = ws'
    · subst heq
      simp [State.client, Client.act, hsession]
    · rw [if_neg heq]
      exact client_of_ne heq rfl rfl
  · cases h

theorem client_resolved {org : Option OrgId} (h : s.resolved ws org = some s') :
    s'.manager = s.manager.setOrg ws org ∧ ∀ ws', s'.client ws' =
      if ws = ws' then (s.client ws').act (.resolved ws org) else s.client ws' := by
  rw [State.resolved] at h
  split at h
  · cases h
    refine ⟨rfl, fun ws' => ?_⟩
    split
    · next heq =>
      subst heq
      simp [State.client, Client.act, ConnectionManager.setOrg]
    · next hne =>
      refine client_of_ne hne rfl ?_
      simp [ConnectionManager.setOrg, Dict.get?_set, hne]
  · cases h

theorem client_hangUp (h : s.hangUp ws = some s') : s'.manager = s.manager.disconnect ws ∧
    ∀ ws', s'.client ws' = if ws = ws' then (s.client ws').act (.hangUp ws) else s.client ws' := by
  rw [State.hangUp] at h
  split at h
  · cases h
    exact ⟨rfl, client_close s ws⟩
  · cases h
    exact ⟨rfl, client_close s ws⟩
  · cases h

theorem client_resubscribed (s : State) (ws : Socket) (channels : List Str) (ws' : Socket) :
    State.client { s with manager := (s.manager.leaveChannels ws).addSub ws channels } ws' =
      if ws = ws' then { s.client ws' with channels := some channels } else s.client ws' := by
  rw [State.client, ConnectionManager.addSub]
  dsimp only
  rw [ConnectionManager.clientChannels_leaveChannels, ConnectionManager.clientOrgs_leaveChannels,
    Dict.get?_set]
  split <;> rfl

theorem client_subscribe {channels : Json} (h : s.subscribe ws channels = some s') :
    (s'.manager = s.manager ∨
      (s'.manager = s.manager.disconnect ws ∧ (s'.client ws).session = some .closed) ∨ ∃ channels, s'.manager = (s.manager.leaveChannels ws).addSub ws channels) ∧
      ∀ ws', s'.client ws' =
        if ws = ws' then (s.client ws').act (.subscribe ws channels) else s.client ws' := by
  rw [State.subscribe] at h
  split at h
  · next hsession =>
    have hclient : (s.client ws).session = some (.receiving true) := hsession
    cases hchannels : subscribedChannels (orEvery channels) with
    | ok own =>
      rw [ConnectionManager.subscribe, hchannels] at h
      cases h
      refine ⟨.inr (.inr ⟨own, rfl⟩), fun ws' => (client_resubscribed s ws own ws').trans ?_⟩
      refine if_ctx_congr Iff.rfl (fun heq => ?_) fun _ => rfl
      subst heq
      rw [Client.act, if_pos hclient, hchannels]
    | error e =>
      have hact : (s.client ws).act (.subscribe ws channels) =
          if e = .valueError then s.client ws else Client.closed := by
        rw [Client.act, if_pos hclient, hchannels]
        cases e <;> rfl
      rw [ConnectionManager.subscribe, hchannels] at h
      have hstate : s' = if e = .valueError then s else s.close ws := by cases e <;> cases h <;> rfl
      subst hstate
      split
      · next hvalue =>
        refine ⟨.inl rfl, fun ws' => (ite_eq_right_iff.mpr fun heq => ?_).symm⟩
        rw [← heq, hact, if_pos hvalue]
      · next hvalue =>
        have hclosed : ((s.close ws).client ws).session = some .closed := by
          rw [client_close, if_pos rfl]
          rfl
        refine ⟨.inr (.inl ⟨rfl, hclosed⟩), fun ws' => (client_close s ws ws').trans ?_⟩
        refine if_ctx_congr Iff.rfl (fun heq => ?_) fun _ => rfl
        rw [← heq, hact, if_neg hvalue]
  · next hsession =>
    cases h
    refine ⟨.inl rfl, fun ws' => (ite_eq_right_iff.mpr fun heq => ?_).symm⟩
    subst heq
    simp [State.client, Client.act, hsession]
  · cases h

end Views

section Enqueue

namespace ConnectionManager

variable {m m' : ConnectionManager} {ws ws' : Socket} {message : Json} {sockets : List Socket}

def Full (m : ConnectionManager) (ws : Socket) : Prop := outboundQueueSize ≤ (m.pumpOf ws).queue.length

theorem pumpOf_congr (h : m.outbound.get? ws = m'.outbound.get? ws) : m.pumpOf ws = m'.pumpOf ws := by
  rw [pumpOf, pumpOf, h]

theorem outbound_enqueue_of_ne (hne : ws' ≠ ws) :
    (enqueue message m ws').outbound.get? ws = m.outbound.get? ws := by
  rw [enqueue]
  split
  · rfl
  · exact (Dict.get?_set _ _ _ _).trans (if_neg hne)

theorem outbound_enqueue_full (h : m.Full ws) : enqueue message m ws = { m with dropped := m.dropped + 1 } :=
  if_pos h

theorem outbound_enqueue (h : ¬m.Full ws) : (enqueue message m ws).outbound.get? ws =
    some { m.pumpOf ws with queue := (m.pumpOf ws).queue ++ [message] } := by
  rw [Full] at h
  rw [enqueue, if_neg h]
  exact Dict.get?_set_self _ _ _

theorem outbound_enqueue_congr (h : m.outbound.get? ws = m'.outbound.get? ws) :
    (enqueue message m ws).outbound.get? ws = (enqueue message m' ws).outbound.get? ws := by
  have hpump := pumpOf_congr h
  by_cases hfull : m.Full ws
  · have hfull' : m'.Full ws := by rwa [Full, ← hpump]
    rw [outbound_enqueue_full hfull, outbound_enqueue_full hfull']
    exact h
  · have hfull' : ¬m'.Full ws := by rwa [Full, ← hpump]
    rw [outbound_enqueue hfull, outbound_enqueue hfull', hpump]

theorem dropped_enqueue_le (message : Json) (m : ConnectionManager) (ws : Socket) :
    m.dropped ≤ (enqueue message m ws).dropped := by
  rw [enqueue]
  split
  · exact Nat.le_succ _
  · exact Nat.le_refl _

theorem dropped_enqueueAll_le (message : Json) (m : ConnectionManager) (sockets : List Socket) :
    m.dropped ≤ (sockets.foldl (enqueue message) m).dropped := by
  induction sockets generalizing m with
  | nil => exact Nat.le_refl _
  | cons x sockets ih => exact (dropped_enqueue_le message m x).trans (ih _)

theorem outbound_enqueueAll (hnodup : sockets.Nodup) :
    (sockets.foldl (enqueue message) m).outbound.get? ws =
      if ws ∈ sockets then (enqueue message m ws).outbound.get? ws else m.outbound.get? ws := by
  induction sockets generalizing m with
  | nil => rfl
  | cons x sockets ih =>
    obtain ⟨hnot,hnodup⟩ := List.nodup_cons.mp hnodup
    rw [List.foldl_cons, ih hnodup]
    by_cases heq : x = ws
    · subst heq
      rw [if_neg hnot, if_pos List.mem_cons_self]
    · have hkept : (enqueue message m x).outbound.get? ws = m.outbound.get? ws :=
        outbound_enqueue_of_ne heq
      rw [outbound_enqueue_congr hkept, hkept]
      simp [Ne.symm heq]

theorem not_full_of_dropped_eq (hnodup : sockets.Nodup) (hmem : ws ∈ sockets)
    (h : (sockets.foldl (enqueue message) m).dropped = m.dropped) : ¬m.Full ws := by
  induction sockets generalizing m with
  | nil => cases hmem
  | cons x sockets ih =>
    have hfirst := dropped_enqueue_le message m x
    have hrest := dropped_enqueueAll_le message (enqueue message m x) sockets
    rw [List.foldl_cons] at h
    by_cases heq : x = ws
    · subst heq
      intro hfull
      rw [outbound_enqueue_full hfull] at hrest h
      dsimp only at hrest
      omega
    · have hmem : ws ∈ sockets := (List.mem_cons.mp hmem).resolve_left (Ne.symm heq)
      have hnot : ¬(enqueue message m x).Full ws := ih (List.nodup_cons.mp hnodup).2 hmem (by omega)
      rwa [Full, pumpOf_congr (outbound_enqueue_of_ne heq)] at hnot

theorem fields_enqueueAll (message : Json) (m : ConnectionManager) (sockets : List Socket) :
    (sockets.foldl (enqueue message) m).connections = m.connections ∧
      (sockets.foldl (enqueue message) m).clientChannels = m.clientChannels ∧
        (sockets.foldl (enqueue message) m).clientOrgs = m.clientOrgs := by
  induction sockets generalizing m with
  | nil => exact ⟨rfl, rfl, rfl⟩
  | cons x sockets ih =>
    rw [List.foldl_cons]
    obtain ⟨hconnections,hchannels,horgs⟩ := ih (enqueue message m x)
    rw [hconnections, hchannels, horgs, enqueue]
    split <;> exact ⟨rfl, rfl, rfl⟩

theorem candidates_nodup (m : ConnectionManager) (eventType : Str) (org : Option Str) :
    (m.candidates eventType org).Nodup := by
  cases org with
  | none => exact (List.nodup_dedup _).filter _
  | some org => exact (List.nodup_dedup _).filter _

end ConnectionManager

end Enqueue

section Reach

variable {s s' : State} {a : Action} {ds : List Delivery} {ws : Socket}

theorem manager_send (h : s.send ws = some s') : ∃ pump, s' = s.setPump ws pump := by
  rw [State.send] at h
  split at h
  · cases h
    exact ⟨_, rfl⟩
  · cases h

theorem manager_sent {ok : Bool} (h : s.sent ws ok = some (s', ds)) : ∃ pump, s' = s.setPump ws pump := by
  rw [State.sent] at h
  split at h
  · cases h
    exact ⟨_, rfl⟩
  · cases h

theorem client_broadcast (s : State) (eventType : Str) (payload : Json) (org : Option OrgId)
    (timestamp : Str) (ws : Socket) :
    State.client { s with manager := s.manager.broadcast eventType payload org timestamp } ws =
      s.client ws := by
  rw [State.client, ConnectionManager.broadcast]
  dsimp only
  rw [(ConnectionManager.fields_enqueueAll _ _ _).2.1, (ConnectionManager.fields_enqueueAll _ _ _).2.2]
  rfl

theorem client_step (h : step s a = some (s', ds)) (ws : Socket) :
    s'.client ws = if a.socket = some ws then (s.client ws).act a else s.client ws := by
  have hown : ∀ {x : Socket} {c c' : Client}, c' = (if x = ws then c.act a else c) →
      a.socket = some x → c' = if a.socket = some ws then c.act a else c := fun h hx => by
    rw [h, hx]
    simp only [Option.some_inj]
  cases a with
  | accept x user =>
    obtain ⟨t,ht,heq⟩ := Option.map_eq_some_iff.mp h
    cases heq
    exact hown ((client_accept ht).2.2 ws) rfl
  | auth x valid =>
    obtain ⟨t,ht,heq⟩ := Option.map_eq_some_iff.mp h
    cases heq
    exact hown ((client_auth ht).2 ws) rfl
  | resolved x org =>
    obtain ⟨t,ht,heq⟩ := Option.map_eq_some_iff.mp h
    cases heq
    exact hown ((client_resolved ht).2 ws) rfl
  | subscribe x channels =>
    obtain ⟨t,ht,heq⟩ := Option.map_eq_some_iff.mp h
    cases heq
    exact hown ((client_subscribe ht).2 ws) rfl
  | hangUp x =>
    obtain ⟨t,ht,heq⟩ := Option.map_eq_some_iff.mp h
    cases heq
    exact hown ((client_hangUp ht).2 ws) rfl
  | broadcast eventType payload org timestamp =>
    cases h
    exact client_broadcast s eventType payload org timestamp ws
  | send x =>
    obtain ⟨t,ht,heq⟩ := Option.map_eq_some_iff.mp h
    cases heq
    obtain ⟨pump,rfl⟩ := manager_send ht
    rfl
  | sent x ok =>
    obtain ⟨pump,rfl⟩ := manager_sent h
    rfl

theorem linked_step (hlinked : s.manager.Linked)
    (hunseen : ∀ ws, s.sessions.get? ws = none → s.manager.clientChannels.get? ws = none)
    (h : step s a = some (s', ds)) : s'.manager.Linked := by
  cases a with
  | accept x user =>
    obtain ⟨t,ht,heq⟩ := Option.map_eq_some_iff.mp h
    cases heq
    obtain ⟨hnone,hmanager,-⟩ := client_accept ht
    rw [hmanager]
    exact hlinked.connect (hunseen x hnone) _ _
  | auth x valid =>
    obtain ⟨t,ht,heq⟩ := Option.map_eq_some_iff.mp h
    cases heq
    rw [(client_auth ht).1]
    exact hlinked
  | resolved x org =>
    obtain ⟨t,ht,heq⟩ := Option.map_eq_some_iff.mp h
    cases heq
    rw [(client_resolved ht).1]
    exact hlinked.setOrg x org
  | subscribe x channels =>
    obtain ⟨t,ht,heq⟩ := Option.map_eq_some_iff.mp h
    cases heq
    rcases (client_subscribe ht).1 with hsame | ⟨hgone,-⟩ | ⟨own,hown⟩
    · rw [hsame]
      exact hlinked
    · rw [hgone]
      exact hlinked.disconnect x
    · rw [hown]
      exact hlinked.resubscribe x own
  | hangUp x =>
    obtain ⟨t,ht,heq⟩ := Option.map_eq_some_iff.mp h
    cases heq
    rw [(client_hangUp ht).1]
    exact hlinked.disconnect x
  | broadcast eventType payload org timestamp =>
    cases h
    obtain ⟨hconnections,hchannels,-⟩ := ConnectionManager.fields_enqueueAll
      (messageOf eventType payload (normalizeOrgId org) timestamp) s.manager
      (s.manager.candidates eventType (normalizeOrgId org))
    refine ⟨?_, ?_⟩ <;> rw [ConnectionManager.broadcast, hconnections]
    · rw [hchannels]
      exact hlinked.index
    · exact hlinked.noneEmpty
  | send x =>
    obtain ⟨t,ht,heq⟩ := Option.map_eq_some_iff.mp h
    cases heq
    obtain ⟨pump,rfl⟩ := manager_send ht
    exact ⟨hlinked.index, hlinked.noneEmpty⟩
  | sent x ok =>
    obtain ⟨pump,rfl⟩ := manager_sent h
    exact ⟨hlinked.index, hlinked.noneEmpty⟩

structure Client.OptedIn (c : Client) : Prop where
  unseen : c.session = none → c.channels = none
  authenticated : ∀ channels, c.channels = some channels → channels ≠ [] →
    c.session = some (.receiving true)

theorem Client.OptedIn.act {c : Client} (h : c.OptedIn) (a : Action) : (c.act a).OptedIn := by
  cases a with
  | accept x user => exact ⟨nofun, fun channels heq hne => absurd (Option.some.inj heq).symm hne⟩
  | auth x valid =>
    rw [Client.act]
    split
    · next hsession =>
      refine ⟨nofun, fun channels heq hne => ?_⟩
      cases hsession.symm.trans (h.authenticated channels heq hne)
    · exact h
  | resolved x org => exact ⟨nofun, fun _ _ _ => rfl⟩
  | subscribe x channels =>
    rw [Client.act]
    split
    · next hsession =>
      split
      · exact ⟨fun hnone => absurd (hsession.symm.trans hnone) nofun, fun _ _ _ => hsession⟩
      · exact h
      · exact ⟨nofun, nofun⟩
    · exact h
  | hangUp x => exact ⟨nofun, nofun⟩
  | broadcast eventType payload org timestamp => exact h
  | send x => exact h
  | sent x ok => exact h

structure Sound (s : State) : Prop where
  linked : s.manager.Linked
  optedIn : ∀ ws, (s.client ws).OptedIn

theorem sound_init : Sound {} :=
  ⟨ConnectionManager.linked_empty, fun _ => ⟨fun _ => rfl, nofun⟩⟩

theorem Sound.step (hs : Sound s) (h : step s a = some (s', ds)) : Sound s' := by
  refine ⟨linked_step hs.linked (fun ws => (hs.optedIn ws).unseen) h, fun ws => ?_⟩
  rw [client_step h]
  split
  · exact (hs.optedIn ws).act a
  · exact hs.optedIn ws

theorem sound_exec {acts : List Action} (hs : Sound s)
    (h : Run.exec WebSockets.step s acts = some (s', ds)) : Sound s' :=
  @Run.exec_invariant State Action Delivery WebSockets.step (fun _ _ => True) (fun _ => Sound)
    (fun _ _ _ _ _ hs _ h => hs.step h) [] _ _ _ _ hs (Run.meets_true _ _) h

theorem mem_listeners (hs : Sound s) (ws : Socket) (eventType : Str) :
    ws ∈ (ConnectionManager.listeners s.manager.connections wildcard ++
        ConnectionManager.listeners s.manager.connections eventType).dedup ↔
      ((s.client ws).channels.getD []).any (fun c => c = wildcard || c = eventType) = true := by
  rw [List.mem_dedup, List.mem_append, hs.linked.index, hs.linked.index]
  change _ ↔ ((s.manager.clientChannels.get? ws).getD []).any _ = true
  cases s.manager.clientChannels.get? ws with
  | none => simp
  | some channels => simp [and_or_left, exists_or]

theorem mem_candidates (hs : Sound s) (ws : Socket) (eventType : Str) (org : Option Str) :
    ws ∈ s.manager.candidates eventType org ↔ (s.client ws).hears eventType org = true := by
  have hmem := mem_listeners hs ws eventType
  have hauth : ((s.client ws).channels.getD []).any (fun c => c = wildcard || c = eventType) = true →
      (s.client ws).session = some (.receiving true) ∧ (s.client ws).channels.isSome = true := by
    intro hany
    obtain ⟨c,hc,-⟩ := List.any_eq_true.mp hany
    cases hchannels : (s.client ws).channels with
    | none =>
      rw [hchannels] at hc
      cases hc
    | some channels =>
      rw [hchannels] at hc
      exact ⟨(hs.optedIn ws).authenticated channels hchannels (List.ne_nil_of_mem hc), rfl⟩
  unfold Client.hears
  rw [Bool.and_eq_true, Bool.and_eq_true, decide_eq_true_iff, ← hmem]
  cases org with
  | none =>
    rw [and_iff_left rfl]
    refine List.mem_filter.trans ⟨fun h => ⟨(hauth (hmem.mp h.1)).1, h.1⟩, fun h => ?_⟩
    exact ⟨h.2, (hauth (hmem.mp h.2)).2⟩
  | some org =>
    refine List.mem_filter.trans ⟨fun h => ⟨⟨(hauth (hmem.mp h.1)).1, h.1⟩, h.2⟩, fun h => ?_⟩
    exact ⟨h.1.2, h.2⟩

end Reach

section Deliveries

def received (ws : Socket) (ds : List Delivery) : List Json := (ds.filter fun d => d.1 = ws).map Prod.snd

def Pump.waiting (pump : Pump) : List Json := pump.sending.toList ++ pump.queue

namespace State

def waiting (s : State) (ws : Socket) : List Json :=
  match s.manager.outbound.get? ws with
  | some pump => pump.waiting
  | none => []

def Broken (s : State) (ws : Socket) : Prop :=
  ∃ pump, s.manager.outbound.get? ws = some pump ∧ pump.done = true

def Bounded (s : State) (ws : Socket) : Prop :=
  ∀ pump, s.manager.outbound.get? ws = some pump → pump.queue.length ≤ outboundQueueSize

end State

def Client.addressedBy (c : Client) : Action → List Json
  | .broadcast eventType payload org timestamp =>
    if c.hears eventType (normalizeOrgId org) then
      [messageOf eventType payload (normalizeOrgId org) timestamp]
    else []
  | _ => []

def Client.addressed (ws : Socket) : Client → List Action → List Json
  | _, [] => []
  | c, a :: acts => c.addressedBy a ++ addressed ws (if a.socket = some ws then c.act a else c) acts

variable {s s' : State} {a : Action} {ds : List Delivery} {ws : Socket}

structure Flow (s s' : State) (a : Action) (ds : List Delivery) (ws : Socket) : Prop where
  sublist : (received ws ds ++ s'.waiting ws).Sublist (s.waiting ws ++ (s.client ws).addressedBy a)
  lossless : s'.manager.dropped = s.manager.dropped → a ≠ .sent ws false →
    (s'.client ws).session ≠ some .closed → ¬s.Broken ws →
      received ws ds ++ s'.waiting ws = s.waiting ws ++ (s.client ws).addressedBy a
  broken : s'.Broken ws → s.Broken ws ∨ a = .sent ws false
  dropped : s.manager.dropped ≤ s'.manager.dropped
  bounded : s.Bounded ws → s'.Bounded ws

theorem addressedBy_of_socket {c : Client} {x : Socket} (h : a.socket = some x) : c.addressedBy a = [] := by
  cases a with
  | broadcast eventType payload org timestamp => cases h
  | _ => rfl

theorem Flow.of_outbound (hds : received ws ds = [])
    (haddressed : (s.client ws).addressedBy a = []) (hdropped : s.manager.dropped ≤ s'.manager.dropped)
    (h : s'.manager.outbound.get? ws = s.manager.outbound.get? ws ∨
      s'.manager.outbound.get? ws = none ∧ (s'.client ws).session = some .closed) : Flow s s' a ds ws := by
  rcases h with h | ⟨hnone,hclosed⟩
  · have hwaiting : s'.waiting ws = s.waiting ws := by rw [State.waiting, State.waiting, h]
    refine ⟨?_, fun _ _ _ _ => ?_, fun hbroken => .inl ?_, hdropped,
      fun hbound pump hget => hbound pump (h.symm.trans hget)⟩
    · rw [hds, haddressed, hwaiting, List.nil_append, List.append_nil]
    · rw [hds, haddressed, hwaiting, List.nil_append, List.append_nil]
    · obtain ⟨pump,hget,hdone⟩ := hbroken
      exact ⟨pump, h.symm.trans hget, hdone⟩
  · refine ⟨?_, fun _ _ hopen _ => absurd hclosed hopen, ?_, hdropped,
      fun _ pump hget => by cases hnone.symm.trans hget⟩
    · rw [hds, State.waiting, hnone]
      exact List.nil_sublist _
    · rintro ⟨pump,hget,-⟩
      cases hnone.symm.trans hget

theorem outbound_leaveChannels (m : ConnectionManager) (ws : Socket) :
    (m.leaveChannels ws).outbound = m.outbound ∧ (m.leaveChannels ws).dropped = m.dropped := by
  rw [ConnectionManager.leaveChannels]
  split <;> exact ⟨rfl, rfl⟩

theorem outbound_disconnect (m : ConnectionManager) (x ws : Socket) :
    (m.disconnect x).outbound.get? ws = (if x = ws then none else m.outbound.get? ws) ∧
      (m.disconnect x).dropped = m.dropped :=
  ⟨Dict.get?_erase _ _ _, (outbound_leaveChannels m x).2⟩

theorem flow_disconnect {x : Socket} (ha : a.socket = some x)
    (hmanager : s'.manager = s.manager.disconnect x)
    (hclient : x = ws → (s'.client ws).session = some .closed) : Flow s s' a [] ws := by
  obtain ⟨houtbound,hdropped⟩ := outbound_disconnect s.manager x ws
  refine Flow.of_outbound rfl (addressedBy_of_socket ha) (hmanager ▸ hdropped.ge) ?_
  rw [hmanager, houtbound]
  split
  · next heq => exact .inr ⟨rfl, hclient heq⟩
  · exact .inl rfl

theorem flow_setPump {x : Socket} {old new : Pump}
    (hget : s.manager.outbound.get? x = some old) (ha : a = .send x ∨ ∃ ok, a = .sent x ok)
    (hds : x ≠ ws → received ws ds = [])
    (hsublist : x = ws → (received ws ds ++ new.waiting).Sublist old.waiting)
    (hexact : x = ws → a ≠ .sent x false → received ws ds ++ new.waiting = old.waiting)
    (hdone : x = ws → new.done = true → old.done = true ∨ a = .sent x false)
    (hqueue : new.queue.length ≤ old.queue.length) :
    Flow s (s.setPump x new) a ds ws := by
  have haddressed : (s.client ws).addressedBy a = [] := by rcases ha with rfl | ⟨ok,rfl⟩ <;> rfl
  by_cases heq : x = ws
  · subst heq
    have hset : (s.setPump x new).manager.outbound.get? x = some new := Dict.get?_set_self _ _ _
    have hnew : (s.setPump x new).waiting x = new.waiting := by rw [State.waiting, hset]
    have hold : s.waiting x = old.waiting := by rw [State.waiting, hget]
    refine ⟨?_, fun _ hok _ _ => ?_, ?_, Nat.le_refl _, fun hbound pump hpump => ?_⟩
    · rw [hnew, hold, haddressed, List.append_nil]
      exact hsublist rfl
    · rw [hnew, hold, haddressed, List.append_nil]
      exact hexact rfl hok
    · rintro ⟨pump,hpump,hbroken⟩
      obtain rfl := Option.some.inj (hset.symm.trans hpump)
      exact (hdone rfl hbroken).imp_left fun h => ⟨old, hget, h⟩
    · obtain rfl := Option.some.inj (hset.symm.trans hpump)
      exact hqueue.trans (hbound old hget)
  · refine Flow.of_outbound (hds heq) haddressed (Nat.le_refl _) (.inl ?_)
    exact (Dict.get?_set _ _ _ _).trans (if_neg heq)

theorem done_pumpOf (m : ConnectionManager) (ws : Socket) : (m.pumpOf ws).done = false := by
  rw [ConnectionManager.pumpOf]
  split
  · split
    · rfl
    · next hdone => simpa using hdone
  · rfl

theorem waiting_pumpOf (s : State) (ws : Socket) : (s.manager.pumpOf ws).waiting.Sublist (s.waiting ws) ∧
    (¬s.Broken ws → (s.manager.pumpOf ws).waiting = s.waiting ws) := by
  rw [ConnectionManager.pumpOf, State.waiting]
  split
  · next pump hget =>
    split
    · next hdone => exact ⟨List.nil_sublist _, fun hnot => absurd ⟨pump, hget, hdone⟩ hnot⟩
    · exact ⟨List.Sublist.refl _, fun _ => rfl⟩
  · exact ⟨List.Sublist.refl _, fun _ => rfl⟩

theorem flow_broadcast (hs : Sound s) (eventType : Str) (payload : Json) (org : Option OrgId)
    (timestamp : Str) (ws : Socket) :
    Flow s { s with manager := s.manager.broadcast eventType payload org timestamp }
      (.broadcast eventType payload org timestamp) [] ws := by
  have hnodup := ConnectionManager.candidates_nodup s.manager eventType (normalizeOrgId org)
  have hmem := mem_candidates hs ws eventType (normalizeOrgId org)
  generalize hmessage : messageOf eventType payload (normalizeOrgId org) timestamp = message
  have hmanager : s.manager.broadcast eventType payload org timestamp =
      (s.manager.candidates eventType (normalizeOrgId org)).foldl
        (ConnectionManager.enqueue message) s.manager := by rw [← hmessage]; rfl
  have haddressed : (s.client ws).addressedBy (.broadcast eventType payload org timestamp) =
      if ws ∈ s.manager.candidates eventType (normalizeOrgId org) then [message] else [] := by
    rw [Client.addressedBy, hmessage]
    exact if_congr hmem.symm rfl rfl
  have hget : (s.manager.broadcast eventType payload org timestamp).outbound.get? ws =
      if ws ∈ s.manager.candidates eventType (normalizeOrgId org) then
        (ConnectionManager.enqueue message s.manager ws).outbound.get? ws
      else s.manager.outbound.get? ws := by
    rw [hmanager]
    exact ConnectionManager.outbound_enqueueAll hnodup
  have hdropped : s.manager.dropped ≤ (s.manager.broadcast eventType payload org timestamp).dropped := by
    rw [hmanager]
    exact ConnectionManager.dropped_enqueueAll_le _ _ _
  by_cases hcandidate : ws ∈ s.manager.candidates eventType (normalizeOrgId org)
  · rw [if_pos hcandidate] at hget haddressed
    by_cases hfull : s.manager.Full ws
    · rw [ConnectionManager.outbound_enqueue_full hfull] at hget
      have hwaiting : State.waiting
          { s with manager := s.manager.broadcast eventType payload org timestamp } ws = s.waiting ws := by
        rw [State.waiting, State.waiting, hget]
      refine ⟨?_, fun hsame => ?_, fun ⟨pump,hpump,hdone⟩ => .inl ⟨pump, hget.symm.trans hpump, hdone⟩,
        hdropped, fun hbound pump hpump => hbound pump (hget.symm.trans hpump)⟩
      · rw [hwaiting]
        exact List.sublist_append_left _ _
      · exact absurd hfull (ConnectionManager.not_full_of_dropped_eq hnodup hcandidate (hmanager ▸ hsame))
    · rw [ConnectionManager.outbound_enqueue hfull] at hget
      have hwaiting : State.waiting
          { s with manager := s.manager.broadcast eventType payload org timestamp } ws =
            (s.manager.pumpOf ws).waiting ++ [message] := by
        rw [State.waiting, hget]
        exact (List.append_assoc _ _ _).symm
      obtain ⟨hsublist,hexact⟩ := waiting_pumpOf s ws
      refine ⟨?_, fun _ _ _ hnot => ?_, fun ⟨pump,hpump,hdone⟩ => ?_, hdropped,
        fun _ pump hpump => ?_⟩
      · rw [hwaiting, haddressed]
        exact hsublist.append_right [message]
      · rw [hwaiting, haddressed, hexact hnot]
        rfl
      · obtain rfl := Option.some.inj (hget.symm.trans hpump)
        exact absurd ((done_pumpOf _ _).symm.trans hdone) Bool.false_ne_true
      · obtain rfl := Option.some.inj (hget.symm.trans hpump)
        rw [ConnectionManager.Full, not_le] at hfull
        rw [List.length_append, List.length_singleton]
        exact hfull
  · rw [if_neg hcandidate] at hget haddressed
    exact Flow.of_outbound rfl haddressed hdropped (.inl hget)

theorem flow_step (hs : Sound s) (h : step s a = some (s', ds)) (ws : Socket) : Flow s s' a ds ws := by
  cases a with
  | accept x user =>
    obtain ⟨t,ht,heq⟩ := Option.map_eq_some_iff.mp h
    cases heq
    have hmanager := (client_accept ht).2.1
    exact Flow.of_outbound rfl rfl (by rw [hmanager]; exact Nat.le_refl _) (.inl (by rw [hmanager]; rfl))
  | auth x valid =>
    obtain ⟨t,ht,heq⟩ := Option.map_eq_some_iff.mp h
    cases heq
    have hmanager := (client_auth ht).1
    exact Flow.of_outbound rfl rfl (by rw [hmanager]) (.inl (by rw [hmanager]))
  | resolved x org =>
    obtain ⟨t,ht,heq⟩ := Option.map_eq_some_iff.mp h
    cases heq
    have hmanager := (client_resolved ht).1
    exact Flow.of_outbound rfl rfl (by rw [hmanager]; exact Nat.le_refl _) (.inl (by rw [hmanager]; rfl))
  | subscribe x channels =>
    obtain ⟨t,ht,heq⟩ := Option.map_eq_some_iff.mp h
    cases heq
    rcases (client_subscribe ht).1 with hsame | ⟨hgone,hclosed⟩ | ⟨own,hown⟩
    · exact Flow.of_outbound rfl rfl (by rw [hsame]) (.inl (by rw [hsame]))
    · exact flow_disconnect rfl hgone fun heq => heq ▸ hclosed
    · obtain ⟨houtbound,hdropped⟩ := outbound_leaveChannels s.manager x
      exact Flow.of_outbound rfl rfl (by rw [hown]; exact hdropped.ge)
        (.inl (by rw [hown]; exact congrArg (fun d => Dict.get? d ws) houtbound))
  | hangUp x =>
    obtain ⟨t,ht,heq⟩ := Option.map_eq_some_iff.mp h
    cases heq
    obtain ⟨hmanager,hclient⟩ := client_hangUp ht
    exact flow_disconnect rfl hmanager fun heq => by rw [hclient, if_pos heq]; rfl
  | broadcast eventType payload org timestamp =>
    cases h
    exact flow_broadcast hs eventType payload org timestamp ws
  | send x =>
    obtain ⟨t,ht,heq⟩ := Option.map_eq_some_iff.mp h
    cases heq
    rw [State.send] at ht
    split at ht
    · next message queue hget =>
      cases ht
      exact flow_setPump hget (.inl rfl) (fun _ => rfl) (fun _ => List.Sublist.refl _)
        (fun _ _ => rfl) nofun (Nat.le_succ _)
    · cases ht
  | sent x ok =>
    rw [step, State.sent] at h
    split at h
    · next message queue done hget =>
      cases h
      refine flow_setPump hget (.inr ⟨ok, rfl⟩) (fun hne => ?_) (fun heq => ?_) (fun heq hok => ?_) (fun _ hdone => ?_)
        (Nat.le_refl _)
      · cases ok <;> simp [received, hne]
      · subst heq
        cases ok <;> simp [received, Pump.waiting]
      · subst heq
        cases ok with
        | true => simp [received, Pump.waiting]
        | false => exact absurd rfl hok
      · cases ok with
        | true => cases hdone
        | false => exact .inr rfl
    · cases h

end Deliveries

section Runs

variable {s s' : State} {acts : List Action} {ds : List Delivery}

theorem client_exec (h : Run.exec step s acts = some (s', ds)) (ws : Socket) :
    s'.client ws = (s.client ws).after ws acts := by
  rw [Client.after, List.foldl_filter]
  refine Run.exec_view (fun s a s' es hstep => (client_step hstep ws).trans ?_) h
  simp only [decide_eq_true_eq]

theorem closed_step {a : Action} {ws : Socket} (h : step s a = some (s', ds))
    (hclosed : (s.client ws).session = some .closed) : (s'.client ws).session = some .closed := by
  have hsession : s.sessions.get? ws = some .closed := hclosed
  rw [client_step h]
  split
  · next hsocket =>
    cases a with
    | accept x user =>
      cases hsocket
      rw [step, State.accept, hsession] at h
      cases h
    | auth x valid =>
      cases hsocket
      rw [step, State.auth, hsession] at h
      cases h
    | resolved x org =>
      cases hsocket
      rw [step, State.resolved, hsession] at h
      cases h
    | subscribe x channels =>
      cases hsocket
      rw [step, State.subscribe, hsession] at h
      cases h
    | hangUp x =>
      cases hsocket
      rw [step, State.hangUp, hsession] at h
      cases h
    | _ => cases hsocket
  · exact hclosed

theorem closed_exec {ws : Socket} (h : Run.exec step s acts = some (s', ds))
    (hclosed : (s.client ws).session = some .closed) : (s'.client ws).session = some .closed :=
  @Run.exec_invariant State Action Delivery step (fun _ _ => True)
    (fun _ t => (t.client ws).session = some .closed)
    (fun _ _ _ _ _ hclosed _ h => closed_step h hclosed) [] _ _ _ _ hclosed (Run.meets_true _ _) h

theorem received_append (ws : Socket) (ds ds' : List Delivery) :
    received ws (ds ++ ds') = received ws ds ++ received ws ds' := by
  rw [received, List.filter_append, List.map_append, ← received, ← received]

theorem received_sublist (hs : Sound s) (ws : Socket) (h : Run.exec step s acts = some (s', ds)) :
    (received ws ds ++ s'.waiting ws).Sublist
      (s.waiting ws ++ Client.addressed ws (s.client ws) acts) := by
  induction acts generalizing s ds with
  | nil =>
    cases h
    rw [Client.addressed, List.append_nil]
    exact List.Sublist.refl _
  | cons a acts ih =>
    obtain ⟨t,es,es',hstep,hrest,rfl⟩ := Run.exec_cons.mp h
    have hfirst := (flow_step hs hstep ws).sublist
    have hlast := ih (hs.step hstep) hrest
    rw [client_step hstep ws] at hlast
    rw [received_append, List.append_assoc, Client.addressed]
    refine (hlast.append_left (received ws es)).trans ?_
    rw [← List.append_assoc (received ws es), ← List.append_assoc (s.waiting ws)]
    exact hfirst.append_right _

theorem dropped_exec (hs : Sound s) (h : Run.exec step s acts = some (s', ds)) :
    s.manager.dropped ≤ s'.manager.dropped := by
  induction acts generalizing s ds with
  | nil =>
    cases h
    exact Nat.le_refl _
  | cons a acts ih =>
    obtain ⟨t,es,es',hstep,hrest,rfl⟩ := Run.exec_cons.mp h
    exact (flow_step hs hstep 0).dropped.trans (ih (hs.step hstep) hrest)

theorem received_eq (hs : Sound s) {ws : Socket} (h : Run.exec step s acts = some (s', ds))
    (hdropped : s'.manager.dropped = s.manager.dropped) (hsent : .sent ws false ∉ acts)
    (hopen : (s'.client ws).session ≠ some .closed) (hbroken : ¬s.Broken ws) :
    received ws ds ++ s'.waiting ws = s.waiting ws ++ Client.addressed ws (s.client ws) acts := by
  induction acts generalizing s ds with
  | nil =>
    cases h
    rw [Client.addressed, List.append_nil]
    rfl
  | cons a acts ih =>
    obtain ⟨t,es,es',hstep,hrest,rfl⟩ := Run.exec_cons.mp h
    have hflow := flow_step hs hstep ws
    have hmono : t.manager.dropped ≤ s'.manager.dropped := dropped_exec (hs.step hstep) hrest
    have hne : a ≠ .sent ws false := (List.ne_of_not_mem_cons hsent).symm
    have hlater : (t.client ws).session ≠ some .closed := fun hclosed => hopen (closed_exec hrest hclosed)
    have hsame : t.manager.dropped = s.manager.dropped := by
      have hle := hflow.dropped
      omega
    have hwhole : ¬t.Broken ws := fun hb => (hflow.broken hb).elim hbroken hne
    have hfirst := hflow.lossless hsame hne hlater hbroken
    have hlast := ih (hs.step hstep) hrest (by omega) (List.not_mem_of_not_mem_cons hsent) hwhole
    rw [client_step hstep ws] at hlast
    rw [received_append, List.append_assoc, hlast, ← List.append_assoc, hfirst, List.append_assoc,
      Client.addressed]

theorem bounded_exec (hs : Sound s) {ws : Socket} (h : Run.exec step s acts = some (s', ds))
    (hbound : s.Bounded ws) : s'.Bounded ws := by
  induction acts generalizing s ds with
  | nil =>
    cases h
    exact hbound
  | cons a acts ih =>
    obtain ⟨t,es,es',hstep,hrest,rfl⟩ := Run.exec_cons.mp h
    exact ih (hs.step hstep) hrest ((flow_step hs hstep ws).bounded hbound)

def alertsRun : List Action :=
  [.accept 0 none, .auth 0 true, .resolved 0 (some (.int 7)),
    .subscribe 0 (.arr (.cons (.str "alerts".toList) .nil)),
    .broadcast "alerts".toList .null (some (.text "7".toList)) [], .send 0, .sent 0 true]

theorem alertsRun_runs : ∃ s ds, Run.exec step {} alertsRun = some (s, ds) ∧
    (received 0 ds).length = 1 ∧ s.manager.dropped = 0 ∧ (s.client 0).session ≠ some .closed := by
  have hrun : ((Run.exec step {} alertsRun).any fun r => (received 0 r.2).length = 1 &&
      (r.1.manager.dropped = 0 && decide ((r.1.client 0).session ≠ some .closed))) = true := by
    decide +kernel
  obtain ⟨⟨s,ds⟩,h,hend⟩ := (Option.any_eq_true _ _).mp hrun
  simp only [Bool.and_eq_true, decide_eq_true_eq] at hend
  exact ⟨s, ds, h, hend⟩

theorem registry_follows_clients (h : Run.exec step {} acts = some (s, ds)) :
    (∀ ws c, ws ∈ ConnectionManager.listeners s.manager.connections c ↔
      ∃ channels, (Client.after {} ws acts).channels = some channels ∧ c ∈ channels) ∧
      ∀ c, (s.manager.connections.get? c).isSome = true ↔
        ∃ ws channels, (Client.after {} ws acts).channels = some channels ∧ c ∈ channels := by
  have hsound := sound_exec sound_init h
  have hindex : ∀ ws c, ws ∈ ConnectionManager.listeners s.manager.connections c ↔
      ∃ channels, (Client.after {} ws acts).channels = some channels ∧ c ∈ channels := by
    intro ws c
    rw [show (Client.after {} ws acts) = s.client ws from (client_exec h ws).symm]
    exact hsound.linked.index ws c
  refine ⟨hindex, fun c => ?_⟩
  simp only [← hindex]
  rw [Option.isSome_iff_exists]
  constructor
  · rintro ⟨sockets,hget⟩
    obtain ⟨ws,hws⟩ := List.exists_mem_of_ne_nil sockets (hsound.linked.noneEmpty c sockets hget)
    exact ⟨ws, by rw [ConnectionManager.listeners, hget]; exact hws⟩
  · rintro ⟨ws,hws⟩
    cases hget : s.manager.connections.get? c with
    | none =>
      rw [ConnectionManager.listeners, hget] at hws
      cases hws
    | some sockets => exact ⟨sockets, rfl⟩

theorem registry_follows_clients_alerts : ∃ s ds, Run.exec step {} alertsRun = some (s, ds) ∧
    (∀ ws c, ws ∈ ConnectionManager.listeners s.manager.connections c ↔
      ∃ channels, (Client.after {} ws alertsRun).channels = some channels ∧ c ∈ channels) ∧
      ∀ c, (s.manager.connections.get? c).isSome = true ↔
        ∃ ws channels, (Client.after {} ws alertsRun).channels = some channels ∧ c ∈ channels := by
  obtain ⟨s,ds,h,-⟩ := alertsRun_runs
  exact ⟨s, ds, h, registry_follows_clients h⟩

theorem broadcast_reaches_exactly_hearers (h : Run.exec step {} acts = some (s, ds)) (ws : Socket)
    (eventType : Str) (org : Option OrgId) :
    ws ∈ s.manager.candidates eventType (normalizeOrgId org) ↔
      (Client.after {} ws acts).hears eventType (normalizeOrgId org) = true := by
  rw [show (Client.after {} ws acts) = s.client ws from (client_exec h ws).symm]
  exact mem_candidates (sound_exec sound_init h) ws eventType _

theorem broadcast_reaches_exactly_hearers_alerts : ∃ s ds, Run.exec step {} alertsRun = some (s, ds) ∧
    (0 ∈ s.manager.candidates "alerts".toList (normalizeOrgId (some (.int 7))) ↔
      (Client.after {} 0 alertsRun).hears "alerts".toList (normalizeOrgId (some (.int 7))) = true) := by
  obtain ⟨s,ds,h,-⟩ := alertsRun_runs
  exact ⟨s, ds, h, broadcast_reaches_exactly_hearers h 0 _ _⟩

theorem deliveries_in_order (h : Run.exec step {} acts = some (s, ds)) (ws : Socket) :
    (received ws ds ++ s.waiting ws).Sublist (Client.addressed ws {} acts) ∧ s.Bounded ws :=
  ⟨received_sublist sound_init ws h, bounded_exec sound_init h nofun⟩

theorem deliveries_in_order_alerts : ∃ s ds, Run.exec step {} alertsRun = some (s, ds) ∧
    (received 0 ds ++ s.waiting 0).Sublist (Client.addressed 0 {} alertsRun) ∧ s.Bounded 0 := by
  obtain ⟨s,ds,h,-⟩ := alertsRun_runs
  exact ⟨s, ds, h, deliveries_in_order h 0⟩

theorem deliveries_complete (h : Run.exec step {} acts = some (s, ds)) (ws : Socket)
    (hdropped : s.manager.dropped = 0) (hsent : .sent ws false ∉ acts)
    (hopen : (s.client ws).session ≠ some .closed) :
    received ws ds ++ s.waiting ws = Client.addressed ws {} acts :=
  received_eq sound_init h hdropped hsent hopen nofun

theorem deliveries_complete_alerts : ∃ s ds, Run.exec step {} alertsRun = some (s, ds) ∧
    received 0 ds ++ s.waiting 0 = Client.addressed 0 {} alertsRun := by
  obtain ⟨s,ds,h,-,hdropped,hopen⟩ := alertsRun_runs
  exact ⟨s, ds, h, deliveries_complete h 0 hdropped (by simp [alertsRun]) hopen⟩

end Runs

end PicoSentry.Serve.WebSockets
