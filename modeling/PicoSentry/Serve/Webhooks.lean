import PicoSentry.Foundation.Dict
import PicoSentry.Foundation.IpAddress
import PicoSentry.Foundation.Run

namespace PicoSentry.Serve.Webhooks

open Foundation

abbrev Bytes := List UInt8

structure ParsedUrl where
  scheme : Str
  netloc : Str
  hostname : Option Str

-- urlparse raises ValueError on some netlocs (none); hmac is hmac.new(.., sha256).hexdigest().
structure Env where
  urlparse : Str → Option ParsedUrl
  hmac : Bytes → Bytes → Str

def blockedNetworks : List IpNetwork :=
  [⟨.v4 0x7f000000, 8⟩, ⟨.v4 0x0a000000, 8⟩, ⟨.v4 0xac100000, 12⟩, ⟨.v4 0xc0a80000, 16⟩,
    ⟨.v4 0xa9fe0000, 16⟩, ⟨.v6 1, 128⟩, ⟨.v6 (0xfc00 * 2 ^ 112), 7⟩]

abbrev Answer := Option (List Str)

inductive Rejection where
  | invalidFormat
  | schemeNotAllowed (scheme : Str)
  | noHostname
  | cannotResolve (hostname : Str)
  | blocked (ip : IpAddress) (network : IpNetwork)
  | noUsableIps (hostname : Str)
  deriving DecidableEq

def scanAddresses : List Str → Except Rejection (List Str)
  | [] => .ok []
  | text :: rest =>
    match IpAddress.parse text with
    | none => scanAddresses rest
    | some ip =>
      match blockedNetworks.find? fun network => network.contains ip with
      | some network => .error (.blocked ip network)
      | none =>
        match scanAddresses rest with
        | .error reason => .error reason
        | .ok safe => .ok (text :: safe)

def isSafeParsed (parsed : ParsedUrl) (answer : Answer) : Except Rejection (List Str) :=
  if parsed.scheme = [] ∧ parsed.netloc = [] then .error .invalidFormat
  else if parsed.scheme ≠ "http".toList ∧ parsed.scheme ≠ "https".toList then
    .error (.schemeNotAllowed parsed.scheme)
  else
    match parsed.hostname with
    | none => .error .noHostname
    | some hostname =>
      match answer with
      | none => .error (.cannotResolve hostname)
      | some ips =>
        match scanAddresses ips with
        | .error reason => .error reason
        | .ok [] => .error (.noUsableIps hostname)
        | .ok safe => .ok safe

-- The source answers (True, "OK"); the accepted branch carries its safe_ips here.
def isSafeWebhookUrl (env : Env) (url : Str) (answer : Answer) :
    Option (Except Rejection (List Str)) :=
  (env.urlparse url).map fun parsed => isSafeParsed parsed answer

structure WebhookRow where
  id : Nat
  name : Str
  url : Str
  secret : Str
  events : List Str
  active : Bool
  orgId : Option Nat

structure Webhook where
  id : Nat
  name : Str
  url : Str
  secret : Str
  events : List Str
  orgId : Option Nat
  pinnedIps : List Str

structure Manager where
  rows : List WebhookRow
  webhooks : Dict Nat Webhook

structure Request where
  webhook : Webhook
  resolved : List Str
  body : Bytes
  headers : List (Str × Str)

inductive Effect where
  | passed (address : Str)
  | posted (request : Request)

inductive Purpose where
  | check
  | pin
  deriving DecidableEq

abbrev Lookup := Nat → Purpose → Answer

def WebhookRow.pinned (row : WebhookRow) (ips : List Str) : Webhook :=
  ⟨row.id, row.name, row.url, row.secret, row.events, row.orgId, ips⟩

def loadRows (env : Env) (dns : Lookup) (loaded : Dict Nat Webhook) :
    List WebhookRow → Dict Nat Webhook × List Effect
  | [] => (loaded, [])
  | row :: rows =>
    match isSafeWebhookUrl env row.url (dns row.id .check) with
    | none => (loaded, [])
    | some (.error _) => loadRows env dns loaded rows
    | some (.ok safe) =>
      let pinnedIps := (dns row.id .pin).getD []
      let loaded := if pinnedIps = [] then loaded else loaded.set row.id (row.pinned pinnedIps)
      let (webhooks, effects) := loadRows env dns loaded rows
      (webhooks, safe.map .passed ++ effects)

def loadWebhooks (env : Env) (dns : Lookup) (rows : List WebhookRow) : Manager × List Effect :=
  let (webhooks, effects) := loadRows env dns [] (rows.filter WebhookRow.active)
  (⟨rows, webhooks⟩, effects)

structure CreateCall where
  name : Str
  url : Str
  events : List Str
  secret : Str
  orgId : Option Nat
  checked : Answer
  resolved : Answer

def nextId (rows : List WebhookRow) : Nat := rows.foldl (fun id row => max id (row.id + 1)) 1

def duplicate (rows : List WebhookRow) (call : CreateCall) : Bool :=
  rows.any fun row => row.active && row.name = call.name && row.orgId = call.orgId

def insertRow (rows : List WebhookRow) (call : CreateCall) : List WebhookRow :=
  rows ++ [⟨nextId rows, call.name, call.url, call.secret, call.events, true, call.orgId⟩]

-- A ValueError of create leaves the table and the loaded webhooks as they were.
def create (env : Env) (dns : Lookup) (m : Manager) (call : CreateCall) : Manager × List Effect :=
  match isSafeWebhookUrl env call.url call.checked with
  | none => (m, [])
  | some (.error _) => (m, [])
  | some (.ok safe) =>
    if call.resolved.getD [] = [] || duplicate m.rows call then (m, safe.map .passed)
    else
      let (m, effects) := loadWebhooks env dns (insertRow m.rows call)
      (m, safe.map .passed ++ effects)

def deactivate (rows : List WebhookRow) (id : Nat) : List WebhookRow :=
  rows.map fun row => if row.id = id then { row with active := false } else row

section Signing

def encode (s : Str) : Bytes := (String.ofList s).toByteArray.data.toList

def signPayload (env : Env) (payload : Json) (secret : Str) : Str :=
  env.hmac (encode secret) (encode payload.dumps)

-- requests writes json= with json.dumps, fields in insertion order.
def requestBody (payload : Json) : Bytes := encode payload.render

def constantTimeCompare (a b : Str) : Bool := encode a = encode b

def verifySignature (env : Env) (payload : Bytes) (signature secret : Str) : Bool :=
  constantTimeCompare signature (env.hmac (encode secret) payload)

def eventPayload (event timestamp : Str) (payload : Json) : Json :=
  .obj (.ofList [("event".toList, .str event), ("timestamp".toList, .str timestamp),
    ("data".toList, payload)])

def signatureHeader : Str := "X-PicoShogun-Signature".toList

def signatureMark : Str := "sha256=".toList

def Request.signature (request : Request) : Str :=
  ((Dict.get? request.headers signatureHeader).getD []).drop signatureMark.length

end Signing

structure DispatchCall where
  event : Str
  payload : Json
  orgId : Option Nat
  timestamp : Nat → Str
  resolve : Nat → Answer
  response : Nat → Option Nat

structure DispatchResult where
  webhook : Str
  status : Nat
  success : Bool
  error : Option Str
  deriving DecidableEq

def selected (call : DispatchCall) (webhook : Webhook) : Bool :=
  (webhook.events.contains ['*'] || webhook.events.contains call.event) &&
    (call.orgId.isNone || webhook.orgId.isNone || webhook.orgId = call.orgId)

def pinAllows (pinned current : List Str) : Bool :=
  !pinned.isEmpty && !current.isEmpty && current.all fun ip => pinned.contains ip

def DispatchCall.document (call : DispatchCall) (webhook : Webhook) : Json :=
  eventPayload call.event (call.timestamp webhook.id) call.payload

def request (env : Env) (call : DispatchCall) (webhook : Webhook) (current : List Str) : Request where
  webhook := webhook
  resolved := current
  body := requestBody (call.document webhook)
  headers := [("Content-Type".toList, "application/json".toList),
    (signatureHeader, signatureMark ++ signPayload env (call.document webhook) webhook.secret),
    ("X-PicoShogun-Event".toList, call.event),
    ("User-Agent".toList, "PicoShogun-Webhook/2.0".toList)]

def failure (webhook : Webhook) (error : String) : DispatchResult :=
  ⟨webhook.name, 0, false, some error.toList⟩

def answered (webhook : Webhook) : Option Nat → DispatchResult
  | none => failure webhook "webhook delivery failed"
  | some status => ⟨webhook.name, status, decide (200 ≤ status) && decide (status < 300), none⟩

def deliver (env : Env) (call : DispatchCall) (webhook : Webhook) (parsed : ParsedUrl) :
    List Request × DispatchResult :=
  match parsed.hostname with
  | none => ([], failure webhook "Webhook URL has no hostname")
  | some _ =>
    let current := (call.resolve webhook.id).getD []
    if pinAllows webhook.pinnedIps current then
      ([request env call webhook current], answered webhook (call.response webhook.id))
    else ([], failure webhook "DNS rebind detected")

def deliverAll (env : Env) (call : DispatchCall) : List Webhook → List Request × List DispatchResult
  | [] => ([], [])
  | webhook :: rest =>
    match env.urlparse webhook.url with
    | none => ([], [])
    | some parsed =>
      let (requests, result) := deliver env call webhook parsed
      let (requests', results) := deliverAll env call rest
      (requests ++ requests', result :: results)

def dispatch (env : Env) (m : Manager) (call : DispatchCall) : List Request × List DispatchResult :=
  deliverAll env call ((m.webhooks.map Prod.snd).filter (selected call))

inductive Step where
  | create (call : CreateCall) (dns : Lookup)
  | delete (id : Nat) (dns : Lookup)
  | reload (dns : Lookup)
  | dispatch (call : DispatchCall)

def step (env : Env) (m : Manager) : Step → Option (Manager × List Effect)
  | .create call dns => some (create env dns m call)
  | .delete id dns => some (loadWebhooks env dns (deactivate m.rows id))
  | .reload dns => some (loadWebhooks env dns m.rows)
  | .dispatch call => some (m, (dispatch env m call).1.map .posted)

section Requests

variable {env : Env} {call : DispatchCall} {webhook : Webhook} {r : Request}

theorem mem_deliver {parsed : ParsedUrl} (h : r ∈ (deliver env call webhook parsed).1) :
    pinAllows webhook.pinnedIps ((call.resolve webhook.id).getD []) = true ∧
      r = request env call webhook ((call.resolve webhook.id).getD []) := by
  rw [deliver] at h
  split at h
  · cases h
  · dsimp only at h
    split at h
    · next hpin => exact ⟨hpin, List.mem_singleton.mp h⟩
    · cases h

theorem mem_deliverAll {webhooks : List Webhook} (h : r ∈ (deliverAll env call webhooks).1) :
    ∃ webhook ∈ webhooks, pinAllows webhook.pinnedIps ((call.resolve webhook.id).getD []) = true ∧
      r = request env call webhook ((call.resolve webhook.id).getD []) := by
  induction webhooks with
  | nil => cases h
  | cons webhook rest ih =>
    rw [deliverAll] at h
    split at h
    · cases h
    · rcases List.mem_append.mp h with h | h
      · exact ⟨webhook, List.mem_cons_self, mem_deliver h⟩
      · obtain ⟨webhook',hmem,hrest⟩ := ih h
        exact ⟨webhook', List.mem_cons_of_mem _ hmem, hrest⟩

theorem mem_dispatch {m : Manager} (h : r ∈ (dispatch env m call).1) :
    ∃ p ∈ m.webhooks, pinAllows p.2.pinnedIps ((call.resolve p.2.id).getD []) = true ∧
      r = request env call p.2 ((call.resolve p.2.id).getD []) := by
  obtain ⟨webhook,hmem,hrest⟩ := mem_deliverAll h
  obtain ⟨p,hp,rfl⟩ := List.mem_map.mp (List.mem_filter.mp hmem).1
  exact ⟨p, hp, hrest⟩

theorem request_signature (env : Env) (call : DispatchCall) (webhook : Webhook) (current : List Str) :
    (request env call webhook current).signature =
      signPayload env (call.document webhook) webhook.secret := by
  rfl

end Requests

end PicoSentry.Serve.Webhooks
