import SauronId.Action.Envelope
import SauronId.Egress.Policy
import SauronId.Lib.Table

namespace SauronId.Egress

open SauronId.Action (Rejection)
open CryptoProtocol Lib Lib.Encoding Lib.Text

structure Url where
  (scheme username : String)
  (password host : Option String)
  port : Option ℕ
  path : String
  (query fragment : Option String)
  deriving DecidableEq

/-- The settings of the gateway, and what it takes from libraries: which texts
are HTTP methods, how a URL is parsed and a text is put in upper case or redacted. -/
structure Gateway where
  (enabled development : Bool)
  respBytesSetting : Option String
  redactEnabled : Bool
  primitives : Primitives
  isMethod : String → Bool
  parseUrl : String → Except String Url
  parseJson : String → Option Json
  toUppercase : String → String
  fromUtf8Lossy : List UInt8 → String
  redactPii : String → String × List String
  egressCredential : String → Option (String × String)

def sha256Hex (P : Primitives) (s : String) : String := hexEncode (P.sha256 (bytes s))

structure CapabilityRow where
  (tokenHash tenantId agentId method url bodyHash actionReceiptId : String)
  expiresAt : ℤ
  usedAt : Option ℤ
  deriving DecidableEq

abbrev Capabilities := Table CapabilityRow.tokenHash

structure EgressCapabilityRequest where
  (agentId method url bodyHashHex : String)
  envelopeExpiresAt : ℤ

structure EgressProxyRequest where
  (capability method url : String)
  headers : List (String × String)
  body : Option String

inductive Response
  | issued (capability : String) (expiresAt : ℤ) (receiptId : String)
  | proxied (status : ℕ) (body bodySha256Hex : String) (bodyBytes : ℕ) (redacted : List String)
  deriving DecidableEq

section Issue

variable (G : Gateway)

def isAsciiHexdigit (c : Char) : Bool :=
  ('0' ≤ c ∧ c ≤ '9') ∨ ('a' ≤ c ∧ c ≤ 'f') ∨ ('A' ≤ c ∧ c ≤ 'F')

/-- The checks of `issue_egress_capability` on the request itself, and the
method as it will be stored. -/
def checkIssue (signedAgent : String) (req : EgressCapabilityRequest) :
    Except Rejection String := do
  ensure (G.enabled = true) ⟨503, "egress gateway disabled"⟩
  ensure (signedAgent ≠ "" ∧ signedAgent = req.agentId)
    ⟨401, "capability agent_id does not match the signed caller"⟩
  let method := toAsciiUppercase (trim req.method)
  ensure (G.isMethod method = true) ⟨400, "invalid HTTP method"⟩
  let url ← (G.parseUrl req.url).mapError (fun e ↦ ⟨400, "bad url: " ++ e⟩)
  ensure ((url.scheme = "http" ∨ url.scheme = "https") ∧ url.username = "" ∧ url.password = none ∧
      url.query = none ∧ url.fragment = none)
    ⟨400, "capability URL must be http(s) without userinfo, query, or fragment"⟩
  ensure (len req.bodyHashHex = 64 ∧ req.bodyHashHex.toList.all isAsciiHexdigit = true)
    ⟨400, "body_hash_hex must be 32-byte hex"⟩
  return method

/-- What the services that are asked to authorize the action say: the claims of
a valid A-JWT, whether the agent is within its rate, the receipt of the action. -/
structure Authorization where
  claims : Option Json
  withinRate : Bool
  receiptId : Except Rejection String

def claimStr (claims : Json) (name : String) : Option String := (claims.get name).bind Json.asStr

def checkIntentClaim : Option Json → Except Rejection Unit
  | some (.str s) => ensure ((G.parseJson s).isSome = true) ⟨401, "A-JWT intent is invalid JSON"⟩
  | some _ => .ok ()
  | none => .error ⟨401, "A-JWT missing intent"⟩

/-- The rest of `issue_egress_capability` before it looks at the clock: the time
at which the A-JWT expires and the id of the receipt. -/
def authorizeIssue (req : EgressCapabilityRequest) (auth : Authorization) :
    Except Rejection (ℤ × String) := do
  let claims ← auth.claims.elim (.error ⟨401, "invalid, expired, or wrong-tenant A-JWT"⟩) .ok
  ensure ((claimStr claims "agent_id").getD "" = req.agentId) ⟨401, "A-JWT agent_id mismatch"⟩
  ensure (auth.withinRate = true) ⟨429, "agent egress capability rate limit exceeded"⟩
  ensure ((claimStr claims "sub").isSome = true) ⟨401, "A-JWT missing sub"⟩
  ensure ((claimStr claims "jti").isSome = true) ⟨401, "A-JWT missing jti"⟩
  let exp ← ((claims.get "exp").bind Json.asI64).elim (.error ⟨401, "A-JWT missing exp"⟩) .ok
  checkIntentClaim G (claims.get "intent")
  let receiptId ← auth.receiptId
  return (exp, receiptId)

structure Grant where
  capability : String
  row : CapabilityRow
  now : ℤ
  unused : row.usedAt = none

def makeGrant (tenantId method : String) (req : EgressCapabilityRequest) (auth : Authorization)
    (random : String) (now : ℤ) : Except Rejection Grant := do
  let (exp, receiptId) ← authorizeIssue G req auth
  let expiresAt := min (min exp req.envelopeExpiresAt) (now + 120)
  ensure (now < expiresAt) ⟨401, "capability would already be expired"⟩
  let capability := "egc_" ++ random
  return ⟨capability, ⟨sha256Hex G.primitives capability, tenantId, req.agentId, method, req.url,
    toAsciiLowercase req.bodyHashHex, receiptId, expiresAt, none⟩, now, rfl⟩

end Issue

/-- A call of `agent_egress_proxy` that the policy of the agent permits. -/
structure ProxyCall where
  (tenantId agentId : String)
  req : EgressProxyRequest
  method : String
  now : ℤ
  matched : EgressMatch
  injected : Option (String × String)

structure Upstream where
  (capability tenantId agentId method url originalBody : String)
  headers : List (String × String)
  body : Option String
  (now sentAt : ℤ)

section Proxy

variable (G : Gateway)

def ProxyCall.originalBody (call : ProxyCall) : String := call.req.body.getD ""

def injectedCredential (matched : EgressMatch) : Except Rejection (Option (String × String)) :=
  match matched.injectCredential with
  | none => .ok none
  | some name =>
    match G.egressCredential name with
    | some header => .ok (some header)
    | none => .error ⟨500, "egress allowlist references credential '" ++ name ++
        "' but it is not configured (SAURON_EGRESS_CREDENTIALS)"⟩

/-- `agent_egress_proxy` up to the resolution of the target's name. The clock is
read here, and not again. -/
def acceptProxy (tenantId agentId : String) (req : EgressProxyRequest)
    (intent : Except Rejection Json) (now : ℤ) : Except Rejection ProxyCall := do
  ensure (G.enabled = true) ⟨503, "egress gateway disabled (set SAURON_EGRESS_GATEWAY=1)"⟩
  ensure (agentId ≠ "") ⟨401, "missing x-sauron-agent-id"⟩
  let url ← (G.parseUrl req.url).mapError (fun e ↦ ⟨400, "bad url: " ++ e⟩)
  ensure (url.scheme = "http" ∨ url.scheme = "https") ⟨400, "only http/https targets allowed"⟩
  let host ← url.host.elim (.error ⟨400, "url has no host"⟩) .ok
  ensure (url.port.isSome = true) ⟨400, "url has no port"⟩
  let method := G.toUppercase req.method
  ensure (url.username = "" ∧ url.password = none) ⟨403, "URL userinfo is not permitted"⟩
  ensure (url.query = none)
    ⟨403, "query parameters are not permitted by the Phase 1 egress policy"⟩
  let intent ← intent
  let matched ← (egressMatch (maxRespBytes G.respBytesSetting) host method url.path
      (!G.development) intent).elim
    (.error ⟨403, "egress " ++ method ++ " " ++ host ++ url.path ++
      " not permitted by the agent's egress_allowlist"⟩) .ok
  let injected ← injectedCredential G matched
  return ⟨tenantId, agentId, req, method, now, matched, injected⟩

def checkBody (call : ProxyCall) : Except Rejection Unit := do
  ensure (call.matched.requestBodyAllowed = true ∨ call.originalBody = "")
    ⟨403, "egress policy forbids a request body for this target"⟩
  ensure (len call.originalBody ≤ call.matched.maxRequestBytes)
    ⟨413, "request body exceeds target policy max_request_bytes (" ++
      toString call.matched.maxRequestBytes ++ ")"⟩

structure BoundTo (P : Primitives) (call : ProxyCall) (r : CapabilityRow) : Prop where
  token : r.tokenHash = sha256Hex P (trim call.req.capability)
  tenant : r.tenantId = call.tenantId
  agent : r.agentId = call.agentId
  method : r.method = call.method
  url : r.url = call.req.url
  body : r.bodyHash = sha256Hex P call.originalBody
  expiry : call.now ≤ r.expiresAt

instance (P : Primitives) (call : ProxyCall) (r : CapabilityRow) : Decidable (BoundTo P call r) :=
  decidable_of_iff
    (r.tokenHash = sha256Hex P (trim call.req.capability) ∧ r.tenantId = call.tenantId ∧
      r.agentId = call.agentId ∧ r.method = call.method ∧ r.url = call.req.url ∧
      r.bodyHash = sha256Hex P call.originalBody ∧ call.now ≤ r.expiresAt)
    ⟨fun ⟨h₁, h₂, h₃, h₄, h₅, h₆, h₇⟩ ↦ ⟨h₁, h₂, h₃, h₄, h₅, h₆, h₇⟩,
      fun ⟨h₁, h₂, h₃, h₄, h₅, h₆, h₇⟩ ↦ ⟨h₁, h₂, h₃, h₄, h₅, h₆, h₇⟩⟩

def consumable (P : Primitives) (call : ProxyCall) (r : CapabilityRow) : Bool :=
  decide (BoundTo P call r) && r.usedAt.isNone

def consumeCapability (P : Primitives) (call : ProxyCall) (t : Capabilities) : ℕ × Capabilities :=
  ((t.rows.filter (consumable P call)).length,
    t.updateWhere (consumable P call) (fun r ↦ { r with usedAt := some call.now }) (fun _ ↦ rfl))

def forwardHeaders (call : ProxyCall) :
    List (String × String) → Except Rejection (List (String × String))
  | [] => .ok call.injected.toList
  | (k, v) :: rest =>
    let name := toAsciiLowercase (trim k)
    if headerForbidden k = true then forwardHeaders call rest
    else if G.development = false ∧ call.matched.allowedHeaders.contains name = false then
      .error ⟨403, "request header '" ++ trim k ++ "' is not explicitly allowed by target policy"⟩
    else if call.injected.map (fun h ↦ toAsciiLowercase h.1) = some name then
      forwardHeaders call rest
    else (forwardHeaders call rest).map (fun hs ↦ (k, v) :: hs)

def redactBody (body : String) : String × List String :=
  if G.redactEnabled = true then G.redactPii body else (body, [])

/-- The request that is sent once the capability is spent. `build` is the error
of the HTTP client if it cannot be built. -/
def upstreamRequest (call : ProxyCall) (build : Option String) (sentAt : ℤ) :
    Except Rejection Upstream := do
  ensure (G.isMethod call.method = true) ⟨400, "bad HTTP method"⟩
  build.elim (.ok ()) (fun e ↦ .error ⟨500, e⟩)
  let headers ← forwardHeaders G call call.req.headers
  return {
    capability := call.req.capability
    tenantId := call.tenantId
    agentId := call.agentId
    method := call.method
    url := call.req.url
    originalBody := call.originalBody
    headers := headers
    body := call.req.body.map (fun b ↦ (redactBody G b).1)
    now := call.now
    sentAt := sentAt }

structure UpstreamReply where
  status : ℕ
  contentLength : Option ℕ
  chunks : List (List UInt8)
  failure : Option String

def readChunks (cap : ℕ) (buf : List UInt8) : List (List UInt8) → Except Rejection (List UInt8)
  | [] => .ok buf
  | chunk :: rest => do
    ensure (buf.length + chunk.length ≤ cap)
      ⟨413, "upstream response exceeds SAURON_EGRESS_MAX_RESP_BYTES (" ++ toString cap ++ ")"⟩
    readChunks cap (buf ++ chunk) rest

def readReply (call : ProxyCall) (reply : UpstreamReply) : Except Rejection Response := do
  let cap := min call.matched.maxResponseBytes (maxRespBytes G.respBytesSetting)
  ensureSome reply.contentLength (fun n ↦ ensure (n ≤ cap)
    ⟨413, "upstream response " ++ toString n ++ " bytes exceeds SAURON_EGRESS_MAX_RESP_BYTES (" ++
      toString cap ++ ")"⟩)
  let buf ← readChunks cap [] reply.chunks
  reply.failure.elim (.ok ()) (fun e ↦ .error ⟨502, "read response failed: " ++ e⟩)
  let body := if call.matched.responseBodyAllowed = true then G.fromUtf8Lossy buf else ""
  return .proxied reply.status body (hexEncode (G.primitives.sha256 buf)) buf.length
    (redactBody G call.originalBody).2

end Proxy

theorem readChunks_flatten {cap : ℕ} {buf : List UInt8} (chunks : List (List UInt8))
    (h : buf.length ≤ cap) : readChunks cap buf chunks = readChunks cap buf [chunks.flatten] := by
  induction chunks generalizing buf with
  | nil => simp [readChunks, ensure, h, bind, Except.bind]
  | cons chunk rest ih =>
    by_cases hle : buf.length + chunk.length ≤ cap
    · rw [readChunks, ih (by simpa using hle)]
      simp [readChunks, ensure, hle, bind, Except.bind, Nat.add_assoc]
    · rw [readChunks, readChunks, ensure, ensure, if_neg hle, if_neg (by simp; omega)]
      rfl

/-- A reply is read the same however the network cuts it into chunks. -/
theorem readReply_in_one_piece (G : Gateway) (call : ProxyCall) (reply : UpstreamReply) :
    readReply G call reply = readReply G call { reply with chunks := [reply.chunks.flatten] } := by
  dsimp only [readReply]
  rw [readChunks_flatten reply.chunks (Nat.zero_le _)]

/-- Where a call of one of the two handlers stands. Each phase between the first
and the last ends with one step that waits for something or touches the database. -/
inductive Phase
  | idle
  | authorizing (tenantId method : String) (req : EgressCapabilityRequest)
  | deleting (grant : Grant)
  | inserting (grant : Grant)
  | resolving (call : ProxyCall)
  | consuming (call : ProxyCall)
  | sending (call : ProxyCall)
  | finished (result : Except Rejection Response)

def Phase.ofResult {α : Type} (continue_ : α → Phase) : Except Rejection α → Phase
  | .ok a => continue_ a
  | .error r => .finished (.error r)

structure GatewayWorld (ι : Type) where
  clock : ℤ
  capabilities : Capabilities
  phase : ι → Phase
  -- what happened so far
  issued : List CapabilityRow
  forwarded : List (ι × Upstream)

/-- The clock is set, a call begins, or the next step of a call is taken. A
statement with a fault is one that the database reports as failed. -/
inductive GatewayEvent (ι : Type)
  | tick (now : ℤ)
  | issue (i : ι) (tenantId signedAgent : String) (req : EgressCapabilityRequest)
  | authorize (i : ι) (auth : Authorization) (random : String)
  | delete (i : ι) (fault : Option String)
  | insert (i : ι) (fault : Option String)
  | proxy (i : ι) (tenantId agentId : String) (req : EgressProxyRequest)
      (intent : Except Rejection Json)
  | resolve (i : ι) (vetted : Except String Unit)
  | consume (i : ι) (fault : Option String)
  | send (i : ι) (build : Option String) (reply : Except String UpstreamReply)

variable {ι : Type} [DecidableEq ι]

def GatewayWorld.move (w : GatewayWorld ι) (i : ι) (p : Phase) : GatewayWorld ι :=
  { w with phase := Function.update w.phase i p }

def databaseError (e : String) : Phase := .finished (.error ⟨500, e⟩)

/-- `DELETE FROM agent_egress_capabilities WHERE expires_at < now OR used_at IS NOT NULL`. -/
def cleanUp (now : ℤ) (t : Capabilities) : Capabilities :=
  t.deleteWhere (fun r ↦ decide (r.expiresAt < now) || r.usedAt.isSome)

def deleteStep (w : GatewayWorld ι) (i : ι) (grant : Grant) : Option String → GatewayWorld ι
  | some e => w.move i (databaseError e)
  | none => { w.move i (.inserting grant) with capabilities := cleanUp grant.now w.capabilities }

def insertStep (w : GatewayWorld ι) (i : ι) (grant : Grant) : Option String → GatewayWorld ι
  | some e => w.move i (databaseError e)
  | none =>
    match w.capabilities.insert grant.row with
    | none => w.move i (databaseError
        "UNIQUE constraint failed: agent_egress_capabilities.token_hash_hex")
    | some t =>
      { w.move i (.finished (.ok (.issued grant.capability grant.row.expiresAt
          grant.row.actionReceiptId))) with
        capabilities := t
        issued := w.issued ++ [grant.row] }

def consumeStep (P : Primitives) (w : GatewayWorld ι) (i : ι) (call : ProxyCall) :
    Option String → GatewayWorld ι
  | some e => w.move i (databaseError e)
  | none =>
    let (changed, t) := consumeCapability P call w.capabilities
    let next := if changed = 1 then .sending call else .finished (.error ⟨401,
      "egress capability is invalid, expired, already used, or not bound to this exact request"⟩)
    { w.move i next with capabilities := t }

def sendStep (G : Gateway) (w : GatewayWorld ι) (i : ι) (call : ProxyCall) (build : Option String)
    (reply : Except String UpstreamReply) : GatewayWorld ι :=
  match upstreamRequest G call build w.clock with
  | .error r => w.move i (.finished (.error r))
  | .ok upstream =>
    let result := (reply.mapError (fun e ↦ ⟨502, "forward failed: " ++ e⟩)).bind (readReply G call)
    { w.move i (.finished result) with forwarded := w.forwarded ++ [(i, upstream)] }

def nextGateway (G : Gateway) (w : GatewayWorld ι) : GatewayEvent ι → Option (GatewayWorld ι)
  | .tick now => some { w with clock := now }
  | .issue i tenantId signedAgent req =>
    match w.phase i with
    | .idle => some (w.move i (.ofResult (fun method ↦ .authorizing tenantId method req)
        (checkIssue G signedAgent req)))
    | _ => none
  | .authorize i auth random =>
    match w.phase i with
    | .authorizing tenantId method req => some (w.move i (.ofResult .deleting
        (makeGrant G tenantId method req auth random w.clock)))
    | _ => none
  | .delete i fault =>
    match w.phase i with
    | .deleting grant => some (deleteStep w i grant fault)
    | _ => none
  | .insert i fault =>
    match w.phase i with
    | .inserting grant => some (insertStep w i grant fault)
    | _ => none
  | .proxy i tenantId agentId req intent =>
    match w.phase i with
    | .idle => some (w.move i (.ofResult .resolving
        (acceptProxy G tenantId agentId req intent w.clock)))
    | _ => none
  | .resolve i vetted =>
    match w.phase i with
    | .resolving call => some (w.move i (.ofResult (fun _ ↦ .consuming call)
        ((vetted.mapError (fun reason ↦ ⟨403, reason⟩)).bind (fun _ ↦ checkBody call))))
    | _ => none
  | .consume i fault =>
    match w.phase i with
    | .consuming call => some (consumeStep G.primitives w i call fault)
    | _ => none
  | .send i build reply =>
    match w.phase i with
    | .sending call => some (sendStep G w i call build reply)
    | _ => none

def unusedRows (t : Capabilities) : List CapabilityRow := t.rows.filter (fun r ↦ r.usedAt.isNone)

def GatewayWorld.init (clock : ℤ) (t : Capabilities) : GatewayWorld ι :=
  ⟨clock, t, fun _ ↦ .idle, unusedRows t, []⟩

end SauronId.Egress
