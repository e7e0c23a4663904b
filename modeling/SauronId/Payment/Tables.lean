import SauronId.Action.Progress
import SauronId.Payment.Authorize

namespace SauronId.Payment

open SauronId.Action (Curve Outcome Rejection Server)
open CryptoProtocol Lib Lib.Encoding Lib.Text
open Receipt (ActionReceipt)

/-- A compact JWS once its segments are decoded and parsed. `verifies` is the
Ed25519 check under the key derived for the named agent. -/
structure Token where
  (header payload : Json)
  verifies : (agentId humanKeyImage agentChecksum : String) → Bool

def textClaim (json : Json) (name : String) : Option String := (json.get name).bind Json.asStr

def secondsClaim (json : Json) (name : String) : Option ℤ := (json.get name).bind Json.asI64

def verifyAjwt (decode : String → Option Token) (audience : String) (now : ℤ) (token : String) :
    Option Json := do
  let t ← decode token
  guard (textClaim t.header "alg" = some "EdDSA")
  guard (textClaim t.header "typ" = some "ajwt+jwt")
  let agentId ← textClaim t.payload "agent_id"
  let humanKeyImage ← textClaim t.payload "sub"
  let agentChecksum ← textClaim t.payload "agent_checksum"
  guard (textClaim t.header "kid" = some agentId)
  guard (textClaim t.payload "iss" = some "did:sauron:idp")
  guard (textClaim t.payload "aud" = some audience)
  let tenantId ← textClaim t.payload "tenant_id"
  guard (tenantId ≠ "")
  guard (t.verifies agentId humanKeyImage agentChecksum)
  let exp ← secondsClaim t.payload "exp"
  guard (now ≤ exp)
  guard ((secondsClaim t.payload "nbf").all (fun nbf ↦ nbf ≤ now + 300))
  -- a token dated ahead, or one that lives longer than a day
  guard ((secondsClaim t.payload "iat").all (fun iat ↦ iat ≤ now + 300 ∧ exp - iat ≤ 86400))
  return t.payload

def verifyAjwtForTenant (decode : String → Option Token) (audience : String) (now : ℤ)
    (token expectedTenantId : String) : Option Json := do
  let claims ← verifyAjwt decode audience now token
  let got ← textClaim claims "tenant_id"
  guard (got = expectedTenantId)
  return claims

structure RiskCounter where
  bucket : String
  (windowId cnt : ℤ)

def RiskCounter.key (c : RiskCounter) : String × ℤ := (c.bucket, c.windowId)

def RiskCounter.bump (c : RiskCounter) : RiskCounter := { c with cnt := c.cnt + 1 }

def hashBucket (P : Primitives) (label : String) (parts : List String) : String :=
  hexEncode ((P.sha256 (bytes label ++ parts.flatMap (fun p ↦ bytes "|" ++ bytes p))).take 24)

def bucketPaymentAuthorize (P : Primitives) (tenantId agentId : String) : String :=
  hashBucket P "payment_authorize" [tenantId, agentId]

def checkAndIncrement (windowSecs : ℤ) (counters : Table RiskCounter.key) (bucket : String)
    (now maxPerWindow : ℤ) : Except String Unit × Table RiskCounter.key :=
  if maxPerWindow ≤ 0 then (.ok (), counters)
  else if 128 < len bucket then (.error "risk: internal bucket key too long", counters)
  else
    let windowId := now.tdiv windowSecs
    let counted := counters.upsert ⟨bucket, windowId, 1⟩ RiskCounter.bump (fun _ ↦ rfl)
    match counted.get (bucket, windowId) with
    | none => (.error "risk: read cnt: Query returned no rows", counters)
    | some c =>
      if maxPerWindow < c.cnt then (.error "risk: rate limit exceeded", counted)
      else (.ok (), counted.deleteWhere (fun c ↦ c.windowId < windowId - 120))

structure UserRow where
  (keyImageHex nationality : String)

inductive JurisdictionMode
  | off
  | audit
  | enforce
  deriving DecidableEq

structure ComplianceConfig where
  mode : JurisdictionMode
  allowlist : List String

def normalizeIso3166Alpha3 (raw : String) : Option String :=
  let s := toAsciiUppercase (trim raw)
  if len s ≠ 3 ∨ ¬ s.toList.all Char.isAlpha then none else some s

def evaluateJurisdiction (cfg : ComplianceConfig) (nationality : String) : Bool :=
  match cfg.mode with
  | .off | .audit => true
  | .enforce =>
    if cfg.allowlist = [] then false
    else (normalizeIso3166Alpha3 nationality).any (fun code ↦ code ∈ cfg.allowlist)

def enforceJurisdiction (cfg : ComplianceConfig) (nationality : String) : Except String Unit :=
  ensure (¬ (cfg.mode = .enforce ∧ evaluateJurisdiction cfg nationality = false))
    "compliance: user jurisdiction not permitted for this deployment"

structure PopChallenge where
  (id agentId challenge : String)
  exp : ℤ
  deriving DecidableEq

def takePopChallenge (challenges : Table PopChallenge.id) (challengeId expectedAgentId : String)
    (now : ℤ) : Except String String × Table PopChallenge.id :=
  match challenges.get challengeId with
  | none => (.error "unknown or expired pop_challenge_id", challenges)
  | some c =>
    if c.agentId ≠ expectedAgentId then (.error "pop challenge does not match agent", challenges)
    else
      let others := challenges.deleteWhere (fun c ↦ c.id = challengeId)
      if c.exp < now then (.error "pop challenge expired", others)
      else (.ok c.challenge, others)

structure UsedJti where
  jti : String
  exp : ℤ

def consumeAjwtJti (used : Table UsedJti.jti) (jti : String) (exp now : ℤ) :
    Except String Unit × Table UsedJti.jti :=
  if jti = "" then (.error "missing jti", used)
  else if 256 < len jti then (.error "jti too long (max 256 chars)", used)
  else
    match (used.deleteWhere (fun r ↦ r.exp < now)).insert ⟨jti, exp⟩ with
    | none => (.error "A-JWT jti replay (token already used)", used)
    | some used => (.ok (), used)

structure Deployment where
  server : Server
  compliance : ComplianceConfig
  (limitPaymentAuthorize windowSecs : ℤ)
  ajwtAudience : String
  decodeToken : String → Option Token
  parseJson : String → Option Json
  verifyEd25519PopJws : (challenge jws publicKeyB64u : String) → Except String Unit

/-- The tables behind the gates. The agents, the nonces, the receipts and the
clock are those of the action endpoints. -/
structure Tables (C : Curve) where
  actions : Action.World C Unit
  counters : Table RiskCounter.key
  users : Table UserRow.keyImageHex
  challenges : Table PopChallenge.id
  usedJtis : Table UsedJti.jti

variable {C : Curve}

def Tables.now (s : Tables C) : ℤ := s.actions.clock

def Tables.findAgent (s : Tables C) (tenantId agentId : String) : Option PaymentAgent :=
  (Action.findAgent s.actions.directory agentId tenantId).map (fun a ↦
    ⟨a.revoked, a.expiresAt, a.humanKeyImage, a.assuranceLevel, a.popJkt, a.popPublicKeyB64u⟩)

def Tables.nationality (s : Tables C) (humanKeyImage : String) : String :=
  ((s.users.get humanKeyImage).map UserRow.nationality).getD ""

def answer : Outcome → Except Rejection ActionReceipt
  | .accepted receipt => .ok receipt
  | .rejected rejection => .error rejection
  | .panicked message => .error ⟨500, message⟩

def Deployment.services (D : Deployment) : Services (Tables C) where
  verifyAjwtForTenant ajwt tenantId s :=
    verifyAjwtForTenant D.decodeToken D.ajwtAudience s.now ajwt tenantId
  parseJson := D.parseJson
  checkAndIncrement tenantId agentId now s :=
    let (checked, counters) := checkAndIncrement D.windowSecs s.counters
      (bucketPaymentAuthorize D.server.primitives tenantId agentId) now D.limitPaymentAuthorize
    (checked, { s with counters := counters })
  enforceJurisdiction humanKeyImage s :=
    (enforceJurisdiction D.compliance (s.nationality humanKeyImage)).mapError
      (fun message ↦ ⟨403, message⟩)
  findAgent tenantId agentId s := s.findAgent tenantId agentId
  provePossession challengeId jws agentId publicKey s :=
    let (taken, challenges) := takePopChallenge s.challenges challengeId agentId s.now
    (taken.bind (fun challenge ↦ D.verifyEd25519PopJws challenge jws publicKey),
      { s with challenges := challenges })
  validateAgentAction opts proof random s :=
    let (outcome, actions) := Action.validateAgentAction D.server opts proof random s.actions
    (answer outcome, { s with actions := actions })
  consumeAjwtJti jti exp s :=
    let (consumed, usedJtis) := consumeAjwtJti s.usedJtis jti exp s.now
    (consumed, { s with usedJtis := usedJtis })

end SauronId.Payment
