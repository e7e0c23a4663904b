import SauronId.Agent.Scopes
import SauronId.Payment.Tables

namespace SauronId.Agent

open SauronId.Action (Curve Rejection)
open CryptoProtocol Lib Lib.Encoding Lib.Handler Lib.Text
open Payment (RiskCounter UserRow checkAndIncrement hashBucket)

inductive AttestationKind
  | none
  | serverDerived
  | ed25519Self
  | tpm2Quote
  | sgxQuote
  | sevSnp
  | armCca
  | nitroEnclave
  | appleSecure
  deriving DecidableEq

def AttestationKind.parse (s : String) : AttestationKind :=
  if s = "ed25519_self" then ed25519Self
  else if s = "server_derived" ∨ s = "server" then serverDerived
  else if s = "tpm2_quote" ∨ s = "tpm2" then tpm2Quote
  else if s = "sgx_quote" ∨ s = "sgx" then sgxQuote
  else if s = "sev_snp" ∨ s = "sev" then sevSnp
  else if s = "arm_cca" ∨ s = "cca" then armCca
  else if s = "nitro_enclave" ∨ s = "nitro" then nitroEnclave
  else if s = "apple_secure" ∨ s = "apple" then appleSecure
  else none

inductive AgentType
  | llm
  | mcpServer
  | ruleBot
  | browser
  | openAiAssistant
  | framework
  | custom
  deriving DecidableEq

namespace AgentType

def parse (s : String) : Option AgentType :=
  if s = "llm" ∨ s = "llm_agent" then some llm
  else if s = "mcp" ∨ s = "mcp_server" then some mcpServer
  else if s = "rule_bot" ∨ s = "rule" ∨ s = "bot" then some ruleBot
  else if s = "browser" ∨ s = "browser_automation" then some browser
  else if s = "openai_assistant" ∨ s = "assistants" then some openAiAssistant
  else if s = "framework" ∨ s = "langchain" ∨ s = "llamaindex" then some framework
  else if s = "custom" then some custom
  else none

def asStr : AgentType → String
  | llm => "llm"
  | mcpServer => "mcp_server"
  | ruleBot => "rule_bot"
  | browser => "browser"
  | openAiAssistant => "openai_assistant"
  | framework => "framework"
  | custom => "custom"

def requiredFields : AgentType → List String
  | llm => ["model_id", "system_prompt", "tools"]
  | mcpServer => ["manifest_json", "tool_signatures"]
  | ruleBot => ["image_sha"]
  | browser => ["script_sha", "lockfile_sha"]
  | openAiAssistant => ["assistant_id", "instructions", "tools", "model"]
  | framework => ["code_sha", "lockfile_sha"]
  | custom => []

end AgentType

structure Host (C : Curve) where
  primitives : Primitives
  jwtSecret : List UInt8
  reader : TextReader
  (development requireOwnerMandate requireAgentType allowCustomChecksum serverDerivedAllowed : Bool)
  storeInputsHashed : Bool
  (limitAgentRegister windowSecs : ℤ)
  parseI64 : String → Option ℤ
  encodeB64u : List UInt8 → String
  decodeB64u : String → Except String (List UInt8)
  (validKey weakKey : List UInt8 → Bool)
  verifyEd25519 : (key message signature : List UInt8) → Bool
  identity : C.Point
  canonicalJson : Json → String
  validateProductionEgressPolicy : Json → Except String Unit
  enforceRegistrationAttestationBound : AttestationKind → (blob : List UInt8) →
    (trustedPubkey expectedMeasurement nonce popPublicKey : String) → Except String (Option String)
  forgeAjwt : (humanKeyImage agentId agentChecksum intentJson tenantId : String) → (ttl : ℤ) →
    (popJkt workflowId : Option String) → (delegationChain : Option Json) → String

structure RegisterAgentRequest where
  (humanKeyImage ownerMandateSigB64u agentChecksum agentType : String)
  checksumInputs : Option Json
  (attestationBlob attestationKind attestationChallengeId intentJson publicKeyHex : String)
  ringKeyImageHex : String
  ttlSecs : ℤ
  (parentAgentId popJkt popPublicKeyB64u workflowId delegationChainJson : String)
  (tpm2QuoteB64 tpm2AttestB64 tpm2SignatureB64 tpm2AikCertPem tpm2EkCertChainPem : Option String)
  (tpm2PcrSet tpm2AttestationPubkeyB64u : Option String)
  (expectedMeasurementHex attestationPubkeyB64u : Option String)

/-- A call of the endpoint: its headers and body, the clock readings of the
handler in their order, and the random part of the new id. -/
structure RegisterCall where
  tenantId : String
  session : Option String
  payload : RegisterAgentRequest
  (sessionNow riskNow challengeNow consumeNow now : ℤ)
  random : String

structure AgentRecord where
  (agentId humanKeyImage agentChecksum intentJson assuranceLevel publicKeyHex : String)
  ringKeyImageHex : String
  (issuedAt expiresAt revoked : ℤ)
  parentAgentId : Option String
  delegationDepth : ℤ
  (popJkt popPublicKeyB64u : String)
  attestationBlob : Option String
  attestationKind : String
  (attestationPubkeyB64u attestationPcrSet attestationEkCertChainPem : Option String)
  (tenantId ownerMandateSigB64u ownerMandateHash : String)

structure OwnerKeyRow where
  (keyImageHex ed25519PublicKeyB64u : String)

structure AttestationChallenge where
  (id tenantId humanKeyImage nonce popPublicKeyB64u : String)
  expiresAt : ℤ
  usedAt : Option ℤ

structure ChecksumInputsRow where
  (agentId agentType inputsCanonical computedChecksum : String)
  (version createdAt updatedAt : ℤ)
  deriving DecidableEq

structure Registry (C : Curve) where
  agents : Table AgentRecord.agentId
  ownerKeys : Table OwnerKeyRow.keyImageHex
  /-- The pairs `(tenant_id, key_image_hex)` of `user_auth_tenant_bindings`. -/
  ownerBindings : List (String × String)
  counters : Table RiskCounter.key
  challenges : Table AttestationChallenge.id
  users : Table UserRow.keyImageHex
  /-- The column `user_key_image` of `bank_kyc_links`. -/
  bankKycLinks : List String
  checksumInputs : Table ChecksumInputsRow.agentId
  agentGroup : List C.Point

structure RegisterAgentResponse where
  (agentId ajwt : String)
  expiresAt : ℤ
  assuranceLevel : String

variable {C : Curve}

/-! ### The caller and the keys it presents -/

def rsplitOnce (sep : Char) (l : List Char) : Option (List Char × List Char) :=
  match l.reverse.span (fun c ↦ c ≠ sep) with
  | (last, _ :: before) => some (before.reverse, last.reverse)
  | (_, []) => none

def isAsciiHexdigit (c : Char) : Bool :=
  c.isDigit ∨ ('a' ≤ c ∧ c ≤ 'f') ∨ ('A' ≤ c ∧ c ≤ 'F')

def verifyUserSession (H : Host C) (now : ℤ) (session expectedTenantId : String) :
    Option String := do
  let (payload, sig) ← rsplitOnce '|' session.toList
  let sessionKey := deriveSubkey H.primitives H.jwtSecret "session-hmac-v1"
  let computed := hexEncode (H.primitives.hmacSha256 sessionKey
    (bytes "|SESSION|" ++ bytes (String.ofList payload)))
  guard (computed = String.ofList sig)
  match payload.splitOn '|' with
  | [version, tenant, keyImage, expiresAt] =>
    guard (String.ofList version = "v2" ∧ String.ofList tenant = expectedTenantId)
    let keyImage := String.ofList keyImage
    guard (len keyImage = 64 ∧ keyImage.toList.all isAsciiHexdigit)
    let expiresAt ← H.parseI64 (String.ofList expiresAt)
    guard (now ≤ expiresAt)
    return keyImage
  | _ => none

def sessionKeyImage (H : Host C) (call : RegisterCall) : Option String := do
  let session ← call.session
  verifyUserSession H call.sessionNow session call.tenantId

def authenticate (H : Host C) (call : RegisterCall) : Except Rejection String :=
  match sessionKeyImage H call with
  | none => .error ⟨401, "Valid x-sauron-session header required"⟩
  | some humanKeyImage => do
    ensure (call.payload.humanKeyImage = "" ∨ call.payload.humanKeyImage = humanKeyImage)
      ⟨401, "human_key_image payload does not match authenticated session"⟩
    return humanKeyImage

def ed25519JwkThumbprint (H : Host C) (publicKeyB64u : String) : Except String String := do
  let raw ← (H.decodeB64u (trim publicKeyB64u)).mapError
    (fun e ↦ "PoP public key is not base64url: " ++ e)
  ensure (raw.length = 32) ("PoP public key must decode to 32 bytes, got " ++ toString raw.length)
  let canonical := "\x7b\"crv\":\"Ed25519\",\"kty\":\"OKP\",\"x\":\"" ++ trim publicKeyB64u ++
    "\"\x7d"
  return H.encodeB64u (H.primitives.sha256 (bytes canonical))

def badRequest (message : String) : Rejection := ⟨400, message⟩

def checkPop (H : Host C) (p : RegisterAgentRequest) : Except Rejection Unit := do
  ensure (trim p.popJkt ≠ "" ∧ trim p.popPublicKeyB64u ≠ "")
    (badRequest "PoP is mandatory: pop_jkt and pop_public_key_b64u are required")
  let computedPopJkt ← (ed25519JwkThumbprint H p.popPublicKeyB64u).mapError badRequest
  ensure (computedPopJkt = trim p.popJkt)
    (badRequest "pop_jkt must be the RFC 7638 thumbprint of pop_public_key_b64u")
  let popRaw ← (H.decodeB64u (trim p.popPublicKeyB64u)).mapError
    (fun e ↦ badRequest ("PoP public key base64url: " ++ e))
  ensure (popRaw.length = 32) (badRequest "PoP public key must be exactly 32 bytes")
  ensure (H.validKey popRaw) (badRequest "PoP public key is invalid")
  ensure (¬ H.weakKey popRaw) (badRequest "PoP public key is a weak/small-order Ed25519 key")

def checkIntent (H : Host C) (p : RegisterAgentRequest) : Except Rejection Unit := do
  let parsedIntent ← (H.reader.parseJson p.intentJson).mapError
    (fun e ↦ badRequest ("intent_json is invalid JSON: " ++ e))
  if H.development then .ok ()
  else (H.validateProductionEgressPolicy parsedIntent).mapError badRequest

/-! ### The owner's mandate -/

structure OwnerMandateInput where
  (tenantId humanKeyImage agentPublicKeyHex popPublicKeyB64u intentJson ttlSecs : String)

def ownerMandatePayload (input : OwnerMandateInput) : Except Failure (List UInt8) :=
  canonicalFields "sauron.owner-mandate.v1"
    [("tenant_id", input.tenantId), ("human_key_image", input.humanKeyImage),
      ("agent_public_key_hex", input.agentPublicKeyHex),
      ("pop_public_key_b64u", input.popPublicKeyB64u), ("intent_json", input.intentJson),
      ("ttl_secs", input.ttlSecs)]

def Failure.rejection : Failure → Rejection
  | .panicked message => ⟨500, message⟩
  | .failed message => ⟨500, message⟩

def ownerKey (s : Registry C) (tenantId humanKeyImage : String) : Option String :=
  if (tenantId, humanKeyImage) ∈ s.ownerBindings then
    (s.ownerKeys.get humanKeyImage).map OwnerKeyRow.ed25519PublicKeyB64u
  else none

def sized (n : ℕ) (raw : Except String (List UInt8)) : Option (List UInt8) :=
  raw.toOption.filter (fun b ↦ b.length = n)

def verifyOwnerMandate (H : Host C) (s : Registry C)
    (tenantId humanKeyImage agentPublicKeyHex popPublicKeyB64u intentJson : String) (ttlSecs : ℤ)
    (signatureB64u : String) : Except Rejection String := do
  let ownerPkB64u ← (ownerKey s tenantId humanKeyImage).elim
    (.error (badRequest ("owner mandate requires an owner key bound to human_key_image; " ++
      "register the owner with a client-generated Ed25519 key first"))) .ok
  let ownerPk ← (sized 32 (H.decodeB64u (trim ownerPkB64u))).elim
    (.error ⟨500, "stored owner public key is not 32-byte base64url"⟩) .ok
  ensure (H.validKey ownerPk) ⟨500, "stored owner public key is not a valid Ed25519 key"⟩
  let sigBytes ← (sized 64 (H.decodeB64u (trim signatureB64u))).elim
    (.error (badRequest "owner_mandate_sig_b64u must be 64-byte base64url")) .ok
  let payload ← (ownerMandatePayload ⟨tenantId, humanKeyImage, agentPublicKeyHex, popPublicKeyB64u,
    intentJson, toString ttlSecs⟩).mapError Failure.rejection
  ensure (H.verifyEd25519 ownerPk payload sigBytes) ⟨401, "owner mandate signature does not " ++
    "verify against the owner key bound to human_key_image"⟩
  return hexEncode (H.primitives.sha256 payload)

/-- The signature covers the body's own `human_key_image`. -/
def ownerMandateHash (H : Host C) (s : Registry C) (call : RegisterCall) :
    Except Rejection String :=
  let p := call.payload
  if trim p.ownerMandateSigB64u = "" then do
    ensure (¬ H.requireOwnerMandate) ⟨401, "owner_mandate_sig_b64u is required: this deployment " ++
      "refuses agents whose authority is not signed by their owner"⟩
    return ""
  else
    verifyOwnerMandate H s call.tenantId p.humanKeyImage p.publicKeyHex p.popPublicKeyB64u
      p.intentJson p.ttlSecs (trim p.ownerMandateSigB64u)

/-! ### Attestation and checksum -/

def needsChallenge (kind : AttestationKind) : Bool := kind ≠ .none ∧ kind ≠ .serverDerived

def attestationNonce (call : RegisterCall) (humanKeyImage : String) (s : Registry C) :
    Except Rejection (Option String) :=
  let p := call.payload
  if ¬ needsChallenge (.parse p.attestationKind) then .ok none
  else do
    ensure (trim p.attestationChallengeId ≠ "")
      (badRequest ("attestation_challenge_id is required for attested registration; " ++
        "request one from POST /agent/attestation/challenge"))
    let row ← ((s.challenges.get p.attestationChallengeId).filter
      (fun c ↦ c.popPublicKeyB64u = p.popPublicKeyB64u)).elim
      (.error ⟨401, "attestation challenge not found or not bound to this PoP key"⟩) .ok
    ensure (row.tenantId = call.tenantId ∧ row.humanKeyImage = humanKeyImage)
      ⟨403, "attestation challenge belongs to a different tenant or session"⟩
    ensure (row.usedAt = none ∧ call.challengeNow ≤ row.expiresAt)
      ⟨401, "attestation challenge is expired or already used"⟩
    return some row.nonce

inductive ChecksumError
  | unknownType (agentType : String)
  | missingField (agentType field : String)
  | notAnObject
  deriving DecidableEq

def ChecksumError.display : ChecksumError → String
  | unknownType s => "unknown agent_type: " ++ s
  | missingField agentType field => "agent_type='" ++ agentType ++ "' requires checksum_inputs." ++
      field ++ " (non-null)"
  | notAnObject => "checksum_inputs.inputs must be a JSON object"

def isPresent : Option Json → Bool
  | none => false
  | some .null => false
  | some _ => true

def computeChecksum (H : Host C) (agentType : String) (inputs : Json) :
    Except ChecksumError (String × String) :=
  match AgentType.parse agentType, inputs with
  | none, _ => .error (.unknownType agentType)
  | some kind, .obj fields => do
    kind.requiredFields.forM (fun f ↦
      ensure (isPresent (fields.lookup f)) (.missingField kind.asStr f))
    let canonical := H.canonicalJson inputs
    return (canonical, "sha256:" ++ hexEncode (H.primitives.sha256
      (bytes kind.asStr ++ bytes "|" ++ bytes canonical)))
  | some _, _ => .error .notAnObject

structure SettledChecksum where
  value : String
  inputs : Option (String × String)

def agentChecksum (H : Host C) (p : RegisterAgentRequest) : Except Rejection SettledChecksum := do
  ensure (AgentType.parse p.agentType ≠ some .custom ∨ H.allowCustomChecksum)
    (badRequest ("agent_type='custom' has no required-field contract and binds nothing the " ++
      "runtime can drift from; refused in production. Use a typed agent_type " ++
      "(llm/mcp_server/rule_bot/browser/openai_assistant/framework) or set " ++
      "SAURON_ALLOW_CUSTOM_CHECKSUM=1 to opt in."))
  if p.agentType ≠ "" then
    let inputs ← p.checksumInputs.elim
      (.error (badRequest "checksum_inputs required when agent_type is set")) .ok
    let (canonical, computed) ← (computeChecksum H p.agentType inputs).mapError
      (fun e ↦ badRequest e.display)
    ensure (p.agentChecksum = "" ∨ p.agentChecksum = computed)
      (badRequest ("operator-supplied agent_checksum does not match server-computed value " ++
        "(expected " ++ computed ++ ", got " ++ p.agentChecksum ++ ")"))
    return ⟨computed, some (p.agentType, canonical)⟩
  else
    ensure (¬ H.requireAgentType)
      (badRequest ("agent_type + checksum_inputs are required (set SAURON_REQUIRE_AGENT_TYPE=0 " ++
        "to allow legacy operator-supplied agent_checksum, but be aware this disables runtime " ++
        "drift detection)"))
    return ⟨p.agentChecksum, none⟩

def maxPemLen : ℕ := 65536

def maxB64FieldLen : ℕ := 32768

def maxPcrSetLen : ℕ := 8192

def requiredTpm2Fields (p : RegisterAgentRequest) : List (String × Option String) :=
  [("tpm2_quote_b64", p.tpm2QuoteB64), ("tpm2_attest_b64", p.tpm2AttestB64),
    ("tpm2_signature_b64", p.tpm2SignatureB64), ("tpm2_aik_cert_pem", p.tpm2AikCertPem),
    ("tpm2_ek_cert_chain_pem", p.tpm2EkCertChainPem)]

def boundedTpm2Fields (p : RegisterAgentRequest) : List (String × Option String × ℕ) :=
  [("tpm2_quote_b64", p.tpm2QuoteB64, maxB64FieldLen),
    ("tpm2_attest_b64", p.tpm2AttestB64, maxB64FieldLen),
    ("tpm2_signature_b64", p.tpm2SignatureB64, maxB64FieldLen),
    ("tpm2_aik_cert_pem", p.tpm2AikCertPem, maxPemLen),
    ("tpm2_ek_cert_chain_pem", p.tpm2EkCertChainPem, maxPemLen),
    ("tpm2_attestation_pubkey_b64u", p.tpm2AttestationPubkeyB64u, maxB64FieldLen),
    ("tpm2_pcr_set", p.tpm2PcrSet, maxPcrSetLen)]

def checkTpm2Fields (p : RegisterAgentRequest) : Except Rejection Unit := do
  let missing := (requiredTpm2Fields p).filter (fun (_, v) ↦ v.all (fun s ↦ trim s = ""))
  ensure (missing = []) (badRequest
    ("attestation_kind=tpm2_quote requires all five tpm2_* fields; missing: " ++
      ", ".intercalate (missing.map Prod.fst)))
  (boundedTpm2Fields p).forM (fun (name, val, max) ↦
    ensure (val.all (fun s ↦ len s ≤ max)) (badRequest (name ++ " exceeds " ++ toString max ++
      " bytes (got " ++ toString (len (val.getD "")) ++ ")")))

def checkForm (H : Host C) (p : RegisterAgentRequest) (checksum : String) :
    Except Rejection Unit := do
  ensure (checksum ≠ "") (badRequest "agent_checksum required")
  ensure (p.publicKeyHex ≠ "")
    (badRequest "public_key_hex is required for delegated-agent ring binding")
  ensure (p.ringKeyImageHex.toList.all isAsciiHexdigit ∧ len p.ringKeyImageHex = 64)
    (badRequest "ring_key_image_hex is required and must be 32-byte hex")
  ensure (AttestationKind.parse p.attestationKind ≠ .serverDerived ∨ H.serverDerivedAllowed)
    ⟨403, "attestation cert chain rejected: server-derived PoP is refused in production: set " ++
      "SAURON_ALLOW_SERVER_DERIVED_POP=1 to opt in, or upgrade to ed25519_self / tpm2_quote " ++
      "(see docs/roadmap.md Plan 1)"⟩
  if AttestationKind.parse p.attestationKind = .tpm2Quote then checkTpm2Fields p else .ok ()

def attestBlob (p : RegisterAgentRequest) : List UInt8 :=
  if AttestationKind.parse p.attestationKind = .tpm2Quote then
    bytes ("\x7b" ++ ",".intercalate ([("aik_cert_pem", p.tpm2AikCertPem),
      ("attest_b64", p.tpm2AttestB64), ("ek_cert_chain_pem", p.tpm2EkCertChainPem),
      ("quote_b64", p.tpm2QuoteB64), ("signature_b64", p.tpm2SignatureB64)].map
        (fun (name, v) ↦ jsonStr name ++ ":" ++ jsonStr (v.getD ""))) ++ "\x7d")
  else bytes p.attestationBlob

def registrationAttestation (H : Host C) (p : RegisterAgentRequest) (nonce : Option String) :
    Except Rejection (Option String) :=
  (H.enforceRegistrationAttestationBound (.parse p.attestationKind) (attestBlob p)
    ((p.attestationPubkeyB64u.or p.tpm2AttestationPubkeyB64u).getD "")
    (p.expectedMeasurementHex.getD "") (nonce.getD "") p.popPublicKeyB64u).mapError
      (fun e ↦ badRequest ("attestation rejected: " ++ e))

def AttestationChallenge.usable (id : String) (now : ℤ) (c : AttestationChallenge) : Bool :=
  c.id = id ∧ c.usedAt = none ∧ now ≤ c.expiresAt

def AttestationChallenge.markUsed (now : ℤ) (c : AttestationChallenge) : AttestationChallenge :=
  { c with usedAt := some now }

def consumeChallenge (call : RegisterCall) (s : Registry C) : Except Rejection Unit × Registry C :=
  if needsChallenge (.parse call.payload.attestationKind) then
    let usable := AttestationChallenge.usable call.payload.attestationChallengeId call.consumeNow
    if s.challenges.rows.any usable then
      let challenges := s.challenges.updateWhere usable (.markUsed call.consumeNow) (fun _ ↦ rfl)
      (.ok (), { s with challenges := challenges })
    else (.error ⟨401, "attestation challenge was consumed concurrently or expired"⟩, s)
  else (.ok (), s)

/-! ### The ring, the human and the parent -/

def ristrettoPoint (H : Host C) (field notPoint32 : String) (hex : String) :
    Except Rejection C.Point := do
  let raw ← (hexDecode hex).elim (.error (badRequest (field ++ " must be valid hex"))) .ok
  ensure (raw.length = 32) (badRequest (field ++ notPoint32))
  let point ← (C.decompress raw).elim
    (.error (badRequest (field ++ " is not a valid Ristretto point"))) .ok
  ensure (point ≠ H.identity) (badRequest (field ++ " must not be the identity point"))
  return point

def agentPoint (H : Host C) (p : RegisterAgentRequest) : Except Rejection C.Point :=
  ristrettoPoint H "public_key_hex" " must be 32-byte compressed Ristretto point" p.publicKeyHex

def ringKeyImagePoint (H : Host C) (p : RegisterAgentRequest) : Except Rejection C.Point :=
  ristrettoPoint H "ring_key_image_hex" " must be a 32-byte compressed Ristretto point"
    p.ringKeyImageHex

def AgentRecord.active (a : AgentRecord) (tenantId : String) : Bool :=
  a.revoked = 0 ∧ a.tenantId = tenantId

def inUse (agents : Table AgentRecord.agentId) (tenantId : String)
    (field : AgentRecord → String) (value : String) : Bool :=
  agents.rows.any (fun a ↦ field a = value ∧ a.active tenantId)

def checkUnused (call : RegisterCall) (s : Registry C) : Except Rejection Unit := do
  let p := call.payload
  ensure (inUse s.agents call.tenantId AgentRecord.publicKeyHex p.publicKeyHex = false)
    ⟨409, "public_key_hex already registered to an active agent"⟩
  ensure (inUse s.agents call.tenantId AgentRecord.ringKeyImageHex p.ringKeyImageHex = false)
    ⟨409, "ring_key_image_hex already registered to an active agent"⟩
  ensure (inUse s.agents call.tenantId AgentRecord.popPublicKeyB64u p.popPublicKeyB64u = false)
    ⟨409, "pop_public_key_b64u already registered to an active agent; " ++
      "PoP keys must be agent-unique"⟩

def checkHuman (humanKeyImage : String) (s : Registry C) : Except Rejection Unit := do
  ensure ((s.users.get humanKeyImage).isSome)
    ⟨404, "Human user not found — register the user first"⟩
  ensure (humanKeyImage ∈ s.bankKycLinks)
    ⟨403, "Delegated registration requires bank-verified KYC link. " ++
      "Use /agent/vc/issue for non-bank agents."⟩

def maxDelegationDepth : ℤ := 5

def parentOf (H : Host C) (call : RegisterCall) (humanKeyImage : String)
    (agents : Table AgentRecord.agentId) : Except Rejection (Option String × ℤ) :=
  let p := call.payload
  if p.parentAgentId = "" then .ok (none, 0)
  else do
    let parent ← ((agents.get p.parentAgentId).filter (fun a ↦ a.tenantId = call.tenantId)).elim
      (.error (badRequest "parent_agent_id not found")) .ok
    ensure (parent.revoked = 0) (badRequest "parent agent is revoked")
    ensure (parent.humanKeyImage = humanKeyImage) ⟨403, "parent agent belongs to another user"⟩
    (assertChildScopesSubsetOfParent H.reader parent.intentJson p.intentJson).mapError badRequest
    let d := parent.delegationDepth + 1
    ensure (d ≤ maxDelegationDepth)
      (badRequest ("delegation depth exceeds max " ++ toString maxDelegationDepth))
    return (some p.parentAgentId, d)

/-! ### The stored agent -/

def registrationTtl (p : RegisterAgentRequest) : ℤ := max 60 (min p.ttlSecs 86400)

def nonEmpty (s : Option String) : Option String := s.filter (fun s ↦ s ≠ "")

def newAgentRecord (call : RegisterCall) (humanKeyImage checksum mandateHash : String)
    (pinned : Option String) (parent : Option String × ℤ) : AgentRecord :=
  let p := call.payload
  { agentId := "agt_" ++ call.random
    humanKeyImage := humanKeyImage
    agentChecksum := checksum
    intentJson := p.intentJson
    assuranceLevel := "delegated_bank"
    publicKeyHex := p.publicKeyHex
    ringKeyImageHex := p.ringKeyImageHex
    issuedAt := call.now
    expiresAt := call.now + registrationTtl p
    revoked := 0
    parentAgentId := parent.1
    delegationDepth := parent.2
    popJkt := p.popJkt
    popPublicKeyB64u := p.popPublicKeyB64u
    attestationBlob := nonEmpty (some p.attestationBlob)
    attestationKind := p.attestationKind
    attestationPubkeyB64u := nonEmpty p.tpm2AttestationPubkeyB64u
    attestationPcrSet := (nonEmpty p.tpm2PcrSet).or pinned
    attestationEkCertChainPem := nonEmpty p.tpm2EkCertChainPem
    tenantId := call.tenantId
    ownerMandateSigB64u := trim p.ownerMandateSigB64u
    ownerMandateHash := mandateHash }

def delegationChain (H : Host C) (p : RegisterAgentRequest) : Except Rejection (Option Json) :=
  if trim p.delegationChainJson = "" then .ok none
  else
    ((H.reader.parseJson p.delegationChainJson).map some).mapError
      (fun e ↦ badRequest ("delegation_chain_json invalid JSON: " ++ e))

def registrationAjwt (H : Host C) (p : RegisterAgentRequest) (row : AgentRecord) :
    Except Rejection String := do
  let chain ← delegationChain H p
  return H.forgeAjwt row.humanKeyImage row.agentId row.agentChecksum p.intentJson row.tenantId
    (registrationTtl p) (nonEmpty (some p.popJkt)) (nonEmpty (some p.workflowId)) chain

def insertAgent (agents : Table AgentRecord.agentId) (row : AgentRecord) :
    Except String (Table AgentRecord.agentId) := do
  [("public_key_hex", AgentRecord.publicKeyHex),
    ("ring_key_image_hex", AgentRecord.ringKeyImageHex),
    ("pop_public_key_b64u", AgentRecord.popPublicKeyB64u)].forM (fun (column, field) ↦
      ensure (field row = "" ∨ inUse agents row.tenantId field (field row) = false)
        ("UNIQUE constraint failed: agents.tenant_id, agents." ++ column))
  (agents.insert row).elim (.error "UNIQUE constraint failed: agents.agent_id") .ok

def persistAgent (H : Host C) (inputs : Option (String × String)) (row : AgentRecord)
    (s : Registry C) : Except Rejection Unit × Registry C :=
  match insertAgent s.agents row with
  | .error e => (.error ⟨500, e⟩, s)
  | .ok agents =>
    let s := { s with agents := agents }
    match inputs with
    | none => (.ok (), s)
    | some (kind, canonical) =>
      let stored := if H.storeInputsHashed then row.agentChecksum else canonical
      match s.checksumInputs.insert
        ⟨row.agentId, kind, stored, row.agentChecksum, 1, row.issuedAt, row.issuedAt⟩ with
      | none => (.error ⟨500, "persist agent_checksum_inputs: " ++
          "UNIQUE constraint failed: agent_checksum_inputs.agent_id"⟩, s)
      | some rows => (.ok (), { s with checksumInputs := rows })

def joinRing (point : C.Point) (s : Registry C) : Registry C :=
  { s with agentGroup := if point ∈ s.agentGroup then s.agentGroup else s.agentGroup ++ [point] }

def limitRegistrations (H : Host C) (call : RegisterCall) (humanKeyImage : String)
    (s : Registry C) : Except Rejection Unit × Registry C :=
  let (checked, counters) := checkAndIncrement H.windowSecs s.counters
    (hashBucket H.primitives "agent_register" [call.tenantId, humanKeyImage]) call.riskNow
    H.limitAgentRegister
  (checked.mapError (fun _ ↦ ⟨429, "Agent registration rate limit exceeded"⟩),
    { s with counters := counters })

def identifyAgent (H : Host C) (call : RegisterCall) : Except Rejection String := do
  let humanKeyImage ← authenticate H call
  checkPop H call.payload
  checkIntent H call.payload
  return humanKeyImage

structure Points (C : Curve) where
  (agent ringKeyImage : C.Point)

def checkPoints (H : Host C) (p : RegisterAgentRequest) : Except Rejection (Points C) := do
  let agent ← agentPoint H p
  let ringKeyImage ← ringKeyImagePoint H p
  return ⟨agent, ringKeyImage⟩

def registerAgent (H : Host C) (call : RegisterCall) :
    Handler Rejection (Registry C) RegisterAgentResponse := do
  let p := call.payload
  let humanKeyImage ← result (identifyAgent H call)
  let mandateHash ← query (fun s ↦ ownerMandateHash H s call)
  service (limitRegistrations H call humanKeyImage)
  let nonce ← query (attestationNonce call humanKeyImage)
  let checksum ← result (agentChecksum H p)
  result (checkForm H p checksum.value)
  let pinned ← result (registrationAttestation H p nonce)
  service (consumeChallenge call)
  let points ← result (checkPoints H p)
  query (checkUnused call)
  query (checkHuman humanKeyImage)
  let parent ← query (fun s ↦ parentOf H call humanKeyImage s.agents)
  let row := newAgentRecord call humanKeyImage checksum.value mandateHash pinned parent
  let ajwt ← result (registrationAjwt H p row)
  service (persistAgent H checksum.inputs row)
  service (fun s ↦ (.ok (), joinRing points.agent s))
  return ⟨row.agentId, ajwt, row.expiresAt, row.assuranceLevel⟩

/-! ### What an accepted registration did -/

variable {H : Host C} {call : RegisterCall} {s t : Registry C}

theorem insertAgent_eq_ok {agents agents' : Table AgentRecord.agentId} {row : AgentRecord}
    (h : insertAgent agents row = .ok agents') : agents.insert row = some agents' := by
  obtain ⟨-, h⟩ := andThen_eq_ok.mp h
  cases hi : agents.insert row with
  | none => simp [hi] at h
  | some u => simpa [hi] using h

theorem persistAgent_agents {inputs : Option (String × String)} {row : AgentRecord}
    (h : persistAgent H inputs row s = (.ok (), t)) : s.agents.insert row = some t.agents := by
  unfold persistAgent at h
  cases hi : insertAgent s.agents row with
  | error e => simp [hi] at h
  | ok agents =>
    rw [insertAgent_eq_ok hi]
    simp only [hi] at h
    split at h
    · rw [← (Prod.mk.inj h).2]
    · split at h
      · cases (Prod.mk.inj h).1
      · rw [← (Prod.mk.inj h).2]

theorem persistAgent_agents_cases (inputs : Option (String × String)) (row : AgentRecord) :
    (persistAgent H inputs row s).2.agents = s.agents ∨
      s.agents.insert row = some (persistAgent H inputs row s).2.agents := by
  unfold persistAgent
  cases hi : insertAgent s.agents row with
  | error e => exact .inl rfl
  | ok agents =>
    refine .inr ((insertAgent_eq_ok hi).trans ?_)
    dsimp only
    split
    · rfl
    · split
      · rfl
      · rfl

theorem limitRegistrations_agents (H : Host C) (call : RegisterCall) (humanKeyImage : String)
    (s : Registry C) : (limitRegistrations H call humanKeyImage s).2.agents = s.agents :=
  rfl

theorem consumeChallenge_agents (call : RegisterCall) (s : Registry C) :
    (consumeChallenge call s).2.agents = s.agents := by
  unfold consumeChallenge
  dsimp only
  split_ifs
  · rfl
  · rfl
  · rfl

theorem identifyAgent_eq_ok {humanKeyImage : String} (h : identifyAgent H call = .ok humanKeyImage) :
    sessionKeyImage H call = some humanKeyImage ∧
      (call.payload.humanKeyImage = "" ∨ call.payload.humanKeyImage = humanKeyImage) ∧
      checkIntent H call.payload = .ok () := by
  obtain ⟨human, hauth, h⟩ := bind_eq_ok.mp h
  obtain ⟨-, h⟩ := andThen_eq_ok.mp h
  obtain ⟨hintent, h⟩ := andThen_eq_ok.mp h
  obtain rfl : human = humanKeyImage := Except.ok.inj h
  unfold authenticate at hauth
  cases hs : sessionKeyImage H call with
  | none => simp [hs] at hauth
  | some k =>
    simp only [hs, andThen_eq_ok, ensure_eq_ok, pure, Except.pure, Except.ok.injEq] at hauth
    obtain ⟨hmatch, rfl⟩ := hauth
    exact ⟨rfl, hmatch, hintent⟩

/-- An accepted registration stores one new agent, and this is what its row is
made from. -/
theorem registerAgent_eq_ok {resp : RegisterAgentResponse}
    (h : exec (registerAgent H call) s = (.ok resp, t)) :
    ∃ human checksum mandateHash pinned parent,
      sessionKeyImage H call = some human ∧
      (call.payload.humanKeyImage = "" ∨ call.payload.humanKeyImage = human) ∧
      ownerMandateHash H s call = .ok mandateHash ∧
      parentOf H call human s.agents = .ok parent ∧
      s.agents.insert (newAgentRecord call human checksum mandateHash pinned parent) =
        some t.agents ∧
      resp.agentId = "agt_" ++ call.random := by
  simp only [registerAgent, exec_result_bind_eq_ok, exec_query_bind_eq_ok, exec_service_bind_eq_ok,
    exec_pure, Prod.mk.injEq, Except.ok.injEq] at h
  obtain ⟨human, hid, mandateHash, hmandate, ⟨⟩, s₁, hlimit, nonce, -, checksum, -, -, -, pinned,
    -, ⟨⟩, s₂, hconsume, points, -, -, -, -, -, parent, hparent, ajwt, -, ⟨⟩, s₃, hpersist, -, s₄,
    ⟨-, hjoin⟩, rfl, rfl⟩ := h
  obtain ⟨hsession, hmatch, -⟩ := identifyAgent_eq_ok hid
  have hagents : s₂.agents = s.agents := by
    have h₁ := limitRegistrations_agents H call human s
    have h₂ := consumeChallenge_agents call s₁
    rw [hlimit] at h₁
    rw [hconsume] at h₂
    exact h₂.trans h₁
  rw [hagents] at hparent
  have hinsert := persistAgent_agents hpersist
  rw [hagents] at hinsert
  refine ⟨human, checksum.value, mandateHash, pinned, parent, hsession, hmatch, hmandate, hparent,
    ?_, rfl⟩
  rw [hinsert, ← hjoin]
  rfl

end SauronId.Agent
