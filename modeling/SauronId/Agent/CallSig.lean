import SauronId.Agent.Register
import SauronId.Lib.Word

namespace SauronId.Agent

open CryptoProtocol Lib Lib.Encoding Lib.Text Lib.Word

/-- An error of the signature check: with a code and a hint, from the database,
or the end of a thread. -/
inductive CallError
  | detailed (status : ℕ) (code message fix : String)
  | internal (message : String)
  | panicked (message : String)
  deriving DecidableEq

structure Uri where
  (scheme authority : Option String)
  path : String
  query : Option String

structure CallHost where
  primitives : Primitives
  skewSetting : Option ℤ
  callAudience : String
  acceptDpop : Bool
  decodeB64u : String → Option (List UInt8)
  encodeB64u : List UInt8 → String
  parseJson : List UInt8 → Option Json
  parseUri : String → Option Uri
  validKey : List UInt8 → Bool
  verifyEd25519 : (publicKey message signature : List UInt8) → Bool

/-- A request. The value of a header is missing from a header that is no text. -/
structure CallRequest where
  headers : List (String × Option String)
  (tenantId method uriPath : String)
  uriPathAndQuery : Option String
  body : List UInt8

def CallRequest.contains (req : CallRequest) (name : String) : Bool :=
  (req.headers.lookup name).isSome

def CallRequest.header (req : CallRequest) (name : String) : Option String :=
  (req.headers.lookup name).join

def callSigHeadersFix : String :=
  "include x-sauron-agent-id, x-sauron-call-ts, x-sauron-call-nonce, x-sauron-call-sig, " ++
    "x-sauron-call-audience, x-sauron-protocol-version, and x-sauron-agent-config-digest on " ++
    "every signed call; see docs/sdk-integration.md"

def CallHost.callSigSkewMs (K : CallHost) : ℤ :=
  max 1000 (min (K.skewSetting.getD 60000) 600000)

def required (req : CallRequest) (name suffix : String) : Except CallError String :=
  (req.header name).elim (.error (.detailed 401 "call_sig_missing_header"
    (name ++ " header required" ++ suffix) callSigHeadersFix)) .ok

structure SignedCall where
  (agentId callTsStr : String)
  callTs : ℤ
  (nonce sigB64 : String)
  request : CallRequest

def protocolVersionError (message : String) : CallError :=
  .detailed 426 "call_sig_protocol_version" message
    "set x-sauron-protocol-version: 2 and use the call-sig v2 canonical payload"

def readSignedCall (K : CallHost) (req : CallRequest) : Except CallError SignedCall := do
  let agentId ← required req "x-sauron-agent-id" ""
  let callTsStr ← required req "x-sauron-call-ts" ""
  let callTs ← (parseI64 callTsStr).elim (.error (.detailed 401 "call_sig_bad_timestamp"
    "x-sauron-call-ts must be unix milliseconds"
    "send x-sauron-call-ts as ascii-decimal unix milliseconds")) .ok
  let nonce ← required req "x-sauron-call-nonce" ""
  let sigB64 ← required req "x-sauron-call-sig" ""
  let version ← (req.header "x-sauron-protocol-version").elim
    (.error (protocolVersionError "x-sauron-protocol-version: 2 required")) .ok
  ensure (version = "2") (protocolVersionError
    ("unsupported call-signature protocol version " ++ version ++ "; expected 2"))
  let audience ← required req "x-sauron-call-audience" ""
  ensure (audience = K.callAudience) (.detailed 401 "call_sig_audience_mismatch"
    "call signature audience mismatch"
    ("set x-sauron-call-audience to the server's configured audience " ++
      "(SAURON_CALL_AUDIENCE, default sauron-core)"))
  return ⟨agentId, callTsStr, callTs, nonce, sigB64, req⟩

def distance (nowMs time : ℤ) : ℤ := wrappingAbs (wrap (nowMs - time))

def checkSkew (K : CallHost) (call : SignedCall) (nowMs : ℤ) : Except CallError Unit :=
  ensure (distance nowMs call.callTs ≤ K.callSigSkewMs) (.detailed 401 "call_sig_timestamp_skew"
    "x-sauron-call-ts outside acceptable skew window"
    ("sync the client clock (NTP) and retry; the server accepts +/- SAURON_CALL_SIG_SKEW_MS " ++
      "(default 60000 ms) around its own time"))

def callAgent (agents : Table AgentRecord.agentId) (agentId tenantId : String) (now : ℤ) :
    Except CallError AgentRecord :=
  ((agents.get agentId).filter (fun a ↦ a.active tenantId ∧ now < a.expiresAt)).elim
    (.error (.detailed 401 "call_sig_unknown_agent" "unknown, revoked, or expired agent"
      ("register the agent (or re-register after expiry/revocation) and send its exact " ++
        "agent_id and tenant in x-sauron-agent-id / x-sauron-tenant-id"))) .ok

def requirePopKey (agent : AgentRecord) : Except CallError Unit :=
  ensure (agent.popPublicKeyB64u ≠ "") (.detailed 401 "call_sig_no_pop_key"
    ("agent has no pop_public_key_b64u registered " ++
      "(per-call signature requires PoP-bound agent)")
    "register the agent with an Ed25519 PoP public key before using per-call signatures")

def badPopKey (message : String) : CallError :=
  .detailed 401 "call_sig_bad_pop_key" message
    "re-register the agent PoP key as base64url(no-pad) of the 32-byte Ed25519 public key"

def decodePopKey (K : CallHost) (popPublicKeyB64u : String) : Except CallError (List UInt8) :=
  (K.decodeB64u (trim popPublicKeyB64u)).elim
    (.error (badPopKey "agent pop key invalid base64url")) .ok

def checkPopKey (K : CallHost) (key : List UInt8) : Except CallError Unit := do
  ensure (key.length = 32) (badPopKey "agent pop key wrong length")
  ensure (K.validKey key) (badPopKey "agent pop key not a valid Ed25519 point")

def checkConfigDigest (call : SignedCall) (agent : AgentRecord) : Except CallError String := do
  let claimed ← required call.request "x-sauron-agent-config-digest" " (Gap 4 enforcement)"
  ensure (claimed = agent.agentChecksum) (.detailed 401 "call_sig_config_digest_mismatch"
    ("agent runtime config digest does not match registered checksum " ++
      "(config drift; call /agent/<id>/checksum/update to rotate)")
    ("runtime config drifted from registered checksum; call " ++
      "POST /agent/\x7bagent_id\x7d/checksum/update with the new digest"))
  return claimed

def callSignaturePayload (K : CallHost) (call : SignedCall) (configDigest : String) :
    Except Failure (List UInt8) :=
  let req := call.request
  canonicalFields "sauron.call.v2"
    [("version", "2"), ("agent_id", call.agentId), ("tenant_id", req.tenantId),
      ("audience", K.callAudience), ("method", toAsciiUppercase req.method),
      ("target_uri", req.uriPathAndQuery.getD req.uriPath),
      ("content_type", toAsciiLowercase (trim ((req.header "content-type").getD ""))),
      ("body_sha256", hexEncode (K.primitives.sha256 req.body)),
      ("config_digest", configDigest), ("timestamp_ms", call.callTsStr), ("nonce", call.nonce)]

def CallError.ofFailure : Failure → CallError
  | .panicked message => .panicked message
  | .failed message => .internal message

def badSignatureEncoding (message : String) : CallError :=
  .detailed 401 "call_sig_bad_signature_encoding" message
    "send x-sauron-call-sig as base64url(no-pad) of the 64-byte Ed25519 signature"

def decodeSignature (K : CallHost) (sigB64 : String) : Except CallError (List UInt8) := do
  let sig ← (K.decodeB64u sigB64).elim
    (.error (badSignatureEncoding "x-sauron-call-sig invalid base64url")) .ok
  ensure (sig.length = 64) (badSignatureEncoding "x-sauron-call-sig wrong size")
  return sig

def authenticateCall (K : CallHost) (call : SignedCall) (agents : Table AgentRecord.agentId)
    (now : ℤ) : Except CallError Unit := do
  let agent ← callAgent agents call.agentId call.request.tenantId now
  requirePopKey agent
  let claimedDigest ← checkConfigDigest call agent
  let payload ← (callSignaturePayload K call claimedDigest).mapError .ofFailure
  let key ← decodePopKey K agent.popPublicKeyB64u
  checkPopKey K key
  let sig ← decodeSignature K call.sigB64
  ensure (K.verifyEd25519 key payload sig) (.detailed 401 "call_sig_invalid"
    "call signature verification failed"
    ("sign the sauron.call.v2 canonical payload with the registered Ed25519 PoP key; " ++
      "verify body_sha256 matches the exact bytes sent"))

def nonceExp (K : CallHost) (callTs : ℤ) : ℤ :=
  callTs.tdiv 1000 + K.callSigSkewMs.tdiv 1000 + 60

/-! ### Proofs in the form of RFC 9449 -/

structure DpopProof where
  (htm htu : String)
  iat : ℤ
  jti : String
  ath : Option String

def malformed (message : String) : CallError :=
  .detailed 401 "dpop_malformed_proof" message
    ("send DPoP as a compact JWS base64url(header).base64url(claims).base64url(signature) with " ++
      "header \x7btyp:\"dpop+jwt\", alg:\"EdDSA\", jwk:<Ed25519 OKP JWK>\x7d and claims " ++
      "\x7bhtm, htu, iat, jti\x7d")

def decodeJsonPart (K : CallHost) (part what : String) : Except CallError Json := do
  let raw ← (K.decodeB64u part).elim
    (.error (malformed "DPoP proof part is not valid base64url")) .ok
  (K.parseJson raw).elim (.error (malformed what)) .ok

def splitDot (l : List Char) : Option (String × List Char) :=
  match l.span (fun c ↦ c ≠ '.') with
  | (first, _ :: rest) => some (String.ofList first, rest)
  | (_, []) => none

def splitParts (proof : String) : Option (String × String × String) := do
  let (header, rest) ← splitDot (trim proof).toList
  let (claims, sig) ← splitDot rest
  return (header, claims, String.ofList sig)

def text (json : Json) (name : String) : Option String := (json.get name).bind Json.asStr

def proofKey (K : CallHost) (header : Json) (registeredPopPk : String) :
    Except CallError (List UInt8) := do
  ensure (text header "typ" = some "dpop+jwt") (malformed "DPoP proof typ must be dpop+jwt")
  ensure (text header "alg" = some "EdDSA") (malformed "DPoP proof alg must be EdDSA")
  let jwk ← (header.get "jwk").elim (.error (malformed "DPoP proof header missing jwk")) .ok
  ensure (text jwk "kty" = some "OKP" ∧ text jwk "crv" = some "Ed25519")
    (malformed "DPoP jwk must be kty OKP / crv Ed25519")
  let x ← (text jwk "x").elim (.error (malformed "DPoP jwk missing x")) .ok
  let registered ← decodePopKey K registeredPopPk
  let claimed ← (K.decodeB64u (trim x)).elim
    (.error (malformed "DPoP jwk x is not valid base64url")) .ok
  ensure (claimed = registered) (.detailed 401 "dpop_wrong_key"
    "DPoP proof jwk does not match the agent's registered PoP key"
    ("the DPoP jwk must be the agent's registered Ed25519 PoP public key (OKP/Ed25519, x = " ++
      "base64url(no-pad) of 32 bytes)"))
  checkPopKey K registered
  return registered

def proofClaims (claims : Json) : Except CallError DpopProof := do
  let htm ← (text claims "htm").elim (.error (malformed "DPoP proof missing htm claim")) .ok
  let htu ← (text claims "htu").elim (.error (malformed "DPoP proof missing htu claim")) .ok
  let iat ← ((claims.get "iat").bind Json.asI64).elim
    (.error (malformed "DPoP proof missing numeric iat claim")) .ok
  let jti ← (text claims "jti").elim (.error (malformed "DPoP proof missing jti claim")) .ok
  ensure (jti ≠ "" ∧ len jti ≤ 120) (malformed "DPoP jti must be 1..=120 chars")
  return ⟨htm, htu, iat, jti, text claims "ath"⟩

def verifyProof (K : CallHost) (proof registeredPopPk : String) : Except CallError DpopProof := do
  let (h, c, s) ← (splitParts proof).elim
    (.error (malformed "DPoP proof must have three dot-separated parts")) .ok
  let header ← decodeJsonPart K h "DPoP proof header is not valid JSON"
  let key ← proofKey K header registeredPopPk
  let sig ← (K.decodeB64u s).elim
    (.error (malformed "DPoP proof signature is not valid base64url")) .ok
  ensure (sig.length = 64) (malformed "DPoP proof signature wrong size")
  ensure (K.verifyEd25519 key (bytes (h ++ "." ++ c)) sig) (.detailed 401
    "dpop_invalid_signature" "DPoP proof signature verification failed"
    "sign base64url(header).base64url(claims) with the registered Ed25519 PoP key")
  let claims ← decodeJsonPart K c "DPoP proof claims are not valid JSON"
  proofClaims claims

def htuMismatch : CallError :=
  .detailed 401 "dpop_htu_mismatch" "DPoP htu does not match the request URI"
    "set the htu claim to the full request URI (scheme://host/path, no query or fragment)"

def checkHtu (K : CallHost) (proof : DpopProof) (req : CallRequest) : Except CallError Unit := do
  let htu ← (K.parseUri proof.htu).elim (.error htuMismatch) .ok
  ensure (htu.scheme.isSome ∧ htu.authority.isSome ∧ htu.query = none) htuMismatch
  ensure (htu.path = req.uriPath) htuMismatch
  ensureSome (req.header "host") (fun host ↦ ensureSome htu.authority (fun authority ↦
    ensure (eqIgnoreAsciiCase authority (trim host)) htuMismatch))

def checkContext (K : CallHost) (proof : DpopProof) (req : CallRequest) (nowMs : ℤ) :
    Except CallError Unit := do
  ensure (eqIgnoreAsciiCase proof.htm req.method) (.detailed 401 "dpop_htm_mismatch"
    "DPoP htm does not match the request method"
    "set the htm claim to the exact HTTP method of the request")
  checkHtu K proof req
  ensure (distance nowMs (saturate (proof.iat * 1000)) ≤ K.callSigSkewMs)
    (.detailed 401 "dpop_stale_iat" "DPoP iat outside acceptable skew window"
      ("set iat to current unix seconds and sync the client clock (NTP); the server accepts " ++
        "+/- SAURON_CALL_SIG_SKEW_MS (default 60000 ms)"))

def athMismatch : CallError :=
  .detailed 401 "dpop_ath_mismatch" "DPoP ath does not match the Authorization bearer token"
    "set ath to base64url(no-pad) of the SHA-256 of the exact Authorization bearer token bytes"

def bearerToken (req : CallRequest) : Option String :=
  (req.header "authorization").bind (fun v ↦
    if v.startsWith "Bearer " then some (String.ofList (v.toList.drop 7)) else none)

def checkAth (K : CallHost) (proof : DpopProof) (bearer : Option String) : Except CallError Unit :=
  ensureSome proof.ath (fun ath ↦ do
    let token ← bearer.elim (.error athMismatch) .ok
    ensure (ath = K.encodeB64u (K.primitives.sha256 (bytes token))) athMismatch)

/-- The part of `verify_dpop_request` before its second reading of the clock. -/
def proveDpop (K : CallHost) (req : CallRequest) (agents : Table AgentRecord.agentId) (now : ℤ) :
    Except CallError (String × DpopProof) := do
  let agentId ← (req.header "x-sauron-agent-id").elim (.error (.detailed 401
    "call_sig_missing_header" "x-sauron-agent-id header required"
    ("send x-sauron-agent-id alongside the DPoP proof; agent identity is never taken from the " ++
      "proof jwk"))) .ok
  let proofStr ← (req.header "dpop").elim (.error (malformed "DPoP header is not valid ascii")) .ok
  let agent ← callAgent agents agentId req.tenantId now
  requirePopKey agent
  let proof ← verifyProof K proofStr agent.popPublicKeyB64u
  return (agentId, proof)

def jtiExp (K : CallHost) (iat : ℤ) : ℤ := iat + K.callSigSkewMs.tdiv 1000 + 60

def dpopNonce (jti : String) : String := "dpop:" ++ jti

def usesDpop (K : CallHost) (req : CallRequest) : Bool :=
  req.contains "dpop" ∧ ¬ req.contains "x-sauron-call-sig" ∧ K.acceptDpop

/-! ### The time window -/

theorem distance_eq {nowMs time : ℤ} (hnow : 0 ≤ nowMs) (htime : time < 2 ^ 63)
    (hlate : nowMs - time < 2 ^ 63) : distance nowMs time = |nowMs - time| :=
  wrappingAbs_of_fits (by omega) hlate

theorem ediv_le_tdiv (x : ℤ) : x / 1000 ≤ x.tdiv 1000 := by
  rw [Int.tdiv_eq_ediv]
  split_ifs
  · omega
  · simp

theorem seconds_le_nonceExp {K : CallHost} {nowMs callTs : ℤ} (hwhole : K.callSigSkewMs % 1000 = 0)
    (hdist : |nowMs - callTs| ≤ K.callSigSkewMs) : (nowMs + 60000) / 1000 ≤ nonceExp K callTs := by
  obtain ⟨-, hle⟩ := abs_le.mp hdist
  have hts := ediv_le_tdiv callTs
  have hskew := ediv_le_tdiv K.callSigSkewMs
  unfold nonceExp
  omega

theorem seconds_le_jtiExp {K : CallHost} {nowMs iat : ℤ}
    (hdist : |nowMs - iat * 1000| ≤ K.callSigSkewMs) : (nowMs + 60000) / 1000 ≤ jtiExp K iat := by
  obtain ⟨-, hle⟩ := abs_le.mp hdist
  have hskew := ediv_le_tdiv K.callSigSkewMs
  unfold jtiExp
  omega

end SauronId.Agent
