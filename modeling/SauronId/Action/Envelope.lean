import SauronId.CryptoProtocol
import SauronId.Json
import SauronId.Lib.Text

namespace SauronId.Action

open Lib CryptoProtocol Lib.Encoding Lib.Text

structure Rejection where
  status : ℕ
  message : String
  deriving DecidableEq

structure AgentActionEnvelope where
  (agentId humanKeyImage action resource merchantId : String)
  amountMinor : ℤ
  (currency nonce : String)
  expiresAt : ℤ
  (policyHash ajwtJti : String)
  deriving DecidableEq

structure AnonActionEnvelope where
  (tenantId ringId : String)
  alsoRingIds : List String
  (action resource merchantId : String)
  amountMinor : ℤ
  (currency configDigest nonce : String)
  expiresAt : ℤ
  deriving DecidableEq

structure RingSignature where
  keyImageHex : String
  body : List UInt8

structure AgentActionProof where
  envelope : AgentActionEnvelope
  ringSignature : RingSignature

structure AnonActionProof where
  envelope : AnonActionEnvelope
  ringSignature : RingSignature
  alsoRingSignatures : List RingSignature

structure ValidateAgentActionOptions where
  (tenantId agentId humanKeyImage ajwtJti : String)
  intent : Option Json
  expectedAction : String
  (expectedResource expectedMerchantId : Option String)
  expectedAmountMinor : Option ℤ
  (expectedCurrency popJkt : Option String)
  status : String

/-- What a signer commits to: the envelope, and for an anonymous action the key
image that stands for the signer. -/
inductive SignedEnvelope
  | identified (envelope : AgentActionEnvelope)
  | anonymous (envelope : AnonActionEnvelope) (keyImageHex : String)
  deriving DecidableEq

def canonicalEnvelopeJson (e : AgentActionEnvelope) : String :=
  "\x7b\"agent_id\":" ++ jsonStr e.agentId ++
  ",\"human_key_image\":" ++ jsonStr e.humanKeyImage ++
  ",\"action\":" ++ jsonStr e.action ++
  ",\"resource\":" ++ jsonStr e.resource ++
  ",\"merchant_id\":" ++ jsonStr e.merchantId ++
  ",\"amount_minor\":" ++ toString e.amountMinor ++
  ",\"currency\":" ++ jsonStr e.currency ++
  ",\"nonce\":" ++ jsonStr e.nonce ++
  ",\"expires_at\":" ++ toString e.expiresAt ++
  ",\"policy_hash\":" ++ jsonStr e.policyHash ++
  ",\"ajwt_jti\":" ++ jsonStr e.ajwtJti ++ "\x7d"

def canonicalAnonEnvelopeJson (e : AnonActionEnvelope) : String :=
  "\x7b\"tenant_id\":" ++ jsonStr e.tenantId ++
  ",\"ring_id\":" ++ jsonStr e.ringId ++
  ",\"also_ring_ids\":[" ++ ",".intercalate (e.alsoRingIds.map jsonStr) ++
  "],\"action\":" ++ jsonStr e.action ++
  ",\"resource\":" ++ jsonStr e.resource ++
  ",\"merchant_id\":" ++ jsonStr e.merchantId ++
  ",\"amount_minor\":" ++ toString e.amountMinor ++
  ",\"currency\":" ++ jsonStr e.currency ++
  ",\"config_digest\":" ++ jsonStr e.configDigest ++
  ",\"nonce\":" ++ jsonStr e.nonce ++
  ",\"expires_at\":" ++ toString e.expiresAt ++ "\x7d"

def actionHash (P : Primitives) (e : AgentActionEnvelope) : String :=
  hexEncode (P.sha256 (bytes (canonicalEnvelopeJson e)))

def anonActionHash (P : Primitives) (e : AnonActionEnvelope) : String :=
  hexEncode (P.sha256 (bytes (canonicalAnonEnvelopeJson e)))

def kyaPolicyMatrixVersion : String := "kya_matrix_v2"

def expectedPolicyHash (P : Primitives) (action : String) : String :=
  hexEncode (P.sha256 (bytes "SAURON_AGENT_ACTION_POLICY|" ++ bytes kyaPolicyMatrixVersion ++
    bytes "|" ++ bytes (trim action)))

def scopeTexts (scope : Option Json) : List String :=
  ((scope.bind Json.asArray).getD []).filterMap
    (fun v ↦ v.asStr.map (fun s ↦ toAsciiLowercase (trim s)))

def actionAllowedByIntent (intent : Option Json) (expectedAction : String) : Bool :=
  match intent with
  | none => false
  | some intent =>
    let expected := toAsciiLowercase (trim expectedAction)
    if expected = "" then false
    else
      let scopes := scopeTexts (intent.get "scope") ++
        scopeTexts ((intent.get "constraints").bind (fun v ↦ v.get "scope")) ++
        (((intent.get "action").bind Json.asStr).map
          (fun s ↦ toAsciiLowercase (trim s))).toList
      scopes.contains expected

def require : List (Bool × Rejection) → Except Rejection Unit
  | [] => .ok ()
  | (holds, rejection) :: rest => if holds then require rest else .error rejection

theorem require_eq_ok {checks : List (Bool × Rejection)} :
    require checks = .ok () ↔ ∀ c ∈ checks, c.1 = true := by
  induction checks with
  | nil => simp [require]
  | cons c checks ih =>
    rw [require, List.forall_mem_cons, ← ih]
    by_cases h : c.1 = true <;> simp [h]

def requireEqStr (label got expected : String) : Bool × Rejection :=
  (got = expected, ⟨401, "agent_action envelope " ++ label ++ " mismatch"⟩)

def requireEqStrIf (label got : String) (expected : Option String) : Bool × Rejection :=
  requireEqStr label got (expected.getD got)

def nonceLengthOk (nonce : String) : Bool := ¬ (len (trim nonce) < 16 ∨ 128 < len nonce)

/-- The part of `validate_agent_action` before the second clock reading. The
clock is read once here, for the expiry of the envelope. -/
def checkEnvelope (P : Primitives) (opts : ValidateAgentActionOptions) (env : AgentActionEnvelope)
    (clock : ℤ) : Except Rejection Unit :=
  require
    [requireEqStr "agent_id" env.agentId opts.agentId,
     requireEqStr "human_key_image" env.humanKeyImage opts.humanKeyImage,
     requireEqStr "action" env.action opts.expectedAction,
     requireEqStr "ajwt_jti" env.ajwtJti opts.ajwtJti,
     requireEqStrIf "resource" env.resource opts.expectedResource,
     requireEqStrIf "merchant_id" env.merchantId opts.expectedMerchantId,
     (env.amountMinor = opts.expectedAmountMinor.getD env.amountMinor,
       ⟨401, "agent_action envelope amount_minor mismatch"⟩),
     requireEqStrIf "currency" env.currency opts.expectedCurrency,
     (env.policyHash = expectedPolicyHash P opts.expectedAction,
       ⟨401, "agent_action policy_hash mismatch"⟩),
     (clock ≤ env.expiresAt, ⟨401, "agent_action envelope expired"⟩),
     (nonceLengthOk env.nonce, ⟨400, "agent_action nonce must be 16..128 chars"⟩),
     (actionAllowedByIntent opts.intent opts.expectedAction,
       ⟨403, "A-JWT intent does not allow agent_action action"⟩)]

def checkAlsoRings (ringId : String) : (before rest : List String) → Except Rejection Unit
  | _, [] => .ok ()
  | before, r :: rest =>
    if trim r = "" then .error ⟨400, "empty also_ring_ids entry"⟩
    else if r = ringId ∨ r ∈ before then
      .error ⟨400, "duplicate ring '" ++ r ++ "' in also_ring_ids"⟩
    else checkAlsoRings ringId (before ++ [r]) rest

/-- The part of `validate_anon_action` before its first query. -/
def checkAnonEnvelope (proof : AnonActionProof) (now : ℤ) : Except Rejection Unit := do
  let env := proof.envelope
  require
    [(trim env.ringId ≠ "", ⟨400, "ring_id is required"⟩),
     (nonceLengthOk env.nonce, ⟨400, "nonce must be 16..128 chars"⟩),
     (now ≤ env.expiresAt, ⟨401, "anon action envelope expired"⟩),
     (proof.alsoRingSignatures.length = env.alsoRingIds.length,
       ⟨400, "also_ring_signatures must have one signature per also_ring_ids entry"⟩)]
  checkAlsoRings env.ringId [] env.alsoRingIds

theorem not_expired_of_checkEnvelope {P : Primitives} {opts : ValidateAgentActionOptions}
    {env : AgentActionEnvelope} {clock : ℤ} (h : checkEnvelope P opts env clock = .ok ()) :
    clock ≤ env.expiresAt := by
  have hc := require_eq_ok.mp h (clock ≤ env.expiresAt, ⟨401, "agent_action envelope expired"⟩)
    (by simp)
  exact of_decide_eq_true hc

theorem not_expired_of_checkAnonEnvelope {proof : AnonActionProof} {now : ℤ}
    (h : checkAnonEnvelope proof now = .ok ()) : now ≤ proof.envelope.expiresAt := by
  obtain ⟨u, hu, -⟩ := bind_eq_ok.mp h
  have hc := require_eq_ok.mp hu
    (now ≤ proof.envelope.expiresAt, ⟨401, "anon action envelope expired"⟩) (by simp)
  exact of_decide_eq_true hc

end SauronId.Action
