import SauronId.Agent.CallSig

namespace SauronId.Payloads

open CryptoProtocol Lib.Encoding Lib.Text
open Agent (OwnerMandateInput ownerMandatePayload)

structure CallSignatureInput where
  (agentId tenantId audience method targetUri contentType bodySha256Hex configDigest : String)
  (timestampMs nonce : String)

def callSignatureDomain : String := "sauron.call.v2"

def callSignatureVersion : String := "2"

def callSignaturePayload (input : CallSignatureInput) : Except Failure (List UInt8) :=
  canonicalFields callSignatureDomain
    [("version", callSignatureVersion), ("agent_id", input.agentId),
      ("tenant_id", input.tenantId), ("audience", input.audience), ("method", input.method),
      ("target_uri", input.targetUri), ("content_type", input.contentType),
      ("body_sha256", input.bodySha256Hex), ("config_digest", input.configDigest),
      ("timestamp_ms", input.timestampMs), ("nonce", input.nonce)]

structure PartnerRegistrationInput where
  (tenantId publicKeyHex keyImageHex firstName lastName email dateOfBirth nationality : String)
  (commitment authPublicKeyB64u : String)

def partnerRegistrationDomain : String := "sauron.partner-registration.v2"

def partnerRegistrationPayload (input : PartnerRegistrationInput) :
    Except Failure (List UInt8) :=
  canonicalFields partnerRegistrationDomain
    [("tenant_id", input.tenantId), ("public_key_hex", input.publicKeyHex),
      ("key_image_hex", input.keyImageHex), ("first_name", input.firstName),
      ("last_name", input.lastName), ("email", input.email),
      ("date_of_birth", input.dateOfBirth), ("nationality", input.nationality),
      ("commitment", input.commitment), ("auth_public_key_b64u", input.authPublicKeyB64u)]

def userAuthChallengeDomain : String := "sauron.user-auth-challenge.v1"

def userAuthChallengePayload (challengeId tenantId keyImageHex nonce : String) (expiresAt : ℤ) :
    Except Failure (List UInt8) :=
  canonicalFields userAuthChallengeDomain
    [("challenge_id", challengeId), ("tenant_id", tenantId), ("key_image_hex", keyImageHex),
      ("nonce", nonce), ("expires_at", toString expiresAt)]

inductive Payload
  | call (input : CallSignatureInput)
  | ownerMandate (input : OwnerMandateInput)
  | partnerRegistration (input : PartnerRegistrationInput)
  | userAuthChallenge (challengeId tenantId keyImageHex nonce : String) (expiresAt : ℤ)

namespace Payload

def encode : Payload → Except Failure (List UInt8)
  | call input => callSignaturePayload input
  | ownerMandate input => ownerMandatePayload input
  | partnerRegistration input => partnerRegistrationPayload input
  | userAuthChallenge challengeId tenantId keyImageHex nonce expiresAt =>
    userAuthChallengePayload challengeId tenantId keyImageHex nonce expiresAt

def domain : Payload → String
  | call _ => callSignatureDomain
  | ownerMandate _ => "sauron.owner-mandate.v1"
  | partnerRegistration _ => partnerRegistrationDomain
  | userAuthChallenge .. => userAuthChallengeDomain

def values : Payload → List String
  | call i => [callSignatureVersion, i.agentId, i.tenantId, i.audience, i.method, i.targetUri,
      i.contentType, i.bodySha256Hex, i.configDigest, i.timestampMs, i.nonce]
  | ownerMandate i => [i.tenantId, i.humanKeyImage, i.agentPublicKeyHex, i.popPublicKeyB64u,
      i.intentJson, i.ttlSecs]
  | partnerRegistration i => [i.tenantId, i.publicKeyHex, i.keyImageHex, i.firstName, i.lastName,
      i.email, i.dateOfBirth, i.nationality, i.commitment, i.authPublicKeyB64u]
  | userAuthChallenge challengeId tenantId keyImageHex nonce expiresAt =>
    [challengeId, tenantId, keyImageHex, nonce, toString expiresAt]

def names : Payload → List String
  | call _ => ["version", "agent_id", "tenant_id", "audience", "method", "target_uri",
      "content_type", "body_sha256", "config_digest", "timestamp_ms", "nonce"]
  | ownerMandate _ => ["tenant_id", "human_key_image", "agent_public_key_hex",
      "pop_public_key_b64u", "intent_json", "ttl_secs"]
  | partnerRegistration _ => ["tenant_id", "public_key_hex", "key_image_hex", "first_name",
      "last_name", "email", "date_of_birth", "nationality", "commitment",
      "auth_public_key_b64u"]
  | userAuthChallenge .. => ["challenge_id", "tenant_id", "key_image_hex", "nonce", "expires_at"]

def fields (p : Payload) : List (String × String) := p.names.zip p.values

theorem encode_eq (p : Payload) : p.encode = canonicalFields p.domain p.fields := by
  cases p <;> rfl

theorem length_names (p : Payload) : p.names.length = p.values.length := by
  cases p <;> rfl

theorem values_eq (p : Payload) : p.values = p.fields.map Prod.snd := by
  rw [fields, List.map_snd_zip]
  exact p.length_names.ge

theorem domains_ne : callSignatureDomain ≠ "sauron.owner-mandate.v1" ∧
    callSignatureDomain ≠ partnerRegistrationDomain ∧
    callSignatureDomain ≠ userAuthChallengeDomain ∧
    partnerRegistrationDomain ≠ "sauron.owner-mandate.v1" ∧
    userAuthChallengeDomain ≠ "sauron.owner-mandate.v1" ∧
    partnerRegistrationDomain ≠ userAuthChallengeDomain := by
  decide

theorem eq_of_values {p q : Payload} (hdomain : p.domain = q.domain)
    (hvalues : p.values = q.values) : p = q := by
  obtain ⟨hco, hcp, hcu, hpo, huo, hpu⟩ := domains_ne
  cases p with
  | call i =>
    cases q with
    | call j =>
      cases i
      cases j
      simp only [values, List.cons.injEq, and_true, true_and] at hvalues
      simpa only [call.injEq, CallSignatureInput.mk.injEq] using hvalues
    | ownerMandate j => exact absurd hdomain hco
    | partnerRegistration j => exact absurd hdomain hcp
    | userAuthChallenge => exact absurd hdomain hcu
  | ownerMandate i =>
    cases q with
    | call j => exact absurd hdomain.symm hco
    | ownerMandate j =>
      cases i
      cases j
      simp only [values, List.cons.injEq, and_true] at hvalues
      simpa only [ownerMandate.injEq, OwnerMandateInput.mk.injEq] using hvalues
    | partnerRegistration j => exact absurd hdomain.symm hpo
    | userAuthChallenge => exact absurd hdomain.symm huo
  | partnerRegistration i =>
    cases q with
    | call j => exact absurd hdomain.symm hcp
    | ownerMandate j => exact absurd hdomain hpo
    | partnerRegistration j =>
      cases i
      cases j
      simp only [values, List.cons.injEq, and_true] at hvalues
      simpa only [partnerRegistration.injEq, PartnerRegistrationInput.mk.injEq] using hvalues
    | userAuthChallenge => exact absurd hdomain hpu
  | userAuthChallenge challengeId tenantId keyImageHex nonce expiresAt =>
    cases q with
    | call j => exact absurd hdomain.symm hcu
    | ownerMandate j => exact absurd hdomain huo
    | partnerRegistration j => exact absurd hdomain.symm hpu
    | userAuthChallenge =>
      simp only [values, List.cons.injEq, and_true] at hvalues
      obtain ⟨rfl, rfl, rfl, rfl, hexp⟩ := hvalues
      rw [toString_int_injective hexp]

end Payload

/-- Every text of the encoding fits its length counter. -/
def Short (domain : String) (fields : List (String × String)) : Prop :=
  (bytes domain).length < 2 ^ 32 ∧
    ∀ f ∈ fields, (bytes f.1).length < 2 ^ 32 ∧ (bytes f.2).length < 2 ^ 32

instance (domain : String) (fields : List (String × String)) : Decidable (Short domain fields) :=
  inferInstanceAs (Decidable (_ ∧ _))

theorem eq_of_canonicalFields_eq {domain domain' : String} {fields fields' : List (String × String)}
    (hs : Short domain fields)
    (h : canonicalFields domain fields = canonicalFields domain' fields') :
    domain = domain' ∧ fields = fields' := by
  obtain ⟨w, hw⟩ := canonicalFields_isOk.mpr hs
  exact canonicalFields_inj hw (h ▸ hw)

/-- Equal bytes come from one domain and one list of fields, and among the signed
payloads from one builder called with one list of arguments. -/
theorem encodings_determine_arguments :
    (∀ (domain domain' : String) (fields fields' : List (String × String)),
      Short domain fields → Short domain' fields' →
      canonicalFields domain fields = canonicalFields domain' fields' →
      domain = domain' ∧ fields = fields') ∧
    (∀ p q : Payload, Short p.domain p.fields → Short q.domain q.fields →
      p.encode = q.encode → p = q) := by
  constructor
  · intro domain domain' fields fields' hs _ h
    exact eq_of_canonicalFields_eq hs h
  · intro p q hs _ h
    rw [p.encode_eq, q.encode_eq] at h
    obtain ⟨hdomain, hfields⟩ := eq_of_canonicalFields_eq hs h
    have hvalues : p.values = q.values := by rw [p.values_eq, q.values_eq, hfields]
    exact Payload.eq_of_values hdomain hvalues

/-- One challenge, with its expiry computed in two ways. -/
theorem encodings_determine_challenge :
    Payload.userAuthChallenge "c1" "acme" "k1" "n1" 42 =
      Payload.userAuthChallenge "c1" "acme" "k1" "n1" (6 * 7) :=
  encodings_determine_arguments.2 _ _ (by decide +kernel) (by decide +kernel) (by decide +kernel)

end SauronId.Payloads
