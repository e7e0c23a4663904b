import SauronId.Agent.CallSig
import SauronId.Attestation.Nitro
import SauronId.Attestation.Tpm2

namespace SauronId.Agent

open CryptoProtocol Lib Lib.Encoding Lib.Text
open SauronId.Attestation (Codecs NitroParsedDoc Tpm2QuotePayload parseNitroCose parseTpmsAttest
  utf8Error)

inductive AttestationError
  | decode (m : String)
  | badSignature
  | badCertChain (m : String)
  | measurementMismatch (expected got : String)
  | notImplemented (kind : String)
  | partialImplementation (m : String)
  | malformed (m : String)
  | empty
  deriving DecidableEq

namespace AttestationError

def ofDecoder : Attestation.AttestationError → AttestationError
  | .malformed m => .malformed m

end AttestationError

/-- A call of the gate returns an error, or panics on a text too long for its length prefix. -/
inductive GateFailure
  | panicked (message : String)
  | refused (e : AttestationError)
  deriving DecidableEq

namespace GateFailure

def ofFailure : Failure → GateFailure
  | .panicked message | .failed message => panicked message

end GateFailure

def AttestationKind.asStr : AttestationKind → String
  | none => ""
  | serverDerived => "server_derived"
  | ed25519Self => "ed25519_self"
  | tpm2Quote => "tpm2_quote"
  | sgxQuote => "sgx_quote"
  | sevSnp => "sev_snp"
  | armCca => "arm_cca"
  | nitroEnclave => "nitro_enclave"
  | appleSecure => "apple_secure"

structure NitroAttestationDoc where
  moduleId : String
  timestamp : ℕ
  pcrs : List (ℕ × String)
  publicKeyB64 : String
  (userDataB64 nonceB64 : Option String)
  certPem : String
  cabundlePem : List String

structure NitroAttestationEnvelope where
  format : String
  doc : NitroAttestationDoc

structure AttestationCodecs extends Codecs where
  readEnvelope : List UInt8 → Except String NitroAttestationEnvelope

/-- What the gate reads besides its arguments: the switches and the list of the environment, the
clock, which may stand before the epoch, and the verifiers of signatures and chains. -/
structure Gate where
  (requireHardware requirePreregistered : Bool)
  goldenMeasurements : List String
  verifyAttestation : AttestationKind → (blob : List UInt8) →
    (expectedMeasurement trustedPubkey : String) → Except AttestationError Unit
  now : Option ℕ

structure RegistrationAttestation where
  pinnedMeasurementHex : Option String
  deriving DecidableEq

/-! ### The measurement -/

def checkGolden (golden : List String) (measurement : String) : Except AttestationError Unit := do
  ensure (golden ≠ []) (.badCertChain ("SAURON_REQUIRE_PREREGISTERED_MEASUREMENT=1 but " ++
    "SAURON_ATTESTATION_GOLDEN_MEASUREMENTS is empty — no golden measurement to enforce against"))
  ensure (golden.any (fun g ↦ eqIgnoreAsciiCase g measurement)) (.measurementMismatch
    ("one of " ++ toString golden.length ++ " pre-registered golden measurement(s)") measurement)

def enforceRegistrationAttestation (G : Gate) (kind : AttestationKind) (blob : List UInt8)
    (trustedPubkey expectedMeasurement : String) :
    Except AttestationError RegistrationAttestation :=
  if ¬ needsChallenge kind then do
    ensure (¬ G.requireHardware) (.badCertChain ("SAURON_REQUIRE_HARDWARE_ATTESTATION=1: " ++
      "registration requires a verifiable hardware attestation kind (ed25519_self / tpm2_quote / " ++
      "nitro_enclave); got none/server_derived"))
    return ⟨none⟩
  else do
    ensure (¬ G.requireHardware ∨ kind = .tpm2Quote ∨ kind = .nitroEnclave)
      (.badCertChain ("SAURON_REQUIRE_HARDWARE_ATTESTATION=1: '" ++ kind.asStr ++
        "' is not an implemented hardware-backed kind; use tpm2_quote or nitro_enclave"))
    let measurement := trim expectedMeasurement
    ensure (measurement ≠ "") (.malformed ("expected_measurement_hex is required for hardware " ++
      "attestation kinds (operator asserts the measurement the blob must attest to)"))
    if G.requirePreregistered then checkGolden G.goldenMeasurements measurement
    G.verifyAttestation kind blob measurement trustedPubkey
    return ⟨some measurement⟩

/-! ### The challenge and the key -/

def attestationChallengeBinding (nonce popPublicKeyB64u : String) :
    Except Failure (List UInt8) :=
  canonicalFields "sauron.attestation-challenge.v1"
    [("nonce", nonce), ("pop_public_key_b64u", popPublicKeyB64u)]

def requireCtEqual (got expected : List UInt8) (message : String) : Except AttestationError Unit :=
  ensure (got = expected) (.malformed message)

def maxSkewSecs : ℕ := 300

def requireFreshTimestamp (G : Gate) (timestamp : ℕ) : Except AttestationError Unit := do
  let now ← G.now.elim (.error (.malformed "system clock before Unix epoch")) .ok
  let seconds := if 1000000000000 ≤ timestamp then timestamp / 1000 else timestamp
  ensure (now - seconds ≤ maxSkewSecs ∧ seconds - now ≤ maxSkewSecs)
    (.malformed "attestation timestamp is outside the five-minute freshness window")

structure Statement where
  (nonce key : List UInt8)
  timestamp : ℕ

def tpm2ExtraData (K : AttestationCodecs) (blob : List UInt8) :
    Except AttestationError (List UInt8) := do
  let payload ← (Tpm2QuotePayload.parseJson K.toCodecs blob).mapError .ofDecoder
  let attest ← (K.decodeB64 payload.attestB64).mapError
    (fun e ↦ .malformed ("attest_b64 decode: " ++ e))
  let parsed ← (parseTpmsAttest attest).mapError .ofDecoder
  return parsed.extraData

def parseNitroDev (K : AttestationCodecs) (blob : List UInt8) :
    Except AttestationError NitroAttestationDoc := do
  let env ← (K.readEnvelope blob).mapError (fun e ↦ .malformed ("nitro json: " ++ e))
  ensure (env.format = "dev") (.notImplemented ("nitro_enclave: only format='dev' supported in " ++
    "M1; M2 will add COSE/CBOR + AWS chain"))
  ensure (env.doc.pcrs ≠ []) (.malformed "nitro: pcrs map empty")
  return env.doc

def nitroDevStatement (K : AttestationCodecs) (blob : List UInt8) :
    Except AttestationError Statement := do
  let doc ← parseNitroDev K blob
  let nonceB64 ← doc.nonceB64.elim (.error (.malformed "Nitro document missing nonce")) .ok
  let nonce ← (K.decodeB64 nonceB64).mapError (fun e ↦ .malformed ("Nitro nonce base64: " ++ e))
  let key ← (K.decodeB64 doc.publicKeyB64).mapError
    (fun e ↦ .malformed ("Nitro public_key base64: " ++ e))
  return ⟨nonce, key, doc.timestamp⟩

def parseNitroCoseBlob (blob : List UInt8) : Except AttestationError NitroParsedDoc := do
  let (_, doc) ← (parseNitroCose blob).mapError .ofDecoder
  return doc

def nitroCoseStatement (blob : List UInt8) : Except AttestationError Statement := do
  let doc ← parseNitroCoseBlob blob
  let nonce ← doc.nonce.elim (.error (.malformed "Nitro document missing nonce")) .ok
  let key ← doc.publicKey.elim (.error (.malformed "Nitro document missing public_key")) .ok
  return ⟨nonce, key, doc.timestamp⟩

def nitroStatement (K : AttestationCodecs) (blob : List UInt8) :
    Except AttestationError Statement :=
  if blob.head? = some 0x7b then nitroDevStatement K blob else nitroCoseStatement blob

def selfPayload (K : AttestationCodecs) (blob : List UInt8) : Except AttestationError Json := do
  let text ← (String.fromUTF8? ⟨blob.toArray⟩).elim
    (.error (.decode ("blob is not utf-8: " ++ utf8Error blob))) .ok
  let (payloadPart, _) ← (splitDot text.toList).elim
    (.error (.decode "expected '<payload_b64u>.<sig_b64u>'")) .ok
  let payloadBytes ← (K.decodeB64u payloadPart).mapError (fun e ↦ .decode ("payload b64u: " ++ e))
  (K.parseJson payloadBytes).mapError (fun e ↦ .decode ("payload not JSON: " ++ e))

def selfText (payload : Json) (name : String) : Except AttestationError String :=
  (text payload name).elim (.error (.malformed ("self-attestation payload missing " ++ name))) .ok

def checkTpm2Binding (K : AttestationCodecs) (P : Primitives) (blob : List UInt8)
    (nonce popPublicKeyB64u : String) : Except GateFailure Unit := do
  let extraData ← (tpm2ExtraData K blob).mapError .refused
  let binding ← (attestationChallengeBinding nonce popPublicKeyB64u).mapError .ofFailure
  (requireCtEqual extraData (P.sha256 binding)
    "TPM quote extraData does not bind the issued challenge and PoP key").mapError .refused

def checkNitroBinding (K : AttestationCodecs) (G : Gate) (blob : List UInt8)
    (nonce popPublicKeyB64u : String) : Except AttestationError Unit := do
  let popKey ← (K.decodeB64u (trim popPublicKeyB64u)).mapError
    (fun e ↦ .malformed ("PoP key base64url: " ++ e))
  let said ← nitroStatement K blob
  requireCtEqual said.nonce (bytes nonce) "Nitro nonce mismatch"
  requireCtEqual said.key popKey "Nitro public key is not the agent PoP key"
  requireFreshTimestamp G said.timestamp

def checkSelfBinding (K : AttestationCodecs) (G : Gate) (blob : List UInt8)
    (nonce popPublicKeyB64u : String) : Except AttestationError Unit := do
  let payload ← selfPayload K blob
  let gotNonce ← selfText payload "nonce"
  let gotKey ← selfText payload "pop_public_key_b64u"
  requireCtEqual (bytes gotNonce) (bytes nonce) "attestation nonce mismatch"
  requireCtEqual (bytes gotKey) (bytes popPublicKeyB64u) "attestation PoP key mismatch"
  let ts ← ((payload.get "ts").bind Json.asU64).elim
    (.error (.malformed "self-attestation payload missing ts")) .ok
  requireFreshTimestamp G ts

def checkBinding (K : AttestationCodecs) (P : Primitives) (G : Gate) (kind : AttestationKind)
    (blob : List UInt8) (nonce popPublicKeyB64u : String) : Except GateFailure Unit :=
  match kind with
  | .none | .serverDerived => .ok ()
  | .tpm2Quote => checkTpm2Binding K P blob nonce popPublicKeyB64u
  | .nitroEnclave => (checkNitroBinding K G blob nonce popPublicKeyB64u).mapError .refused
  | .ed25519Self => (checkSelfBinding K G blob nonce popPublicKeyB64u).mapError .refused
  | .sgxQuote | .sevSnp | .armCca | .appleSecure =>
    .error (.refused (.notImplemented "fresh challenge binding for this attestation kind"))

def enforceRegistrationAttestationBound (K : AttestationCodecs) (P : Primitives) (G : Gate)
    (kind : AttestationKind) (blob : List UInt8)
    (trustedPubkey expectedMeasurement nonce popPublicKeyB64u : String) :
    Except GateFailure RegistrationAttestation := do
  let verified ← (enforceRegistrationAttestation G kind blob trustedPubkey
    expectedMeasurement).mapError .refused
  checkBinding K P G kind blob nonce popPublicKeyB64u
  return verified

/-! ### One document for one challenge and one key -/

variable {K : AttestationCodecs} {P : Primitives} {G G' : Gate} {kind : AttestationKind}
  {blob : List UInt8} {nonce nonce' key key' : String}

theorem requireCtEqual_eq_ok {got expected : List UInt8} {message : String} {u : Unit} :
    requireCtEqual got expected message = .ok u ↔ got = expected :=
  ensure_eq_ok

theorem attestationChallengeBinding_inj {w : List UInt8}
    (h : attestationChallengeBinding nonce key = .ok w)
    (h' : attestationChallengeBinding nonce' key' = .ok w) : nonce = nonce' ∧ key = key' := by
  obtain ⟨-, hfields⟩ := canonicalFields_inj h h'
  simpa using hfields

theorem checkTpm2Binding_eq_ok {u : Unit} :
    checkTpm2Binding K P blob nonce key = .ok u ↔
      ∃ binding, attestationChallengeBinding nonce key = .ok binding ∧
        tpm2ExtraData K blob = .ok (P.sha256 binding) := by
  simp only [checkTpm2Binding, bind_eq_ok, mapError_eq_ok, requireCtEqual_eq_ok]
  constructor
  · rintro ⟨extraData, hextra, binding, hbinding, rfl⟩
    exact ⟨binding, hbinding, hextra⟩
  · rintro ⟨binding, hbinding, hextra⟩
    exact ⟨_, hextra, binding, hbinding, rfl⟩

theorem checkNitroBinding_eq_ok (h : checkNitroBinding K G blob nonce key = .ok ()) :
    ∃ said, nitroStatement K blob = .ok said ∧ said.nonce = bytes nonce ∧
      K.decodeB64u (trim key) = .ok said.key := by
  obtain ⟨popKey, hkey, h⟩ := bind_eq_ok.mp h
  obtain ⟨said, hsaid, h⟩ := bind_eq_ok.mp h
  obtain ⟨hnonce, h⟩ := andThen_eq_ok.mp h
  obtain ⟨heq, -⟩ := andThen_eq_ok.mp h
  refine ⟨said, hsaid, requireCtEqual_eq_ok.mp hnonce, ?_⟩
  rw [requireCtEqual_eq_ok.mp heq]
  exact mapError_eq_ok.mp hkey

theorem checkSelfBinding_eq_ok (h : checkSelfBinding K G blob nonce key = .ok ()) :
    ∃ payload, selfPayload K blob = .ok payload ∧ selfText payload "nonce" = .ok nonce ∧
      selfText payload "pop_public_key_b64u" = .ok key := by
  obtain ⟨payload, hpayload, h⟩ := bind_eq_ok.mp h
  obtain ⟨gotNonce, hnonce, h⟩ := bind_eq_ok.mp h
  obtain ⟨gotKey, hkey, h⟩ := bind_eq_ok.mp h
  obtain ⟨heqNonce, h⟩ := andThen_eq_ok.mp h
  obtain ⟨heqKey, -⟩ := andThen_eq_ok.mp h
  obtain rfl := bytes_injective (requireCtEqual_eq_ok.mp heqNonce)
  obtain rfl := bytes_injective (requireCtEqual_eq_ok.mp heqKey)
  exact ⟨payload, hpayload, hnonce, hkey⟩

theorem checkTpm2Binding_inj (hsha : Function.Injective P.sha256)
    (h : checkTpm2Binding K P blob nonce key = .ok ())
    (h' : checkTpm2Binding K P blob nonce' key' = .ok ()) : nonce = nonce' ∧ key = key' := by
  obtain ⟨binding, hbinding, hextra⟩ := checkTpm2Binding_eq_ok.mp h
  obtain ⟨binding', hbinding', hextra'⟩ := checkTpm2Binding_eq_ok.mp h'
  obtain rfl : binding = binding' := hsha (Except.ok.inj (hextra.symm.trans hextra'))
  exact attestationChallengeBinding_inj hbinding hbinding'

theorem checkNitroBinding_inj (h : checkNitroBinding K G blob nonce key = .ok ())
    (h' : checkNitroBinding K G' blob nonce' key' = .ok ()) :
    nonce = nonce' ∧ K.decodeB64u (trim key) = K.decodeB64u (trim key') := by
  obtain ⟨said, hsaid, hnonce, hkey⟩ := checkNitroBinding_eq_ok h
  obtain ⟨said', hsaid', hnonce', hkey'⟩ := checkNitroBinding_eq_ok h'
  obtain rfl := Except.ok.inj (hsaid.symm.trans hsaid')
  exact ⟨bytes_injective (hnonce.symm.trans hnonce'), hkey.trans hkey'.symm⟩

theorem checkSelfBinding_inj (h : checkSelfBinding K G blob nonce key = .ok ())
    (h' : checkSelfBinding K G' blob nonce' key' = .ok ()) : nonce = nonce' ∧ key = key' := by
  obtain ⟨payload, hpayload, hnonce, hkey⟩ := checkSelfBinding_eq_ok h
  obtain ⟨payload', hpayload', hnonce', hkey'⟩ := checkSelfBinding_eq_ok h'
  obtain rfl := Except.ok.inj (hpayload.symm.trans hpayload')
  exact ⟨Except.ok.inj (hnonce.symm.trans hnonce'), Except.ok.inj (hkey.symm.trans hkey')⟩

/-- What a blob is bound to does not depend on the clock, the environment or the verifiers. -/
theorem checkBinding_inj (hsha : Function.Injective P.sha256) (hkind : needsChallenge kind)
    (h : checkBinding K P G kind blob nonce key = .ok ())
    (h' : checkBinding K P G' kind blob nonce' key' = .ok ()) :
    nonce = nonce' ∧ K.decodeB64u (trim key) = K.decodeB64u (trim key') := by
  cases kind with
  | none | serverDerived => simp [needsChallenge] at hkind
  | tpm2Quote =>
    obtain ⟨rfl, rfl⟩ := checkTpm2Binding_inj hsha h h'
    exact ⟨rfl, rfl⟩
  | nitroEnclave => exact checkNitroBinding_inj (mapError_eq_ok.mp h) (mapError_eq_ok.mp h')
  | ed25519Self =>
    obtain ⟨rfl, rfl⟩ := checkSelfBinding_inj (mapError_eq_ok.mp h) (mapError_eq_ok.mp h')
    exact ⟨rfl, rfl⟩
  | sgxQuote | sevSnp | armCca | appleSecure => cases h

theorem checkBinding_of_accepted {trusted measurement : String} {v : RegistrationAttestation}
    (h : enforceRegistrationAttestationBound K P G kind blob trusted measurement nonce key = .ok v) :
    checkBinding K P G kind blob nonce key = .ok () := by
  obtain ⟨verified, -, h⟩ := bind_eq_ok.mp h
  exact (andThen_eq_ok.mp h).1

end SauronId.Agent
