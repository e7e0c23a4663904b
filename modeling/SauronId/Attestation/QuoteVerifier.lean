import SauronId.Attestation.AikKey

namespace SauronId.Attestation

open Lib Encoding Text

/-- What the verifier of quotes reads besides its arguments: the codecs, the operator's trust
anchors, and the judgements of the X.509 and signature libraries at the time of the call. -/
structure QuoteHost extends Codecs where
  hexError : String → String
  parsePem : String → Except String (List UInt8)
  parsePems : String → Except String (List (List UInt8))
  trustedRoots : List (List UInt8)
  (trustAnchor endEntity : List UInt8 → Except String Unit)
  verifyChain : (endEntity : List UInt8) → (anchors intermediates : List (List UInt8)) →
    Except String Unit
  verifySignature : TpmPublicKey → (message signature : List UInt8) → Bool

structure AttestationContext where
  (expectedMeasurementHex trustedPubkeyB64u : String)

def verifyPcrDigest (H : QuoteHost) (parsed : TpmsAttest) (expectedPcrDigestHex : String) :
    Except Agent.AttestationError Unit := do
  let text := trim expectedPcrDigestHex
  let expected ← (hexDecode text).elim
    (.error (.malformed ("expected_pcr_digest_hex is not valid hex: " ++ H.hexError text))) .ok
  let mismatch : Agent.AttestationError :=
    .measurementMismatch (hexEncode expected) (hexEncode parsed.quote.pcrDigest)
  ensure (expected.length = parsed.quote.pcrDigest.length) mismatch
  ensure (parsed.quote.pcrDigest = expected) mismatch

def pemToSingleDer (H : QuoteHost) (input field : String) :
    Except Agent.AttestationError (List UInt8) :=
  (H.parsePem input).mapError (fun e ↦ .malformed (field ++ " not valid PEM: " ++ e))

def pemToMultiDer (H : QuoteHost) (input field : String) :
    Except Agent.AttestationError (List (List UInt8)) :=
  (H.parsePems input).mapError (fun e ↦ .malformed (field ++ " not valid PEM: " ++ e))

def verifyAikCertChain (H : QuoteHost) (aikCertPem : String) (ekChainPem : List String)
    (trustedRoots : List (List UInt8)) : Except Agent.AttestationError Unit := do
  ensure (trustedRoots ≠ []) (.partialImplementation ("no TPM2 vendor roots configured; place " ++
    "vendor DER certs at SAURON_TPM2_VENDOR_ROOTS_DIR (default /etc/sauronid/tpm2-roots/) — see " ++
    "docs/operations.md"))
  let aikDer ← pemToSingleDer H aikCertPem "aik_cert_pem"
  let intermediates ← ekChainPem.zipIdx.mapM (fun (blob, i) ↦
    pemToMultiDer H blob ("ek_chain_pem[" ++ toString i ++ "]"))
  trustedRoots.zipIdx.forM (fun (der, i) ↦ (H.trustAnchor der).mapError (fun e ↦
    .badCertChain ("trusted_roots[" ++ toString i ++ "] not a valid DER trust anchor: " ++ e)))
  (H.endEntity aikDer).mapError (fun e ↦ .badCertChain ("AIK end-entity parse: " ++ e))
  (H.verifyChain aikDer trustedRoots intermediates.flatten).mapError
    (fun e ↦ .badCertChain ("AIK→EK→root chain rejected by webpki: " ++ e))

def checkRegistered (H : QuoteHost) (trustedPubkey : String) (certPubkey : TpmPublicKey) :
    Except Agent.AttestationError Unit := do
  let registered := trim trustedPubkey
  if registered ≠ "" then
    let claimed ← parseTrustedPubkey H.toCodecs registered
    ensure (tpmPubkeysEqual claimed certPubkey) (.badCertChain
      "registered AIK pubkey does not match the AIK certificate SubjectPublicKeyInfo")

def verifyAikSignature (H : QuoteHost) (quoteBytes signature : List UInt8)
    (aikPubkey : TpmPublicKey) : Except Agent.AttestationError Unit :=
  ensure (H.verifySignature aikPubkey quoteBytes signature) .badSignature

def verifyTpm2Quote (H : QuoteHost) (blob : List UInt8) (ctx : AttestationContext) :
    Except Agent.AttestationError Unit := do
  let payload ← (Tpm2QuotePayload.parseJson H.toCodecs blob).mapError .ofDecoder
  let attestBytes ← (H.decodeB64 payload.attestB64).mapError
    (fun e ↦ .malformed ("attest_b64 decode: " ++ e))
  let signatureBytes ← (H.decodeB64 payload.signatureB64).mapError
    (fun e ↦ .malformed ("signature_b64 decode: " ++ e))
  let parsed ← (parseTpmsAttest attestBytes).mapError .ofDecoder
  verifyPcrDigest H parsed ctx.expectedMeasurementHex
  verifyAikCertChain H payload.aikCertPem [payload.ekCertChainPem] H.trustedRoots
  let aikDer ← pemToSingleDer H payload.aikCertPem "aik_cert_pem"
  let certPubkey ← aikPubkeyFromCert aikDer
  checkRegistered H ctx.trustedPubkeyB64u certPubkey
  verifyAikSignature H attestBytes signatureBytes certPubkey

/-! ### What acceptance depends on -/

variable {H H' : QuoteHost} {blob blob' : List UInt8} {ctx ctx' : AttestationContext}
  {parsed parsed' : TpmsAttest}

theorem verifyPcrDigest_eq_ok {expected : String} {u : Unit} :
    verifyPcrDigest H parsed expected = .ok u ↔
      hexDecode (trim expected) = some parsed.quote.pcrDigest := by
  simp only [verifyPcrDigest, bind_eq_ok, elim_eq_ok, ensure_eq_ok, exists_const]
  constructor
  · rintro ⟨_, hexpected, -, rfl⟩
    exact hexpected
  · intro h
    exact ⟨_, h, rfl, rfl⟩

structure Signed (K : Codecs) (blob : List UInt8) (payload : Tpm2QuotePayload)
    (attest signature : List UInt8) (parsed : TpmsAttest) : Prop where
  parse_blob : Tpm2QuotePayload.parseJson K blob = .ok payload
  decode_attest : K.decodeB64 payload.attestB64 = .ok attest
  decode_signature : K.decodeB64 payload.signatureB64 = .ok signature
  parse_attest : parseTpmsAttest attest = .ok parsed

structure Certified (H : QuoteHost) (ctx : AttestationContext) (payload : Tpm2QuotePayload)
    (key : TpmPublicKey) : Prop where
  chain : verifyAikCertChain H payload.aikCertPem [payload.ekCertChainPem] H.trustedRoots = .ok ()
  spki : (pemToSingleDer H payload.aikCertPem "aik_cert_pem" >>= aikPubkeyFromCert) = .ok key
  registered : checkRegistered H ctx.trustedPubkeyB64u key = .ok ()

variable {payload payload' : Tpm2QuotePayload} {attest attest' signature signature' : List UInt8}
  {key : TpmPublicKey}

theorem Signed.unique {K : Codecs} (h : Signed K blob payload attest signature parsed)
    (h' : Signed K blob payload' attest' signature' parsed') :
    payload = payload' ∧ attest = attest' ∧ signature = signature' ∧ parsed = parsed' := by
  obtain rfl := Except.ok.inj (h.parse_blob.symm.trans h'.parse_blob)
  obtain rfl := Except.ok.inj (h.decode_attest.symm.trans h'.decode_attest)
  obtain rfl := Except.ok.inj (h.decode_signature.symm.trans h'.decode_signature)
  obtain rfl := Except.ok.inj (h.parse_attest.symm.trans h'.parse_attest)
  exact ⟨rfl, rfl, rfl, rfl⟩

theorem verifyTpm2Quote_eq_ok :
    verifyTpm2Quote H blob ctx = .ok () ↔
      ∃ payload attest signature parsed key,
        Signed H.toCodecs blob payload attest signature parsed ∧
        hexDecode (trim ctx.expectedMeasurementHex) = some parsed.quote.pcrDigest ∧
        Certified H ctx payload key ∧ H.verifySignature key attest signature = true := by
  simp only [verifyTpm2Quote, bind_eq_ok, mapError_eq_ok, verifyPcrDigest_eq_ok,
    verifyAikSignature, ensure_eq_ok, exists_const]
  constructor
  · rintro ⟨payload, hpayload, attest, hattest, signature, hsignature, parsed, hparsed, hdigest,
      ⟨⟩, hchain, der, hder, key, hkey, ⟨⟩, hregistered, hsigned⟩
    exact ⟨payload, attest, signature, parsed, key, ⟨hpayload, hattest, hsignature, hparsed⟩,
      hdigest, ⟨hchain, bind_eq_ok.mpr ⟨der, hder, hkey⟩, hregistered⟩, hsigned⟩
  · rintro ⟨payload, attest, signature, parsed, key, ⟨hpayload, hattest, hsignature, hparsed⟩,
      hdigest, ⟨hchain, hspki, hregistered⟩, hsigned⟩
    obtain ⟨der, hder, hkey⟩ := bind_eq_ok.mp hspki
    exact ⟨payload, hpayload, attest, hattest, signature, hsignature, parsed, hparsed, hdigest,
      (), hchain, der, hder, key, hkey, (), hregistered, hsigned⟩

theorem digest_of_accepted (h : verifyTpm2Quote H blob ctx = .ok ())
    (hs : Signed H.toCodecs blob payload attest signature parsed) :
    hexDecode (trim ctx.expectedMeasurementHex) = some parsed.quote.pcrDigest := by
  obtain ⟨_, _, _, _, _, hs', hdigest, -⟩ := verifyTpm2Quote_eq_ok.mp h
  rwa [(hs.unique hs').2.2.2]

def ed25519Certificate : Certificate where
  version := none
  serialNumber := [0x01]
  signature := []
  issuer := []
  validity := []
  subject := []
  key := .ed25519 ⟨List.replicate 32 0x07, List.length_replicate⟩
  extensions := []
  signatureValue := []
  encodable := by decide +kernel

/-- The same digest, reported for the registers that `bitmap` selects. -/
def quoteOver (bitmap : List UInt8) : TpmsAttest where
  magic := tpmGeneratedValue
  kind := tpmStAttestQuote
  qualifiedSigner := []
  extraData := []
  clockInfo := ⟨0, 0, 0, 1⟩
  firmwareVersion := 1
  quote := ⟨[⟨11, bitmap⟩], [0xab]⟩

def pemText : String := "-----BEGIN CERTIFICATE-----" ++ "-----END CERTIFICATE-----"

def Tpm2QuotePayload.toJson (p : Tpm2QuotePayload) : Json :=
  .obj [("quote_b64", .str p.quoteB64), ("attest_b64", .str p.attestB64),
    ("signature_b64", .str p.signatureB64), ("aik_cert_pem", .str p.aikCertPem),
    ("ek_cert_chain_pem", .str p.ekCertChainPem)]

def bitmapPayload (blob : List UInt8) : Tpm2QuotePayload :=
  ⟨"q", hexEncode blob, "s", pemText, pemText⟩

def bitmapHost : QuoteHost where
  parseJson blob := .ok (bitmapPayload blob).toJson
  decodeB64 s := .ok (((hexDecode s).map (fun bitmap ↦ (quoteOver bitmap).encode)).getD [])
  decodeB64u _ := .error "Invalid symbol"
  hexError _ := "Odd number of digits"
  parsePem _ := .ok ed25519Certificate.encode
  parsePems _ := .ok []
  trustedRoots := [[]]
  trustAnchor _ := .ok ()
  endEntity _ := .ok ()
  verifyChain _ _ _ := .ok ()
  verifySignature _ _ _ := true

theorem get_cons_self (name : String) (v : Json) (fs : List (String × Json)) :
    (Json.obj ((name, v) :: fs)).get name = some v :=
  List.lookup_cons_self

theorem get_cons_ne {name k : String} (h : name ≠ k) (v : Json) (fs : List (String × Json)) :
    (Json.obj ((k, v) :: fs)).get name = (Json.obj fs).get name := by
  simp only [Json.get, List.lookup_cons, beq_false_of_ne h]

theorem parseJson_toJson {K : Codecs} (hjson : K.parseJson blob = .ok payload.toJson)
    (hshape : payload.validateShape K = .ok ()) :
    Tpm2QuotePayload.parseJson K blob = .ok payload := by
  rw [Tpm2QuotePayload.parseJson, hjson]
  simp (disch := decide) only [Except.mapError, bind, Except.bind, Tpm2QuotePayload.field,
    Tpm2QuotePayload.toJson, get_cons_self, get_cons_ne, Json.asStr, Option.bind_some,
    Option.elim_some]
  rw [show payload.validateShape K = .ok () from hshape]
  rfl

theorem toList_infix_append (s t : String) :
    s.toList <:+: (s ++ t).toList ∧ t.toList <:+: (s ++ t).toList := by
  rw [String.toList_append]
  exact ⟨(List.prefix_append _ _).isInfix, (List.suffix_append _ _).isInfix⟩

theorem checkPem_pemText (name : String) : Tpm2QuotePayload.checkPem name pemText = .ok () := by
  have htext : trim pemText ≠ "" := by decide +kernel
  have hmarkers := toList_infix_append "-----BEGIN CERTIFICATE-----" "-----END CERTIFICATE-----"
  exact andThen_eq_ok.mpr ⟨ensure_eq_ok.mpr htext, ensure_eq_ok.mpr hmarkers⟩

theorem checkBase64_bitmapHost {name value : String} (h : trim value ≠ "") :
    Tpm2QuotePayload.checkBase64 bitmapHost.toCodecs name value = .ok () :=
  andThen_eq_ok.mpr ⟨ensure_eq_ok.mpr h, rfl⟩

theorem signed_bitmapHost {b : UInt8} (hb : b ∈ [(1 : UInt8), 2]) :
    Signed bitmapHost.toCodecs [b] (bitmapPayload [b]) (quoteOver [b]).encode []
      (quoteOver [b]) := by
  have hruns : ∀ b ∈ [(1 : UInt8), 2], trim (hexEncode [b]) ≠ "" ∧
      bitmapHost.decodeB64 (hexEncode [b]) = .ok (quoteOver [b]).encode ∧
      bitmapHost.decodeB64 "s" = .ok [] ∧
      parseTpmsAttest (quoteOver [b]).encode = .ok (quoteOver [b]) := by
    decide +kernel
  obtain ⟨hne, hattest, hsignature, hparsed⟩ := hruns b hb
  refine ⟨parseJson_toJson rfl (andThen_eq_ok.mpr ⟨forM_eq_ok.mpr ?_, forM_eq_ok.mpr ?_⟩), hattest,
    hsignature, hparsed⟩
  · simp only [List.forall_mem_cons, List.not_mem_nil, false_implies, implies_true, and_true]
    exact ⟨checkBase64_bitmapHost (show trim "q" ≠ "" by decide), checkBase64_bitmapHost hne,
      checkBase64_bitmapHost (show trim "s" ≠ "" by decide)⟩
  · simp only [List.forall_mem_cons, List.not_mem_nil, false_implies, implies_true, and_true]
    exact ⟨checkPem_pemText _, checkPem_pemText _⟩

theorem accepted_bitmapHost {b : UInt8} (hb : b ∈ [(1 : UInt8), 2]) :
    verifyTpm2Quote bitmapHost [b] ⟨"ab", ""⟩ = .ok () := by
  have hspki := Certificate.aikPubkeyFromCert_encode (c := ed25519Certificate) (by decide +kernel)
  have hdigest : hexDecode (trim "ab") = some [0xab] := by decide
  exact verifyTpm2Quote_eq_ok.mpr ⟨_, _, _, _, _, signed_bitmapHost hb, hdigest,
    ⟨rfl, hspki, by decide⟩, rfl⟩

end SauronId.Attestation
