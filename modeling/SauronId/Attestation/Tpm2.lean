import SauronId.Attestation.RoundTrip
import SauronId.Json
import SauronId.Lib.Text
import Mathlib.Data.List.Infix

namespace SauronId.Attestation

open Lib BigEndian Encoding Text

/-- The readers of JSON and of the two base64 alphabets that the gate links against. The errors
are those of the readers. -/
structure Codecs where
  parseJson : List UInt8 → Except String Json
  (decodeB64 decodeB64u : String → Except String (List UInt8))

section Quote

structure Tpm2QuotePayload where
  (quoteB64 attestB64 signatureB64 aikCertPem ekCertChainPem : String)

namespace Tpm2QuotePayload

def requireText (name value : String) : Except AttestationError Unit :=
  ensure (trim value ≠ "") (.malformed ("tpm2 quote field '" ++ name ++ "' is empty"))

def checkBase64 (K : Codecs) (name value : String) : Except AttestationError Unit := do
  requireText name value
  let _ ← (K.decodeB64 value).mapError
    (fun e ↦ .malformed ("tpm2 quote field '" ++ name ++ "' invalid base64: " ++ e))

def checkPem (name value : String) : Except AttestationError Unit := do
  requireText name value
  ensure ("-----BEGIN CERTIFICATE-----".toList <:+: value.toList ∧
      "-----END CERTIFICATE-----".toList <:+: value.toList)
    (.malformed ("tpm2 quote field '" ++ name ++ "' is not a PEM certificate"))

def validateShape (K : Codecs) (p : Tpm2QuotePayload) : Except AttestationError Unit := do
  [("quote_b64", p.quoteB64), ("attest_b64", p.attestB64), ("signature_b64", p.signatureB64)].forM
    (fun (name, value) ↦ checkBase64 K name value)
  [("aik_cert_pem", p.aikCertPem), ("ek_cert_chain_pem", p.ekCertChainPem)].forM
    (fun (name, value) ↦ checkPem name value)

def field (v : Json) (name : String) : Except AttestationError String :=
  ((v.get name).bind Json.asStr).elim
    (malformed ("tpm2 quote payload missing field '" ++ name ++ "'")) .ok

def parseJson (K : Codecs) (blob : List UInt8) : Except AttestationError Tpm2QuotePayload := do
  let v ← (K.parseJson blob).mapError (fun e ↦ .malformed ("tpm2 quote payload not JSON: " ++ e))
  let quoteB64 ← field v "quote_b64"
  let attestB64 ← field v "attest_b64"
  let signatureB64 ← field v "signature_b64"
  let aikCertPem ← field v "aik_cert_pem"
  let ekCertChainPem ← field v "ek_cert_chain_pem"
  let payload : Tpm2QuotePayload := ⟨quoteB64, attestB64, signatureB64, aikCertPem, ekCertChainPem⟩
  validateShape K payload
  return payload

end Tpm2QuotePayload

end Quote

section Attest

def tpmGeneratedValue : ℕ := 0xff544347

def tpmStAttestQuote : ℕ := 0x8018

structure TpmsClockInfo where
  (clock resetCount restartCount safe : ℕ)
  deriving DecidableEq

structure TpmsPcrSelection where
  hashAlg : ℕ
  pcrSelectBitmap : List UInt8
  deriving DecidableEq

structure TpmsQuoteInfo where
  pcrSelect : List TpmsPcrSelection
  pcrDigest : List UInt8
  deriving DecidableEq

structure TpmsAttest where
  (magic kind : ℕ)
  (qualifiedSigner extraData : List UInt8)
  clockInfo : TpmsClockInfo
  firmwareVersion : ℕ
  quote : TpmsQuoteInfo
  deriving DecidableEq

def readBytes (n : ℕ) (what : String) : Cursor (List UInt8) := fun rest ↦
  if rest.length < n then
    malformed ("TPMS_ATTEST truncated reading " ++ what ++ ": need " ++ toString n ++
      " bytes, have " ++ toString rest.length)
  else .ok (rest.take n, rest.drop n)

def readUint (width : ℕ) (what : String) : Cursor ℕ := do
  let bs ← readBytes width what
  return fromBytesBe bs

def readU8 (what : String) : Cursor ℕ := readUint 1 what

def readU16 (what : String) : Cursor ℕ := readUint 2 what

def readU32 (what : String) : Cursor ℕ := readUint 4 what

def readU64 (what : String) : Cursor ℕ := readUint 8 what

def boundTpm2b (what : String) (len : ℕ) : Cursor Unit := fun rest ↦
  if len > rest.length then
    malformed (what ++ ": TPM2B length " ++ toString len ++ " exceeds remaining buffer " ++
      toString rest.length)
  else .ok ((), rest)

def readTpm2b (what : String) : Cursor (List UInt8) := do
  let len ← readU16 what
  boundTpm2b what len
  readBytes len what

def check (holds : Prop) [Decidable holds] (m : String) : Cursor Unit :=
  if holds then return () else fail m

def readClockInfo : Cursor TpmsClockInfo := do
  let clock ← readU64 "clockInfo.clock"
  let resetCount ← readU32 "clockInfo.resetCount"
  let restartCount ← readU32 "clockInfo.restartCount"
  let safe ← readU8 "clockInfo.safe"
  return ⟨clock, resetCount, restartCount, safe⟩

def readPcrSelection : Cursor TpmsPcrSelection := do
  let hashAlg ← readU16 "pcrSelection.hashAlg"
  let sizeOfSelect ← readU8 "pcrSelection.sizeOfSelect"
  check (sizeOfSelect ≤ 32)
    ("pcrSelection.sizeOfSelect=" ++ toString sizeOfSelect ++ " exceeds upper bound 32")
  let bitmap ← readBytes sizeOfSelect "pcrSelection.pcrSelect"
  return ⟨hashAlg, bitmap⟩

def readPcrSelections : ℕ → Cursor (List TpmsPcrSelection)
  | 0 => return []
  | n + 1 => do
    let selection ← readPcrSelection
    let selections ← readPcrSelections n
    return selection :: selections

def readQuoteInfo : Cursor TpmsQuoteInfo := do
  let count ← readU32 "pcrSelect.count"
  check (count ≤ 64) ("pcrSelect.count=" ++ toString count ++ " exceeds sane upper bound 64")
  let pcrSelect ← readPcrSelections count
  let pcrDigest ← readTpm2b "pcrDigest"
  return ⟨pcrSelect, pcrDigest⟩

def readTpmsAttest : Cursor TpmsAttest := do
  let magic ← readU32 "magic"
  check (magic = tpmGeneratedValue) ("TPMS_ATTEST magic 0x" ++ hexEncode (be 4 magic) ++
    " != TPM_GENERATED_VALUE (0xff544347); blob did not originate inside a TPM")
  let kind ← readU16 "type"
  check (kind = tpmStAttestQuote) ("TPMS_ATTEST type 0x" ++ hexEncode (be 2 kind) ++
    " != TPM_ST_ATTEST_QUOTE (0x8018); only quote attestations are accepted")
  let qualifiedSigner ← readTpm2b "qualifiedSigner"
  let extraData ← readTpm2b "extraData"
  let clockInfo ← readClockInfo
  let firmwareVersion ← readU64 "firmwareVersion"
  let quote ← readQuoteInfo
  return ⟨magic, kind, qualifiedSigner, extraData, clockInfo, firmwareVersion, quote⟩

def parseTpmsAttest (bytes : List UInt8) : Except AttestationError TpmsAttest :=
  (readTpmsAttest bytes).map Prod.fst

end Attest

section Encode

def encodeTpm2b (b : List UInt8) : List UInt8 := be 2 b.length ++ b

def TpmsClockInfo.encode (c : TpmsClockInfo) : List UInt8 :=
  be 8 c.clock ++ (be 4 c.resetCount ++ (be 4 c.restartCount ++ be 1 c.safe))

def TpmsPcrSelection.encode (s : TpmsPcrSelection) : List UInt8 :=
  be 2 s.hashAlg ++ (be 1 s.pcrSelectBitmap.length ++ s.pcrSelectBitmap)

def TpmsQuoteInfo.encode (q : TpmsQuoteInfo) : List UInt8 :=
  be 4 q.pcrSelect.length ++ (q.pcrSelect.flatMap TpmsPcrSelection.encode ++
    encodeTpm2b q.pcrDigest)

def TpmsAttest.encode (a : TpmsAttest) : List UInt8 :=
  be 4 a.magic ++ (be 2 a.kind ++ (encodeTpm2b a.qualifiedSigner ++ (encodeTpm2b a.extraData ++
    (a.clockInfo.encode ++ (be 8 a.firmwareVersion ++ a.quote.encode)))))

variable {α β : Type} {p : Cursor α} {f : α → Cursor β} {bs cs : List UInt8} {a : α} {b : β}

end Encode

end SauronId.Attestation
