import SauronId.Agent.Attestation
import SauronId.Lib.Base64
import SauronId.Lib.Der

namespace SauronId.Attestation

open Lib BigEndian Text

inductive TpmPublicKey
  | ed25519 (pk : { bs : List UInt8 // bs.length = 32 })
  | ecdsaP256 (point : List UInt8)
  | rsaPkcs1Spki (der : List UInt8)
  deriving DecidableEq

/-! ### The registered key -/

def splitOnce (sep : Char) (s : String) : Option (String × String) :=
  match s.toList.span (· ≠ sep) with
  | (first, _ :: rest) => some (String.ofList first, String.ofList rest)
  | (_, []) => none

def badCert {α : Type} (m : String) : Except Agent.AttestationError α := .error (.badCertChain m)

def ed25519Key (bs : List UInt8) (m : String) : Except Agent.AttestationError TpmPublicKey :=
  if h : bs.length = 32 then .ok (.ed25519 ⟨bs, h⟩) else badCert m

def p256Key (bs : List UInt8) (m : String) : Except Agent.AttestationError TpmPublicKey :=
  if bs.length ≠ 65 ∨ bs.head? ≠ some 0x04 then badCert m else .ok (.ecdsaP256 bs)

def parseTrustedPubkey (K : Codecs) (s : String) : Except Agent.AttestationError TpmPublicKey := do
  let (tag, b64) ← (splitOnce ':' s).elim
    (badCert "trusted_pubkey_b64u missing 'ed25519:|p256:|rsa:' tag prefix") .ok
  let bs ← (K.decodeB64u (trim b64)).mapError
    (fun e ↦ .badCertChain ("trusted_pubkey_b64u decode: " ++ e))
  if tag = "ed25519" then ed25519Key bs "ed25519 key is not 32 bytes"
  else if tag = "p256" then
    p256Key bs "p256 key must be 65-byte SEC1 uncompressed (0x04 || X || Y)"
  else if tag = "rsa" then return .rsaPkcs1Spki bs
  else badCert ("unknown trusted_pubkey tag '" ++ tag ++ "', expected ed25519|p256|rsa")

theorem ed25519Key_eq (pk : { bs : List UInt8 // bs.length = 32 }) (m : String) :
    ed25519Key pk m = .ok (.ed25519 pk) :=
  dif_pos pk.property

theorem p256Key_eq (xy : { bs : List UInt8 // bs.length = 64 }) (m : String) :
    p256Key (0x04 :: xy) m = .ok (.ecdsaP256 (0x04 :: xy)) := by
  simp [p256Key, xy.property]

/-! ### The key of the certificate -/

def derMalformed {α : Type} (m : String) : Except Agent.AttestationError α := .error (.malformed m)

def tlvLength (b0 : UInt8) (input : List UInt8) :
    Except Agent.AttestationError (ℕ × List UInt8) :=
  if b0 &&& 0x80 = 0 then .ok (b0.toNat, input)
  else
    let n := (b0 &&& 0x7f).toNat
    if n = 0 ∨ n > 4 ∨ input.length < n then derMalformed "der: bad length"
    else .ok (fromBytesBe (input.take n), input.drop n)

def derTlv : List UInt8 → Except Agent.AttestationError (UInt8 × List UInt8 × List UInt8)
  | tag :: b0 :: input => do
    let (len, input) ← tlvLength b0 input
    ensure (len ≤ input.length) (.malformed "der: length exceeds buffer")
    return (tag, input.take len, input.drop len)
  | _ => derMalformed "der: truncated TLV"

def skipFields : ℕ → List UInt8 → Except Agent.AttestationError (List UInt8)
  | 0, rest => return rest
  | n + 1, rest => do
    let (_, _, rest) ← derTlv rest
    skipFields n rest

def extractSpki (certDer : List UInt8) :
    Except Agent.AttestationError (List UInt8 × List UInt8) := do
  let (tag, certSeq, _) ← derTlv certDer
  ensure (tag = 0x30) (.malformed "cert: not a SEQUENCE")
  let (tag, tbs, _) ← derTlv certSeq
  ensure (tag = 0x30) (.malformed "tbsCertificate: not a SEQUENCE")
  let (t0, _, afterV0) ← derTlv tbs
  let rest ← skipFields 5 (if t0 = 0xa0 then afterV0 else tbs)
  let (tag, spki, _) ← derTlv rest
  ensure (tag = 0x30) (.malformed "SPKI: not a SEQUENCE")
  let (tag, alg, afterAlg) ← derTlv spki
  ensure (tag = 0x30) (.malformed "SPKI.algorithm: not a SEQUENCE")
  let (tag, oid, _) ← derTlv alg
  ensure (tag = 0x06) (.malformed "SPKI.algorithm.oid: not an OID")
  let (tag, bitstr, _) ← derTlv afterAlg
  ensure (tag = 0x03) (.malformed "SPKI.subjectPublicKey: not a BIT STRING")
  ensure (bitstr.head? = some 0x00)
    (.malformed "SPKI.subjectPublicKey: unexpected unused-bits byte")
  return (oid, bitstr.drop 1)

def oidEcPublicKey : List UInt8 := [0x2a, 0x86, 0x48, 0xce, 0x3d, 0x02, 0x01]

def oidRsaEncryption : List UInt8 := [0x2a, 0x86, 0x48, 0x86, 0xf7, 0x0d, 0x01, 0x01, 0x01]

def oidEd25519 : List UInt8 := [0x2b, 0x65, 0x70]

def aikPubkeyFromCert (certDer : List UInt8) : Except Agent.AttestationError TpmPublicKey := do
  let (oid, key) ← extractSpki certDer
  if oid = oidEcPublicKey then
    p256Key key "AIK cert EC key is not a 65-byte uncompressed P-256 point"
  else if oid = oidEd25519 then ed25519Key key "AIK cert Ed25519 key not 32 bytes"
  else if oid = oidRsaEncryption then return .rsaPkcs1Spki key
  else badCert "AIK cert SPKI algorithm is not P-256 / Ed25519 / RSA"

def tpmPubkeysEqual : TpmPublicKey → TpmPublicKey → Bool
  | .ed25519 x, .ed25519 y => x = y
  | .ecdsaP256 x, .ecdsaP256 y => x = y
  | .rsaPkcs1Spki x, .rsaPkcs1Spki y => x = y
  | _, _ => false

theorem tpmPubkeysEqual_iff {a b : TpmPublicKey} : tpmPubkeysEqual a b = true ↔ a = b := by
  cases a <;> cases b <;> simp [tpmPubkeysEqual]

/-! ### The walk reads the certificate -/

variable {input : List UInt8} {r : UInt8 × List UInt8 × List UInt8}

theorem and_bit_eq_zero_iff (b : UInt8) : b &&& 0x80 = 0 ↔ b.toNat < 128 := by
  have hb := b.toNat_lt
  have hbit : b.toNat &&& 2 ^ 7 = (b.toNat.testBit 7).toNat * 2 ^ 7 := Nat.and_two_pow _ _
  rw [← UInt8.toNat_inj, UInt8.toNat_and]
  change b.toNat &&& 2 ^ 7 = 0 ↔ _
  rw [hbit, Nat.testBit_eq_decide_div_mod_eq]
  simp
  omega

theorem toNat_and_mask (b : UInt8) : (b &&& 0x7f).toNat = b.toNat % 128 := by
  rw [UInt8.toNat_and]
  exact Nat.and_two_pow_sub_one_eq_mod _ 7

theorem tlvLength_eq_ok {b0 : UInt8} {r : ℕ × List UInt8} :
    tlvLength b0 input = .ok r ↔ Der.readLength b0 input = some r := by
  have hb := b0.toNat_lt
  have hmask := toNat_and_mask b0
  unfold tlvLength Der.readLength
  simp only [and_bit_eq_zero_iff, derMalformed]
  by_cases hshort : b0.toNat < 128
  · simp [hshort]
  · have hcount : (b0 &&& 0x7f).toNat = b0.toNat - 128 := by omega
    have hbad : (b0.toNat - 128 = 0 ∨ b0.toNat - 128 > 4 ∨ input.length < b0.toNat - 128) ↔
        (b0.toNat = 128 ∨ 132 < b0.toNat ∨ input.length < b0.toNat - 128) := by omega
    rw [if_neg hshort, if_neg hshort, hcount]
    simp only [hbad]
    split_ifs <;> simp

theorem derTlv_eq_ok : derTlv input = .ok r ↔ Der.read input = some r := by
  match input with
  | [] => simp [derTlv, Der.read, derMalformed]
  | [_] => simp [derTlv, Der.read, derMalformed]
  | tag :: b0 :: input =>
    simp only [derTlv, Der.read, bind_eq_ok, Option.bind_eq_some_iff, tlvLength_eq_ok]
    apply exists_congr
    rintro ⟨len, behind⟩
    simp [ensure, pure, Except.pure]

theorem skipFields_eq_ok {n : ℕ} {rest : List UInt8} :
    skipFields n input = .ok rest ↔ Der.skip n input = some rest := by
  induction n generalizing input with
  | zero => simp [skipFields, Der.skip, pure, Except.pure]
  | succ n ih =>
    simp only [skipFields, Der.skip, bind_eq_ok, Option.bind_eq_some_iff, derTlv_eq_ok, ih]

/-- The first element of the certificate's fields is read before it is known to be a version. -/
theorem skip_fields_iff {tbs rest : List UInt8} :
    (∃ t0 content after, Der.read tbs = some (t0, content, after) ∧
        Der.skip 5 (if t0 = 0xa0 then after else tbs) = some rest) ↔
      Der.skip (if tbs.head? = some Der.versionTag then 6 else 5) tbs = some rest := by
  cases hread : Der.read tbs with
  | none =>
    split_ifs <;> simp [Der.skip, hread]
  | some r =>
    obtain ⟨t0, content, after⟩ := r
    obtain ⟨bs, helement, rfl⟩ := Der.read_eq_some.mp hread
    have hhead : (bs ++ after).head? = some t0 := helement.head
    by_cases hversion : t0 = Der.versionTag
    · subst hversion
      simp [hhead, Der.skip, hread, Der.versionTag]
    · have hne : ¬ t0 = 0xa0 := hversion
      simp [hhead, hversion, hne]

theorem extractSpki_eq_ok {cert oid key : List UInt8} :
    extractSpki cert = .ok (oid, key) ↔
      ∃ alg rest, Der.KeyInfo cert alg (0 :: key) ∧
        Der.read alg = some (Der.objectIdentifierTag, oid, rest) := by
  simp only [extractSpki, bind_eq_ok, ensure_eq_ok, derTlv_eq_ok, skipFields_eq_ok, Prod.exists,
    exists_const, ← Der.keyInfo_eq_some, Der.keyInfo, Option.bind_eq_some_iff,
    Der.readTag_eq_some_iff_read]
  constructor
  · rintro ⟨_, certSeq, r₁, hcert, rfl, _, tbs, r₂, htbs, rfl, t0, v0, afterV0, hversion, rest,
      hskip, _, spki, r₃, hspki, rfl, _, alg, afterAlg, halg, rfl, _, _, r₄, hoid, rfl, _, bitstr,
      r₅, hbits, rfl, hunused, hok⟩
    obtain ⟨rfl, rfl⟩ := Prod.mk.inj (Except.ok.inj hok)
    have hbitstr : bitstr = 0 :: bitstr.drop 1 := by
      rw [List.drop_one]
      exact List.eq_cons_of_mem_head? hunused
    refine ⟨alg, r₄, ⟨certSeq, r₁, hcert, tbs, r₂, htbs, rest, ?_, spki, r₃, hspki, alg, afterAlg,
      halg, bitstr, r₅, hbits, congrArg (fun bits ↦ some (alg, bits)) hbitstr⟩, hoid⟩
    exact skip_fields_iff.mp ⟨t0, v0, afterV0, hversion, hskip⟩
  · rintro ⟨_, r₄, ⟨certSeq, r₁, hcert, tbs, r₂, htbs, rest, hskip, spki, r₃, hspki, alg, afterAlg,
      halg, bits, r₅, hbits, hok⟩, hoid⟩
    obtain ⟨rfl, rfl⟩ := Prod.mk.inj (Option.some.inj hok)
    obtain ⟨t0, v0, afterV0, hversion, hfields⟩ := skip_fields_iff.mpr hskip
    exact ⟨_, certSeq, r₁, hcert, rfl, _, tbs, r₂, htbs, rfl, t0, v0, afterV0, hversion, rest,
      hfields, _, spki, r₃, hspki, rfl, _, alg, afterAlg, halg, rfl, _, oid, r₄, hoid, rfl, _,
      _, r₅, hbits, rfl, rfl, rfl⟩

/-! ### Keys and certificates -/

/-- A key, for what it is and not for how it is written down. -/
inductive PublicKey
  | ed25519 (pk : { bs : List UInt8 // bs.length = 32 })
  | p256 (xy : { bs : List UInt8 // bs.length = 64 })
  | rsa (modulus exponent : ℕ)
  deriving DecidableEq

namespace PublicKey

def IsRsa : PublicKey → Prop
  | rsa _ _ => True
  | _ => False

def unsigned (n : ℕ) : List UInt8 :=
  let bs := toBytesBe n
  if bs.head?.any (fun b ↦ 0x80 ≤ b) then 0 :: bs else bs

def oidPrime256v1 : List UInt8 := [0x2a, 0x86, 0x48, 0xce, 0x3d, 0x03, 0x01, 0x07]

def oid : PublicKey → List UInt8
  | ed25519 _ => oidEd25519
  | p256 _ => oidEcPublicKey
  | rsa _ _ => oidRsaEncryption

def parameters : PublicKey → List UInt8
  | ed25519 _ => []
  | p256 _ => Der.encode Der.objectIdentifierTag oidPrime256v1
  | rsa _ _ => Der.encode Der.nullTag []

def subjectPublicKey : PublicKey → List UInt8
  | ed25519 pk => pk
  | p256 xy => 0x04 :: xy
  | rsa n e => Der.encode Der.sequenceTag
      (Der.encode Der.integerTag (unsigned n) ++ Der.encode Der.integerTag (unsigned e))

def algorithm (key : PublicKey) : List UInt8 :=
  Der.encode Der.objectIdentifierTag key.oid ++ key.parameters

def spki (key : PublicKey) : List UInt8 :=
  Der.encode Der.sequenceTag (Der.encode Der.sequenceTag key.algorithm ++
    Der.encode Der.bitStringTag (0 :: key.subjectPublicKey))

def textTag : PublicKey → String
  | ed25519 _ => "ed25519"
  | p256 _ => "p256"
  | rsa _ _ => "rsa"

def textBytes : PublicKey → List UInt8
  | ed25519 pk => pk
  | p256 xy => 0x04 :: xy
  | rsa n e => (rsa n e).spki

/-- The format that the documentation of `parse_trusted_pubkey` gives to operators. -/
def registered (key : PublicKey) : String :=
  key.textTag ++ ":" ++ Base64.encode key.textBytes

def claimed : PublicKey → TpmPublicKey
  | ed25519 pk => .ed25519 pk
  | p256 xy => .ecdsaP256 (0x04 :: xy)
  | rsa n e => .rsaPkcs1Spki (rsa n e).spki

def found : PublicKey → TpmPublicKey
  | ed25519 pk => .ed25519 pk
  | p256 xy => .ecdsaP256 (0x04 :: xy)
  | rsa n e => .rsaPkcs1Spki (rsa n e).subjectPublicKey

theorem length_oid_lt (key : PublicKey) : key.oid.length < 256 ^ 4 := by
  cases key <;> simp [oid, oidEd25519, oidEcPublicKey, oidRsaEncryption]

theorem spki_ne_subjectPublicKey (key : PublicKey) (n e : ℕ) :
    key.spki ≠ (rsa n e).subjectPublicKey := by
  intro h
  have hhead := congrArg List.head? (Der.encode_injective _ h)
  exact absurd hhead (by simp [Der.encode, Der.sequenceTag, Der.integerTag])

theorem claimed_eq_found_iff {key key' : PublicKey} :
    key.claimed = key'.found ↔ key = key' ∧ ¬ key.IsRsa := by
  cases key with
  | ed25519 pk => cases key' <;> simp [claimed, found, IsRsa]
  | p256 xy => cases key' <;> simp [claimed, found, IsRsa, Subtype.ext_iff]
  | rsa n e =>
    cases key' with
    | ed25519 pk => simp [claimed, found]
    | p256 xy => simp [claimed, found]
    | rsa n' e' => simpa [claimed, found, IsRsa] using spki_ne_subjectPublicKey (rsa n e) n' e'

end PublicKey

/-- The fields of a certificate by their contents. What stands behind the key, and behind the
signed part, is not looked at. -/
structure CertificateFields where
  version : Option (List UInt8)
  (serialNumber signature issuer validity subject : List UInt8)
  key : PublicKey
  (extensions signatureValue : List UInt8)

namespace CertificateFields

variable (c : CertificateFields)

def beforeKey : List (UInt8 × List UInt8) :=
  (c.version.map (Prod.mk Der.versionTag)).toList ++
    [(Der.integerTag, c.serialNumber), (Der.sequenceTag, c.signature), (Der.sequenceTag, c.issuer),
      (Der.sequenceTag, c.validity), (Der.sequenceTag, c.subject)]

def tbsCertificate : List UInt8 := Der.encodeAll c.beforeKey ++ (c.key.spki ++ c.extensions)

def content : List UInt8 := Der.encode Der.sequenceTag c.tbsCertificate ++ c.signatureValue

theorem length_beforeKey :
    c.beforeKey.length = if c.tbsCertificate.head? = some Der.versionTag then 6 else 5 := by
  cases hversion : c.version with
  | none => simp [tbsCertificate, beforeKey, hversion, Der.encodeAll, Der.encode, Der.integerTag,
      Der.versionTag]
  | some v => simp [tbsCertificate, beforeKey, hversion, Der.encodeAll, Der.encode]

end CertificateFields

/-- A certificate that has an encoding: a length takes at most 126 octets. -/
structure Certificate extends CertificateFields where
  encodable : toCertificateFields.content.length < 256 ^ 126

namespace Certificate

variable {c : Certificate}

def encode (c : Certificate) : List UInt8 := Der.encode Der.sequenceTag c.content

theorem keyInfo_encode (h : c.content.length < 256 ^ 4) :
    Der.KeyInfo c.encode c.key.algorithm (0 :: c.key.subjectPublicKey) := by
  have htbs : c.tbsCertificate.length < 256 ^ 4 := by
    have := Der.length_le_length_encode Der.sequenceTag c.tbsCertificate
    rw [CertificateFields.content, List.length_append] at h
    omega
  have hparts := htbs
  rw [CertificateFields.tbsCertificate, List.length_append, List.length_append] at hparts
  have hfields : Der.Elements c.beforeKey.length (Der.encodeAll c.beforeKey) :=
    Der.elements_encodeAll fun f hf ↦ lt_of_le_of_lt (Der.length_le_length_encodeAll hf) (by omega)
  rw [CertificateFields.length_beforeKey] at hfields
  have hspki : c.key.spki.length < 256 ^ 4 := by omega
  have hinfo := lt_of_le_of_lt (Der.length_le_length_encode _ _) hspki
  have hinner := hinfo
  rw [List.length_append] at hinner
  have halgorithm := Der.length_le_length_encode Der.sequenceTag c.key.algorithm
  have hkey := Der.length_le_length_encode Der.bitStringTag (0 :: c.key.subjectPublicKey)
  have hidentifier : Der.Element Der.sequenceTag c.key.algorithm
      (Der.encode Der.sequenceTag c.key.algorithm) := Der.element_encode (by omega)
  have hbits : Der.Element Der.bitStringTag (0 :: c.key.subjectPublicKey)
      (Der.encode Der.bitStringTag (0 :: c.key.subjectPublicKey)) := Der.element_encode (by omega)
  rw [← List.append_nil c.encode]
  exact .intro (Der.element_encode h) (Der.element_encode htbs) rfl hfields
    (Der.element_encode hinfo) rfl hidentifier hbits (by rw [List.append_nil])

theorem extractSpki_encode (h : c.content.length < 256 ^ 4) :
    extractSpki c.encode = .ok (c.key.oid, c.key.subjectPublicKey) := by
  exact extractSpki_eq_ok.mpr
    ⟨_, _, keyInfo_encode h, (Der.element_encode c.key.length_oid_lt).read c.key.parameters⟩

theorem aikPubkeyFromCert_encode (h : c.content.length < 256 ^ 4) :
    aikPubkeyFromCert c.encode = .ok c.key.found := by
  rw [aikPubkeyFromCert, extractSpki_encode h]
  cases c.key with
  | ed25519 pk => exact ed25519Key_eq pk _
  | p256 xy => exact p256Key_eq xy _
  | rsa n e => rfl

theorem aikPubkeyFromCert_encode_eq_ok {k : TpmPublicKey} :
    aikPubkeyFromCert c.encode = .ok k ↔ c.content.length < 256 ^ 4 ∧ k = c.key.found := by
  by_cases h : c.content.length < 256 ^ 4
  · rw [aikPubkeyFromCert_encode h, Except.ok.injEq]
    exact ⟨fun hk ↦ ⟨h, hk.symm⟩, fun hk ↦ hk.2.symm⟩
  · refine ⟨fun hk ↦ ?_, fun hk ↦ absurd hk.1 h⟩
    -- a length of five or more octets is not read
    obtain ⟨⟨oid, key⟩, hspki, -⟩ := bind_eq_ok.mp hk
    obtain ⟨⟨tag, body, rest⟩, hread, -⟩ := bind_eq_ok.mp hspki
    have hnone := @Der.read_encode_eq_none Der.sequenceTag c.content (by omega) c.encodable []
    rw [List.append_nil] at hnone
    rw [derTlv_eq_ok, encode, hnone] at hread
    cases hread

end Certificate

/-! ### Registering the key of a certificate -/

/-- The readers of the gate, where the one of the URL-safe alphabet reads what its encoder
writes. -/
structure UrlSafeCodecs extends Codecs where
  decodeB64u_encode : ∀ bs, decodeB64u (Base64.encode bs) = .ok bs

theorem splitOnce_append {sep : Char} {s : String} {first rest : List Char}
    (hs : s.toList = first ++ sep :: rest) (hfirst : sep ∉ first) :
    splitOnce sep s = some (String.ofList first, String.ofList rest) := by
  have hall : ∀ c ∈ first, decide (c ≠ sep) = true := by
    rintro c hc
    exact decide_eq_true (fun h ↦ hfirst (h ▸ hc))
  rw [splitOnce, hs, List.span_eq_takeWhile_dropWhile, List.takeWhile_append_of_pos hall,
    List.dropWhile_append_of_pos hall]
  simp

theorem isWhitespace_symbol (v : ℕ) : isWhitespace (Base64.symbol v) = false := by
  by_cases hv : v < 64
  · have hall : ∀ v ∈ List.range 64, isWhitespace (Base64.symbol v) = false := by decide
    exact hall v (List.mem_range.mpr hv)
  · rw [Base64.symbol, if_neg (by omega), if_neg (by omega), if_neg (by omega), if_neg (by omega)]
    rfl

theorem trim_base64 (bs : List UInt8) : trim (Base64.encode bs) = Base64.encode bs := by
  apply trim_eq_self
  intro c hc
  rw [Base64.encode, String.toList_ofList, List.mem_map] at hc
  obtain ⟨v, -, rfl⟩ := hc
  exact isWhitespace_symbol v

theorem splitOnce_registered (key : PublicKey) :
    splitOnce ':' key.registered = some (key.textTag, Base64.encode key.textBytes) := by
  have htext : key.registered.toList =
      key.textTag.toList ++ ':' :: (Base64.encode key.textBytes).toList := by
    rw [PublicKey.registered, String.toList_append, String.toList_append, List.append_assoc]
    rfl
  have hcolon : ':' ∉ key.textTag.toList := by cases key <;> simp [PublicKey.textTag]
  rw [splitOnce_append htext hcolon, String.ofList_toList, String.ofList_toList]

theorem parseTrustedPubkey_registered (K : UrlSafeCodecs) (key : PublicKey) :
    parseTrustedPubkey K.toCodecs key.registered = .ok key.claimed := by
  rw [parseTrustedPubkey, splitOnce_registered, Option.elim_some]
  simp only [bind, Except.bind, trim_base64, K.decodeB64u_encode, Except.mapError]
  cases key with
  | ed25519 pk => exact ed25519Key_eq pk _
  | p256 xy => exact p256Key_eq xy _
  | rsa n e => rfl

/-- The owner of a certificate who registers its key is let in exactly if the key is not an RSA key
and the certificate is not longer than the walk can read. Another key never passes for it. -/
theorem registered_key_equal_iff (K : UrlSafeCodecs) (cert : Certificate) :
    ((∃ claimed found, parseTrustedPubkey K.toCodecs cert.key.registered = .ok claimed ∧
        aikPubkeyFromCert cert.encode = .ok found ∧ tpmPubkeysEqual claimed found = true) ↔
      ¬ cert.key.IsRsa ∧ cert.content.length < 256 ^ 4) ∧
    ∀ key, key ≠ cert.key → ∀ claimed found,
      parseTrustedPubkey K.toCodecs key.registered = .ok claimed →
        aikPubkeyFromCert cert.encode = .ok found → tpmPubkeysEqual claimed found = false := by
  refine ⟨⟨?_, ?_⟩, ?_⟩
  · rintro ⟨claimed, found, hclaimed, hfound, heq⟩
    obtain ⟨hlen, rfl⟩ := Certificate.aikPubkeyFromCert_encode_eq_ok.mp hfound
    obtain rfl := Except.ok.inj ((parseTrustedPubkey_registered K cert.key).symm.trans hclaimed)
    exact ⟨(PublicKey.claimed_eq_found_iff.mp (tpmPubkeysEqual_iff.mp heq)).2, hlen⟩
  · rintro ⟨hrsa, hlen⟩
    exact ⟨_, _, parseTrustedPubkey_registered K cert.key,
      Certificate.aikPubkeyFromCert_encode_eq_ok.mpr ⟨hlen, rfl⟩,
      tpmPubkeysEqual_iff.mpr (PublicKey.claimed_eq_found_iff.mpr ⟨rfl, hrsa⟩)⟩
  · intro key hne claimed found hclaimed hfound
    obtain ⟨-, rfl⟩ := Certificate.aikPubkeyFromCert_encode_eq_ok.mp hfound
    obtain rfl := Except.ok.inj ((parseTrustedPubkey_registered K key).symm.trans hclaimed)
    rw [← Bool.not_eq_true, tpmPubkeysEqual_iff, PublicKey.claimed_eq_found_iff]
    exact fun heq ↦ hne heq.1

def urlSafeCodecs : UrlSafeCodecs where
  parseJson _ := .error "EOF while parsing a value at line 1 column 0"
  decodeB64 _ := .error "Invalid padding"
  decodeB64u s := (Base64.decode s).elim (.error "Invalid symbol") .ok
  decodeB64u_encode bs := by rw [Base64.decode_encode, Option.elim_some]

def rsaCertificate : Certificate where
  version := some [0x02, 0x01, 0x02]
  serialNumber := [0x01]
  signature := []
  issuer := []
  validity := []
  subject := []
  key := .rsa 3233 17
  extensions := []
  signatureValue := []
  encodable := by decide +kernel

/-- The text gives the whole structure of the key, the certificate only what its bit string
holds. -/
theorem registered_rsaCertificate :
    ∃ claimed found,
      parseTrustedPubkey urlSafeCodecs.toCodecs rsaCertificate.key.registered = .ok claimed ∧
        aikPubkeyFromCert rsaCertificate.encode = .ok found ∧
          tpmPubkeysEqual claimed found = false := by
  have hlen : rsaCertificate.content.length < 256 ^ 4 := by decide +kernel
  refine ⟨_, _, parseTrustedPubkey_registered urlSafeCodecs rsaCertificate.key,
    Certificate.aikPubkeyFromCert_encode hlen, ?_⟩
  decide +kernel

end SauronId.Attestation
