import SauronId.Agent.Register

namespace SauronId.Agent

open SauronId.Action (Curve Rejection openCurve)
open CryptoProtocol Lib Lib.Encoding Lib.Handler Lib.Text
open Payment (UserRow)

/-- The stored agent stays within what the mandate grants: it lives no longer,
and has the owner, tenant, intent and keys the mandate names. -/
structure WithinMandate (row : AgentRecord) (m : OwnerMandateInput) : Prop where
  lifetime : ∃ ttl : ℤ, m.ttlSecs = toString ttl ∧ row.expiresAt - row.issuedAt ≤ ttl
  owner : row.humanKeyImage = m.humanKeyImage
  tenant : row.tenantId = m.tenantId
  intent : row.intentJson = m.intentJson
  publicKey : row.publicKeyHex = m.agentPublicKeyHex
  popKey : row.popPublicKeyB64u = m.popPublicKeyB64u

def RegisterCall.mandate (call : RegisterCall) : OwnerMandateInput where
  tenantId := call.tenantId
  humanKeyImage := call.payload.humanKeyImage
  agentPublicKeyHex := call.payload.publicKeyHex
  popPublicKeyB64u := call.payload.popPublicKeyB64u
  intentJson := call.payload.intentJson
  ttlSecs := toString call.payload.ttlSecs

variable {C : Curve} {H : Host C} {call : RegisterCall} {s t : Registry C}

theorem ownerMandatePayload_inj {m n : OwnerMandateInput} {w : List UInt8}
    (hm : ownerMandatePayload m = .ok w) (hn : ownerMandatePayload n = .ok w) : m = n := by
  have h := (canonicalFields_inj hm hn).2
  rcases m with ⟨_, _, _, _, _, _⟩
  rcases n with ⟨_, _, _, _, _, _⟩
  simp_all

structure Signed (H : Host C) (s : Registry C) (call : RegisterCall) (message : List UInt8) :
    Prop where
  verified : ∃ pk key sig, ownerKey s call.tenantId call.payload.humanKeyImage = some pk ∧
    sized 32 (H.decodeB64u (trim pk)) = some key ∧
    sized 64 (H.decodeB64u (trim (trim call.payload.ownerMandateSigB64u))) = some sig ∧
    H.verifyEd25519 key message sig = true

theorem ownerMandateHash_eq_ok {hash : String} (hsig : trim call.payload.ownerMandateSigB64u ≠ "")
    (h : ownerMandateHash H s call = .ok hash) :
    ∃ message, Signed H s call message ∧ ownerMandatePayload call.mandate = .ok message := by
  simp only [ownerMandateHash, hsig, if_false, verifyOwnerMandate, bind_eq_ok, elim_eq_ok,
    ensure_eq_ok, mapError_eq_ok] at h
  obtain ⟨pk, hpk, key, hkey, -, -, sig, hsigb, message, hmessage, -, hverify, -⟩ := h
  exact ⟨message, ⟨pk, key, sig, hpk, hkey, hsigb, hverify⟩, hmessage⟩

theorem registrationTtl_le_iff {p : RegisterAgentRequest} :
    registrationTtl p ≤ p.ttlSecs ↔ 60 ≤ p.ttlSecs := by
  unfold registrationTtl
  omega

theorem verifyUserSession_ne_empty {now : ℤ} {session tenantId key : String}
    (h : verifyUserSession H now session tenantId = some key) : key ≠ "" := by
  obtain ⟨⟨payload, sig⟩, -, h⟩ := Option.bind_eq_some_iff.mp h
  obtain ⟨-, h⟩ := guard_bind_eq_some.mp h
  split at h
  · obtain ⟨-, h⟩ := guard_bind_eq_some.mp h
    obtain ⟨⟨hlen, -⟩, h⟩ := guard_bind_eq_some.mp h
    obtain ⟨expiresAt, -, h⟩ := Option.bind_eq_some_iff.mp h
    obtain ⟨-, h⟩ := guard_bind_eq_some.mp h
    obtain rfl := Option.some.inj h
    intro he
    rw [he] at hlen
    exact absurd hlen (by decide)
  · cases h

theorem sessionKeyImage_ne_empty {key : String} (h : sessionKeyImage H call = some key) :
    key ≠ "" := by
  obtain ⟨session, -, h⟩ := Option.bind_eq_some_iff.mp h
  exact verifyUserSession_ne_empty h

/-- The row of an accepted call against the mandate of the call: only the clamped
lifetime and an owner left out of the body can differ. -/
theorem withinMandate_newAgentRecord {human checksum hash : String} {pinned : Option String}
    {parent : Option String × ℤ} (hsession : sessionKeyImage H call = some human)
    (hmatch : call.payload.humanKeyImage = "" ∨ call.payload.humanKeyImage = human) :
    WithinMandate (newAgentRecord call human checksum hash pinned parent) call.mandate ↔
      60 ≤ call.payload.ttlSecs ∧ call.payload.humanKeyImage ≠ "" := by
  have hlife : (newAgentRecord call human checksum hash pinned parent).expiresAt -
      (newAgentRecord call human checksum hash pinned parent).issuedAt =
      registrationTtl call.payload := by
    simp only [newAgentRecord]
    omega
  constructor
  · intro h
    obtain ⟨ttl, htext, hle⟩ := h.lifetime
    obtain rfl : call.payload.ttlSecs = ttl := toString_int_injective htext
    refine ⟨registrationTtl_le_iff.mp (hlife ▸ hle), fun hempty ↦ ?_⟩
    have howner : human = call.payload.humanKeyImage := h.owner
    exact sessionKeyImage_ne_empty hsession (howner.trans hempty)
  · rintro ⟨httl, hhuman⟩
    exact ⟨⟨_, rfl, hlife ▸ registrationTtl_le_iff.mpr httl⟩, (hmatch.resolve_left hhuman).symm,
      rfl, rfl, rfl, rfl⟩

/-- A registration accepted with a mandate stays within it exactly when the
signed lifetime is at least a minute and the body names its owner. -/
theorem accepted_within_mandate_iff {resp : RegisterAgentResponse}
    (h : exec (registerAgent H call) s = (.ok resp, t))
    (hsig : trim call.payload.ownerMandateSigB64u ≠ "") :
    ∃ row message, t.agents.get resp.agentId = some row ∧ Signed H s call message ∧
      (∃ m, ownerMandatePayload m = .ok message) ∧
      ∀ m, ownerMandatePayload m = .ok message →
        (WithinMandate row m ↔ 60 ≤ call.payload.ttlSecs ∧ call.payload.humanKeyImage ≠ "") := by
  obtain ⟨human, checksum, hash, pinned, parent, hsession, hmatch, hmandate, -, hinsert, hid⟩ :=
    registerAgent_eq_ok h
  obtain ⟨message, hsigned, hpayload⟩ := ownerMandateHash_eq_ok hsig hmandate
  refine ⟨newAgentRecord call human checksum hash pinned parent, message, ?_, hsigned,
    ⟨_, hpayload⟩, fun m hm ↦ ?_⟩
  · exact (Table.get_insert hinsert _).trans (if_pos hid)
  · rw [ownerMandatePayload_inj hm hpayload]
    exact withinMandate_newAgentRecord hsession hmatch

/-! ### A small deployment -/

def demoHost : Host openCurve where
  primitives := { countingPrimitives with hmacSha256 := measuringPrimitives.hmacSha256 }
  jwtSecret := []
  reader := ⟨fun _ ↦ .ok .null, fun s ↦ s⟩
  development := true
  requireOwnerMandate := true
  requireAgentType := false
  allowCustomChecksum := true
  serverDerivedAllowed := true
  storeInputsHashed := false
  limitAgentRegister := 10
  windowSecs := 60
  parseI64 := fun _ ↦ some 100
  encodeB64u := hexEncode
  decodeB64u := fun s ↦ .ok (List.replicate (if s = "sig" then 64 else 32) 1)
  validKey := fun _ ↦ true
  weakKey := fun _ ↦ false
  verifyEd25519 := fun _ _ _ ↦ true
  identity := []
  canonicalJson := fun _ ↦ ""
  validateProductionEgressPolicy := fun _ ↦ .ok ()
  enforceRegistrationAttestationBound := fun _ _ _ _ _ _ ↦ .ok none
  forgeAjwt := fun _ _ _ _ _ _ _ _ _ ↦ "ajwt"

def demoOwner : String := String.ofList (List.replicate 64 'a')

def demoKey : String := String.ofList (List.replicate 64 'b')

def demoSession : String :=
  let payload := "v2|acme|" ++ demoOwner ++ "|100"
  payload ++ "|" ++
    hexEncode (measuringPrimitives.hmacSha256 [] (bytes "|SESSION|" ++ bytes payload))

def demoRegistry : Registry openCurve where
  agents := .empty
  ownerKeys := ⟨[⟨demoOwner, "owner"⟩], List.nodup_singleton _⟩
  ownerBindings := [("acme", demoOwner)]
  counters := .empty
  challenges := .empty
  users := ⟨[⟨demoOwner, "FRA"⟩], List.nodup_singleton _⟩
  bankKycLinks := [demoOwner]
  checksumInputs := .empty
  agentGroup := []

def demoRequest (ttlSecs : ℤ) : RegisterAgentRequest where
  humanKeyImage := demoOwner
  ownerMandateSigB64u := "sig"
  agentChecksum := "sha256:00"
  agentType := ""
  checksumInputs := none
  attestationBlob := ""
  attestationKind := ""
  attestationChallengeId := ""
  intentJson := "\x7b\x7d"
  publicKeyHex := demoKey
  ringKeyImageHex := demoKey
  ttlSecs := ttlSecs
  parentAgentId := ""
  popJkt := "27"
  popPublicKeyB64u := "pop"
  workflowId := ""
  delegationChainJson := ""
  tpm2QuoteB64 := none
  tpm2AttestB64 := none
  tpm2SignatureB64 := none
  tpm2AikCertPem := none
  tpm2EkCertChainPem := none
  tpm2PcrSet := none
  tpm2AttestationPubkeyB64u := none
  expectedMeasurementHex := none
  attestationPubkeyB64u := none

def demoCall (ttlSecs : ℤ) : RegisterCall :=
  ⟨"acme", some demoSession, demoRequest ttlSecs, 10, 10, 10, 10, 10, "01"⟩

def demoRun (ttlSecs : ℤ) : Except Rejection RegisterAgentResponse × Registry openCurve :=
  exec (registerAgent demoHost (demoCall ttlSecs)) demoRegistry

theorem demoRun_accepted (ttlSecs : ℤ) (h : (demoRun ttlSecs).1.isOk = true) :
    ∃ resp t, demoRun ttlSecs = (.ok resp, t) := by
  rcases hr : demoRun ttlSecs with ⟨_ | resp, t⟩
  · rw [hr] at h
    cases h
  · exact ⟨resp, t, rfl⟩

/-- An hour was signed for, and the stored agent stays within the mandate. -/
theorem accepted_within_mandate_hour :
    ∃ resp t row message, demoRun 3600 = (.ok resp, t) ∧
      t.agents.get resp.agentId = some row ∧
      Signed demoHost demoRegistry (demoCall 3600) message ∧
      ∀ m, ownerMandatePayload m = .ok message → WithinMandate row m := by
  obtain ⟨resp, t, h⟩ := demoRun_accepted 3600 (by decide +kernel)
  obtain ⟨row, message, hrow, hsigned, -, hm⟩ :=
    accepted_within_mandate_iff h (by decide +kernel)
  refine ⟨resp, t, row, message, h, hrow, hsigned, fun m hpayload ↦ ?_⟩
  exact (hm m hpayload).mpr ⟨by decide, by decide +kernel⟩

/-- Half a minute was signed for, and the stored agent lives for a minute. -/
theorem half_minute_outlived :
    ∃ resp t message, demoRun 30 = (.ok resp, t) ∧
      Signed demoHost demoRegistry (demoCall 30) message ∧
      ownerMandatePayload (demoCall 30).mandate = .ok message ∧
      (demoCall 30).mandate.ttlSecs = "30" ∧
      (t.agents.get resp.agentId).map (fun row ↦ row.expiresAt - row.issuedAt) = some 60 := by
  obtain ⟨resp, t, h⟩ := demoRun_accepted 30 (by decide +kernel)
  obtain ⟨human, checksum, hash, pinned, parent, -, -, hmandate, -, hinsert, hid⟩ :=
    registerAgent_eq_ok h
  obtain ⟨message, hsigned, hpayload⟩ := ownerMandateHash_eq_ok (by decide +kernel) hmandate
  refine ⟨resp, t, message, h, hsigned, hpayload, by decide, ?_⟩
  rw [(Table.get_insert hinsert _).trans (if_pos hid), Option.map_some]
  rfl

end SauronId.Agent
