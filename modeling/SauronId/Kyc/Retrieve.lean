import SauronId.Kyc.Disclosure
import SauronId.Payment.Tables

namespace SauronId.Kyc

open SauronId.Action (AgentActionProof Curve Rejection Server ValidateAgentActionOptions
  kyaPolicyMatrixVersion)
open Agent (TextReader)
open Lib Lib.Encoding Lib.Handler Lib.Text
open SauronId.Payment (AssuranceLevel ComplianceConfig RiskCounter UsedJti answer authorizeAction
  checkAndIncrement consumeAjwtJti enforceJurisdiction hashBucket refusal)
open Receipt (ActionReceipt)
open Spend (RepoError)

structure ConsentRow where
  id : ℤ
  (tenantId userKeyImage siteName requestedClaimsJson : String)
  consentExpiresAt : ℤ
  consentToken : Option String
  (tokenUsed revoked : ℤ)
  issuingAgentId : Option String

structure ClientRow where
  name : String
  tokensB : ℤ

structure UserRow where
  (keyImageHex publicKeyHex nationality : String)

structure UsageRow where
  (clientName action : String)
  (isAgent timestamp : ℤ)

structure LogLine where
  timestamp : ℤ
  (actionType status detail : String)

structure RegistrationRow where
  (clientName userKeyImageHex source : String)
  timestamp : ℤ
  tenantId : String

def RegistrationRow.key (r : RegistrationRow) : String × String × String :=
  (r.clientName, r.userKeyImageHex, r.source)

/-- The tables behind the endpoint, and the two rings in memory. The agents are
those of the action endpoints. -/
structure Tables (C : Curve) where
  actions : Action.World C Unit
  consentLog : Table ConsentRow.id
  counters : Table RiskCounter.key
  users : Table UserRow.keyImageHex
  clients : Table ClientRow.name
  apiUsage : List UsageRow
  requestsLog : List LogLine
  registrations : Table RegistrationRow.key
  usedJtis : Table UsedJti.jti
  (userGroup agentGroup : List C.Point)

structure Deployment where
  server : Server
  reader : TextReader
  env : String → Option String
  (development userKycEnabled groth16Enabled kycGroth16Enabled : Bool)
  compliance : ComplianceConfig
  (windowSecs limitKycRetrieve : ℤ)

structure DelegatedAgentBinding where
  (agentId humanKeyImage ajwtJti : String)
  ajwtExp : ℤ
  intent : Json
  popJkt : String

structure KycRetrieveBody where
  (consentToken siteName : String)
  zkpProof : Option Json
  zkpCircuit : Option String
  zkpPublicSignals : Option (List String)
  requiredAction : Option String
  agentAction : Option AgentActionProof

inductive IssuerVerifyError
  | circuitOpen
  | transport (error : String)
  | jsonParse
  | upstream (status : ℕ)
  deriving DecidableEq

/-- A call of the endpoint: what the middleware and the client send, the answer
of the issuer, and the readings of the clock in their order. -/
structure RetrieveCall where
  tenantId : String
  binding : Option DelegatedAgentBinding
  payload : KycRetrieveBody
  now : ℤ
  today : String
  issuer : Except IssuerVerifyError Bool
  (usedAt loggedAt registeredAt : ℤ)
  random : String
  consumedAt : ℤ

variable {C : Curve}

/-! ### Up to the charge -/

def checkEnabled (D : Deployment) : Except Rejection Unit := do
  ensure D.userKycEnabled
    ⟨503, "end-user KYC retrieval disabled (SAURON_DISABLE_USER_KYC=1)"⟩
  ensure (D.groth16Enabled ∧ D.kycGroth16Enabled)
    ⟨503, "legacy KYC Groth16 verification is quarantined; deploy the reviewed transparent " ++
      "proof path or explicitly enable both reviewed Groth16 gates"⟩

def ConsentRow.carries (tenantId token : String) (r : ConsentRow) : Bool :=
  r.tenantId = tenantId ∧ r.consentToken = some token

def ConsentRow.usable (now : ℤ) (r : ConsentRow) : Bool :=
  r.tokenUsed = 0 ∧ r.revoked = 0 ∧ (r.consentExpiresAt = 0 ∨ now < r.consentExpiresAt)

def ConsentRow.markUsed (r : ConsentRow) : ConsentRow := { r with tokenUsed := 1 }

def consentRefusal (now : ℤ) : Option ConsentRow → String
  | none => "Invalid or expired consent token"
  | some r =>
    if r.revoked = 1 then "Consent token revoked"
    else if r.tokenUsed = 1 then "Consent token already used"
    else if 0 < r.consentExpiresAt ∧ r.consentExpiresAt < now then "Consent token expired"
    else "Invalid or expired consent token"

def consumeConsentToken (tenantId token : String) (now : ℤ) (log : Table ConsentRow.id) :
    Except RepoError ConsentRow × Table ConsentRow.id :=
  if token = "" then (.error (.backend "missing consent token"), log)
  else if 256 < len token then (.error (.backend "consent token too long"), log)
  else
    let carries := ConsentRow.carries tenantId token
    if log.rows.any (fun r ↦ carries r ∧ r.usable now) then
      let used := log.updateWhere (fun r ↦ carries r ∧ r.usable now) .markUsed (fun _ ↦ rfl)
      match used.rows.find? carries with
      | some row => (.ok row, used)
      | none => (.error (.replay "Invalid or expired consent token"), log)
    else (.error (.replay (consentRefusal now (log.rows.find? carries))), log)

def consentRejection : RepoError → Rejection
  | .replay s => ⟨if s = "Consent token already used" then 409 else 401, s⟩
  | .backend s => ⟨500, s⟩

def takeConsent (call : RetrieveCall) (s : Tables C) : Except Rejection ConsentRow × Tables C :=
  let (consumed, log) :=
    consumeConsentToken call.tenantId call.payload.consentToken call.now s.consentLog
  (consumed.mapError consentRejection, { s with consentLog := log })

def checkConsent (call : RetrieveCall) (consent : ConsentRow) : Except Rejection Unit := do
  ensure (consent.siteName = call.payload.siteName)
    ⟨401, "Consent token was not issued for this site"⟩
  ensureSome consent.issuingAgentId (fun expectedAgentId ↦ do
    let binding ← call.binding.elim (.error ⟨401, "Delegated agent binding missing"⟩) .ok
    ensure (binding.agentId = expectedAgentId ∧ binding.humanKeyImage = consent.userKeyImage)
      ⟨401, "Delegated agent binding mismatch"⟩)

def limitRetrievals (D : Deployment) (call : RetrieveCall) (userKeyImage : String)
    (s : Tables C) : Except Rejection Unit × Tables C :=
  let (checked, counters) := checkAndIncrement D.windowSecs s.counters
    (hashBucket D.server.primitives "kyc_retrieve"
      [call.tenantId, call.payload.siteName, userKeyImage]) call.now D.limitKycRetrieve
  refusal 429 (checked, { s with counters := counters })

def checkJurisdiction (D : Deployment) (userKeyImage : String) (s : Tables C) :
    Except Rejection Unit :=
  (enforceJurisdiction D.compliance
    (((s.users.get userKeyImage).map UserRow.nationality).getD "")).mapError
      (fun message ↦ ⟨403, message⟩)

structure Statement where
  circuit : String
  publicSignals : List String

def readStatement (D : Deployment) (call : RetrieveCall) : Except Rejection (Json × Statement) := do
  let p := call.payload
  let proof ← p.zkpProof.elim (.error ⟨400, "zkp_proof is required"⟩) .ok
  let signals ← p.zkpPublicSignals.elim (.error ⟨400, "zkp_public_signals are required"⟩) .ok
  ensure (signals ≠ []) ⟨400, "zkp_public_signals must not be empty"⟩
  let circuit := p.zkpCircuit.getD "CredentialVerification"
  enforceAuthoritativeKycPublicInputs D.development D.env call.today circuit signals
  return (proof, ⟨circuit, signals⟩)

def issuerRejection : IssuerVerifyError → Rejection
  | .circuitOpen => ⟨503, "ZKP issuer verify-proof temporarily unavailable (circuit open)"⟩
  | .transport e => ⟨503, "ZKP issuer unreachable: " ++ e⟩
  | .jsonParse => ⟨502, "ZKP issuer returned unreadable JSON for verify-proof"⟩
  | .upstream status => ⟨502, "ZKP issuer verify-proof returned HTTP " ++ toString status⟩

def verifyProof (D : Deployment) (call : RetrieveCall) (proof : Json) : Except Rejection Bool :=
  if ((proof.get "dev_mock").bind Json.asBool).getD false then do
    ensure D.development ⟨400, "dev_mock proofs are disabled outside development"⟩
    return true
  else call.issuer.mapError issuerRejection

def checkProof (D : Deployment) (call : RetrieveCall) (proof : Json) : Except Rejection Unit := do
  let verified ← verifyProof D call proof
  ensure verified ⟨401, "ZKP proof verification failed"⟩

structure Clearance where
  consent : ConsentRow
  statement : Statement
  claims : Claims

/-- `kyc_retrieve` up to the charge. -/
def clear (D : Deployment) (call : RetrieveCall) : Handler Rejection (Tables C) Clearance := do
  result (checkEnabled D)
  let consent ← service (takeConsent call)
  result (checkConsent call consent)
  service (limitRetrievals D call consent.userKeyImage)
  query (checkJurisdiction D consent.userKeyImage)
  let (proof, statement) ← result (readStatement D call)
  result (checkProof D call proof)
  let claims ← result (disclosedClaims D.reader statement.circuit statement.publicSignals
    consent.requestedClaimsJson)
  return ⟨consent, statement, claims⟩

/-! ### The charge -/

def ClientRow.funded (siteName : String) (c : ClientRow) : Bool :=
  c.name = siteName ∧ 0 < c.tokensB

def ClientRow.debit (c : ClientRow) : ClientRow := { c with tokensB := c.tokensB - 1 }

theorem ClientRow.name_debit (c : ClientRow) : c.debit.name = c.name := rfl

def Tables.balance (s : Tables C) (siteName : String) : Option ℤ :=
  (s.clients.get siteName).map ClientRow.tokensB

def charge (siteName : String) (s : Tables C) : Except Rejection ℤ × Tables C :=
  if s.clients.rows.any (ClientRow.funded siteName) then
    let clients := s.clients.updateWhere (ClientRow.funded siteName) .debit ClientRow.name_debit
    let s := { s with clients := clients }
    (.ok ((s.balance siteName).getD 0), s)
  else
    (.error ⟨402, "Client '" ++ siteName ++ "' has no credits. Buy credits before retrieval."⟩, s)

/-! ### After the charge -/

/-- `&s[..n]`, which panics off a boundary of a character. -/
def takeBytes : ℕ → List Char → Option (List Char)
  | 0, _ => some []
  | _ + 1, [] => none
  | n + 1, c :: rest =>
    if c.utf8Size ≤ n + 1 then (takeBytes (n + 1 - c.utf8Size) rest).map (c :: ·) else none

def recordUsage (call : RetrieveCall) (consent : ConsentRow) (s : Tables C) : Tables C :=
  let isAgent := consent.issuingAgentId.isSome
  let row : UsageRow := ⟨call.payload.siteName, if isAgent then "kyc_agent" else "kyc_human",
    if isAgent then 1 else 0, call.usedAt⟩
  { s with apiUsage := s.apiUsage ++ [row] }

def shortKeyImage (consent : ConsentRow) : Except Rejection String :=
  (takeBytes 16 consent.userKeyImage.toList).elim
    (.error ⟨500, "byte index 16 is out of bounds or not a char boundary"⟩)
    (fun l ↦ .ok (String.ofList l))

def recordRetrieval (call : RetrieveCall) (consent : ConsentRow) (short : String)
    (s : Tables C) : Tables C :=
  let line : LogLine := ⟨call.loggedAt, "KYC_RETRIEVE", "OK",
    "site=" ++ call.payload.siteName ++ " user=" ++ short⟩
  let row : RegistrationRow := ⟨call.payload.siteName, consent.userKeyImage, "kyc_retrieval",
    call.registeredAt, call.tenantId⟩
  { s with
    requestsLog := s.requestsLog ++ [line]
    registrations := (s.registrations.insert row).getD s.registrations }

def ristretto (C : Curve) (hex : String) : Option C.Point := do
  let raw ← hexDecode hex
  guard (raw.length = 32)
  C.decompress raw

def inRing (group : List C.Point) (hex : String) : Bool :=
  (ristretto C hex).any group.contains

def humanInUserRing (s : Tables C) (userKeyImage : String) : Bool :=
  (s.users.get userKeyImage).any (fun u ↦ inRing s.userGroup u.publicKeyHex)

def activeAgent (s : Tables C) (tenantId agentId : String) : Option Action.AgentRow :=
  (Action.findAgent s.actions.directory agentId tenantId).filter (fun a ↦ a.revoked = 0)

def agentInAgentRing (s : Tables C) (agent : Option Action.AgentRow) : Bool :=
  agent.any (fun a ↦ a.publicKeyHex ≠ "" ∧ inRing s.agentGroup a.publicKeyHex)

def checkTrust (call : RetrieveCall) (consent : ConsentRow) (s : Tables C) :
    Except Rejection (Option Action.AgentRow) := do
  let agent := consent.issuingAgentId.bind (activeAgent s call.tenantId)
  ensure (humanInUserRing s consent.userKeyImage ∧
      (consent.issuingAgentId = none ∨ agentInAgentRing s agent))
    ⟨401, "Ring trust verification failed for consent owner or delegated agent"⟩
  return agent

structure ActionPolicy where
  (action reason assuranceLevel policyVersion : String)

def checkAction (call : RetrieveCall) (agent : Option Action.AgentRow) :
    Except Rejection ActionPolicy := do
  let action := call.payload.requiredAction.getD ""
  ensure (trim action ≠ "")
    ⟨400, "required_action is mandatory for agent-mediated retrieval"⟩
  let assurance := (agent.map Action.AgentRow.assuranceLevel).getD "delegated_nonbank"
  let decision := authorizeAction (.fromDb assurance) action
  ensure decision.allowed
    ⟨403, "Policy denied action '" ++ action ++ "': " ++ decision.reason⟩
  return ⟨action, decision.reason, assurance, kyaPolicyMatrixVersion⟩

def retrievalOptions (call : RetrieveCall) (binding : DelegatedAgentBinding) :
    ValidateAgentActionOptions where
  tenantId := call.tenantId
  agentId := binding.agentId
  humanKeyImage := binding.humanKeyImage
  ajwtJti := binding.ajwtJti
  intent := some binding.intent
  expectedAction := call.payload.requiredAction.getD ""
  expectedResource := some ("kyc_retrieve:" ++ call.payload.siteName)
  expectedMerchantId := some call.payload.siteName
  expectedAmountMinor := some 0
  expectedCurrency := some ""
  popJkt := some binding.popJkt
  status := "accepted"

def presentedAction (call : RetrieveCall) :
    Except Rejection (DelegatedAgentBinding × AgentActionProof) := do
  let binding ← call.binding.elim (.error ⟨401, "delegated agent binding context missing"⟩) .ok
  let proof ← call.payload.agentAction.elim
    (.error ⟨400, "agent_action is required for agent-mediated retrieval"⟩) .ok
  return (binding, proof)

def validateAction (D : Deployment) (call : RetrieveCall) (binding : DelegatedAgentBinding)
    (proof : AgentActionProof) (s : Tables C) : Except Rejection ActionReceipt × Tables C :=
  let (outcome, actions) := Action.validateAgentAction D.server (retrievalOptions call binding)
    proof call.random s.actions
  (answer outcome, { s with actions := actions })

def consumeJti (call : RetrieveCall) (binding : DelegatedAgentBinding) (s : Tables C) :
    Except Rejection Unit × Tables C :=
  let (consumed, used) :=
    consumeAjwtJti s.usedJtis binding.ajwtJti binding.ajwtExp call.consumedAt
  refusal 401 (consumed, { s with usedJtis := used })

def authorizeAgent (D : Deployment) (call : RetrieveCall) (consent : ConsentRow)
    (agent : Option Action.AgentRow) :
    Handler Rejection (Tables C) (Option (ActionPolicy × ActionReceipt)) :=
  if consent.issuingAgentId = none then pure none
  else do
    let policy ← result (checkAction call agent)
    let (binding, proof) ← result (presentedAction call)
    let receipt ← service (validateAction D call binding proof)
    service (consumeJti call binding)
    return some (policy, receipt)

structure RetrieveResponse where
  statement : Statement
  tokensBRemaining : ℤ
  claims : Claims
  (agentId agentPubKeyHex agentAssuranceLevel : Option String)
  authorized : Option (ActionPolicy × ActionReceipt)

/-- `kyc_retrieve` from the charge on. -/
def deliver (D : Deployment) (call : RetrieveCall) (cleared : Clearance) (remaining : ℤ) :
    Handler Rejection (Tables C) RetrieveResponse := do
  let consent := cleared.consent
  service (fun s ↦ (.ok (), recordUsage call consent s))
  let short ← result (shortKeyImage consent)
  service (fun s ↦ (.ok (), recordRetrieval call consent short s))
  let agent ← query (checkTrust call consent)
  let authorized ← authorizeAgent D call consent agent
  return ⟨cleared.statement, remaining, cleared.claims, consent.issuingAgentId,
    agent.map Action.AgentRow.publicKeyHex, agent.map Action.AgentRow.assuranceLevel, authorized⟩

def kycRetrieve (D : Deployment) (call : RetrieveCall) :
    Handler Rejection (Tables C) RetrieveResponse := do
  let cleared ← clear D call
  let remaining ← service (charge call.payload.siteName)
  deliver D call cleared remaining

end SauronId.Kyc
