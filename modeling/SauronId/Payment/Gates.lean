import SauronId.Action.Envelope
import SauronId.Policy.Enforcement

namespace SauronId.Payment

open SauronId.Action (AgentActionProof Rejection kyaPolicyMatrixVersion)
open Lib Lib.Text Policy

inductive AssuranceLevel
  | delegatedBank
  | delegatedNonBank
  | autonomousWeb3
  deriving DecidableEq

def AssuranceLevel.fromDb (value : String) : AssuranceLevel :=
  if value = "delegated_bank" then delegatedBank
  else if value = "autonomous_web3" then autonomousWeb3
  else delegatedNonBank

def delegatedBankActions : List String :=
  ["prove_age", "prove_nationality", "read_identity", "kyc_lookup", "kyc_consent", "zkp_login",
    "payment_initiation", "payment_consume", "web3_sign"]

def autonomousWeb3Actions : List String :=
  ["read_identity", "prove_age", "prove_nationality", "kyc_lookup", "kyc_consent", "zkp_login",
    "web3_sign", "web3_trade_small"]

structure PolicyDecision where
  allowed : Bool
  reason : String

def actionAllowedInList (action : String) (list : List String) : Bool :=
  let normalized := toAsciiLowercase (trim action)
  normalized ≠ "" ∧ normalized ∈ list

def authorizeAction (level : AssuranceLevel) (action : String) : PolicyDecision :=
  let normalized := toAsciiLowercase (trim action)
  if normalized = "" then ⟨false, "empty action"⟩
  else
    match level with
    | .delegatedBank =>
      if actionAllowedInList normalized delegatedBankActions then
        ⟨true, "delegated_bank: action in KYA policy matrix"⟩
      else
        ⟨false, "action '" ++ action ++ "' not allowed for delegated_bank (see policy matrix)"⟩
    | .delegatedNonBank =>
      ⟨false, "action '" ++ action ++
        "' blocked for delegated_nonbank; use delegated_bank or autonomous_web3"⟩
    | .autonomousWeb3 =>
      if actionAllowedInList normalized autonomousWeb3Actions then
        ⟨true, "autonomous_web3: action in KYA policy matrix"⟩
      else
        ⟨false, "action '" ++ action ++ "' not allowed for autonomous_web3 assurance level"⟩

inductive PolicyEnforcementMode
  | enforce
  | advisory
  | off
  deriving DecidableEq

structure Config where
  mode : PolicyEnforcementMode
  requireBinding : Bool
  globalMaxActionUsd : Option ℚ

structure AuthorizeBody where
  ajwt : String
  amountMinor : ℤ
  (currency paymentRef merchantId popChallengeId popJws : String)
  agentAction : AgentActionProof

structure Order where
  (paymentRef merchantId currency : String)

def checkPayload (body : AuthorizeBody) : Except Rejection Order := do
  ensure (body.ajwt ≠ "") ⟨400, "ajwt is required"⟩
  ensure (0 < body.amountMinor) ⟨400, "amount_minor must be > 0"⟩
  ensure (trim body.paymentRef ≠ "" ∧ len body.paymentRef ≤ 128)
    ⟨400, "payment_ref is required (1..128 chars)"⟩
  let currency := toAsciiUppercase (trim body.currency)
  ensure (len currency = 3 ∧ currency.toList.all Char.isUpper)
    ⟨400, "currency must be a 3-letter ISO uppercase code"⟩
  return ⟨trim body.paymentRef, trim body.merchantId, currency⟩

def minorToUsd (amountMinor : ℤ) : ℚ := amountMinor / 100

structure Claims where
  (humanKeyImage agentId jti : String)
  exp : ℤ
  intent : Json

def claim {α : Type} (claims : Json) (name : String) (read : Json → Option α) :
    Except Rejection α :=
  match (claims.get name).bind read with
  | some value => .ok value
  | none => .error ⟨401, "A-JWT missing " ++ name⟩

def parseAjwtIntentClaim (parseJson : String → Option Json) (claims : Json) :
    Except Rejection Json :=
  match claims.get "intent" with
  | some (.str s) =>
    match parseJson s with
    | some intent => .ok intent
    | none => .error ⟨401, "A-JWT intent is not valid JSON"⟩
  | some (.obj fields) => .ok (.obj fields)
  | _ => .error ⟨401, "A-JWT missing intent claim"⟩

def readClaims (cfg : Config) (parseJson : String → Option Json) (amountMinor : ℤ)
    (claims : Json) : Except Rejection Claims := do
  let humanKeyImage ← claim claims "sub" Json.asStr
  let agentId ← claim claims "agent_id" Json.asStr
  ensureSome cfg.globalMaxActionUsd (fun maxUsd ↦ ensure (minorToUsd amountMinor ≤ maxUsd)
    ⟨403, "payment " ++ usd (minorToUsd amountMinor) ++
      " exceeds the global per-action ceiling " ++ usd maxUsd ++ " (SAURON_MAX_ACTION_USD)"⟩)
  let jti ← claim claims "jti" Json.asStr
  let exp ← claim claims "exp" Json.asI64
  let intent ← parseAjwtIntentClaim parseJson claims
  return ⟨humanKeyImage, agentId, jti, exp, intent⟩

structure PaymentAgent where
  (revoked expiresAt : ℤ)
  (humanKeyImage assuranceLevel popJkt popPublicKeyB64u : String)

def checkAgent (agent : Option PaymentAgent) (body : AuthorizeBody) (humanKeyImage : String)
    (now : ℤ) : Except Rejection PaymentAgent :=
  match agent with
  | none => .error ⟨404, "Agent not found"⟩
  | some agent => do
    ensure (agent.revoked = 0) ⟨401, "Agent has been revoked"⟩
    ensure (now ≤ agent.expiresAt) ⟨401, "Agent has expired"⟩
    ensure (agent.humanKeyImage = humanKeyImage) ⟨401, "Agent owner mismatch"⟩
    ensure (agent.popJkt ≠ "" ∧ agent.popPublicKeyB64u ≠ "")
      ⟨401, "Payment authorization requires PoP-enabled agent registration"⟩
    ensure (body.popChallengeId ≠ "" ∧ body.popJws ≠ "") ⟨401,
      "Payment authorization requires pop_challenge_id and pop_jws from /agent/pop/challenge"⟩
    return agent

def kyaGate (assuranceLevel : String) : Except Rejection Unit :=
  let decision := authorizeAction (.fromDb assuranceLevel) "payment_initiation"
  ensure (decision.allowed = true)
    ⟨403, "Policy denied payment_initiation: " ++ decision.reason⟩

def boundAction (amountMinor : ℤ) (claims : Claims) (order : Order) (now : ℕ) : Policy.Action where
  actionId := "payauth-" ++ claims.jti
  tool := ((claims.intent.get "tool").bind Json.asStr).getD
    (((claims.intent.get "action").bind Json.asStr).getD "payment_initiation")
  amountUsd := some (minorToUsd amountMinor)
  timestamp := now
  metadata := [("currency", .str order.currency), ("merchant_id", .str order.merchantId)]

/-- Only the mode `enforce` turns an objection into a refusal. -/
def refuse (mode : PolicyEnforcementMode) (rejection : Rejection) : Except Rejection Unit :=
  if mode = .enforce then .error rejection else .ok ()

def policyGate (cfg : Config) (L : Engine) (h : Handles) (now : ℕ) (tenantId agentId : String)
    (action : Policy.Action) : Except Rejection Unit :=
  if cfg.mode = .off then .ok ()
  else
    match enforceBoundPolicyWithHandles L h now tenantId agentId action with
    | .ok (.deny policyId check reason) =>
      refuse cfg.mode ⟨403, "policy " ++ policyId ++ " denied " ++ check ++ ": " ++ reason⟩
    | .ok (.policyUnavailable policyId) =>
      refuse cfg.mode ⟨503, "bound policy " ++ policyId ++ " is unavailable (failing closed)"⟩
    | .ok .noBinding =>
      if cfg.requireBinding then
        refuse cfg.mode ⟨403, "no bound policy for agent (SAURON_POLICY_REQUIRE_BINDING)"⟩
      else .ok ()
    | .ok (.allow _) => .ok ()
    | .error e =>
      refuse cfg.mode ⟨503, "policy enforcement unavailable (failing closed): " ++ e.display⟩

def scopeNames (items : List Json) : List String :=
  (items.filterMap (fun v ↦ v.asStr.map (fun s ↦ toAsciiLowercase (trim s)))).filter
    (fun s ↦ s ≠ "")

def paymentScopesFromIntent (intent : Json) : List String :=
  match (intent.get "scope").bind Json.asArray with
  | some items => scopeNames items
  | none =>
    match ((intent.get "constraints").bind (fun v ↦ v.get "scope")).bind Json.asArray with
    | some items => scopeNames items
    | none => scopeNames (intent.get "action").toList

/-- `f64::round` and then the cast to `i64`, which saturates. -/
def roundToI64 (q : ℚ) : ℤ :=
  let nearest := if 0 ≤ q then ⌊q + 1 / 2⌋ else ⌈q - 1 / 2⌉
  max i64Min (min i64Max nearest)

def checkMaxAmount (E : TextEngine) (intent : Json) (amountMinor : ℤ) (currency : String) :
    Except Rejection Unit :=
  match (intent.get "maxAmount").bind Json.asF64 with
  | none => .error ⟨403, "Intent must define numeric maxAmount for payments"⟩
  | some maxAmount => do
    ensure (0 < maxAmount) ⟨403, "Intent maxAmount must be > 0"⟩
    let maxMinor := roundToI64 (maxAmount * 100)
    ensure (amountMinor ≤ maxMinor) ⟨403, "Requested amount " ++ toString amountMinor ++
      " exceeds intent maxAmount " ++ E.displayF64 maxAmount ++ " " ++ currency ++ " (" ++
      toString maxMinor ++ " minor units)"⟩

def checkCurrency (intent : Json) (currency : String) : Except Rejection Unit :=
  match (intent.get "currency").bind Json.asStr with
  | none => .error ⟨403, "Intent must define currency for payments"⟩
  | some raw =>
    let intentCurrency := toAsciiUppercase (trim raw)
    ensure (intentCurrency = currency) ⟨403, "Requested currency " ++ currency ++
      " does not match intent currency " ++ intentCurrency⟩

def checkMerchant (intent : Json) (merchantId : String) : Except Rejection Unit :=
  ensureSome
    (((intent.get "constraints").bind (fun v ↦ v.get "merchant_allowlist")).bind Json.asArray)
    (fun allowlist ↦ do
      ensure (merchantId ≠ "")
        ⟨403, "merchant_id is required by intent constraints.merchant_allowlist"⟩
      ensure (merchantId ∈ (allowlist.filterMap Json.asStr).map trim)
        ⟨403, "merchant_id '" ++ merchantId ++ "' is not allowed by intent"⟩)

def enforceStrictPaymentIntent (E : TextEngine) (intent : Json) (amountMinor : ℤ)
    (order : Order) : Except Rejection Unit := do
  ensure ("payment_initiation" ∈ paymentScopesFromIntent intent)
    ⟨403, "Intent scope must explicitly include payment_initiation"⟩
  checkMaxAmount E intent amountMinor order.currency
  checkCurrency intent order.currency
  checkMerchant intent order.merchantId

end SauronId.Payment
