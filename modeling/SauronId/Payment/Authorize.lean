import SauronId.Payment.Gates
import SauronId.Receipt.Store

namespace SauronId.Payment

open SauronId.Action (Rejection ValidateAgentActionOptions AgentActionProof
  kyaPolicyMatrixVersion)
open Lib Lib.Handler Policy
open Receipt (ActionReceipt)
open Spend

/-- The gates of other subsystems that a payment passes. Each of them works on
the state of its own tables, and none of them writes to the policy bindings, the
spend ledger or the payment authorizations. -/
structure Services (σ : Type) where
  verifyAjwtForTenant : (ajwt tenantId : String) → σ → Option Json
  parseJson : String → Option Json
  checkAndIncrement : (tenantId agentId : String) → (now : ℤ) → σ → Except String Unit × σ
  enforceJurisdiction : (humanKeyImage : String) → σ → Except Rejection Unit
  findAgent : (tenantId agentId : String) → σ → Option PaymentAgent
  provePossession : (challengeId jws agentId publicKey : String) → σ → Except String Unit × σ
  validateAgentAction : ValidateAgentActionOptions → AgentActionProof → (random : String) → σ →
    Except Rejection ActionReceipt × σ
  consumeAjwtJti : (jti : String) → (exp : ℤ) → σ → Except String Unit × σ

structure PaymentRow where
  (authId agentId jti : String)
  amountMinor : ℤ
  (currency merchantId paymentRef : String)
  (createdAt expiresAt consumed : ℤ)
  tenantId : String

/-- A request of a tenant, with the two clock readings and the random texts that
the server draws for it. -/
structure AuthorizeRequest where
  tenantId : String
  body : AuthorizeBody
  (now policyNow : ℕ)
  (receiptRandom random : String)

structure Issue where
  row : PaymentRow
  (assuranceLevel policyVersion : String)
  actionReceipt : ActionReceipt

variable {σ : Type}

def refusal {α : Type} (status : ℕ) (r : Except String α × σ) : Except Rejection α × σ :=
  (r.1.mapError (fun message ↦ ⟨status, message⟩), r.2)

def actionOptions (req : AuthorizeRequest) (claims : Claims) (order : Order) (popJkt : String) :
    ValidateAgentActionOptions where
  tenantId := req.tenantId
  agentId := claims.agentId
  humanKeyImage := claims.humanKeyImage
  ajwtJti := claims.jti
  intent := some claims.intent
  expectedAction := "payment_initiation"
  expectedResource := some order.paymentRef
  expectedMerchantId := some order.merchantId
  expectedAmountMinor := some req.body.amountMinor
  expectedCurrency := some order.currency
  popJkt := some popJkt
  status := "accepted"

def paymentRow (req : AuthorizeRequest) (claims : Claims) (order : Order) : PaymentRow where
  authId := "payauth_" ++ req.random
  agentId := claims.agentId
  jti := claims.jti
  amountMinor := req.body.amountMinor
  currency := order.currency
  merchantId := order.merchantId
  paymentRef := order.paymentRef
  createdAt := req.now
  expiresAt := min claims.exp (req.now + 300)
  consumed := 0
  tenantId := req.tenantId

structure Applicant where
  order : Order
  claims : Claims
  agent : PaymentAgent

/-- `agent_payment_authorize` up to the bound policy. -/
def identify (cfg : Config) (S : Services σ) (req : AuthorizeRequest) :
    Handler Rejection σ Applicant := do
  let body := req.body
  let order ← result (checkPayload body)
  let token ← service (fun s ↦
    ((S.verifyAjwtForTenant body.ajwt req.tenantId s).elim
      (.error ⟨401, "Invalid or expired A-JWT"⟩) .ok, s))
  let claims ← result (readClaims cfg S.parseJson body.amountMinor token)
  service (fun s ↦ refusal 429 (S.checkAndIncrement req.tenantId claims.agentId req.now s))
  service (fun s ↦ (S.enforceJurisdiction claims.humanKeyImage s, s))
  let agent ← service (fun s ↦
    (checkAgent (S.findAgent req.tenantId claims.agentId s) body claims.humanKeyImage req.now, s))
  service (fun s ↦ refusal 401
    (S.provePossession body.popChallengeId body.popJws claims.agentId agent.popPublicKeyB64u s))
  result (kyaGate agent.assuranceLevel)
  return ⟨order, claims, agent⟩

/-- `agent_payment_authorize` up to the insertion of the row. -/
def authorize (cfg : Config) (S : Services σ) (L : Engine) (h : Handles)
    (req : AuthorizeRequest) : Handler Rejection σ Issue := do
  let ⟨order, claims, agent⟩ ← identify cfg S req
  result (policyGate cfg L h req.policyNow req.tenantId claims.agentId
    (boundAction req.body.amountMinor claims order req.now))
  result (enforceStrictPaymentIntent L.text claims.intent req.body.amountMinor order)
  let receipt ← service (S.validateAgentAction (actionOptions req claims order agent.popJkt)
    req.body.agentAction req.receiptRandom)
  service (fun s ↦ refusal 401 (S.consumeAjwtJti claims.jti claims.exp s))
  return ⟨paymentRow req claims order, agent.assuranceLevel, kyaPolicyMatrixVersion, receipt⟩

def insertPaymentAuthorization (t : Table PaymentRow.authId) (row : PaymentRow) :
    Except RepoError (Table PaymentRow.authId) :=
  if t.rows.any (fun r ↦ r.jti = row.jti) then
    .error (.replay "payment authorization already exists")
  else
    match t.insert row with
    | none => .error (.replay "payment authorization already exists")
    | some t => .ok t

structure World (σ : Type) where
  handles : Handles
  payments : Table PaymentRow.authId
  services : σ

def insertRejection : RepoError → Rejection
  | .replay s => ⟨409, s⟩
  | .backend s => ⟨500, "DB error: " ++ s⟩

def agentPaymentAuthorize (cfg : Config) (S : Services σ) (L : Engine) (w : World σ)
    (req : AuthorizeRequest) : Except Rejection Issue × World σ :=
  match exec (authorize cfg S L w.handles req) w.services with
  | (.error e, s) => (.error e, { w with services := s })
  | (.ok issue, s) =>
    match insertPaymentAuthorization w.payments issue.row with
    | .error e => (.error (insertRejection e), { w with services := s })
    | .ok payments => (.ok issue, { w with payments := payments, services := s })

structure SpendReport where
  (tenantId agentId policyId : String)
  actionId : Option String
  amountUsd : Amount
  now : ℤ
  random : String

def reportSpend (w : World σ) (r : SpendReport) : World σ :=
  match recordSpendInnerTenant w.handles.spend r.tenantId r.agentId r.policyId r.actionId
    r.amountUsd r.now r.random with
  | .error _ => w
  | .ok (_, db) => { w with handles := { w.handles with spend := db } }

/-- Between the requests the other endpoints change their own tables at will. -/
inductive Event (σ : Type)
  | pay (req : AuthorizeRequest)
  | report (r : SpendReport)
  | elsewhere (services : σ)

def next (cfg : Config) (S : Services σ) (L : Engine) (w : World σ) : Event σ → Option (World σ)
  | .pay req => some (agentPaymentAuthorize cfg S L w req).2
  | .report r => some (reportSpend w r)
  | .elsewhere services => some { w with services := services }

def authorizedUsd (w : World σ) (tenantId agentId : String) : ℚ :=
  sumWhere (fun r ↦ r.tenantId = tenantId ∧ r.agentId = agentId)
    (fun r ↦ minorToUsd r.amountMinor) w.payments.rows

section

variable {cfg : Config} {S : Services σ} {L : Engine} {h : Handles} {w : World σ}
  {req : AuthorizeRequest}

theorem policyGate_of_authorize {issue : Issue} {s t : σ}
    (hex : exec (authorize cfg S L h req) s = (.ok issue, t)) :
    ∃ claims order, issue.row = paymentRow req claims order ∧
      policyGate cfg L h req.policyNow req.tenantId claims.agentId
        (boundAction req.body.amountMinor claims order req.now) = .ok () := by
  obtain ⟨⟨order, claims, agent⟩, _, _, hex⟩ := exec_bind_eq_ok.mp hex
  obtain ⟨_, _, hgate, hex⟩ := exec_bind_eq_ok.mp hex
  obtain ⟨_, _, _, hex⟩ := exec_bind_eq_ok.mp hex
  obtain ⟨receipt, _, _, hex⟩ := exec_bind_eq_ok.mp hex
  obtain ⟨_, _, _, hex⟩ := exec_bind_eq_ok.mp hex
  obtain rfl := Except.ok.inj (Prod.mk.inj hex).1
  exact ⟨claims, order, rfl, (Prod.mk.inj hgate).1⟩

theorem rows_of_insert {t u : Table PaymentRow.authId} {row : PaymentRow}
    (hi : insertPaymentAuthorization t row = .ok u) : u.rows = t.rows ++ [row] := by
  unfold insertPaymentAuthorization at hi
  split_ifs at hi
  split at hi
  · cases hi
  · next t' ht =>
    obtain rfl := Except.ok.inj hi
    exact (Table.insert_eq_some.mp ht).2

/-- What a payment request does to the tables: nothing, or it adds a row that
passed the policy gate. -/
theorem agentPaymentAuthorize_cases (cfg : Config) (S : Services σ) (L : Engine) (w : World σ)
    (req : AuthorizeRequest) :
    (agentPaymentAuthorize cfg S L w req).2.handles = w.handles ∧
    ((agentPaymentAuthorize cfg S L w req).2.payments = w.payments ∨
      ∃ claims order,
        (agentPaymentAuthorize cfg S L w req).2.payments.rows =
          w.payments.rows ++ [paymentRow req claims order] ∧
        policyGate cfg L w.handles req.policyNow req.tenantId claims.agentId
          (boundAction req.body.amountMinor claims order req.now) = .ok ()) := by
  unfold agentPaymentAuthorize
  rcases hex : exec (authorize cfg S L w.handles req) w.services with ⟨_ | issue, s⟩
  · exact ⟨rfl, .inl rfl⟩
  · obtain ⟨claims, order, hrow, hgate⟩ := policyGate_of_authorize hex
    cases hi : insertPaymentAuthorization w.payments issue.row with
    | error e => exact ⟨by simp [hi], .inl (by simp [hi])⟩
    | ok payments =>
      refine ⟨by simp [hi], .inr ⟨claims, order, ?_, hgate⟩⟩
      simp only [hi]
      rw [rows_of_insert hi, hrow]

theorem reportSpend_payments (r : SpendReport) : (reportSpend w r).payments = w.payments := by
  unfold reportSpend
  split <;> rfl

theorem reportSpend_bound {r : SpendReport} {tenantId agentId policyId : String}
    {c : CompiledPolicy} (hb : Bound w.handles tenantId agentId policyId c) :
    Bound (reportSpend w r).handles tenantId agentId policyId c := by
  unfold reportSpend
  split
  · exact hb
  · exact ⟨hb.agent_ne, hb.row, hb.stored⟩

end

end SauronId.Payment
