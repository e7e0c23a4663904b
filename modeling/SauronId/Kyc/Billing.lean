import SauronId.Kyc.Retrieve
import SauronId.Lib.Hoare

namespace SauronId.Kyc

open SauronId.Action (Curve Rejection openCurve)
open CryptoProtocol (countingPrimitives)
open Lib Lib.Handler
open Payment (RiskCounter)

variable {C : Curve} {D : Deployment} {call : RetrieveCall} {cleared : Clearance} {s t u : Tables C}

/-! ### Before the charge -/

/-- The state differs only in the log of consents and in the counters. -/
def ClearedFrom (s u : Tables C) : Prop :=
  ∃ consentLog counters, u = { s with consentLog := consentLog, counters := counters }

theorem clear_keeps (D : Deployment) (call : RetrieveCall) (s : Tables C) :
    Keeps (ClearedFrom s) (clear D call) := by
  unfold clear
  refine .result_bind (fun _ ↦ .service_bind ?_ (fun consent ↦ ?_))
  · rintro u ⟨log, counters, rfl⟩
    exact ⟨_, counters, rfl⟩
  refine .result_bind (fun _ ↦ .service_bind ?_ (fun _ ↦ ?_))
  · rintro u ⟨log, counters, rfl⟩
    exact ⟨log, _, rfl⟩
  refine .query_bind (fun _ ↦ .result_bind (fun statement ↦ ?_))
  exact .result_bind (fun _ ↦ .result_bind (fun claims ↦ .pure _))

theorem clear_clearedFrom (D : Deployment) (call : RetrieveCall) (s : Tables C) :
    ClearedFrom s (exec (clear D call) s).2 :=
  (clear_keeps D call s).exec_snd ⟨s.consentLog, s.counters, rfl⟩

/-! ### The charge -/

def Tables.funded (s : Tables C) (siteName : String) : Prop :=
  ∃ n, s.balance siteName = some n ∧ 0 < n

variable {siteName : String}

theorem any_funded_iff :
    s.clients.rows.any (ClientRow.funded siteName) = true ↔ s.funded siteName := by
  simp only [List.any_eq_true, ClientRow.funded, Bool.decide_and, Bool.and_eq_true,
    decide_eq_true_eq, Tables.funded, Tables.balance, Option.map_eq_some_iff, Table.get_eq_some]
  constructor
  · rintro ⟨c, hc, hname, hpos⟩
    exact ⟨c.tokensB, ⟨c, ⟨hc, hname⟩, rfl⟩, hpos⟩
  · rintro ⟨n, ⟨c, ⟨hc, hname⟩, rfl⟩, hpos⟩
    exact ⟨c, hc, hname, hpos⟩

theorem charge_of_not_funded (h : ¬ s.funded siteName) :
    ∃ e, charge siteName s = (.error e, s) := by
  rw [charge, if_neg (by rwa [any_funded_iff])]
  exact ⟨_, rfl⟩

variable {clients : Table ClientRow.name}

theorem get_debited {c : ClientRow} (hc : clients.get siteName = some c) (hpos : 0 < c.tokensB) :
    (clients.updateWhere (ClientRow.funded siteName) .debit ClientRow.name_debit).get siteName =
      some c.debit := by
  have hfunded : ClientRow.funded siteName c = true := by
    simp [ClientRow.funded, (Table.get_eq_some.mp hc).2, hpos]
  rw [Table.get_updateWhere, hc, Option.map_some, if_pos hfunded]

theorem charge_of_funded (h : s.funded siteName) :
    ∃ clients remaining, charge siteName s = (.ok remaining, { s with clients := clients }) ∧
      (clients.get siteName).map ClientRow.tokensB ≠ s.balance siteName := by
  rw [charge, if_pos (any_funded_iff.mpr h)]
  refine ⟨_, _, rfl, ?_⟩
  obtain ⟨n, hn, hpos⟩ := h
  obtain ⟨c, hc, rfl⟩ := Option.map_eq_some_iff.mp hn
  rw [hn, get_debited hc hpos]
  intro he
  have hdebit : c.tokensB - 1 = c.tokensB := Option.some.inj he
  omega

/-! ### After the charge -/

def SameClients (s u : Tables C) : Prop := u.clients = s.clients

theorem authorizeAgent_keeps (D : Deployment) (call : RetrieveCall) (consent : ConsentRow)
    (agent : Option Action.AgentRow) (s : Tables C) :
    Keeps (SameClients s) (authorizeAgent D call consent agent) := by
  unfold authorizeAgent
  split_ifs
  · exact .pure none
  · refine .result_bind (fun policy ↦ .result_bind (fun presented ↦ ?_))
    refine .service_bind (fun _ hu ↦ hu) (fun receipt ↦ ?_)
    exact .service_bind (fun _ hu ↦ hu) (fun _ ↦ .pure _)

theorem deliver_keeps (D : Deployment) (call : RetrieveCall) (cleared : Clearance)
    (remaining : ℤ) (s : Tables C) :
    Keeps (SameClients s) (deliver D call cleared remaining) := by
  unfold deliver
  refine .service_bind (fun _ hu ↦ hu) (fun _ ↦ .result_bind (fun short ↦ ?_))
  refine .service_bind (fun _ hu ↦ hu) (fun _ ↦ .query_bind (fun agent ↦ ?_))
  exact .bind (authorizeAgent_keeps D call _ agent s) (fun _ ↦ .pure _)

theorem deliver_clients (D : Deployment) (call : RetrieveCall) (cleared : Clearance)
    (remaining : ℤ) (s : Tables C) :
    (exec (deliver D call cleared remaining) s).2.clients = s.clients :=
  (deliver_keeps D call cleared remaining s).exec_snd rfl

/-- The action of the agent is one it may take, and it can still be taken. -/
def ActionDeliverable (D : Deployment) (call : RetrieveCall) (agent : Option Action.AgentRow)
    (s : Tables C) : Prop :=
  (∃ policy, checkAction call agent = .ok policy) ∧
    ∃ presented, presentedAction call = .ok presented ∧
      (∃ receipt, (validateAction D call presented.1 presented.2 s).1 = .ok receipt) ∧
      (consumeJti call presented.1 s).1 = .ok ()

structure Deliverable (D : Deployment) (call : RetrieveCall) (consent : ConsentRow)
    (s : Tables C) : Prop where
  logged : ∃ short, shortKeyImage consent = .ok short
  trusted : ∃ agent, checkTrust call consent s = .ok agent
  action : ∀ agentId, consent.issuingAgentId = some agentId →
    ActionDeliverable D call (activeAgent s call.tenantId agentId) s

variable {consent : ConsentRow}

theorem deliverable_charged {log : Table ConsentRow.id} {counters : Table RiskCounter.key} :
    Deliverable D call consent
      { s with consentLog := log, counters := counters, clients := clients } ↔
      Deliverable D call consent s :=
  ⟨fun h ↦ ⟨h.logged, h.trusted, h.action⟩, fun h ↦ ⟨h.logged, h.trusted, h.action⟩⟩

variable {agent : Option Action.AgentRow}

theorem answers_authorizeAgent_iff :
    Answers (authorizeAgent D call consent agent) s ↔
      (consent.issuingAgentId ≠ none → ActionDeliverable D call agent s) := by
  unfold authorizeAgent
  split_ifs with hnone
  · exact iff_of_true (answers_pure none) (fun h ↦ absurd hnone h)
  · simp only [answers_result_bind, answers_service_bind, answers_pure, and_true, ne_eq, hnone,
      not_false_eq_true, forall_const, ActionDeliverable]
    constructor
    · rintro ⟨policy, hpolicy, presented, hpresented, receipt, hreceipt, ⟨⟩, hjti⟩
      exact ⟨⟨policy, hpolicy⟩, presented, hpresented, ⟨receipt, hreceipt⟩, hjti⟩
    · rintro ⟨⟨policy, hpolicy⟩, presented, hpresented, ⟨receipt, hreceipt⟩, hjti⟩
      exact ⟨policy, hpolicy, presented, hpresented, receipt, hreceipt, (), hjti⟩

theorem checkTrust_eq_ok (h : checkTrust call consent s = .ok agent) :
    agent = consent.issuingAgentId.bind (activeAgent s call.tenantId) := by
  obtain ⟨-, h⟩ := andThen_eq_ok.mp h
  exact (Except.ok.inj h).symm

theorem answers_deliver_iff (remaining : ℤ) (s : Tables C) :
    Answers (deliver D call cleared remaining) s ↔ Deliverable D call cleared.consent s := by
  have haction : ∀ agent, checkTrust call cleared.consent s = .ok agent →
      ((cleared.consent.issuingAgentId ≠ none → ActionDeliverable D call agent s) ↔
        ∀ agentId, cleared.consent.issuingAgentId = some agentId →
          ActionDeliverable D call (activeAgent s call.tenantId agentId) s) := by
    intro agent hagent
    rw [checkTrust_eq_ok hagent]
    cases cleared.consent.issuingAgentId with
    | none => simp
    | some agentId => simp
  unfold deliver
  simp only [answers_service_bind, answers_result_bind, answers_query_bind, answers_bind_pure]
  constructor
  · rintro ⟨⟨⟩, -, short, hshort, ⟨⟩, -, agent, hagent, hauth⟩
    have hact := answers_authorizeAgent_iff.mp hauth
    exact ⟨⟨short, hshort⟩, ⟨agent, hagent⟩, (haction agent hagent).mp hact⟩
  · rintro ⟨⟨short, hshort⟩, ⟨agent, hagent⟩, hact⟩
    refine ⟨(), trivial, short, hshort, (), trivial, agent, hagent, ?_⟩
    exact answers_authorizeAgent_iff.mpr ((haction agent hagent).mpr hact)

section Cleared

variable (hclear : exec (clear D call) s = (.ok cleared, u))

include hclear

theorem exec_kycRetrieve_of_cleared :
    exec (kycRetrieve D call) s =
      exec (service (charge call.payload.siteName) >>= deliver D call cleared) u := by
  rw [kycRetrieve, exec_bind, hclear]

theorem clearedFrom_of_cleared : ClearedFrom s u := by
  have hfrom := clear_clearedFrom D call s
  rwa [hclear] at hfrom

theorem free_of_not_funded (hfunded : ¬ s.funded call.payload.siteName) {e : Rejection}
    (h : exec (kycRetrieve D call) s = (.error e, t)) :
    t.balance call.payload.siteName = s.balance call.payload.siteName := by
  obtain ⟨log, counters, rfl⟩ := clearedFrom_of_cleared hclear
  obtain ⟨e', hcharge⟩ :=
    charge_of_not_funded (s := { s with consentLog := log, counters := counters }) hfunded
  rw [exec_kycRetrieve_of_cleared hclear, exec_bind, exec_service, hcharge] at h
  obtain ⟨-, rfl⟩ := Prod.mk.inj h
  rfl

theorem free_iff_of_funded (hfunded : s.funded call.payload.siteName) :
    (∀ e t, exec (kycRetrieve D call) s = (.error e, t) →
      t.balance call.payload.siteName = s.balance call.payload.siteName) ↔
    Deliverable D call cleared.consent s := by
  obtain ⟨log, counters, rfl⟩ := clearedFrom_of_cleared hclear
  obtain ⟨clients, remaining, hcharge, hne⟩ :=
    charge_of_funded (s := { s with consentLog := log, counters := counters }) hfunded
  have hexec := exec_kycRetrieve_of_cleared hclear
  rw [exec_bind, exec_service, hcharge] at hexec
  have hdeliver : Answers (deliver D call cleared remaining)
      { s with consentLog := log, counters := counters, clients := clients } ↔
      Deliverable D call cleared.consent s :=
    (answers_deliver_iff remaining _).trans deliverable_charged
  constructor
  · intro hfree
    refine hdeliver.mp ?_
    have hclients := deliver_clients D call cleared remaining
      { s with consentLog := log, counters := counters, clients := clients }
    rcases he : exec (deliver D call cleared remaining)
      { s with consentLog := log, counters := counters, clients := clients } with ⟨e | resp, t⟩
    · rw [he] at hclients
      have hbalance := hfree e t (hexec.trans he)
      rw [Tables.balance, hclients] at hbalance
      exact absurd hbalance hne
    · exact ⟨resp, t, he⟩
  · intro hok e t h
    obtain ⟨resp, t', ht⟩ := hdeliver.mpr hok
    cases (hexec.symm.trans h).symm.trans ht

end Cleared

/-- A failed retrieval is free exactly if a request that reaches the charge, and
can pay for it, passes the checks behind it. -/
theorem failed_retrieval_free_iff (D : Deployment) (call : RetrieveCall) (s : Tables C) :
    (∀ e t, exec (kycRetrieve D call) s = (.error e, t) →
      t.balance call.payload.siteName = s.balance call.payload.siteName) ↔
    (∀ cleared, (exec (clear D call) s).1 = .ok cleared → s.funded call.payload.siteName →
      Deliverable D call cleared.consent s) := by
  rcases hc : exec (clear D call) s with ⟨e | cleared, u⟩
  · -- refused before the charge
    refine iff_of_true (fun e' t h ↦ ?_) (fun _ h ↦ by cases h)
    rw [kycRetrieve, exec_bind, hc] at h
    obtain ⟨-, rfl⟩ := Prod.mk.inj h
    have hfrom := clear_clearedFrom D call s
    rw [hc] at hfrom
    obtain ⟨log, counters, rfl⟩ := hfrom
    rfl
  · simp only [Except.ok.injEq, forall_eq']
    by_cases hfunded : s.funded call.payload.siteName
    · rw [free_iff_of_funded hc hfunded]
      exact ⟨fun h _ ↦ h, fun h ↦ h hfunded⟩
    · exact iff_of_true (fun e t ↦ free_of_not_funded hc hfunded) (fun h ↦ absurd h hfunded)

/-! ### A consent whose owner has left the ring -/

def demoDeployment : Deployment where
  server := ⟨countingPrimitives, .stored, [], false⟩
  reader := ⟨fun _ ↦ .error "expected value", fun s ↦ s⟩
  env := fun _ ↦ none
  development := true
  userKycEnabled := true
  groth16Enabled := true
  kycGroth16Enabled := true
  compliance := ⟨.off, []⟩
  windowSecs := 60
  limitKycRetrieve := 10

def demoConsent : ConsentRow :=
  ⟨1, "acme", "0123456789abcdef", "shop", "[]", 0, some "token", 0, 0, none⟩

def demoRetrieval : RetrieveCall where
  tenantId := "acme"
  binding := none
  payload :=
    ⟨"token", "shop", some (.obj [("dev_mock", .bool true)]), none, some ["1"], none, none⟩
  now := 10
  today := "20260101"
  issuer := .ok true
  usedAt := 10
  loggedAt := 10
  registeredAt := 10
  random := "01"
  consumedAt := 10

def demoTables : Tables openCurve where
  actions := .init 10 ⟨.empty, .empty, .empty, .empty⟩
  consentLog := ⟨[demoConsent], List.nodup_singleton _⟩
  counters := .empty
  users := ⟨[⟨"0123456789abcdef", String.ofList (List.replicate 64 'a'), "FRA"⟩],
    List.nodup_singleton _⟩
  clients := ⟨[⟨"shop", 3⟩], List.nodup_singleton _⟩
  apiUsage := []
  requestsLog := []
  registrations := .empty
  usedJtis := .empty
  userGroup := []
  agentGroup := []

/-- The credit is taken, and then the ring does not vouch for the owner. -/
theorem charged_and_refused :
    ∃ t, exec (kycRetrieve demoDeployment demoRetrieval) demoTables =
        (.error ⟨401, "Ring trust verification failed for consent owner or delegated agent"⟩, t) ∧
      demoTables.balance "shop" = some 3 ∧ t.balance "shop" = some 2 := by
  exact ⟨_, rfl, rfl, rfl⟩

end SauronId.Kyc
