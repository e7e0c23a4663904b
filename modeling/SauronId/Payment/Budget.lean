import SauronId.Payment.Tables

namespace SauronId.Payment

open SauronId.Action (expectedPolicyHash openCurve openServer zeroKey)
open CryptoProtocol (countingPrimitives)
open Lib Lib.Run Policy Spend

variable {σ : Type} {cfg : Config} {S : Services σ} {L : Engine}
variable {p : Policy} {c : CompiledPolicy} {tenantId agentId policyId : String} {B : ℚ}

/-- The ledger already holds everything the agent was authorized to pay. -/
def LedgerCovers (tenantId agentId policyId : String) (w : World σ) : Event σ → Prop
  | .pay _ => authorizedUsd w tenantId agentId ≤
      getSpendTotalTenant w.handles.spend tenantId policyId agentId 0
  | .report _ | .elsewhere _ => True

instance (w : World σ) : (e : Event σ) → Decidable (LedgerCovers tenantId agentId policyId w e)
  | .pay _ => inferInstanceAs (Decidable (_ ≤ _))
  | .report _ | .elsewhere _ => isTrue trivial

theorem evaluate_of_policyGate (hm : cfg.mode = .enforce) {h : Handles} {now : ℕ}
    {action : Policy.Action} (hb : Bound h tenantId agentId policyId c)
    (hg : policyGate cfg L h now tenantId agentId action = .ok ()) :
    evaluate c (boundContext L h now tenantId agentId policyId c action) = .allow := by
  rw [policyGate, if_neg (by simp [hm]), enforce_of_bound hb] at hg
  cases he : evaluate c (boundContext L h now tenantId agentId policyId c action) with
  | allow => rfl
  | deny check reason => simp [he, refuse, hm] at hg

theorem total_add_le_of_policyGate (hm : cfg.mode = .enforce) (hu : Uploaded L p c)
    (hB : p.binding.maxBudgetUsd = some B) {h : Handles} {now : ℕ} {action : Policy.Action}
    (hb : Bound h tenantId agentId policyId c)
    (hg : policyGate cfg L h now tenantId agentId action = .ok ()) :
    getSpendTotalTenant h.spend tenantId policyId agentId 0 + action.amount ≤ B := by
  have hbudget : ("budget", p.binding.maxBudgetUsd.map budgetCheck) ∈ slots L.text p.binding := by
    simp [slots]
  have hallow := (evaluate_eq_allow ["budget"]).mp (evaluate_of_policyGate hm hb hg)
  have hpass := hallow.1 "budget" (List.mem_singleton_self _)
  rw [passes_setting_iff hu.compiled hbudget] at hpass
  exact projectedWithin_eq_none.mp (hpass B hB)

theorem authorizedUsd_concat {w w' : World σ} {row : PaymentRow}
    (h : w'.payments.rows = w.payments.rows ++ [row]) :
    authorizedUsd w' tenantId agentId = authorizedUsd w tenantId agentId +
      if row.tenantId = tenantId ∧ row.agentId = agentId then minorToUsd row.amountMinor else 0 := by
  simp only [authorizedUsd, h, sumWhere_concat, decide_eq_true_eq]

structure Solvent (tenantId agentId policyId : String) (c : CompiledPolicy) (B : ℚ)
    (w : World σ) : Prop where
  bound : Bound w.handles tenantId agentId policyId c
  within : authorizedUsd w tenantId agentId ≤ B

theorem solvent_step (hm : cfg.mode = .enforce) (hu : Uploaded L p c)
    (hB : p.binding.maxBudgetUsd = some B) {w w' : World σ} {e : Event σ}
    (hw : Solvent tenantId agentId policyId c B w)
    (hok : LedgerCovers tenantId agentId policyId w e) (hn : next cfg S L w e = some w') :
    Solvent tenantId agentId policyId c B w' := by
  cases e with
  | elsewhere services =>
    obtain rfl := Option.some.inj hn
    exact ⟨hw.bound, hw.within⟩
  | report r =>
    obtain rfl := Option.some.inj hn
    refine ⟨reportSpend_bound hw.bound, ?_⟩
    rw [authorizedUsd, reportSpend_payments]
    exact hw.within
  | pay req =>
    obtain rfl := Option.some.inj hn
    obtain ⟨hhandles, hsame | ⟨claims, order, hrows, hgate⟩⟩ :=
      agentPaymentAuthorize_cases cfg S L w req
    · refine ⟨hhandles ▸ hw.bound, ?_⟩
      rw [authorizedUsd, hsame]
      exact hw.within
    · refine ⟨hhandles ▸ hw.bound, ?_⟩
      rw [authorizedUsd_concat hrows]
      split_ifs with howner
      · obtain ⟨rfl, rfl⟩ := howner
        have hle := total_add_le_of_policyGate hm hu hB hw.bound hgate
        have hcovers : authorizedUsd w req.tenantId claims.agentId ≤
            getSpendTotalTenant w.handles.spend req.tenantId policyId claims.agentId 0 := hok
        simp only [boundAction, Policy.Action.amount, Option.getD_some] at hle
        calc authorizedUsd w req.tenantId claims.agentId + minorToUsd req.body.amountMinor
            ≤ getSpendTotalTenant w.handles.spend req.tenantId policyId claims.agentId 0 +
                minorToUsd req.body.amountMinor := by gcongr
          _ ≤ B := hle
      · rw [add_zero]
        exact hw.within

/-- In a run in which the ledger covers the authorizations before every payment
request, their sum stays within the budget of the policy. -/
theorem authorizations_within_budget (hm : cfg.mode = .enforce) (hu : Uploaded L p c)
    (hB : p.binding.maxBudgetUsd = some B) {w₀ w : World σ}
    (hb : Bound w₀.handles tenantId agentId policyId c) (h₀ : w₀.payments.rows = [])
    {trace : List (Event σ)}
    (hok : Along (next cfg S L) (LedgerCovers tenantId agentId policyId) w₀ trace)
    (hr : run (next cfg S L) w₀ trace = some w) : authorizedUsd w tenantId agentId ≤ B := by
  have hnonneg := (validate_eq_ok.mp hu.valid).maxBudget B hB
  have hinit : Solvent tenantId agentId policyId c B w₀ := by
    refine ⟨hb, ?_⟩
    rw [authorizedUsd, h₀]
    exact hnonneg
  have hfinal : Solvent tenantId agentId policyId c B w :=
    run_invariant (fun _ _ _ hs hok hn ↦ solvent_step hm hu hB hs hok hn) hinit hok hr
  exact hfinal.within

def tillToken (jti : String) : Token where
  header := .obj [("alg", .str "EdDSA"), ("typ", .str "ajwt+jwt"), ("kid", .str "agt_buyer")]
  payload := .obj
    [("iss", .str "did:sauron:idp"), ("aud", .str "sauron-core"), ("tenant_id", .str "default"),
      ("sub", .str "human_1"), ("agent_id", .str "agt_buyer"), ("agent_checksum", .str "sha256:1"),
      ("jti", .str jti), ("exp", .integer 1798460000),
      ("intent", .obj [("scope", .arr [.str "payment_initiation"]), ("maxAmount", .integer 60),
        ("currency", .str "USD")])]
  verifies := fun _ _ _ ↦ true

def tillDeployment : Deployment where
  server := openServer
  compliance := ⟨.enforce, ["FRA"]⟩
  limitPaymentAuthorize := 30
  windowSecs := 60
  ajwtAudience := "sauron-core"
  decodeToken := fun token ↦ if token ∈ ["t1", "t2"] then some (tillToken token) else none
  parseJson := fun _ ↦ none
  verifyEd25519PopJws := fun challenge jws _ ↦
    ensure (jws = "signed " ++ challenge) "PoP signature verification failed"

def tillTables : Tables openCurve where
  actions := .init 1798459200
    { agents := ⟨[⟨"agt_buyer", "default", "human_1", 0, 1800000000, zeroKey, "image", "jkt_1",
        "mandate", "delegated_bank", "pk_1"⟩], by decide⟩
      rings := .empty
      members := .empty
      usage := .empty }
  counters := .empty
  users := ⟨[⟨"human_1", "FRA"⟩], by decide⟩
  challenges := ⟨[⟨"pch_t1", "agt_buyer", "c1", 1798459300⟩,
    ⟨"pch_t2", "agt_buyer", "c2", 1798459300⟩], by decide⟩
  usedJtis := .empty

def hundredDollars : Policy where
  version := "1"
  agent := "buyer"
  binding := { maxBudgetUsd := some 100 }
  invariants := []

def tillConfig : Config := ⟨.enforce, true, none⟩

def till : World (Tables openCurve) where
  handles := .solo "default" "agt_buyer" (.ofBinding plainEngine hundredDollars)
  payments := .empty
  services := tillTables

def purchase (token jws : String) (amountMinor : ℤ) : Event (Tables openCurve) := .pay
  { tenantId := "default"
    body :=
      { ajwt := token
        amountMinor := amountMinor
        currency := "USD"
        paymentRef := "order"
        merchantId := ""
        popChallengeId := "pch_" ++ token
        popJws := jws
        agentAction := ⟨⟨"agt_buyer", "human_1", "payment_initiation", "order", "", amountMinor,
          "USD", "nonce-0123456789-" ++ token, 1798459300,
          expectedPolicyHash countingPrimitives "payment_initiation", token⟩, ⟨"image", []⟩⟩ }
    now := 1798459200
    policyNow := 1798459200
    receiptRandom := token
    random := token }

def flush (amountUsd : ℚ) : Event (Tables openCurve) := .report
  ⟨"default", "agt_buyer", "pol_buyer", none, .finite amountUsd, 1798459200, "1"⟩

/-- Sixty dollars, the report of them, and the forty that are left. -/
theorem authorizations_within_budget_reported :
    ∃ w, run (next tillConfig tillDeployment.services plainEngine) till
        [purchase "t1" "signed c1" 6000, flush 60, purchase "t2" "signed c2" 4000] = some w ∧
      authorizedUsd w "default" "agt_buyer" = 100 ∧
      authorizedUsd w "default" "agt_buyer" ≤ 100 := by
  obtain ⟨w, hw, hsum⟩ : ∃ w, run (next tillConfig tillDeployment.services plainEngine) till
      [purchase "t1" "signed c1" 6000, flush 60, purchase "t2" "signed c2" 4000] = some w ∧
      authorizedUsd w "default" "agt_buyer" = 100 := by
    decide +kernel
  exact ⟨w, hw, hsum, authorizations_within_budget rfl (.ofBinding (by decide +kernel) rfl) rfl
    (.solo (by decide) _) rfl (by decide +kernel) hw⟩

/-- Sixty dollars twice, without a report in between. -/
theorem authorizations_exceed_budget :
    tillConfig.mode = .enforce ∧
    Uploaded plainEngine hundredDollars (.ofBinding plainEngine hundredDollars) ∧
    Bound till.handles "default" "agt_buyer" "pol_buyer"
      (.ofBinding plainEngine hundredDollars) ∧
    ∃ w, run (next tillConfig tillDeployment.services plainEngine) till
        [purchase "t1" "signed c1" 6000, purchase "t2" "signed c2" 6000] = some w ∧
      ¬ authorizedUsd w "default" "agt_buyer" ≤ 100 := by
  exact ⟨rfl, .ofBinding (by decide +kernel) rfl, .solo (by decide) _, by decide +kernel⟩

end SauronId.Payment
