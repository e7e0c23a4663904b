import SauronId.Lib.Joined
import SauronId.Risk.SlidingWindow

namespace SauronId.Risk

open CryptoProtocol Lib Lib.Encoding Lib.Joined Lib.Text
open Payment (RiskCounter bucketPaymentAuthorize checkAndIncrement hashBucket)

def validTenantId (s : String) : Bool :=
  s ≠ "" ∧ len s ≤ 64 ∧ s.toList.all (fun c ↦ c.isAlphanum || c = '-' || c = '_')

section Buckets

variable (P : Primitives) (tenantId : String)

def bucketKycRetrieve (site userKeyImage : String) : String :=
  hashBucket P "kyc_retrieve" [tenantId, site, userKeyImage]

def bucketAgentKycConsent (site userKeyImage : String) : String :=
  hashBucket P "agent_kyc_consent" [tenantId, site, userKeyImage]

def bucketAgentVcIssue (humanKeyImage : String) : String :=
  hashBucket P "agent_vc_issue" [tenantId, humanKeyImage]

def bucketAgentRegister (humanKeyImage : String) : String :=
  hashBucket P "agent_register" [tenantId, humanKeyImage]

def bucketAgentVerify (agentId : String) : String := hashBucket P "agent_verify" [tenantId, agentId]

def bucketEgressCapability (agentId : String) : String :=
  hashBucket P "egress_capability" [tenantId, agentId]

end Buckets

inductive LimitKind
  | kycRetrieve
  | agentKycConsent
  | paymentAuthorize
  | agentVcIssue
  | agentRegister
  | agentVerify
  | egressCapability
  deriving DecidableEq

def LimitKind.label : LimitKind → String
  | kycRetrieve => "kyc_retrieve"
  | agentKycConsent => "agent_kyc_consent"
  | paymentAuthorize => "payment_authorize"
  | agentVcIssue => "agent_vc_issue"
  | agentRegister => "agent_register"
  | agentVerify => "agent_verify"
  | egressCapability => "egress_capability"

structure LimitedRequest where
  kind : LimitKind
  (tenantId site subject : String)

namespace LimitedRequest

def bucket (P : Primitives) (r : LimitedRequest) : String :=
  match r.kind with
  | .kycRetrieve => bucketKycRetrieve P r.tenantId r.site r.subject
  | .agentKycConsent => bucketAgentKycConsent P r.tenantId r.site r.subject
  | .paymentAuthorize => bucketPaymentAuthorize P r.tenantId r.subject
  | .agentVcIssue => bucketAgentVcIssue P r.tenantId r.subject
  | .agentRegister => bucketAgentRegister P r.tenantId r.subject
  | .agentVerify => bucketAgentVerify P r.tenantId r.subject
  | .egressCapability => bucketEgressCapability P r.tenantId r.subject

def parts (r : LimitedRequest) : List String :=
  match r.kind with
  | .kycRetrieve | .agentKycConsent => [r.site, r.subject]
  | _ => [r.subject]

def message (r : LimitedRequest) : List UInt8 :=
  bytes r.kind.label ++ (r.tenantId :: r.parts).flatMap (fun p ↦ bytes "|" ++ bytes p)

variable {P : Primitives} {r q : LimitedRequest}

theorem bucket_eq (P : Primitives) (r : LimitedRequest) :
    r.bucket P = hexEncode ((P.sha256 r.message).take 24) := by
  rcases r with ⟨kind, tenantId, site, subject⟩
  cases kind <;> rfl

theorem message_eq (r : LimitedRequest) :
    ∃ rest : String, r.message = bytes (r.kind.label ++ "|" ++ r.tenantId ++ "|" ++ rest) := by
  have hbytes : ∀ s t : String, bytes (s ++ t) = bytes s ++ bytes t := fun s t ↦ by simp [bytes]
  obtain ⟨first, more, hparts⟩ : ∃ first more, r.parts = first :: more := by
    unfold parts
    split <;> exact ⟨_, _, rfl⟩
  refine ⟨first ++ more.foldr (fun p text ↦ "|" ++ p ++ text) "", ?_⟩
  have hmore : ∀ l : List String, l.flatMap (fun p ↦ bytes "|" ++ bytes p) =
      bytes (l.foldr (fun p text ↦ "|" ++ p ++ text) "") := by
    intro l
    induction l with
    | nil => rfl
    | cons p l ih => rw [List.flatMap_cons, List.foldr_cons, hbytes, hbytes, ih]
  simp only [message, hparts, hmore, List.foldr_cons, hbytes, List.append_assoc]

theorem not_mem_of_validTenantId {s : String} (h : validTenantId s = true) : '|' ∉ s.toList := by
  obtain ⟨-, -, hall⟩ := of_decide_eq_true h
  exact fun hmem ↦ absurd (List.all_eq_true.mp hall _ hmem) (by decide)

theorem message_inj (hr : validTenantId r.tenantId = true) (hq : validTenantId q.tenantId = true)
    (h : r.message = q.message) : r.kind = q.kind ∧ r.tenantId = q.tenantId := by
  have hlabel : ∀ k : LimitKind, '|' ∉ k.label.toList := by
    intro k
    cases k <;> decide
  have hkinds : ∀ k k' : LimitKind, k.label = k'.label → k = k' := by
    intro k k'
    cases k <;> cases k' <;> decide
  obtain ⟨rest, hrest⟩ := message_eq r
  obtain ⟨rest', hrest'⟩ := message_eq q
  have htext : r.kind.label.toList ++ '|' :: (r.tenantId.toList ++ '|' :: rest.toList) =
      q.kind.label.toList ++ '|' :: (q.tenantId.toList ++ '|' :: rest'.toList) := by
    simpa using congrArg String.toList (bytes_injective (hrest.symm.trans (h.trans hrest')))
  have hzero : ∀ {l : List Char}, '|' ∉ l → l.count '|' = 0 := List.count_eq_zero.mpr
  obtain ⟨hkind, htext⟩ := append_sep_inj
    ((hzero (hlabel r.kind)).trans (hzero (hlabel q.kind)).symm) htext
  obtain ⟨htenant, -⟩ := append_sep_inj ((hzero (not_mem_of_validTenantId hr)).trans
    (hzero (not_mem_of_validTenantId hq)).symm) htext
  exact ⟨hkinds _ _ (String.toList_injective hkind), String.toList_injective htenant⟩

/-- The truncated hash does not collide on the messages `T`. -/
def Collisionless (P : Primitives) (T : Set (List UInt8)) : Prop :=
  Set.InjOn (fun m ↦ (P.sha256 m).take 24) T

theorem bucket_inj {T : Set (List UInt8)} (hT : Collisionless P T)
    (hr : validTenantId r.tenantId = true ∧ r.message ∈ T)
    (hq : validTenantId q.tenantId = true ∧ q.message ∈ T) (h : r.bucket P = q.bucket P) :
    r.kind = q.kind ∧ r.tenantId = q.tenantId := by
  rw [bucket_eq, bucket_eq] at h
  exact message_inj hr.1 hq.1 (hT hr.2 hq.2 (hexEncode_injective h))

end LimitedRequest

/-! ### Requests of several tenants -/

structure TenantCall where
  request : LimitedRequest
  (now maxPerWindow : ℤ)
  fault : Option String := none

def TenantCall.toRisk (P : Primitives) (c : TenantCall) : RiskCall :=
  ⟨c.request.bucket P, c.now, c.maxPerWindow, c.fault⟩

/-- The calls in the order they are served in, each with whether it was let through. -/
def serve (P : Primitives) (w : ℤ) (counters : Table RiskCounter.key) :
    List TenantCall → List (TenantCall × Bool)
  | [] => []
  | c :: calls =>
    let (answer, next) := (c.toRisk P).exec w counters
    (c, answer.isOk) :: serve P w next calls

theorem exec_congr {w : ℤ} {c : RiskCall} {counters counters' : Table RiskCounter.key}
    (h : count counters c.bucket (c.now.tdiv w) = count counters' c.bucket (c.now.tdiv w)) :
    (c.exec w counters).1.isOk = (c.exec w counters').1.isOk ∧
      ∀ b k, c.now.tdiv w - 120 ≤ k → count counters b k = count counters' b k →
        count (c.exec w counters).2 b k = count (c.exec w counters').2 b k := by
  unfold RiskCall.exec
  cases c.fault with
  | some e => exact ⟨rfl, fun b k _ hb ↦ hb⟩
  | none =>
    by_cases hmax : c.maxPerWindow ≤ 0
    · simp [checkAndIncrement, hmax]
    · by_cases hlen : 128 < len c.bucket
      · simp [checkAndIncrement, hmax, hlen]
      · have hspec := fun t : Table RiskCounter.key ↦
          @checkAndIncrement_spec w c.now c.maxPerWindow c.bucket t (not_le.mp hmax)
            (not_lt.mp hlen)
        dsimp only
        rw [(hspec counters).1, (hspec counters').1, h]
        refine ⟨rfl, fun b k hk hb ↦ ?_⟩
        rw [(hspec counters).2 b k hk, (hspec counters').2 b k hk, h, hb]

theorem exec_other {w : ℤ} {c : RiskCall} {counters : Table RiskCounter.key} {b : String} {k : ℤ}
    (hb : b ≠ c.bucket) (hk : c.now.tdiv w - 120 ≤ k) :
    count (c.exec w counters).2 b k = count counters b k := by
  unfold RiskCall.exec
  cases c.fault with
  | some e => rfl
  | none =>
    by_cases hmax : c.maxPerWindow ≤ 0
    · simp [checkAndIncrement, hmax]
    · by_cases hlen : 128 < len c.bucket
      · simp [checkAndIncrement, hmax, hlen]
      · refine ((checkAndIncrement_spec (not_le.mp hmax) (not_lt.mp hlen)).2 b k hk).trans ?_
        exact if_neg fun h ↦ hb (Prod.mk.inj h).1

def TenantCall.Within (T : Set (List UInt8)) (c : TenantCall) : Prop :=
  validTenantId c.request.tenantId = true ∧ c.request.message ∈ T

/-- The counters of one tenant are the same in both tables, from a window on. -/
def Sees (P : Primitives) (T : Set (List UInt8)) (tenantId : String) (first : ℤ)
    (counters own : Table RiskCounter.key) : Prop :=
  ∀ c : TenantCall, c.Within T → c.request.tenantId = tenantId → ∀ k, first ≤ k →
    count counters (c.request.bucket P) k = count own (c.request.bucket P) k

theorem serve_filter {P : Primitives} {T : Set (List UInt8)}
    (hT : LimitedRequest.Collisionless P T) {w first : ℤ} {tenantId : String}
    {counters own : Table RiskCounter.key} (hsees : Sees P T tenantId first counters own)
    {calls : List TenantCall} (hin : ∀ c ∈ calls, c.Within T)
    (hfirst : ∀ c ∈ calls, first ≤ c.now.tdiv w)
    (horder : calls.Pairwise (fun c d ↦ c.now.tdiv w - 120 ≤ d.now.tdiv w)) :
    (serve P w counters calls).filter (fun a ↦ a.1.request.tenantId = tenantId) =
      serve P w own (calls.filter (fun c ↦ c.request.tenantId = tenantId)) := by
  induction calls generalizing counters own first with
  | nil => rfl
  | cons c calls ih =>
    rw [List.forall_mem_cons] at hin hfirst
    rw [List.pairwise_cons] at horder
    have hlater : ∀ d ∈ calls, max first (c.now.tdiv w - 120) ≤ d.now.tdiv w :=
      fun d hd ↦ max_le (hfirst.2 d hd) (horder.1 d hd)
    rw [serve, List.filter_cons, List.filter_cons]
    by_cases htenant : c.request.tenantId = tenantId
    · have hcount := hsees c hin.1 htenant _ hfirst.1
      obtain ⟨hanswer, hkept⟩ := exec_congr (c := c.toRisk P) hcount
      rw [if_pos (decide_eq_true htenant), if_pos (decide_eq_true htenant), serve]
      refine congrArg₂ List.cons (Prod.ext rfl hanswer) (ih (fun d hd hdt k hk ↦ ?_) hin.2 hlater
        horder.2)
      exact hkept _ k ((le_max_right _ _).trans hk) (hsees d hd hdt k ((le_max_left _ _).trans hk))
    · rw [if_neg (by simpa using htenant), if_neg (by simpa using htenant)]
      refine ih (fun d hd hdt k hk ↦ ?_) hin.2 hlater horder.2
      -- another tenant counts in another bucket, and cleans up long past windows only
      have hbucket : d.request.bucket P ≠ (c.toRisk P).bucket := fun h ↦
        htenant ((LimitedRequest.bucket_inj hT hd hin.1 h).2.symm.trans hdt)
      rw [exec_other hbucket ((le_max_right _ _).trans hk)]
      exact hsees d hd hdt k ((le_max_left _ _).trans hk)

/-- Requests of different tenants or kinds have different buckets. If no call is dated more than
120 windows before an earlier one, every tenant is answered as if the others made no call. -/
theorem counters_separate {P : Primitives} {T : Set (List UInt8)}
    (hT : LimitedRequest.Collisionless P T) (setting : Option ℤ) :
    (∀ r q : LimitedRequest, validTenantId r.tenantId = true ∧ r.message ∈ T →
      validTenantId q.tenantId = true ∧ q.message ∈ T →
        r.tenantId ≠ q.tenantId ∨ r.kind ≠ q.kind → r.bucket P ≠ q.bucket P) ∧
    ∀ (counters : Table RiskCounter.key) (calls : List TenantCall) (tenantId : String),
      (∀ c ∈ calls, c.Within T) →
      calls.Pairwise (fun c d ↦
        c.now.tdiv (windowSecs setting) - 120 ≤ d.now.tdiv (windowSecs setting)) →
      (serve P (windowSecs setting) counters calls).filter
          (fun a ↦ a.1.request.tenantId = tenantId) =
        serve P (windowSecs setting) counters
          (calls.filter (fun c ↦ c.request.tenantId = tenantId)) := by
  refine ⟨fun r q hr hq hdiffer h ↦ ?_, fun counters calls tenantId hin horder ↦ ?_⟩
  · obtain ⟨hkind, htenant⟩ := LimitedRequest.bucket_inj hT hr hq h
    exact hdiffer.elim (fun hne ↦ hne htenant) (fun hne ↦ hne hkind)
  · obtain ⟨first, hfirst⟩ :=
      (List.finite_toSet (calls.map (fun c ↦ c.now.tdiv (windowSecs setting)))).bddBelow
    exact serve_filter hT (fun _ _ _ _ _ ↦ rfl) hin
      (fun c hc ↦ hfirst (List.mem_map.mpr ⟨c, hc, rfl⟩)) horder

def payment (tenantId : String) (now : ℤ) : TenantCall :=
  ⟨⟨.paymentAuthorize, tenantId, "", "a1"⟩, now, 1, none⟩

theorem counters_separate_twoTenants :
    (serve measuringPrimitives (windowSecs none) .empty
        [payment "acme" 0, payment "globex" 60, payment "acme" 0]).filter
          (fun a ↦ a.1.request.tenantId = "acme") =
      serve measuringPrimitives (windowSecs none) .empty [payment "acme" 0, payment "acme" 0] := by
  have hT : LimitedRequest.Collisionless measuringPrimitives
      {m | m ∈ [(payment "acme" 0).request.message, (payment "globex" 0).request.message]} := by
    intro m hm m' hm' h
    exact List.inj_on_of_nodup_map (f := fun m ↦ (measuringPrimitives.sha256 m).take 24)
      (by decide +kernel) hm hm' h
  refine (counters_separate hT none).2 .empty _ "acme" ?_ (by decide)
  simp only [List.forall_mem_cons, List.not_mem_nil, false_implies, implies_true, and_true]
  exact ⟨⟨by decide, List.mem_cons_self⟩, ⟨by decide, List.mem_cons_of_mem _ List.mem_cons_self⟩,
    by decide, List.mem_cons_self⟩

/-- The clean-up of one tenant's request deletes the counter of another one, whose next request is
dated two hours back. -/
theorem counter_cleaned_up :
    ((serve measuringPrimitives (windowSecs none) .empty
      [payment "acme" 0, payment "globex" 7260, payment "acme" 0]).map Prod.snd =
        [true, true, true]) ∧
    (serve measuringPrimitives (windowSecs none) .empty
      [payment "acme" 0, payment "acme" 0]).map Prod.snd = [true, false] := by
  decide +kernel

end SauronId.Risk
