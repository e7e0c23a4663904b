import SauronId.Action.Canonical
import SauronId.Batch.Guest

namespace SauronId.Zk

open SauronId.Action (AgentActionEnvelope actionHash canonicalEnvelopeJson
  canonicalEnvelopeJson_injective)
open Anchor (AnchoredReceipt)
open CryptoProtocol Lib Lib.Code Lib.Encoding Lib.Text

/-! ### What a leaf and an action hash commit to -/

theorem leafPayload_inj {r s : AnchoredReceipt} {payload : List UInt8}
    (hr : leafPayload r = .ok payload) (hs : leafPayload s = .ok payload) : r = s := by
  obtain ⟨-, hf⟩ := canonicalFields_inj hr hs
  simp only [leafFields, List.cons.injEq, Prod.mk.injEq, true_and, and_true] at hf
  obtain ⟨htenant, hid, haction, hagent, himage, hpolicy, hjti, hpop, hstatus, hsig, hcreated,
    hring, hconfig⟩ := hf
  cases r
  cases s
  simp only [AnchoredReceipt.mk.injEq]
  exact ⟨hid, haction, hagent, himage, hpolicy, hjti, hpop, hstatus, hsig,
    toString_int_injective hcreated, htenant, hring, hconfig⟩

theorem length_leafPayload {r : AnchoredReceipt} {payload : List UInt8}
    (h : leafPayload r = .ok payload) : 64 < payload.length := by
  refine lt_of_lt_of_le ?_ (le_length_canonicalFields h)
  simp only [leafFields, List.map_cons, List.sum_cons]
  omega

/-! ### What a root commits to -/

def leafPayloads (receipts : List AnchoredReceipt) : List (List UInt8) :=
  receipts.filterMap (fun r ↦ (leafPayload r).toOption)

def hashedTexts (P : Primitives) (records : List PrivateStatsRecord) : List (List UInt8) :=
  records.map (fun r ↦ bytes (canonicalEnvelopeJson r.envelope)) ++
    HashTree.hashed P.sha256 (· ++ ·) (leafPayloads (records.map (·.receipt)))

variable {P : Primitives} {T : Texts} {input : ProofInput}
  {checkPeriod : AnchoredReceipt → Except String Unit}

theorem receiptLeaf_eq_ok {r : AnchoredReceipt} {leaf : List UInt8} :
    receiptLeaf P T r = .ok leaf ↔ ∃ payload, leafPayload r = .ok payload ∧
      P.sha256 payload = leaf := by
  simp only [receiptLeaf, bind_eq_ok, mapError_eq_ok, pure, Except.pure, Except.ok.injEq]

theorem mapM_receiptLeaf {receipts : List AnchoredReceipt} {leaves : List (List UInt8)}
    (h : receipts.mapM (receiptLeaf P T) = .ok leaves) :
    List.Forall₂ (fun r p ↦ leafPayload r = .ok p) receipts (leafPayloads receipts) ∧
      leaves = (leafPayloads receipts).map P.sha256 := by
  induction mapM_eq_ok.mp h with
  | nil => exact ⟨.nil, rfl⟩
  | @cons r leaf receipts leaves hleaf hleaves ih =>
    obtain ⟨payload, hpayload, rfl⟩ := receiptLeaf_eq_ok.mp hleaf
    obtain ⟨hall, rfl⟩ := ih (mapM_eq_ok.mpr hleaves)
    have hcons : leafPayloads (r :: receipts) = payload :: leafPayloads receipts := by
      simp [leafPayloads, hpayload, Except.toOption]
    rw [hcons]
    exact ⟨.cons hpayload hall, rfl⟩

theorem checkRecord_actionHash {record : PrivateStatsRecord}
    (h : checkRecord P T input checkPeriod record = .ok ()) :
    record.receipt.actionHash = actionHash P record.envelope := by
  obtain ⟨-, h⟩ := andThen_eq_ok.mp h
  obtain ⟨-, h⟩ := andThen_eq_ok.mp h
  obtain ⟨-, h⟩ := andThen_eq_ok.mp h
  obtain ⟨hhash, -⟩ := andThen_eq_ok.mp h
  exact ensure_eq_ok.mp hhash

theorem mapM_recordLeaf {records : List PrivateStatsRecord} {leaves : List (List UInt8)} :
    records.mapM (recordLeaf P T input checkPeriod) = .ok leaves ↔
      (∀ r ∈ records, checkRecord P T input checkPeriod r = .ok ()) ∧
        (records.map (·.receipt)).mapM (receiptLeaf P T) = .ok leaves := by
  rw [mapM_eq_ok, mapM_eq_ok]
  induction records generalizing leaves with
  | nil => simp
  | cons r records ih =>
    cases leaves with
    | nil => simp
    | cons leaf leaves =>
      have hleaf : recordLeaf P T input checkPeriod r = .ok leaf ↔
          checkRecord P T input checkPeriod r = .ok () ∧ receiptLeaf P T r.receipt = .ok leaf :=
        andThen_eq_ok
      rw [List.forall₂_cons, ih, hleaf, List.map_cons, List.forall₂_cons, List.forall_mem_cons]
      tauto

theorem provenRoot_eq_ok {rootHex : String}
    (h : provenRoot P T input checkPeriod = .ok rootHex) :
    (∀ r ∈ input.records, r.receipt.actionHash = actionHash P r.envelope) ∧
      List.Forall₂ (fun r p ↦ leafPayload r = .ok p) (input.records.map (·.receipt))
        (leafPayloads (input.records.map (·.receipt))) ∧
      ∃ root, (shaTree P).root ((leafPayloads (input.records.map (·.receipt))).map P.sha256) =
        some root ∧ rootHex = hexEncode root := by
  obtain ⟨expected, -, h₁⟩ := bind_eq_ok.mp h
  obtain ⟨leaves, hleaves, h₂⟩ := bind_eq_ok.mp h₁
  obtain ⟨root, hroot, h₃⟩ := bind_eq_ok.mp h₂
  obtain ⟨-, hhex⟩ := andThen_eq_ok.mp h₃
  obtain ⟨hcheck, hreceipts⟩ := mapM_recordLeaf.mp hleaves
  obtain ⟨hpayloads, rfl⟩ := mapM_receiptLeaf hreceipts
  exact ⟨fun r hr ↦ checkRecord_actionHash (hcheck r hr), hpayloads, root,
    merkleRoot_eq_ok.mp hroot, (Except.ok.inj hhex).symm⟩

theorem append_digests_inj (hlen : ∀ b, (P.sha256 b).length = 32) (a b c d : List UInt8)
    (h : P.sha256 a ++ P.sha256 b = P.sha256 c ++ P.sha256 d) :
    P.sha256 a = P.sha256 c ∧ P.sha256 b = P.sha256 d :=
  List.append_inj h (by rw [hlen, hlen])

theorem ne_append_digests (hlen : ∀ b, (P.sha256 b).length = 32) {p : List UInt8}
    (hp : 64 < p.length) (a b : List UInt8) : p ≠ P.sha256 a ++ P.sha256 b := by
  rintro rfl
  rw [List.length_append, hlen, hlen] at hp
  exact absurd hp (by decide)

theorem length_of_mem_leafPayloads {receipts : List AnchoredReceipt} {p : List UInt8}
    (h : p ∈ leafPayloads receipts) : 64 < p.length := by
  obtain ⟨r, -, hr⟩ := List.mem_filterMap.mp h
  cases hpayload : leafPayload r with
  | error e =>
    rw [hpayload] at hr
    cases hr
  | ok payload =>
    rw [hpayload] at hr
    cases hr
    exact length_leafPayload hpayload

theorem eq_of_map_eq {α β : Type} {f : α → β} {l m : List α}
    (hf : ∀ a ∈ l, ∀ b ∈ m, f a = f b → a = b) (h : l.map f = m.map f) : l = m := by
  induction l generalizing m with
  | nil => exact (List.map_eq_nil_iff.mp h.symm).symm
  | cons a l ih =>
    cases m with
    | nil => cases h
    | cons b m =>
      obtain ⟨hhead, htail⟩ := List.cons.inj h
      rw [hf a List.mem_cons_self b List.mem_cons_self hhead,
        ih (fun a ha b hb ↦ hf a (List.mem_cons_of_mem _ ha) b (List.mem_cons_of_mem _ hb)) htail]

theorem records_eq_of_receipts_eq {l m : List PrivateStatsRecord}
    (hl : ∀ r ∈ l, r.receipt.actionHash = actionHash P r.envelope)
    (hm : ∀ r ∈ m, r.receipt.actionHash = actionHash P r.envelope)
    (hinj : Set.InjOn P.sha256 {p | p ∈ hashedTexts P l ∨ p ∈ hashedTexts P m})
    (h : l.map (·.receipt) = m.map (·.receipt)) : l = m := by
  refine eq_of_map_eq (fun r hr s hs he ↦ ?_) h
  have hhash : actionHash P r.envelope = actionHash P s.envelope := by
    rw [← hl r hr, ← hm s hs, he]
  have hjson : bytes (canonicalEnvelopeJson r.envelope) =
      bytes (canonicalEnvelopeJson s.envelope) := by
    refine hinj (.inl ?_) (.inr ?_) (hexEncode_injective hhash)
    · exact List.mem_append_left _ (List.mem_map_of_mem hr)
    · exact List.mem_append_left _ (List.mem_map_of_mem hs)
  have henvelope := canonicalEnvelopeJson_injective (bytes_injective hjson)
  cases r
  cases s
  cases he
  cases henvelope
  rfl

theorem records_eq_of_root_eq (hlen : ∀ b, (P.sha256 b).length = 32) {T' : Texts}
    {input' : ProofInput} {checkPeriod' : AnchoredReceipt → Except String Unit} {rootHex : String}
    (hinj : Set.InjOn P.sha256
      {p | p ∈ hashedTexts P input.records ∨ p ∈ hashedTexts P input'.records})
    (h : provenRoot P T input checkPeriod = .ok rootHex)
    (h' : provenRoot P T' input' checkPeriod' = .ok rootHex) :
    input.records = input'.records := by
  obtain ⟨hhash, hleaves, root, hroot, hhex⟩ := provenRoot_eq_ok h
  obtain ⟨hhash', hleaves', root', hroot', hhex'⟩ := provenRoot_eq_ok h'
  obtain rfl : root = root' := hexEncode_injective (hhex.symm.trans hhex')
  have hpayloads : leafPayloads (input.records.map (·.receipt)) =
      leafPayloads (input'.records.map (·.receipt)) := by
    refine HashTree.leaves_eq_of_root_eq (append_digests_inj hlen) ?_ ?_ (hinj.mono ?_) hroot hroot'
    · exact fun p hp ↦ ne_append_digests hlen (length_of_mem_leafPayloads hp)
    · exact fun p hp ↦ ne_append_digests hlen (length_of_mem_leafPayloads hp)
    · exact fun p hp ↦ hp.imp (List.mem_append_right _) (List.mem_append_right _)
  have hreceipts : input.records.map (·.receipt) = input'.records.map (·.receipt) := by
    have hunique : Relator.LeftUnique (fun r p ↦ leafPayload r = .ok p) :=
      fun _ _ _ hr hs ↦ leafPayload_inj hr hs
    rw [← hpayloads] at hleaves'
    exact List.left_unique_forall₂' hunique hleaves hleaves'
  exact records_eq_of_receipts_eq hhash hhash' hinj hreceipts

/-! ### What the statements say of the records -/

/-- What a predicate claims of the records of a batch. -/
def ActionPredicate.Holds : ActionPredicate → List PrivateStatsRecord → Prop
  | allActionsIn allowedActions, records => ∀ r ∈ records, r.envelope.action ∈ allowedActions
  | totalAmountAtMost currency maximumMinor, records =>
    (∀ r ∈ records, r.envelope.currency = currency ∧ 0 ≤ r.envelope.amountMinor) ∧
      (records.map (·.envelope.amountMinor)).sum ≤ maximumMinor
  | countInRange minimum maximum, records =>
    minimum ≤ records.length ∧ records.length ≤ maximum
  | noAction forbiddenAction, records => ∀ r ∈ records, r.envelope.action ≠ forbiddenAction
  | containsAction requiredAction, records => ∃ r ∈ records, r.envelope.action = requiredAction
  | timeWindow notBefore notAfter, records =>
    ∀ r ∈ records, notBefore ≤ r.receipt.createdAt ∧ r.receipt.createdAt ≤ notAfter

/-- No batch meets both predicates. -/
def ActionPredicate.Contradicts (p q : ActionPredicate) : Prop :=
  ∀ records, ¬ (p.Holds records ∧ q.Holds records)

theorem containsAction_contradicts_noAction (action : String) :
    (ActionPredicate.containsAction action).Contradicts (.noAction action) := by
  rintro records ⟨⟨r, hr, he⟩, hno⟩
  exact hno r hr he

theorem foldlM_addAmount {currency : String} {records : List PrivateStatsRecord} {sum total : ℤ}
    (h : records.foldlM (addAmount currency) sum = .ok total) :
    (∀ r ∈ records, r.envelope.currency = currency ∧ 0 ≤ r.envelope.amountMinor) ∧
      total = sum + (records.map (·.envelope.amountMinor)).sum := by
  induction records generalizing sum with
  | nil =>
    obtain rfl := Except.ok.inj h
    simp
  | cons r records ih =>
    rw [List.foldlM_cons] at h
    obtain ⟨added, hadd, hrest⟩ := bind_eq_ok.mp h
    obtain ⟨hcurrency, hadd₁⟩ := andThen_eq_ok.mp hadd
    obtain ⟨hamount, hadd₂⟩ := andThen_eq_ok.mp hadd₁
    obtain ⟨-, hadd₃⟩ := andThen_eq_ok.mp hadd₂
    obtain rfl := Except.ok.inj hadd₃
    obtain ⟨hall, rfl⟩ := ih hrest
    have hhead := And.intro (ensure_eq_ok.mp hcurrency) (ensure_eq_ok.mp hamount)
    refine ⟨List.forall_mem_cons.mpr ⟨hhead, hall⟩, ?_⟩
    rw [List.map_cons, List.sum_cons, add_assoc]

theorem holds_of_validatePredicate {records : List PrivateStatsRecord} {p : ActionPredicate}
    (h : validatePredicate records p = .ok ()) : p.Holds records := by
  cases p with
  | allActionsIn allowedActions =>
    obtain ⟨-, h₁⟩ := andThen_eq_ok.mp h
    obtain ⟨-, hall⟩ := andThen_eq_ok.mp h₁
    rwa [ensure_eq_ok] at hall
  | totalAmountAtMost currency maximumMinor =>
    obtain ⟨-, h₁⟩ := andThen_eq_ok.mp h
    obtain ⟨total, htotal, hle⟩ := bind_eq_ok.mp h₁
    obtain ⟨hall, rfl⟩ := foldlM_addAmount htotal
    rw [ensure_eq_ok, zero_add] at hle
    exact ⟨hall, hle⟩
  | countInRange minimum maximum =>
    obtain ⟨-, hrange⟩ := andThen_eq_ok.mp h
    rwa [ensure_eq_ok] at hrange
  | noAction forbiddenAction => rwa [validatePredicate, ensure_eq_ok] at h
  | containsAction requiredAction => rwa [validatePredicate, ensure_eq_ok] at h
  | timeWindow notBefore notAfter =>
    obtain ⟨-, hall⟩ := andThen_eq_ok.mp h
    rwa [ensure_eq_ok] at hall

/-! ### Runs of both guests -/

inductive GuestInput
  | stats (input : StatsProofInput)
  | policy (input : ActionPolicyProofInput)

def GuestInput.main (P : Primitives) : GuestInput → Except String TransparentJournal
  | stats input => statsMain P input
  | policy input => policyMain P input

def GuestInput.records : GuestInput → List PrivateStatsRecord
  | stats input => input.records
  | policy input => input.records

def GuestInput.predicate : GuestInput → Option ActionPredicate
  | stats _ => none
  | policy input => some input.predicate

def TransparentStatement.merkleRoot : TransparentStatement → String
  | stats _ _ _ merkleRoot _ _ _ _ _ _ => merkleRoot
  | actionPolicy _ _ _ merkleRoot _ _ _ => merkleRoot

def TransparentStatement.treeSize : TransparentStatement → ℕ
  | stats _ _ _ _ treeSize _ _ _ _ _ => treeSize
  | actionPolicy _ _ _ _ treeSize _ _ => treeSize

def TransparentStatement.claim : TransparentStatement → Option (String × ℤ)
  | stats _ _ _ _ _ _ metricId claimedValue _ _ => some (metricId, claimedValue)
  | actionPolicy _ _ _ _ _ _ _ => none

structure Established (P : Primitives) (x : GuestInput) (s : TransparentStatement) : Prop where
  root : ∃ (T : Texts) (input : ProofInput) (checkPeriod : AnchoredReceipt → Except String Unit),
    input.records = x.records ∧ provenRoot P T input checkPeriod = .ok s.merkleRoot
  treeSize : s.treeSize = x.records.length
  claim : ∀ metricId value, s.claim = some (metricId, value) →
    computedMetric metricId x.records = .ok value
  predicate : ∀ p, x.predicate = some p → p.Holds x.records

theorem established_of_main {x : GuestInput} {j : TransparentJournal} (h : x.main P = .ok j) :
    Established P x j.statement := by
  cases x with
  | stats input =>
    obtain ⟨-, h₁⟩ := andThen_eq_ok.mp h
    obtain ⟨root, hroot, h₂⟩ := bind_eq_ok.mp h₁
    obtain ⟨value, hvalue, h₃⟩ := bind_eq_ok.mp h₂
    obtain rfl := Except.ok.inj h₃
    refine ⟨⟨_, _, _, rfl, hroot⟩, rfl, ?_, nofun⟩
    rintro metricId claimed ⟨⟩
    exact hvalue
  | policy input =>
    obtain ⟨-, h₁⟩ := andThen_eq_ok.mp h
    obtain ⟨root, hroot, h₂⟩ := bind_eq_ok.mp h₁
    obtain ⟨hvalid, h₃⟩ := andThen_eq_ok.mp h₂
    obtain rfl := Except.ok.inj h₃
    refine ⟨⟨_, _, _, rfl, hroot⟩, rfl, nofun, ?_⟩
    rintro p ⟨⟩
    exact holds_of_validatePredicate hvalid

/-- Two runs that commit one root were given the same records, whichever guests
they are of. So they agree on the size of the tree and on the value of each
metric, and their predicates hold of one batch. -/
theorem statements_determined_by_root (hlen : ∀ b, (P.sha256 b).length = 32) {x y : GuestInput}
    {j k : TransparentJournal} (hx : x.main P = .ok j) (hy : y.main P = .ok k)
    (hinj : Set.InjOn P.sha256 {p | p ∈ hashedTexts P x.records ∨ p ∈ hashedTexts P y.records})
    (hroot : j.statement.merkleRoot = k.statement.merkleRoot) :
    x.records = y.records ∧ j.statement.treeSize = k.statement.treeSize ∧
      (∀ metricId v w, j.statement.claim = some (metricId, v) →
        k.statement.claim = some (metricId, w) → v = w) ∧
      (∀ p q, x.predicate = some p → y.predicate = some q → ¬ p.Contradicts q) ∧
      ∀ action, ¬ (x.predicate = some (.containsAction action) ∧
        y.predicate = some (.noAction action)) := by
  have hj := established_of_main hx
  have hk := established_of_main hy
  obtain ⟨T, input, checkPeriod, hxr, hxroot⟩ := hj.root
  obtain ⟨T', input', checkPeriod', hyr, hyroot⟩ := hk.root
  have hrecords : x.records = y.records := by
    rw [← hxr, ← hyr] at hinj ⊢
    exact records_eq_of_root_eq hlen hinj hxroot (hroot ▸ hyroot)
  have hpredicates : ∀ p q, x.predicate = some p → y.predicate = some q → ¬ p.Contradicts q :=
    fun p q hp hq hcon ↦ hcon _ ⟨hj.predicate p hp, hrecords ▸ hk.predicate q hq⟩
  refine ⟨hrecords, ?_, fun metricId v w hv hw ↦ ?_, hpredicates, fun action h ↦ ?_⟩
  · rw [hj.treeSize, hk.treeSize, hrecords]
  · have hval := hj.claim metricId v hv
    rw [hrecords, hk.claim metricId w hw] at hval
    exact (Except.ok.inj hval).symm
  · exact hpredicates _ _ h.1 h.2 (containsAction_contradicts_noAction action)

/-! ### Two statements about one batch -/

def demoEnvelope (nonce : String) : AgentActionEnvelope where
  agentId := "agent"
  humanKeyImage := "human"
  action := "pay"
  resource := ""
  merchantId := ""
  amountMinor := 500
  currency := "USD"
  nonce := nonce
  expiresAt := 100
  policyHash := ""
  ajwtJti := "jti"

def demoRecord (receiptId nonce : String) : PrivateStatsRecord where
  envelope := demoEnvelope nonce
  receipt :=
    { receiptId := receiptId
      actionHash := actionHash measuringPrimitives (demoEnvelope nonce)
      agentId := "agent"
      ringKeyImageHex := "image"
      policyVersion := "v1"
      ajwtJti := "jti"
      popJkt := ""
      status := "accepted"
      signature := "v2.00"
      createdAt := 5
      tenantId := "acme"
      ringId := ""
      configDigest := "" }

def pairRootHex : String := hexEncode (measuringPrimitives.sha256 (List.replicate 64 0))

def demoInput : ProofInput where
  tenantId := "acme"
  checkpointId := "zkc_1"
  actionAnchorId := "aaa_1"
  expectedMerkleRoot := "0x" ++ pairRootHex
  agentIdOrNone := none
  records := [demoRecord "r1" "n1", demoRecord "r02" "n02"]

def costInput : StatsProofInput := { demoInput with
  metricId := "cost_total", periodStart := 0, periodEnd := 10 }

def payInput : ActionPolicyProofInput := { demoInput with predicate := .containsAction "pay" }

def costJournal : TransparentJournal := ⟨journalProtocol, statsProgramId,
  .stats "acme" "zkc_1" "aaa_1" pairRootHex 2 none "cost_total" 10000 0 10⟩

def payJournal : TransparentJournal := ⟨journalProtocol, actionPolicyProgramId,
  .actionPolicy "acme" "zkc_1" "aaa_1" pairRootHex 2 "contains_action"
    (hexEncode (measuringPrimitives.sha256 (bytes (ActionPredicate.containsAction "pay").json)))⟩

theorem statements_determined_by_root_costInput :
    (GuestInput.stats costInput).main measuringPrimitives = .ok costJournal ∧
      (GuestInput.policy payInput).main measuringPrimitives = .ok payJournal ∧
      costInput.records = payInput.records ∧
      costJournal.statement.treeSize = payJournal.statement.treeSize := by
  obtain ⟨hcost, hpay⟩ : (GuestInput.stats costInput).main measuringPrimitives = .ok costJournal ∧
      (GuestInput.policy payInput).main measuringPrimitives = .ok payJournal := by
    decide +kernel
  have hdistinct : ∀ p ∈ hashedTexts measuringPrimitives demoInput.records,
      ∀ q ∈ hashedTexts measuringPrimitives demoInput.records,
        measuringPrimitives.sha256 p = measuringPrimitives.sha256 q → p = q := by decide +kernel
  have hlen : ∀ b, (measuringPrimitives.sha256 b).length = 32 := fun b ↦ rfl
  obtain ⟨hrecords, hsize, -⟩ := statements_determined_by_root hlen hcost hpay
    (fun p hp q hq ↦ hdistinct p (hp.elim id id) q (hq.elim id id)) rfl
  exact ⟨hcost, hpay, hrecords, hsize⟩

end SauronId.Zk
