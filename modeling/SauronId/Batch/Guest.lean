import SauronId.Action.Envelope
import SauronId.Anchor.Store
import SauronId.Lib.HashTree

namespace SauronId.Zk

open SauronId.Action (AgentActionEnvelope actionHash)
open Anchor (AnchoredReceipt)
open CryptoProtocol Lib Lib.Encoding Lib.MerkleScheme Lib.Text

structure PrivateStatsRecord where
  envelope : AgentActionEnvelope
  receipt : AnchoredReceipt

structure ProofInput where
  (tenantId checkpointId actionAnchorId expectedMerkleRoot : String)
  agentIdOrNone : Option String
  records : List PrivateStatsRecord

structure StatsProofInput extends ProofInput where
  metricId : String
  (periodStart periodEnd : ℤ)

inductive ActionPredicate
  | allActionsIn (allowedActions : List String)
  | totalAmountAtMost (currency : String) (maximumMinor : ℤ)
  | countInRange (minimum maximum : ℕ)
  | noAction (forbiddenAction : String)
  | containsAction (requiredAction : String)
  | timeWindow (notBefore notAfter : ℤ)
  deriving DecidableEq

structure ActionPolicyProofInput extends ProofInput where
  predicate : ActionPredicate

inductive TransparentStatement
  | stats (tenantId checkpointId actionAnchorId merkleRoot : String) (treeSize : ℕ)
      (agentIdOrNone : Option String) (metricId : String) (claimedValue periodStart periodEnd : ℤ)
  | actionPolicy (tenantId checkpointId actionAnchorId merkleRoot : String) (treeSize : ℕ)
      (predicateId predicateParametersSha256 : String)
  deriving DecidableEq

structure TransparentJournal where
  (protocol programId : String)
  statement : TransparentStatement
  deriving DecidableEq

def journalProtocol : String := "sauron.transparent-proof.v1"

def statsProgramId : String := "sauron-stats-v1"

def actionPolicyProgramId : String := "sauron-action-policy-v1"

/-! ### From the records to the root -/

structure Texts where
  (fieldTooLong tenantEmpty checkpointEmpty anchorEmpty anonymousReceipt anonymousConfig : String)
  rootMismatch : String

def statsTexts : Texts where
  fieldTooLong := "canonical field length exceeds u32: TryFromIntError(())"
  tenantEmpty := "tenant_id is empty"
  checkpointEmpty := "checkpoint_id is empty"
  anchorEmpty := "action anchor is empty"
  anonymousReceipt := "anonymous receipt uses a different preimage"
  anonymousConfig := "unexpected anonymous config digest"
  rootMismatch := "complete batch Merkle root mismatch"

def policyTexts : Texts where
  fieldTooLong := "field too long: TryFromIntError(())"
  tenantEmpty := "tenant is empty"
  checkpointEmpty := "checkpoint is empty"
  anchorEmpty := "anchor is empty"
  anonymousReceipt := "anonymous receipt is unsupported"
  anonymousConfig := "anonymous config is unsupported"
  rootMismatch := "complete batch root mismatch"

def leafFields (r : AnchoredReceipt) : List (String × String) :=
  [("tenant_id", r.tenantId),
   ("receipt_id", r.receiptId),
   ("action_hash", r.actionHash),
   ("agent_id", r.agentId),
   ("ring_key_image_hex", r.ringKeyImageHex),
   ("policy_version", r.policyVersion),
   ("ajwt_jti", r.ajwtJti),
   ("pop_jkt", r.popJkt),
   ("status", r.status),
   ("signature", r.signature),
   ("created_at", toString r.createdAt),
   ("ring_id", r.ringId),
   ("config_digest", r.configDigest)]

def leafPayload (r : AnchoredReceipt) : Except Failure (List UInt8) :=
  canonicalFields "sauron.action-anchor-leaf.v2" (leafFields r)

def receiptLeaf (P : Primitives) (T : Texts) (r : AnchoredReceipt) :
    Except String (List UInt8) := do
  let payload ← (leafPayload r).mapError (fun _ ↦ T.fieldTooLong)
  return P.sha256 payload

def parents (P : Primitives) : List (List UInt8) → List (List UInt8)
  | left :: right :: rest => P.sha256 (left ++ right) :: parents P rest
  | [unpaired] => [unpaired]
  | [] => []

def merkleLoop (P : Primitives) : (rounds : ℕ) → List (List UInt8) → List (List UInt8)
  | 0, nodes => nodes
  | rounds + 1, nodes =>
    if 1 < nodes.length then merkleLoop P rounds (parents P nodes) else nodes

def merkleRoot (P : Primitives) (nodes : List (List UInt8)) : Except String (List UInt8) := do
  ensure (nodes ≠ []) "empty receipt set"
  (merkleLoop P nodes.length nodes).head?.elim (.error "index out of bounds") .ok

def checkInput (T : Texts) (input : ProofInput) (checkPeriod : Except String Unit) :
    Except String Unit := do
  ensure (trim input.tenantId ≠ "") T.tenantEmpty
  ensure (trim input.checkpointId ≠ "") T.checkpointEmpty
  ensure (trim input.actionAnchorId ≠ "") T.anchorEmpty
  checkPeriod
  ensure (input.records ≠ []) "empty receipt set"
  ensure (input.records.length ≤ 10000) "receipt cap exceeded"

def trimStart0x : List Char → List Char
  | '0' :: 'x' :: rest => trimStart0x rest
  | l => l

def expectedRoot (input : ProofInput) : Except String String := do
  let root := toAsciiLowercase
    (String.ofList (trimStart0x (trim input.expectedMerkleRoot).toList))
  ensure (len root = 64) "root must be 32-byte hex"
  return root

/-- What both guests assert of a record. The envelope is hashed as `serde_json`
writes it, its members in the order of the core's canonical text. -/
def checkRecord (P : Primitives) (T : Texts) (input : ProofInput)
    (checkPeriod : AnchoredReceipt → Except String Unit) (record : PrivateStatsRecord) :
    Except String Unit := do
  let receipt := record.receipt
  ensure (receipt.tenantId = input.tenantId) "tenant mismatch"
  ensure (receipt.agentId = record.envelope.agentId) "agent mismatch"
  ensure (receipt.ajwtJti = record.envelope.ajwtJti) "JTI mismatch"
  ensure (receipt.actionHash = actionHash P record.envelope) "action preimage mismatch"
  checkPeriod receipt
  ensureSome input.agentIdOrNone (fun expected ↦
    ensure (receipt.agentId = expected) "agent scope mismatch")
  ensure (receipt.ringKeyImageHex ≠ "") "missing ring identity"
  ensure (receipt.signature ≠ "") "unsigned receipt"
  ensure (receipt.ringId = "") T.anonymousReceipt
  ensure (receipt.configDigest = "") T.anonymousConfig

def recordLeaf (P : Primitives) (T : Texts) (input : ProofInput)
    (checkPeriod : AnchoredReceipt → Except String Unit) (record : PrivateStatsRecord) :
    Except String (List UInt8) := do
  checkRecord P T input checkPeriod record
  receiptLeaf P T record.receipt

def provenRoot (P : Primitives) (T : Texts) (input : ProofInput)
    (checkPeriod : AnchoredReceipt → Except String Unit) : Except String String := do
  let expected ← expectedRoot input
  let leaves ← input.records.mapM (recordLeaf P T input checkPeriod)
  let root ← merkleRoot P leaves
  ensure (hexEncode root = expected) T.rootMismatch
  return hexEncode root

def recomputed (P : Primitives) (T : Texts) (receipts : List AnchoredReceipt) :
    Except String (String × ℕ) := do
  let leaves ← receipts.mapM (receiptLeaf P T)
  let root ← merkleRoot P leaves
  return (hexEncode root, receipts.length)

/-! ### The statistics guest -/

def checkedI64 (value : ℤ) (overflow : String) : Except String ℤ := do
  ensure (-2 ^ 63 ≤ value ∧ value < 2 ^ 63) overflow
  return value

def isSuccess (status : String) : Bool :=
  toAsciiLowercase status ∈ ["accepted", "authorized", "ok", "success", "verified"]

def countRecords (p : PrivateStatsRecord → Bool) (records : List PrivateStatsRecord) : ℤ :=
  (records.filter p).length

def addCost (total : ℤ) (record : PrivateStatsRecord) : Except String ℤ := do
  ensure (eqIgnoreAsciiCase record.envelope.currency "USD")
    ("cost_total only accepts USD receipts; currency conversion is not hidden inside the proof")
  ensure (0 ≤ record.envelope.amountMinor) "negative cost receipt"
  let cost ← checkedI64 (record.envelope.amountMinor * 10) "milli-USD conversion overflow"
  checkedI64 (total + cost) "cost total overflow"

def computedMetric (metricId : String) (records : List PrivateStatsRecord) :
    Except String ℤ := do
  let n ← checkedI64 records.length "receipt count exceeds i64"
  if metricId = "success_rate" then
    let successes := countRecords (fun r ↦ isSuccess r.receipt.status) records
    let sum ← checkedI64 (successes * 1000) "success sum overflow"
    return sum.tdiv n
  else if metricId = "error_rate" then
    let errors := countRecords (fun r ↦ !isSuccess r.receipt.status) records
    let sum ← checkedI64 (errors * 1000) "error sum overflow"
    return sum.tdiv n
  else if metricId = "tool_call_count" then
    let calls := countRecords (fun r ↦ trim r.envelope.action ≠ "") records
    checkedI64 (calls * 1000) "call count overflow"
  else if metricId = "cost_total" then records.foldlM addCost 0
  else .error "metric is not implemented by this reviewed guest"

def statsMain (P : Primitives) (input : StatsProofInput) : Except String TransparentJournal := do
  checkInput statsTexts input.toProofInput
    (ensure (input.periodStart ≤ input.periodEnd) "invalid period")
  let root ← provenRoot P statsTexts input.toProofInput (fun receipt ↦
    ensure (input.periodStart ≤ receipt.createdAt ∧ receipt.createdAt ≤ input.periodEnd)
      "receipt outside reporting period")
  let claimedValue ← computedMetric input.metricId input.records
  return ⟨journalProtocol, statsProgramId,
    .stats input.tenantId input.checkpointId input.actionAnchorId root input.records.length
      input.agentIdOrNone input.metricId claimedValue input.periodStart input.periodEnd⟩

/-! ### The action policy guest -/

def ActionPredicate.id : ActionPredicate → String
  | allActionsIn _ => "all_actions_in"
  | totalAmountAtMost _ _ => "total_amount_at_most"
  | countInRange _ _ => "count_in_range"
  | noAction _ => "no_action"
  | containsAction _ => "contains_action"
  | timeWindow _ _ => "time_window"

def ActionPredicate.parametersJson : ActionPredicate → String
  | allActionsIn allowedActions => "\x7b\"allowed_actions\":[" ++
      ",".intercalate (allowedActions.map jsonStr) ++ "]\x7d"
  | totalAmountAtMost currency maximumMinor => "\x7b\"currency\":" ++ jsonStr currency ++
      ",\"maximum_minor\":" ++ toString maximumMinor ++ "\x7d"
  | countInRange minimum maximum => "\x7b\"minimum\":" ++ toString minimum ++
      ",\"maximum\":" ++ toString maximum ++ "\x7d"
  | noAction forbiddenAction => "\x7b\"forbidden_action\":" ++ jsonStr forbiddenAction ++ "\x7d"
  | containsAction requiredAction => "\x7b\"required_action\":" ++ jsonStr requiredAction ++ "\x7d"
  | timeWindow notBefore notAfter => "\x7b\"not_before\":" ++ toString notBefore ++
      ",\"not_after\":" ++ toString notAfter ++ "\x7d"

def ActionPredicate.json (p : ActionPredicate) : String :=
  "\x7b" ++ jsonStr p.id ++ ":" ++ p.parametersJson ++ "\x7d"

def addAmount (currency : String) (sum : ℤ) (record : PrivateStatsRecord) : Except String ℤ := do
  ensure (record.envelope.currency = currency) "currency mismatch"
  ensure (0 ≤ record.envelope.amountMinor) "negative amount"
  checkedI64 (sum + record.envelope.amountMinor) "amount overflow"

def validatePredicate (records : List PrivateStatsRecord) :
    ActionPredicate → Except String Unit
  | .allActionsIn allowedActions => do
    ensure (allowedActions ≠ []) "empty action allowlist"
    ensure ((allowedActions.insertionSort (· ≤ ·)).destutter (· ≠ ·) = allowedActions)
      "allowlist must be sorted and unique"
    ensure (∀ r ∈ records, r.envelope.action ∈ allowedActions) "receipt action outside allowlist"
  | .totalAmountAtMost currency maximumMinor => do
    ensure (0 ≤ maximumMinor) "negative maximum"
    let total ← records.foldlM (addAmount currency) 0
    ensure (total ≤ maximumMinor) "amount bound exceeded"
  | .countInRange minimum maximum => do
    ensure (minimum ≤ maximum) "invalid count range"
    ensure (minimum ≤ records.length ∧ records.length ≤ maximum) "count outside range"
  | .noAction forbiddenAction =>
    ensure (∀ r ∈ records, r.envelope.action ≠ forbiddenAction) "forbidden action present"
  | .containsAction requiredAction =>
    ensure (∃ r ∈ records, r.envelope.action = requiredAction) "required action absent"
  | .timeWindow notBefore notAfter => do
    ensure (notBefore ≤ notAfter) "invalid time window"
    ensure (∀ r ∈ records, notBefore ≤ r.receipt.createdAt ∧ r.receipt.createdAt ≤ notAfter)
      "receipt outside time window"

def policyMain (P : Primitives) (input : ActionPolicyProofInput) :
    Except String TransparentJournal := do
  checkInput policyTexts input.toProofInput (.ok ())
  let root ← provenRoot P policyTexts input.toProofInput (fun _ ↦ .ok ())
  validatePredicate input.records input.predicate
  return ⟨journalProtocol, actionPolicyProgramId,
    .actionPolicy input.tenantId input.checkpointId input.actionAnchorId root input.records.length
      input.predicate.id (hexEncode (P.sha256 (bytes input.predicate.json)))⟩

/-! ### The root is the root of the library -/

variable {P : Primitives} {T : Texts} {nodes : List (List UInt8)}

/-- Pairs of nodes are hashed as the concatenation of their digests. -/
abbrev shaTree (P : Primitives) : MerkleScheme (List UInt8) :=
  .pairwise (HashTree.nodeHash P.sha256 (· ++ ·))

theorem parents_eq_pairUp (nodes : List (List UInt8)) :
    parents P nodes = pairUp (HashTree.nodeHash P.sha256 (· ++ ·)) nodes := by
  fun_induction parents P nodes with
  | case1 left right rest ih =>
    rw [pairUp, ih]
    rfl
  | case2 unpaired => rfl
  | case3 => rfl

theorem merkleLoop_eq {rounds : ℕ} (hrounds : nodes.length ≤ rounds + 1) (hne : nodes ≠ []) :
    ∃ root, merkleLoop P rounds nodes = [root] ∧
      pairRoot (HashTree.nodeHash P.sha256 (· ++ ·)) rounds nodes = some root := by
  induction rounds generalizing nodes with
  | zero =>
    match nodes, hne, hrounds with
    | [root], _, _ => exact ⟨root, rfl, rfl⟩
  | succ rounds ih =>
    by_cases hone : nodes.length ≤ 1
    · match nodes, hne, hone with
      | [root], _, _ => exact ⟨root, rfl, rfl⟩
    · have hlen : (pairUp (HashTree.nodeHash P.sha256 (· ++ ·)) nodes).length =
          (nodes.length + 1) / 2 := length_pairUp nodes
      rw [merkleLoop, if_pos (not_le.mp hone), pairRoot_succ hone, parents_eq_pairUp]
      exact ih (by omega) (List.ne_nil_of_length_pos (by omega))

theorem merkleRoot_eq_ok {root : List UInt8} :
    merkleRoot P nodes = .ok root ↔ (shaTree P).root nodes = some root := by
  unfold merkleRoot
  rw [andThen_eq_ok, ensure_eq_ok, elim_eq_ok]
  by_cases hne : nodes = []
  · subst hne
    exact ⟨fun h ↦ absurd rfl h.1, nofun⟩
  · obtain ⟨found, hloop, hroot⟩ := merkleLoop_eq (P := P) (Nat.le_succ nodes.length) hne
    rw [hloop, show (shaTree P).root nodes = some found from hroot]
    simp [hne]

end SauronId.Zk
