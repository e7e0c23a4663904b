import SauronId.Receipt.Store
import SauronId.Lib.Merkle

namespace SauronId.Anchor

open CryptoProtocol Lib Lib.Encoding Receipt

/-- The values of `anchor_status`; `partlySubmitted` is stored as `partial`. -/
inductive AnchorStatus
  | pending
  | submitted
  | partlySubmitted
  | failed
  deriving DecidableEq

structure AnchorRow where
  (anchorId batchRootHex : String)
  nActions : ℤ
  (fromReceiptId toReceiptId : String)
  (fromCreatedAt toCreatedAt : ℤ)
  (btcAnchorId solAnchorId : String)
  anchorStatus : AnchorStatus
  anchorError : String
  (leafVersion createdAt auditHeadSeq : ℤ)
  (auditHeadHash tenantId : String)
  deriving DecidableEq

structure AuditRow where
  auditId : String
  seq : Option ℤ
  entryHash : String

structure BitcoinRow where
  (anchorId provider : String)
  otsUpgraded : ℤ
  tenantId : String

structure SolanaRow where
  (anchorId signature : String)
  (slot confirmed : ℤ)
  tenantId : String

structure Db where
  receipts : ReceiptTable
  anchors : Table AnchorRow.anchorId
  auditLog : Table AuditRow.auditId
  bitcoin : Table BitcoinRow.anchorId
  solana : Table SolanaRow.anchorId

def Db.empty : Db := ⟨.empty, .empty, .empty, .empty, .empty⟩

/-- The visiting orders of the storage engine, one for each table that is
queried with an `ORDER BY`. -/
structure Engine where
  receipts : Scan ReceiptRow
  anchors : Scan AnchorRow
  auditLog : Scan AuditRow

def Engine.stored : Engine := ⟨.stored, .stored, .stored⟩

/-- Receipts are anchored in the order of `(created_at, receipt_id)`. -/
abbrev Position := ℤ ×ₗ String

def position (r : ReceiptRow) : Position := toLex (r.createdAt, r.receiptId)

def AnchorRow.first (b : AnchorRow) : Position := toLex (b.fromCreatedAt, b.fromReceiptId)

def AnchorRow.last (b : AnchorRow) : Position := toLex (b.toCreatedAt, b.toReceiptId)

structure AnchoredReceipt where
  (receiptId actionHash agentId ringKeyImageHex policyVersion ajwtJti popJkt status : String)
  signature : String
  createdAt : ℤ
  (tenantId ringId configDigest : String)
  deriving DecidableEq

def receiptFromRow (r : ReceiptRow) : AnchoredReceipt where
  receiptId := r.receiptId
  actionHash := r.actionHash
  agentId := r.agentId
  ringKeyImageHex := r.ringKeyImageHex
  policyVersion := r.policyVersion
  ajwtJti := r.ajwtJti
  popJkt := r.popJkt
  status := r.status
  signature := r.signature
  createdAt := r.createdAt
  tenantId := r.tenantId
  ringId := r.ringId.getD ""
  configDigest := r.configDigest.getD ""

def leafHashV1 (P : Primitives) (receiptId actionHash : String) (createdAt : ℤ) : List UInt8 :=
  P.sha256 (bytes receiptId ++ bytes "|" ++ bytes actionHash ++ bytes "|" ++
    bytes (toString createdAt))

def auditHeadLeaf (P : Primitives) (tenantId : String) (seq : ℤ) (entryHash : String) :
    Except Failure (List UInt8) := do
  let payload ← canonicalFields "sauron.audit-head-leaf.v1"
    [("tenant_id", tenantId), ("audit_seq", toString seq), ("audit_entry_hash", entryHash)]
  return P.sha256 payload

def leafHashV2 (P : Primitives) (r : AnchoredReceipt) : Except Failure (List UInt8) := do
  let payload ← canonicalFields "sauron.action-anchor-leaf.v2"
    [("tenant_id", r.tenantId),
     ("receipt_id", r.receiptId),
     ("action_hash", r.actionHash),
     ("agent_id", r.agentId),
     ("ring_key_image_hex", r.ringKeyImageHex),
     ("policy_version", r.policyVersion),
     ("ajwt_jti", r.ajwtJti),
     ("pop_jkt", r.popJkt),
     ("status", r.status),
     ("signature", r.signature),
     ("created_at", toString r.createdAt),
     ("ring_id", r.ringId),
     ("config_digest", r.configDigest)]
  return P.sha256 payload

def auditChainHead (scan : Scan AuditRow) (t : Table AuditRow.auditId) : Option (ℤ × String) :=
  ((scan.last (fun r ↦ r.seq.isSome) (fun r ↦ r.seq.getD 0) t.rows).map
    (fun r ↦ (r.seq.getD 0, r.entryHash))).filter (fun head ↦ head.2 ≠ "")

end SauronId.Anchor
