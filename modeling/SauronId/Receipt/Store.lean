import SauronId.CryptoProtocol
import SauronId.Lib.HashChain
import SauronId.Lib.Table

namespace SauronId.Receipt

open CryptoProtocol Lib Lib.Encoding

structure ReceiptRow where
  (receiptId actionHash agentId ringKeyImageHex policyVersion ajwtJti popJkt status : String)
  signature : String
  createdAt : ℤ
  (ringId configDigest : Option String)
  seq : ℤ
  (prevHash ownerMandateHash tenantId : String)
  deriving DecidableEq

abbrev ReceiptTable := Table ReceiptRow.receiptId

structure ActionReceipt where
  (tenantId receiptId actionHash agentId ringKeyImageHex policyVersion ajwtJti popJkt : String)
  timestamp : ℤ
  (status signature : String)
  seq : ℤ
  (prevHash ownerMandateHash : String)
  deriving DecidableEq

def ActionReceipt.ofRow (r : ReceiptRow) : ActionReceipt where
  tenantId := r.tenantId
  receiptId := r.receiptId
  actionHash := r.actionHash
  agentId := r.agentId
  ringKeyImageHex := r.ringKeyImageHex
  policyVersion := r.policyVersion
  ajwtJti := r.ajwtJti
  popJkt := r.popJkt
  timestamp := r.createdAt
  status := r.status
  signature := r.signature
  seq := r.seq
  prevHash := r.prevHash
  ownerMandateHash := r.ownerMandateHash

def ActionReceipt.toRow (r : ActionReceipt) (ringId configDigest : Option String) : ReceiptRow where
  receiptId := r.receiptId
  actionHash := r.actionHash
  agentId := r.agentId
  ringKeyImageHex := r.ringKeyImageHex
  policyVersion := r.policyVersion
  ajwtJti := r.ajwtJti
  popJkt := r.popJkt
  status := r.status
  signature := r.signature
  createdAt := r.timestamp
  ringId := ringId
  configDigest := configDigest
  seq := r.seq
  prevHash := r.prevHash
  ownerMandateHash := r.ownerMandateHash
  tenantId := r.tenantId

@[simp] theorem ActionReceipt.ofRow_toRow (r : ActionReceipt) (ringId configDigest : Option String) :
    ofRow (r.toRow ringId configDigest) = r := rfl

def ActionReceipt.unsigned (r : ActionReceipt) : ActionReceipt := { r with signature := "" }

def loadReceipt (t : ReceiptTable) (receiptId : String) : Option ActionReceipt :=
  (t.get receiptId).map ActionReceipt.ofRow

theorem loadReceipt_of_mem {t : ReceiptTable} {r : ReceiptRow} (h : r ∈ t.rows) :
    loadReceipt t r.receiptId = some (.ofRow r) := by
  rw [loadReceipt, Table.get_eq_some.mpr ⟨h, rfl⟩, Option.map_some]

theorem loadReceipt_eq_some {t : ReceiptTable} {id : String} {a : ActionReceipt} :
    loadReceipt t id = some a ↔ ∃ r ∈ t.rows, r.receiptId = id ∧ .ofRow r = a := by
  simp only [loadReceipt, Option.map_eq_some_iff, Table.get_eq_some, and_assoc]

def chainFields (r : ActionReceipt) : List (String × String) :=
  [("seq", toString r.seq),
   ("prev_hash", r.prevHash),
   ("tenant_id", r.tenantId),
   ("receipt_id", r.receiptId),
   ("action_hash", r.actionHash),
   ("agent_id", r.agentId),
   ("ring_key_image_hex", r.ringKeyImageHex),
   ("policy_version", r.policyVersion),
   ("ajwt_jti", r.ajwtJti),
   ("pop_jkt", r.popJkt),
   ("timestamp", toString r.timestamp),
   ("status", r.status)]

def chainPayload (r : ActionReceipt) : Except Failure (List UInt8) := do
  let payload ← canonicalFields "sauron.agent-action-receipt-chain.v1" (chainFields r)
  if r.ownerMandateHash = "" then
    return payload
  else
    canonicalFields "sauron.agent-action-receipt-chain.v2"
      (chainFields r ++ [("owner_mandate_hash", r.ownerMandateHash)])

def receiptChainHash (P : Primitives) (r : ActionReceipt) : Except Failure String := do
  let payload ← chainPayload r
  return hexEncode (P.sha256 payload)

def signedFields (r : ActionReceipt) : List (String × String) :=
  [("tenant_id", r.tenantId),
   ("receipt_id", r.receiptId),
   ("action_hash", r.actionHash),
   ("agent_id", r.agentId),
   ("ring_key_image_hex", r.ringKeyImageHex),
   ("policy_version", r.policyVersion),
   ("ajwt_jti", r.ajwtJti),
   ("pop_jkt", r.popJkt),
   ("timestamp", toString r.timestamp),
   ("status", r.status)]

def receiptSigningPayload (r : ActionReceipt) : Except Failure (List UInt8) :=
  if 0 < r.seq ∧ r.ownerMandateHash ≠ "" then
    canonicalFields "sauron.agent-action-receipt.v4" (signedFields r ++
      [("seq", toString r.seq), ("prev_hash", r.prevHash),
       ("owner_mandate_hash", r.ownerMandateHash)])
  else if 0 < r.seq then
    canonicalFields "sauron.agent-action-receipt.v3" (signedFields r ++
      [("seq", toString r.seq), ("prev_hash", r.prevHash)])
  else canonicalFields "sauron.agent-action-receipt.v2" (signedFields r)

def signReceipt (P : Primitives) (jwtSecret : List UInt8) (r : ActionReceipt) :
    Except Failure String := do
  let payload ← receiptSigningPayload r
  return "v2." ++ hexEncode
    (P.hmacSha256 (deriveSubkey P jwtSecret "action-receipt-hmac-v2") payload)

def verifyReceiptSignature (P : Primitives) (jwtSecret : List UInt8) (r : ActionReceipt) :
    Except Failure Bool := do
  let expected ← signReceipt P jwtSecret r
  return bytes expected == bytes r.signature

theorem receiptChainHash_unsigned (P : Primitives) (r : ActionReceipt) :
    receiptChainHash P r.unsigned = receiptChainHash P r := rfl

variable {r s : ActionReceipt}

theorem chainFields_inj (h : chainFields r = chainFields s)
    (hm : r.ownerMandateHash = s.ownerMandateHash) : r.unsigned = s.unsigned := by
  simp only [chainFields, List.cons.injEq, Prod.mk.injEq, true_and, and_true] at h
  obtain ⟨hseq, hprev, htenant, hid, haction, hagent, hring, hpolicy, hjti, hpop, htime, hstatus⟩ := h
  simp only [ActionReceipt.unsigned, ActionReceipt.mk.injEq]
  exact ⟨htenant, hid, haction, hagent, hring, hpolicy, hjti, hpop,
    toString_int_injective htime, hstatus, trivial, toString_int_injective hseq, hprev, hm⟩

theorem chainPayload_eq_ok {r : ActionReceipt} {payload : List UInt8}
    (h : chainPayload r = .ok payload) :
    r.ownerMandateHash = "" ∧
        canonicalFields "sauron.agent-action-receipt-chain.v1" (chainFields r) = .ok payload ∨
      r.ownerMandateHash ≠ "" ∧
        canonicalFields "sauron.agent-action-receipt-chain.v2"
          (chainFields r ++ [("owner_mandate_hash", r.ownerMandateHash)]) = .ok payload := by
  obtain ⟨v1, hv1, h⟩ := bind_eq_ok.mp h
  split_ifs at h with hm
  · exact .inl ⟨hm, Except.ok.inj h ▸ hv1⟩
  · exact .inr ⟨hm, h⟩

theorem chainPayload_inj {payload : List UInt8} (hr : chainPayload r = .ok payload)
    (hs : chainPayload s = .ok payload) :
    r.unsigned = s.unsigned := by
  rcases chainPayload_eq_ok hr with ⟨hrm, hv⟩ | ⟨-, hv⟩ <;>
    rcases chainPayload_eq_ok hs with ⟨hsm, hw⟩ | ⟨-, hw⟩ <;>
    obtain ⟨hd, hf⟩ := canonicalFields_inj hv hw
  · exact chainFields_inj hf (hrm.trans hsm.symm)
  · exact absurd hd (by decide)
  · exact absurd hd (by decide)
  · obtain ⟨hf, hm⟩ := List.append_inj hf rfl
    exact chainFields_inj hf (by simpa using hm)

/-- With an injective hash the chain hash determines every field but the
signature, across both versions of the payload. -/
theorem receiptChainHash_inj {P : Primitives} (hsha : Function.Injective P.sha256) {h : String}
    (hr : receiptChainHash P r = .ok h)
    (hs : receiptChainHash P s = .ok h) : r.unsigned = s.unsigned := by
  obtain ⟨v, hv, hvh⟩ := bind_eq_ok.mp hr
  obtain ⟨w, hw, hwh⟩ := bind_eq_ok.mp hs
  have he : hexEncode (P.sha256 v) = hexEncode (P.sha256 w) :=
    (Except.ok.inj hvh).trans (Except.ok.inj hwh).symm
  obtain rfl : v = w := hsha (hexEncode_injective he)
  exact chainPayload_inj hv hw

end SauronId.Receipt
