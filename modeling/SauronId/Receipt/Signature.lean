import SauronId.Receipt.Store

namespace SauronId.Receipt

open CryptoProtocol Lib.Encoding

def ActionReceipt.legacy (r : ActionReceipt) : ActionReceipt :=
  { r with signature := "", seq := 0, prevHash := "", ownerMandateHash := "" }

variable {r s : ActionReceipt} {payload : List UInt8}

theorem receiptSigningPayload_of_unsigned (h : s.unsigned = r.unsigned) :
    receiptSigningPayload s = receiptSigningPayload r := by
  calc receiptSigningPayload s = receiptSigningPayload s.unsigned := rfl
    _ = receiptSigningPayload r.unsigned := by rw [h]
    _ = receiptSigningPayload r := rfl

theorem legacy_of_signedFields (h : signedFields s = signedFields r) : s.legacy = r.legacy := by
  simp only [signedFields, List.cons.injEq, Prod.mk.injEq, true_and, and_true] at h
  obtain ⟨htenant, hid, haction, hagent, hring, hpolicy, hjti, hpop, htime, hstatus⟩ := h
  simp only [ActionReceipt.legacy, ActionReceipt.mk.injEq, and_true]
  exact ⟨htenant, hid, haction, hagent, hring, hpolicy, hjti, hpop, toString_int_injective htime,
    hstatus⟩

theorem signedFields_of_legacy (h : s.legacy = r.legacy) : signedFields s = signedFields r := by
  calc signedFields s = signedFields s.legacy := rfl
    _ = signedFields r.legacy := by rw [h]
    _ = signedFields r := rfl

theorem unsigned_of_legacy (h : s.legacy = r.legacy) (hseq : s.seq = r.seq)
    (hprev : s.prevHash = r.prevHash) (hmandate : s.ownerMandateHash = r.ownerMandateHash) :
    s.unsigned = r.unsigned := by
  have he : ∀ q : ActionReceipt, q.unsigned = { q.legacy with
      seq := q.seq, prevHash := q.prevHash, ownerMandateHash := q.ownerMandateHash } :=
    fun _ ↦ rfl
  rw [he, he r, h, hseq, hprev, hmandate]

theorem receiptSigningPayload_eq_ok (h : receiptSigningPayload r = .ok payload) :
    (0 < r.seq ∧ r.ownerMandateHash ≠ "" ∧
      canonicalFields "sauron.agent-action-receipt.v4" (signedFields r ++
        [("seq", toString r.seq), ("prev_hash", r.prevHash),
         ("owner_mandate_hash", r.ownerMandateHash)]) = .ok payload) ∨
    (0 < r.seq ∧ r.ownerMandateHash = "" ∧
      canonicalFields "sauron.agent-action-receipt.v3" (signedFields r ++
        [("seq", toString r.seq), ("prev_hash", r.prevHash)]) = .ok payload) ∨
    (r.seq ≤ 0 ∧ canonicalFields "sauron.agent-action-receipt.v2" (signedFields r) = .ok payload) := by
  unfold receiptSigningPayload at h
  split_ifs at h with hmandate hchained
  · exact .inl ⟨hmandate.1, hmandate.2, h⟩
  · rw [not_and, not_ne_iff] at hmandate
    exact .inr (.inl ⟨hchained, hmandate hchained, h⟩)
  · exact .inr (.inr ⟨not_lt.mp hchained, h⟩)

theorem covered_of_payload_eq (hr : receiptSigningPayload r = .ok payload)
    (hs : receiptSigningPayload s = .ok payload) :
    (0 < r.seq ∧ s.unsigned = r.unsigned) ∨ (r.seq ≤ 0 ∧ s.seq ≤ 0 ∧ s.legacy = r.legacy) := by
  rcases receiptSigningPayload_eq_ok hr with ⟨hrseq, -, hr⟩ | ⟨hrseq, hrm, hr⟩ | ⟨hrseq, hr⟩ <;>
    rcases receiptSigningPayload_eq_ok hs with ⟨-, -, hs⟩ | ⟨-, hsm, hs⟩ | ⟨hsseq, hs⟩ <;>
    obtain ⟨hdomain, hfields⟩ := canonicalFields_inj hs hr
  -- different versions have different domains
  case inl.inl =>
    obtain ⟨hsigned, hplace⟩ := List.append_inj hfields rfl
    simp only [List.cons.injEq, Prod.mk.injEq, true_and, and_true] at hplace
    obtain ⟨hseq, hprev, hmandate⟩ := hplace
    exact .inl ⟨hrseq, unsigned_of_legacy (legacy_of_signedFields hsigned)
      (toString_int_injective hseq) hprev hmandate⟩
  case inr.inl.inr.inl =>
    obtain ⟨hsigned, hplace⟩ := List.append_inj hfields rfl
    simp only [List.cons.injEq, Prod.mk.injEq, true_and, and_true] at hplace
    obtain ⟨hseq, hprev⟩ := hplace
    exact .inl ⟨hrseq, unsigned_of_legacy (legacy_of_signedFields hsigned)
      (toString_int_injective hseq) hprev (hsm.trans hrm.symm)⟩
  case inr.inr.inr.inr => exact .inr ⟨hrseq, hsseq, legacy_of_signedFields hfields⟩
  all_goals exact absurd hdomain (by decide)

/-- The receipts with the payload of a given one. If that one is chained they agree with it in all
but the signature; if not, they are unchained too, and agree in what a legacy receipt commits. -/
theorem receiptSigningPayload_eq_iff (hr : receiptSigningPayload r = .ok payload) :
    receiptSigningPayload s = .ok payload ↔
      (0 < r.seq ∧ s.unsigned = r.unsigned) ∨ (r.seq ≤ 0 ∧ s.seq ≤ 0 ∧ s.legacy = r.legacy) := by
  constructor
  · exact covered_of_payload_eq hr
  · rintro (⟨-, he⟩ | ⟨hrseq, hsseq, he⟩)
    · rw [receiptSigningPayload_of_unsigned he, hr]
    · have hversion : ∀ q : ActionReceipt, q.seq ≤ 0 → receiptSigningPayload q =
          canonicalFields "sauron.agent-action-receipt.v2" (signedFields q) := by
        intro q hq
        rw [receiptSigningPayload, if_neg (fun h ↦ not_lt.mpr hq h.1), if_neg (not_lt.mpr hq)]
      rw [hversion s hsseq, signedFields_of_legacy he, ← hversion r hrseq, hr]

section Demo

def issued : ActionReceipt where
  tenantId := "t"
  receiptId := "r"
  actionHash := "a"
  agentId := "g"
  ringKeyImageHex := "i"
  policyVersion := "p"
  ajwtJti := "j"
  popJkt := "k"
  timestamp := 7
  status := "accepted"
  signature := ""
  seq := 0
  prevHash := ""
  ownerMandateHash := ""

def chainedIssued : ActionReceipt := { issued with seq := 1, prevHash := "h" }

/-- The payload of the chained receipt is not that of one with another predecessor. -/
theorem receiptSigningPayload_eq_iff_issued :
    (receiptSigningPayload chainedIssued).isOk = true ∧
      receiptSigningPayload { chainedIssued with prevHash := "x" } ≠
        receiptSigningPayload chainedIssued := by
  have hok : (receiptSigningPayload chainedIssued).isOk = true := by decide +kernel
  refine ⟨hok, ?_⟩
  obtain ⟨payload, hpayload⟩ : ∃ w, receiptSigningPayload chainedIssued = .ok w := by
    cases h : receiptSigningPayload chainedIssued with
    | ok w => exact ⟨w, rfl⟩
    | error e => simp [h, Except.isOk, Except.toBool] at hok
  rw [hpayload]
  intro h
  rcases (receiptSigningPayload_eq_iff hpayload).mp h with ⟨-, he⟩ | ⟨hseq, -⟩
  · exact absurd he (by decide)
  · exact absurd hseq (by decide)

/-- An unchained receipt can be given any predecessor and mandate without changing the payload,
and so the signature stays valid. -/
theorem issued_payload_eq :
    (receiptSigningPayload issued).isOk = true ∧
      receiptSigningPayload
          { issued with seq := -1, prevHash := "x", ownerMandateHash := "m" } =
        receiptSigningPayload issued ∧
      { issued with seq := -1, prevHash := "x", ownerMandateHash := "m" }.unsigned ≠
        issued.unsigned := by
  decide +kernel

end Demo

end SauronId.Receipt
