import SauronId.Action.Envelope
import SauronId.Lib.Code

namespace SauronId.Action

open Lib.Code Lib.Encoding Lib.Text

def canonicalUsageReportJson (receiptId modelId : String) (inputTokens outputTokens : ℤ)
    (nonce : String) : String :=
  "\x7b\"receipt_id\":" ++ jsonStr receiptId ++
  ",\"model_id\":" ++ jsonStr modelId ++
  ",\"input_tokens\":" ++ toString inputTokens ++
  ",\"output_tokens\":" ++ toString outputTokens ++
  ",\"nonce\":" ++ jsonStr nonce ++ "\x7d"

inductive SignedMessage
  | action (envelope : AgentActionEnvelope)
  | anonAction (envelope : AnonActionEnvelope)
  | usageReport (receiptId modelId : String) (inputTokens outputTokens : ℤ) (nonce : String)
  deriving DecidableEq

def SignedMessage.canonicalJson : SignedMessage → String
  | action e => canonicalEnvelopeJson e
  | anonAction e => canonicalAnonEnvelopeJson e
  | usageReport receiptId modelId inputTokens outputTokens nonce =>
    canonicalUsageReportJson receiptId modelId inputTokens outputTokens nonce

/-! ### Each kind can be read back -/

theorem canonicalEnvelopeJson_injective : Function.Injective canonicalEnvelopeJson := by
  have hreads := readsText_start "\x7b\"agent_id\":"
    |>.str (fun e : AgentActionEnvelope ↦ e.agentId)
    |>.member ",\"human_key_image\":" (·.humanKeyImage)
    |>.member ",\"action\":" (·.action)
    |>.member ",\"resource\":" (·.resource)
    |>.member ",\"merchant_id\":" (·.merchantId)
    |>.text ",\"amount_minor\":"
    |>.int (·.amountMinor) ",\"currency\":" rfl (by decide)
    |>.str (·.currency)
    |>.member ",\"nonce\":" (·.nonce)
    |>.text ",\"expires_at\":"
    |>.int (·.expiresAt) ",\"policy_hash\":" rfl (by decide)
    |>.str (·.policyHash)
    |>.member ",\"ajwt_jti\":" (·.ajwtJti)
    |>.text "\x7d"
  intro e f h
  unfold canonicalEnvelopeJson at h
  have hview := hreads.view_eq h
  cases e
  cases f
  simp_all

theorem canonicalAnonEnvelopeJson_injective : Function.Injective canonicalAnonEnvelopeJson := by
  have hreads := readsText_start "\x7b\"tenant_id\":"
    |>.str (fun e : AnonActionEnvelope ↦ e.tenantId)
    |>.member ",\"ring_id\":" (·.ringId)
    |>.text ",\"also_ring_ids\":["
    |>.strs (·.alsoRingIds) "],\"action\":" rfl
    |>.str (·.action)
    |>.member ",\"resource\":" (·.resource)
    |>.member ",\"merchant_id\":" (·.merchantId)
    |>.text ",\"amount_minor\":"
    |>.int (·.amountMinor) ",\"currency\":" rfl (by decide)
    |>.str (·.currency)
    |>.member ",\"config_digest\":" (·.configDigest)
    |>.member ",\"nonce\":" (·.nonce)
    |>.text ",\"expires_at\":"
    |>.int (·.expiresAt) "\x7d" rfl (by decide)
  intro e f h
  unfold canonicalAnonEnvelopeJson at h
  have hview := hreads.view_eq h
  cases e
  cases f
  simp_all

theorem canonicalUsageReportJson_inj {receiptId receiptId' modelId modelId' nonce nonce' : String}
    {inputTokens inputTokens' outputTokens outputTokens' : ℤ}
    (h : canonicalUsageReportJson receiptId modelId inputTokens outputTokens nonce =
      canonicalUsageReportJson receiptId' modelId' inputTokens' outputTokens' nonce') :
    receiptId = receiptId' ∧ modelId = modelId' ∧ inputTokens = inputTokens' ∧
      outputTokens = outputTokens' ∧ nonce = nonce' := by
  have hreads := readsText_start "\x7b\"receipt_id\":"
    |>.str (fun r : String × String × ℤ × ℤ × String ↦ r.1)
    |>.member ",\"model_id\":" (·.2.1)
    |>.text ",\"input_tokens\":"
    |>.int (·.2.2.1) ",\"output_tokens\":" rfl (by decide)
    |>.int (·.2.2.2.1) ",\"nonce\":" rfl (by decide)
    |>.str (·.2.2.2.2)
    |>.text "\x7d"
  unfold canonicalUsageReportJson at h
  have hview := @ReadsText.view_eq _ _ _ _ hreads
    (receiptId, modelId, inputTokens, outputTokens, nonce)
    (receiptId', modelId', inputTokens', outputTokens', nonce') h
  simpa [and_assoc] using hview

/-! ### No message is of two kinds -/

def SignedMessage.letter : SignedMessage → Char
  | action _ => 'a'
  | anonAction _ => 't'
  | usageReport .. => 'r'

theorem SignedMessage.toList_canonicalJson (m : SignedMessage) :
    ∃ l, m.canonicalJson.toList = ['\x7b', '"', m.letter] ++ l := by
  cases m with
  | action e =>
    change ∃ l, (canonicalEnvelopeJson e).toList = _
    unfold canonicalEnvelopeJson
    simp only [String.toList_append, List.append_assoc]
    exact ⟨_, rfl⟩
  | anonAction e =>
    change ∃ l, (canonicalAnonEnvelopeJson e).toList = _
    unfold canonicalAnonEnvelopeJson
    simp only [String.toList_append, List.append_assoc]
    exact ⟨_, rfl⟩
  | usageReport receiptId modelId inputTokens outputTokens nonce =>
    change ∃ l, (canonicalUsageReportJson receiptId modelId inputTokens outputTokens nonce).toList = _
    unfold canonicalUsageReportJson
    simp only [String.toList_append, List.append_assoc]
    exact ⟨_, rfl⟩

theorem SignedMessage.letter_eq {m n : SignedMessage} (h : m.canonicalJson = n.canonicalJson) :
    m.letter = n.letter := by
  obtain ⟨l, hl⟩ := m.toList_canonicalJson
  obtain ⟨k, hk⟩ := n.toList_canonicalJson
  rw [h, hk] at hl
  simpa using (List.append_inj hl rfl).1.symm

/-- A signed text determines the message, its kind included. -/
theorem canonicalJson_injective : Function.Injective SignedMessage.canonicalJson := by
  intro m n h
  have hletter := SignedMessage.letter_eq h
  cases m with
  | action e =>
    cases n with
    | action f => exact congrArg _ (canonicalEnvelopeJson_injective h)
    | anonAction f | usageReport => simp [SignedMessage.letter] at hletter
  | anonAction e =>
    cases n with
    | anonAction f => exact congrArg _ (canonicalAnonEnvelopeJson_injective h)
    | action f | usageReport => simp [SignedMessage.letter] at hletter
  | usageReport receiptId modelId inputTokens outputTokens nonce =>
    cases n with
    | usageReport =>
      obtain ⟨rfl, rfl, rfl, rfl, rfl⟩ := canonicalUsageReportJson_inj h
      rfl
    | action f | anonAction f => simp [SignedMessage.letter] at hletter

end SauronId.Action
