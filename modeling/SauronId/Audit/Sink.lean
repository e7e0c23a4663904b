import SauronId.Audit.Chain

namespace SauronId.Audit

open CryptoProtocol Lib Lib.Encoding Lib.HashChain Lib.Text

inductive AuditEvent
  | authFailed (ip path reason : String)
  | signatureMismatch (agentId path : String)
  | crossTenantAttempt (tenantId targetTenant path : String)
  | policyViolation (tenantId agentId policyId check reason : String)
  | adminKeyRotated (keyFingerprint : String)
  | rateLimitTripped (ip path : String)
  | egressDenied (tenantId agentId host method path reason : String)
  deriving DecidableEq

namespace AuditEvent

def eventType : AuditEvent → String
  | authFailed .. => "auth_failed"
  | signatureMismatch .. => "signature_mismatch"
  | crossTenantAttempt .. => "cross_tenant_attempt"
  | policyViolation .. => "policy_violation"
  | adminKeyRotated .. => "admin_key_rotated"
  | rateLimitTripped .. => "rate_limit_tripped"
  | egressDenied .. => "egress_denied"

def tenantId : AuditEvent → String
  | crossTenantAttempt tenantId .. => tenantId
  | policyViolation tenantId .. => tenantId
  | egressDenied tenantId .. => tenantId
  | _ => "default"

def fields : AuditEvent → List (String × String)
  | authFailed ip path reason => [("ip", ip), ("path", path), ("reason", reason)]
  | signatureMismatch agentId path => [("agent_id", agentId), ("path", path)]
  | crossTenantAttempt tenantId targetTenant path =>
    [("tenant_id", tenantId), ("target_tenant", targetTenant), ("path", path)]
  | policyViolation tenantId agentId policyId check reason =>
    [("tenant_id", tenantId), ("agent_id", agentId), ("policy_id", policyId), ("check", check),
      ("reason", reason)]
  | adminKeyRotated keyFingerprint => [("key_fingerprint", keyFingerprint)]
  | rateLimitTripped ip path => [("ip", ip), ("path", path)]
  | egressDenied tenantId agentId host method path reason =>
    [("tenant_id", tenantId), ("agent_id", agentId), ("host", host), ("method", method),
      ("path", path), ("reason", reason)]

def toJson (e : AuditEvent) : String :=
  "\x7b" ++ ",".intercalate ((("type", e.eventType) :: e.fields).map
    (fun f ↦ jsonStr f.1 ++ ":" ++ jsonStr f.2)) ++ "\x7d"

end AuditEvent

structure AuditRecord where
  (auditId tenantId eventType : String)
  event : AuditEvent
  timestamp : ℤ

def sinkHead (scan : Scan LogRow) (t : LogTable) : ℤ × String :=
  ((scan.last (fun r ↦ r.seq.isSome) (fun r ↦ r.seq.getD 0) t.rows).bind
    (fun r ↦ r.entryHash.map (fun h ↦ (r.seq.getD 0, h)))).getD (0, "genesis")

def nextEntry (P : Primitives) (key : List UInt8) (scan : Scan LogRow) (t : LogTable)
    (record : AuditRecord) : Entry :=
  let (lastSeq, lastHash) := sinkHead scan t
  let seq := lastSeq + 1
  let eventJson := record.event.toJson
  let entryHash := computeEntryHash P key seq lastHash record.auditId record.tenantId
    record.eventType eventJson record.timestamp
  ⟨seq, lastHash, entryHash, record.auditId, record.tenantId, record.eventType, eventJson,
    record.timestamp⟩

variable {P : Primitives} {key : List UInt8} {scan : Scan LogRow} {t : LogTable} {es : List Entry}

/-- The chained rows of the log are the entries of one chain. -/
def Verified (P : Primitives) (key : List UInt8) (scan : Scan LogRow) (t : LogTable)
    (es : List Entry) : Prop :=
  chainedRows scan t = es.map Entry.toRow ∧ (links P key).Linked 1 "genesis" es

theorem Verified.pairwise_lt (h : Verified P key scan t es) :
    (chainedRows scan t).Pairwise (fun r s ↦ r.seq.getD 0 < s.seq.getD 0) := by
  rw [h.1, List.pairwise_map]
  exact h.2.seq_lt

theorem mem_chainedRows {r : LogRow} :
    r ∈ chainedRows scan t ↔ r ∈ t.rows ∧ r.seq.isSome = true :=
  Scan.mem_select

theorem Verified.mem_toRow (h : Verified P key scan t es) {r : LogRow} (hr : r ∈ t.rows)
    (hs : r.seq.isSome = true) : ∃ e ∈ es, e.toRow = r := by
  have hmem : r ∈ chainedRows scan t := mem_chainedRows.mpr ⟨hr, hs⟩
  rw [h.1] at hmem
  exact List.mem_map.mp hmem

theorem Verified.sinkHead_eq (h : Verified P key scan t es) :
    (sinkHead scan t).1 = es.length ∧
      (links P key).tip "genesis" es = some (sinkHead scan t).2 := by
  unfold sinkHead
  cases hlast : scan.last (fun r : LogRow ↦ r.seq.isSome) (fun r ↦ r.seq.getD 0) t.rows with
  | none =>
    have hnil : chainedRows scan t = [] := by
      refine List.eq_nil_iff_forall_not_mem.mpr (fun r hr ↦ ?_)
      obtain ⟨hr, hs⟩ := mem_chainedRows.mp hr
      exact absurd hs (by simp [Scan.last_eq_none.mp hlast r hr])
    rw [h.1, List.map_eq_nil_iff] at hnil
    simp [hnil]
  | some r =>
    obtain ⟨hr, hs, hmax⟩ := Scan.last_eq_some hlast
    obtain ⟨e, he, rfl⟩ := h.mem_toRow hr hs
    cases es using List.reverseRecOn with
    | nil => cases he
    | append_singleton init l =>
      obtain ⟨-, hseq, -, hsome⟩ := Links.linked_concat.mp h.2
      obtain ⟨hash, hhash⟩ := Option.isSome_iff_exists.mp hsome
      -- no entry before the last one can have the greatest position
      have hle : l ∈ init ++ [l] := List.mem_concat_self
      have hrow : l.toRow ∈ t.rows ∧ l.toRow.seq.isSome = true :=
        mem_chainedRows.mp (h.1 ▸ List.mem_map_of_mem hle)
      have hge : l.seq ≤ e.seq := hmax l.toRow hrow.1 hrow.2
      have hel : e = l := by
        refine (List.mem_append.mp he).elim (fun hi ↦ ?_) List.mem_singleton.mp
        have hlt := (List.pairwise_append.mp h.2.seq_lt).2.2 e hi l (List.mem_singleton_self l)
        exact absurd hge (not_le.mpr hlt)
      subst hel
      have hlen : e.seq = 1 + (init.length : ℤ) := hseq
      rw [Links.tip_concat, hhash, ← (links_hash_eq_some.mp hhash).2]
      simp only [Entry.toRow, Option.getD_some, Option.bind_some, Option.map_some,
        List.length_append, List.length_singleton, Nat.cast_add, Nat.cast_one]
      exact ⟨by omega, trivial⟩

theorem Verified.linked_concat (h : Verified P key scan t es) (r : AuditRecord) :
    (links P key).Linked 1 "genesis" (es ++ [nextEntry P key scan t r]) := by
  obtain ⟨hseq, htip⟩ := h.sinkHead_eq
  refine Links.linked_concat.mpr ⟨h.2, ?_, htip, ?_⟩
  · change (sinkHead scan t).1 + 1 = 1 + (es.length : ℤ)
    omega
  · simp [links, nextEntry, Entry.computeHash]

theorem Verified.insert {u : LogTable} {r : AuditRecord} (h : Verified P key scan t es)
    (hins : t.insert (nextEntry P key scan t r).toRow = some u) :
    Verified P key scan u (es ++ [nextEntry P key scan t r]) := by
  refine ⟨?_, h.linked_concat r⟩
  obtain ⟨-, hrows⟩ := Table.insert_eq_some.mp hins
  have hlater : ∀ s ∈ t.rows, s.seq.isSome = true →
      s.seq.getD 0 < (nextEntry P key scan t r).toRow.seq.getD 0 := by
    intro s hs hsome
    obtain ⟨e, he, rfl⟩ := h.mem_toRow hs hsome
    exact (List.pairwise_append.mp (h.linked_concat r).seq_lt).2.2 e he _
      (List.mem_singleton_self _)
  rw [chainedRows, hrows, List.map_append, ← h.1]
  exact Scan.select_concat rfl h.pairwise_lt hlater

end SauronId.Audit
