import SauronId.Audit.Sink
import SauronId.Lib.Locked
import SauronId.Lib.Run

namespace SauronId.Audit

open CryptoProtocol Lib Lib.Encoding Lib.HashChain Lib.Run

structure SinkHost where
  primitives : Primitives
  key : List UInt8
  scan : Scan LogRow

/-- Where a call of `write_db_sink` stands. Each phase between the first and the
last two ends with one step that may fail on its own. -/
inductive SinkPhase
  | idle
  | takingSink (record : AuditRecord)
  | checkingOut (record : AuditRecord)
  | serializing (record : AuditRecord)
  | waiting (record : AuditRecord)
  | readingHead (record : AuditRecord)
  | inserting (record : AuditRecord) (head : ℤ × String)
  | written
  | failed (detail : String)

structure SinkLog where
  log : LogTable
  written : ℕ

abbrev SinkWorld (ι : Type) := Locked ι SinkPhase SinkLog

/-- A call begins, or the next step of a call is taken. A step with a fault is
one that the system below reports as failed. -/
inductive SinkEvent (ι : Type)
  | record (i : ι) (event : AuditEvent) (random : List UInt8) (now : ℤ)
  | step (i : ι) (fault : Option String)

def entryAfter (P : Primitives) (key : List UInt8) (head : ℤ × String) (record : AuditRecord) :
    Entry :=
  let seq := head.1 + 1
  let eventJson := record.event.toJson
  ⟨seq, head.2, computeEntryHash P key seq head.2 record.auditId record.tenantId record.eventType
    eventJson record.timestamp, record.auditId, record.tenantId, record.eventType, eventJson,
    record.timestamp⟩

def readHead (S : SinkHost) (t : LogTable) : Option String → ℤ × String
  | some _ => (0, "genesis")
  | none => sinkHead S.scan t

variable {ι : Type} [DecidableEq ι]

def insertEntry (S : SinkHost) (w : SinkWorld ι) (i : ι) (record : AuditRecord)
    (head : ℤ × String) (fault : Option String) : SinkWorld ι :=
  match fault with
  | some e => w.leave i (.failed ("insert: " ++ e)) w.shared
  | none =>
    match w.shared.log.insert (entryAfter S.primitives S.key head record).toRow with
    | none => w.leave i
        (.failed "insert: UNIQUE constraint failed: security_audit_log.audit_id") w.shared
    | some log => w.leave i .written ⟨log, w.shared.written + 1⟩

def sinkStep (S : SinkHost) (w : SinkWorld ι) (i : ι) (fault : Option String) :
    Option (SinkWorld ι) :=
  match w.phase i with
  | .idle | .written | .failed _ => none
  | .takingSink r => some (w.move i (fault.elim (.checkingOut r)
      (fun _ ↦ .failed "sink mutex poisoned")))
  | .checkingOut r => some (w.move i (fault.elim (.serializing r)
      (fun e ↦ .failed ("connection pool lock: " ++ e))))
  | .serializing r => some (w.move i (fault.elim (.waiting r)
      (fun e ↦ .failed ("event serialize: " ++ e))))
  -- a poisoned chain lock is taken all the same
  | .waiting r => w.enter i (.readingHead r)
  | .readingHead r => some (w.move i (.inserting r (readHead S w.shared.log fault)))
  | .inserting r head => some (insertEntry S w i r head fault)

def nextSink (S : SinkHost) (w : SinkWorld ι) : SinkEvent ι → Option (SinkWorld ι)
  | .record i event random now =>
    match w.phase i with
    | .idle | .written | .failed _ => some (w.move i (.takingSink
        ⟨hexEncode random, event.tenantId, event.eventType, event, now⟩))
    | _ => none
  | .step i fault => sinkStep S w i fault

def SinkWorld.init (t : LogTable) : SinkWorld ι := Locked.init ⟨t, 0⟩ .idle

def HeadRead (S : SinkHost) (w : SinkWorld ι) : SinkEvent ι → Prop
  | .step i (some _) =>
    match w.phase i with
    | .readingHead _ => chainedRows S.scan w.shared.log = []
    | _ => True
  | _ => True

instance (S : SinkHost) (w : SinkWorld ι) (e : SinkEvent ι) : Decidable (HeadRead S w e) := by
  unfold HeadRead
  split
  · split <;> infer_instance
  · infer_instance

variable {S : SinkHost} {w w' : SinkWorld ι} {n : ℕ}

def SinkPhase.Inside : SinkPhase → Prop
  | .readingHead _ | .inserting _ _ => True
  | _ => False

/-- Whoever is about to insert still holds the head of the log. -/
def HoldsHead (S : SinkHost) : SinkPhase → SinkLog → Prop
  | .inserting _ head, s => head = sinkHead S.scan s.log
  | _, _ => True

structure SinkInvariant (S : SinkHost) (n : ℕ) (w : SinkWorld ι) : Prop where
  guarded : w.Guarded SinkPhase.Inside (HoldsHead S)
  verified : ∃ es, Verified S.primitives S.key S.scan w.shared.log es ∧
    es.length = n + w.shared.written

variable {fault : Option String}

omit [DecidableEq ι] in
theorem readHead_eq (hv : ∃ es, Verified S.primitives S.key S.scan w.shared.log es ∧
      es.length = n + w.shared.written) {i : ι} {r : AuditRecord}
    (hphase : w.phase i = .readingHead r) (hok : HeadRead S w (.step i fault)) :
    readHead S w.shared.log fault = sinkHead S.scan w.shared.log := by
  cases fault with
  | none => rfl
  | some e =>
    simp only [HeadRead, hphase] at hok
    obtain ⟨es, hes, -⟩ := hv
    obtain rfl : es = [] := by
      have hmap := hes.1
      rw [hok] at hmap
      exact List.map_eq_nil_iff.mp hmap.symm
    obtain ⟨hseq, htip⟩ := hes.sinkHead_eq
    have hhash : "genesis" = (sinkHead S.scan w.shared.log).2 := Option.some.inj htip
    exact Prod.ext hseq.symm hhash

theorem invariant_insertEntry (hw : SinkInvariant S n w) {i : ι} {r : AuditRecord}
    {head : ℤ × String} (hphase : w.phase i = .inserting r head) :
    SinkInvariant S n (insertEntry S w i r head fault) := by
  have hin : (w.phase i).Inside := by
    rw [hphase]
    trivial
  have hhead : head = sinkHead S.scan w.shared.log := by
    have hk := hw.guarded.knows i ((hw.guarded.inside_iff i).mp hin)
    rwa [hphase] at hk
  obtain ⟨es, hes, hlen⟩ := hw.verified
  unfold insertEntry
  cases fault with
  | some e => exact ⟨hw.guarded.leave hin id, es, hes, hlen⟩
  | none =>
    cases hins : w.shared.log.insert (entryAfter S.primitives S.key head r).toRow with
    | none => exact ⟨hw.guarded.leave hin id, es, hes, hlen⟩
    | some log =>
      refine ⟨hw.guarded.leave hin id, es ++ [nextEntry S.primitives S.key S.scan w.shared.log r],
        ?_, ?_⟩
      · subst hhead
        exact hes.insert hins
      · rw [List.length_append, hlen, List.length_singleton]
        rfl

theorem invariant_sinkStep (hw : SinkInvariant S n w) {i : ι} (hok : HeadRead S w (.step i fault))
    (h : sinkStep S w i fault = some w') :
    SinkInvariant S n w' := by
  have hout : ∀ p : SinkPhase, ¬ (w.phase i).Inside → ¬ p.Inside → SinkInvariant S n (w.move i p) :=
    fun p hi hp ↦ ⟨hw.guarded.move hi hp, hw.verified⟩
  unfold sinkStep at h
  cases hphase : w.phase i with
  | idle | written | failed e =>
    rw [hphase] at h
    cases h
  | takingSink r =>
    rw [hphase] at h hout
    obtain rfl := Option.some.inj h
    cases fault <;> exact hout _ id id
  | checkingOut r =>
    rw [hphase] at h hout
    obtain rfl := Option.some.inj h
    cases fault <;> exact hout _ id id
  | serializing r =>
    rw [hphase] at h hout
    obtain rfl := Option.some.inj h
    cases fault <;> exact hout _ id id
  | waiting r =>
    rw [hphase] at h
    have hshared : w'.shared = w.shared := by rw [(Locked.enter_eq_some.mp h).2]
    exact ⟨hw.guarded.enter h trivial trivial, hshared ▸ hw.verified⟩
  | readingHead r =>
    have hhead := readHead_eq hw.verified hphase hok
    rw [hphase] at h
    obtain rfl := Option.some.inj h
    have hin : (w.phase i).Inside := by
      rw [hphase]
      trivial
    exact ⟨hw.guarded.work hin trivial hhead, hw.verified⟩
  | inserting r head =>
    rw [hphase] at h
    obtain rfl := Option.some.inj h
    exact invariant_insertEntry hw hphase

theorem invariant_nextSink (w : SinkWorld ι) (e : SinkEvent ι) (w' : SinkWorld ι)
    (hw : SinkInvariant S n w) (hok : HeadRead S w e) (h : nextSink S w e = some w') :
    SinkInvariant S n w' := by
  cases e with
  | record i event random now =>
    have hstart : ¬ (w.phase i).Inside → SinkInvariant S n (w.move i (.takingSink
        ⟨hexEncode random, event.tenantId, event.eventType, event, now⟩)) :=
      fun hi ↦ ⟨hw.guarded.move hi id, hw.verified⟩
    simp only [nextSink] at h
    split at h
    · rename_i hphase
      obtain rfl := Option.some.inj h
      exact hstart (by rw [hphase]; exact id)
    · rename_i hphase
      obtain rfl := Option.some.inj h
      exact hstart (by rw [hphase]; exact id)
    · rename_i hphase
      obtain rfl := Option.some.inj h
      exact hstart (by rw [hphase]; exact id)
    · cases h
  | step i fault => exact invariant_sinkStep hw hok h

/-- However the calls interleave and wherever they fail, the log passes the
verifier and counts the rows that were written, as long as no call mistakes a
failed query for an empty log. -/
theorem concurrent_writes_verify {t : LogTable} {es : List (SinkEvent ι)}
    (ht : verifyAuditChain S.primitives S.key S.scan t = .ok n)
    (hok : Along (nextSink S) (HeadRead S) (SinkWorld.init t) es)
    (h : run (nextSink S) (SinkWorld.init t) es = some w) :
    verifyAuditChain S.primitives S.key S.scan w.shared.log = .ok (n + w.shared.written) := by
  obtain ⟨es₀, hrows, hlinked, hlen⟩ := verifyAuditChain_eq_ok.mp ht
  have hinit : SinkInvariant S n (SinkWorld.init t : SinkWorld ι) :=
    ⟨Locked.guarded_init id, es₀, ⟨hrows, hlinked⟩, hlen.symm⟩
  obtain ⟨es', hv, hlen'⟩ := (run_invariant invariant_nextSink hinit hok h).verified
  exact verifyAuditChain_eq_ok.mpr ⟨es', hv.1, hv.2, hlen'.symm⟩

section Demo

def demoSink : SinkHost := ⟨countingPrimitives, auditHmacKey none, .stored⟩

def demoRecord (i : Bool) (id : UInt8) (now : ℤ) : SinkEvent Bool :=
  .record i (.rateLimitTripped "10.0.0.1" "/agent") [id] now

def demoSteps (i : Bool) (n : ℕ) : List (SinkEvent Bool) := List.replicate n (.step i none)

def contendedWrites : List (SinkEvent Bool) :=
  [demoRecord false 1 10, demoRecord true 2 10] ++ demoSteps false 5 ++ demoSteps true 3 ++
    [.step false (some "disk I/O error"), demoRecord false 3 11] ++ demoSteps false 3 ++
    demoSteps true 3 ++ demoSteps false 3

def headLost : List (SinkEvent Bool) :=
  demoRecord false 1 10 :: demoSteps false 6 ++ demoRecord true 2 11 :: demoSteps true 4 ++
    [.step true (some "database is locked"), .step true none]

def logAfter (es : List (SinkEvent Bool)) : Option SinkLog :=
  (run (nextSink demoSink) (SinkWorld.init Table.empty) es).map Locked.shared

theorem concurrent_writes_verify_contended :
    (logAfter contendedWrites).map (fun s ↦ (s.written,
      (verifyAuditChain demoSink.primitives demoSink.key demoSink.scan s.log).toOption)) =
        some (2, some 2) := by
  obtain ⟨w, hw⟩ : ∃ w, run (nextSink demoSink) (SinkWorld.init Table.empty) contendedWrites =
      some w := Option.isSome_iff_exists.mp (by decide +kernel)
  have hcount : (run (nextSink demoSink) (SinkWorld.init Table.empty) contendedWrites).map
      (fun w ↦ w.shared.written) = some 2 := by decide +kernel
  have hverify := concurrent_writes_verify (S := demoSink) (n := 0) (by decide +kernel)
    (by decide +kernel) hw
  rw [hw] at hcount
  have hwritten : w.shared.written = 2 := Option.some.inj hcount
  rw [logAfter, hw]
  simp only [Option.map_some, hverify, hwritten]
  rfl

/-- A failed query for the head is taken for an empty log: the row is inserted
at position one again and the verifier rejects the log. -/
theorem lost_head_breaks_chain :
    verifyAuditChain demoSink.primitives demoSink.key demoSink.scan Table.empty = .ok 0 ∧
    (logAfter headLost).map (fun s ↦ (s.written,
      verifyAuditChain demoSink.primitives demoSink.key demoSink.scan s.log)) =
        some (2, .error "seq gap: expected 2, got 1 (row deleted/reordered)") := by
  constructor
  · decide +kernel
  · decide +kernel

end Demo

end SauronId.Audit
