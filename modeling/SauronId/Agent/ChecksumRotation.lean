import SauronId.Agent.Delegation

namespace SauronId.Agent

open SauronId.Action (Curve Rejection)
open CryptoProtocol Lib Lib.Encoding

variable {C : Curve} {ι : Type}

structure ChecksumAuditRow where
  (agentId fromChecksum toChecksum fromInputsHash toInputsHash reason actor : String)
  ts : ℤ

structure ChecksumUpdateRequest where
  agentType : String
  checksumInputs : Json
  reason : String

structure ChecksumUpdateCall where
  (tenantId agentId : String)
  session : Option String
  payload : ChecksumUpdateRequest
  (sessionNow now : ℤ)

structure ChecksumUpdateResponse where
  (agentId fromChecksum toChecksum : String)
  version : ℤ
  deriving DecidableEq

structure Rotation where
  (tenantId agentId agentType stored checksum reason actor : String)
  now : ℤ
  deriving DecidableEq

def prepareRotation (H : Host C) (call : ChecksumUpdateCall) : Except Rejection Rotation :=
  match call.session.bind (fun token ↦ verifyUserSession H call.sessionNow token call.tenantId) with
  | none => .error ⟨401, "Valid x-sauron-session header required"⟩
  | some actor => do
    let p := call.payload
    let (canonical, newChecksum) ← (computeChecksum H p.agentType p.checksumInputs).mapError
      (fun e ↦ badRequest e.display)
    return {
      tenantId := call.tenantId
      agentId := call.agentId
      agentType := p.agentType
      stored := if H.storeInputsHashed then newChecksum else canonical
      checksum := newChecksum
      reason := p.reason
      actor := actor
      now := call.now }

/-- The three tables. `done` only records the rotations that were answered with
success. -/
structure ChecksumRecords where
  agents : Table AgentRecord.agentId
  inputs : Table ChecksumInputsRow.agentId
  audit : List ChecksumAuditRow
  done : List ChecksumUpdateResponse

def ChecksumInputsRow.rotate (r : Rotation) (version : ℤ) (row : ChecksumInputsRow) :
    ChecksumInputsRow :=
  { row with
    agentType := r.agentType
    inputsCanonical := r.stored
    computedChecksum := r.checksum
    version := version
    updatedAt := r.now }

def inputsSha (P : Primitives) (inputs : String) : String :=
  "sha256:" ++ hexEncode (P.sha256 (bytes inputs))

def Rotation.auditRow (P : Primitives) (r : Rotation) (prev : ChecksumInputsRow) :
    ChecksumAuditRow where
  agentId := r.agentId
  fromChecksum := prev.computedChecksum
  toChecksum := r.checksum
  fromInputsHash := inputsSha P prev.inputsCanonical
  toInputsHash := inputsSha P r.stored
  reason := r.reason
  actor := r.actor
  ts := r.now

namespace ChecksumRecords

def updateInputs (s : ChecksumRecords) (r : Rotation) (version : ℤ) : ChecksumRecords :=
  { s with
    inputs := s.inputs.updateWhere (fun row ↦ row.agentId = r.agentId) (.rotate r version)
      (fun _ ↦ rfl) }

def updateAgent (s : ChecksumRecords) (r : Rotation) : ChecksumRecords :=
  { s with
    agents := s.agents.updateWhere (fun a ↦ a.agentId = r.agentId) (.setChecksum r.checksum)
      (fun _ ↦ rfl) }

def appendAudit (s : ChecksumRecords) (row : ChecksumAuditRow) (answer : ChecksumUpdateResponse) :
    ChecksumRecords :=
  { s with audit := s.audit ++ [row], done := s.done ++ [answer] }

def trail (s : ChecksumRecords) (agentId : String) : List ChecksumAuditRow :=
  s.audit.filter (fun row ↦ row.agentId = agentId)

def rotations (s : ChecksumRecords) (agentId : String) : List ChecksumUpdateResponse :=
  s.done.filter (fun answer ↦ answer.agentId = agentId)

end ChecksumRecords

/-- Where a request stands. Each phase but the first and the last ends with one
statement. -/
inductive RotationPhase
  | idle
  | findingOwner (r : Rotation)
  | readingPrevious (r : Rotation)
  | readingInputs (r : Rotation) (fromChecksum : String)
  | updatingInputs (r : Rotation) (fromChecksum : String) (prev : ChecksumInputsRow)
  | updatingAgent (r : Rotation) (fromChecksum : String) (prev : ChecksumInputsRow)
  | appendingAudit (r : Rotation) (fromChecksum : String) (prev : ChecksumInputsRow)
  | finished (answer : Except Rejection ChecksumUpdateResponse)
  deriving DecidableEq

/-- The requests in flight. `wrote` only records which of them has written to
the rows of which agent. -/
structure RotationWorld (ι : Type) where
  records : ChecksumRecords
  phase : ι → RotationPhase
  wrote : List (ι × String)

/-- A step executes one statement, which may fail with an error of the database. -/
inductive RotationEvent (ι : Type)
  | arrive (i : ι) (call : ChecksumUpdateCall)
  | advance (i : ι) (fault : Option String)

def afterPrepare : Except Rejection Rotation → RotationPhase
  | .error rejection => .finished (.error rejection)
  | .ok r => .findingOwner r

def afterOwner (r : Rotation) (fault : Option String) (agent : Option AgentRecord) : RotationPhase :=
  match fault, agent.filter (fun a ↦ a.revoked = 0 ∧ a.tenantId = r.tenantId) with
  | none, some a =>
    if a.humanKeyImage = r.actor then .readingPrevious r
    else .finished (.error
      ⟨403, "only the registering human can rotate this agent's checksum"⟩)
  | _, _ => .finished (.error ⟨404, "agent not found or revoked"⟩)

def previousChecksum (r : Rotation) (fault : Option String) (agent : Option AgentRecord) : String :=
  match fault with
  | some _ => ""
  | none => ((agent.filter (fun a ↦ a.tenantId = r.tenantId)).map AgentRecord.agentChecksum).getD ""

def afterInputs (r : Rotation) (fromChecksum : String) (fault : Option String)
    (row : Option ChecksumInputsRow) : RotationPhase :=
  match fault, row with
  | none, some prev => .updatingInputs r fromChecksum prev
  | _, _ => .finished (.error ⟨500, "agent has no checksum_inputs row (legacy registration)"⟩)

def Rotation.response (r : Rotation) (fromChecksum : String) (prev : ChecksumInputsRow) :
    ChecksumUpdateResponse :=
  ⟨r.agentId, fromChecksum, r.checksum, prev.version + 1⟩

namespace RotationWorld

variable [DecidableEq ι]

def move (w : RotationWorld ι) (i : ι) (p : RotationPhase) : RotationWorld ι :=
  { w with phase := Function.update w.phase i p }

def write (w : RotationWorld ι) (i : ι) (r : Rotation) (p : RotationPhase)
    (records : ChecksumRecords) : RotationWorld ι :=
  ⟨records, Function.update w.phase i p, w.wrote ++ [(i, r.agentId)]⟩

def fail (w : RotationWorld ι) (i : ι) (statement error : String) : RotationWorld ι :=
  w.move i (.finished (.error ⟨500, statement ++ ": " ++ error⟩))

def advance (P : Primitives) (w : RotationWorld ι) (i : ι) (fault : Option String) :
    Option (RotationWorld ι) :=
  match w.phase i with
  | .idle | .finished _ => none
  | .findingOwner r => some (w.move i (afterOwner r fault (w.records.agents.get r.agentId)))
  | .readingPrevious r =>
    some (w.move i (.readingInputs r
      (previousChecksum r fault (w.records.agents.get r.agentId))))
  | .readingInputs r fromChecksum =>
    some (w.move i (afterInputs r fromChecksum fault (w.records.inputs.get r.agentId)))
  | .updatingInputs r fromChecksum prev =>
    match fault with
    | some e => some (w.fail i "update agent_checksum_inputs" e)
    | none => some (w.write i r (.updatingAgent r fromChecksum prev)
        (w.records.updateInputs r (prev.version + 1)))
  | .updatingAgent r fromChecksum prev =>
    match fault with
    | some e => some (w.fail i "update agents.agent_checksum" e)
    | none => some (w.write i r (.appendingAudit r fromChecksum prev) (w.records.updateAgent r))
  | .appendingAudit r fromChecksum prev =>
    match fault with
    | some e => some (w.fail i "insert agent_checksum_audit" e)
    | none =>
      let answer := r.response fromChecksum prev
      some (w.write i r (.finished (.ok answer))
        (w.records.appendAudit (r.auditRow P prev) answer))

end RotationWorld

def nextRotation [DecidableEq ι] (H : Host C) (w : RotationWorld ι) :
    RotationEvent ι → Option (RotationWorld ι)
  | .arrive i call =>
    match w.phase i with
    | .idle => some (w.move i (afterPrepare (prepareRotation H call)))
    | _ => none
  | .advance i fault => w.advance H.primitives i fault

/-! ### What a step does -/

namespace RotationPhase

def Early : RotationPhase → Prop
  | idle | findingOwner _ | readingPrevious _ | readingInputs _ _ | finished (.error _) => True
  | updatingInputs _ _ _ | updatingAgent _ _ _ | appendingAudit _ _ _ | finished (.ok _) => False

def Rotating (agentId : String) : RotationPhase → Prop
  | updatingInputs r _ _ | updatingAgent r _ _ | appendingAudit r _ _ => r.agentId = agentId
  | idle | findingOwner _ | readingPrevious _ | readingInputs _ _ | finished _ => False

def Writing (agentId : String) : RotationPhase → Prop
  | updatingAgent r _ _ | appendingAudit r _ _ => r.agentId = agentId
  | idle | findingOwner _ | readingPrevious _ | readingInputs _ _ | updatingInputs _ _ _
  | finished _ => False

theorem Early.not_rotating {p : RotationPhase} (h : p.Early) (agentId : String) :
    ¬ p.Rotating agentId := by
  cases p <;> first | exact id | exact absurd h id

end RotationPhase

variable [DecidableEq ι]

inductive RotationStep (P : Primitives) (w : RotationWorld ι) :
    RotationEvent ι → RotationWorld ι → Prop
  | quiet (e : RotationEvent ι) (i : ι) (p : RotationPhase) : (w.phase i).Early → p.Early →
      RotationStep P w e (w.move i p)
  | begin (i : ι) (r : Rotation) (fromChecksum : String) (prev : ChecksumInputsRow) :
      w.phase i = .readingInputs r fromChecksum → w.records.inputs.get r.agentId = some prev →
      RotationStep P w (.advance i none) (w.move i (.updatingInputs r fromChecksum prev))
  | abandon (i : ι) (r : Rotation) (fromChecksum : String) (prev : ChecksumInputsRow)
      (error : String) (rejection : Rejection) : w.phase i = .updatingInputs r fromChecksum prev →
      RotationStep P w (.advance i (some error)) (w.move i (.finished (.error rejection)))
  | writeInputs (i : ι) (r : Rotation) (fromChecksum : String) (prev : ChecksumInputsRow) :
      w.phase i = .updatingInputs r fromChecksum prev →
      RotationStep P w (.advance i none) (w.write i r (.updatingAgent r fromChecksum prev)
        (w.records.updateInputs r (prev.version + 1)))
  | breakOff (i : ι) (r : Rotation) (fromChecksum : String) (prev : ChecksumInputsRow)
      (error : String) (rejection : Rejection) :
      w.phase i = .updatingAgent r fromChecksum prev ∨
        w.phase i = .appendingAudit r fromChecksum prev →
      RotationStep P w (.advance i (some error)) (w.move i (.finished (.error rejection)))
  | writeAgent (i : ι) (r : Rotation) (fromChecksum : String) (prev : ChecksumInputsRow) :
      w.phase i = .updatingAgent r fromChecksum prev →
      RotationStep P w (.advance i none)
        (w.write i r (.appendingAudit r fromChecksum prev) (w.records.updateAgent r))
  | writeAudit (i : ι) (r : Rotation) (fromChecksum : String) (prev : ChecksumInputsRow) :
      w.phase i = .appendingAudit r fromChecksum prev →
      RotationStep P w (.advance i none)
        (w.write i r (.finished (.ok (r.response fromChecksum prev)))
          (w.records.appendAudit (r.auditRow P prev) (r.response fromChecksum prev)))

theorem early_afterPrepare (x : Except Rejection Rotation) : (afterPrepare x).Early := by
  cases x <;> trivial

theorem early_afterOwner (r : Rotation) (fault : Option String) (agent : Option AgentRecord) :
    (afterOwner r fault agent).Early := by
  unfold afterOwner
  split
  · split <;> trivial
  · trivial

theorem step_of_nextRotation {H : Host C} {w v : RotationWorld ι} {e : RotationEvent ι}
    (h : nextRotation H w e = some v) : RotationStep H.primitives w e v := by
  cases e with
  | arrive i call =>
    simp only [nextRotation] at h
    split at h
    case h_1 hp =>
      cases h
      exact .quiet _ i _ (by rw [hp]; trivial) (early_afterPrepare _)
    case h_2 => cases h
  | advance i fault =>
    simp only [nextRotation, RotationWorld.advance] at h
    split at h
    case h_1 | h_2 => cases h
    case h_3 r hp =>
      cases h
      exact .quiet _ i _ (by rw [hp]; trivial) (early_afterOwner _ _ _)
    case h_4 r hp =>
      cases h
      exact .quiet _ i _ (by rw [hp]; trivial) trivial
    case h_5 r fromChecksum hp =>
      cases h
      unfold afterInputs
      split
      case h_1 prev hget => exact .begin i r fromChecksum prev hp hget
      case h_2 => exact .quiet _ i _ (by rw [hp]; trivial) trivial
    case h_6 r fromChecksum prev hp =>
      cases fault <;> cases h
      · exact .writeInputs i r fromChecksum prev hp
      · exact .abandon i r fromChecksum prev _ _ hp
    case h_7 r fromChecksum prev hp =>
      cases fault <;> cases h
      · exact .writeAgent i r fromChecksum prev hp
      · exact .breakOff i r fromChecksum prev _ _ (.inl hp)
    case h_8 r fromChecksum prev hp =>
      cases fault <;> cases h
      · exact .writeAudit i r fromChecksum prev hp
      · exact .breakOff i r fromChecksum prev _ _ (.inr hp)

end SauronId.Agent
