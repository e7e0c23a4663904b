import SauronId.Action.Envelope
import SauronId.Lib.Table

namespace SauronId.Action

open Lib Lib.Encoding Lib.Text

/-- The group the ring signatures live in, with the verification of a signature
over a message by a member of a ring, and the text of a hex decoding error. -/
structure Curve where
  Point : Type
  decEq : DecidableEq Point
  decompress : List UInt8 → Option Point
  verify : (message : List UInt8) → (ring : List Point) → RingSignature → Bool
  hexError : String → String

attribute [instance] Curve.decEq

structure AgentRow where
  (agentId tenantId humanKeyImage : String)
  (revoked expiresAt : ℤ)
  (publicKeyHex ringKeyImageHex popJkt ownerMandateHash assuranceLevel popPublicKeyB64u : String)

structure RingBudgets where
  usd : Option ℚ
  (inputTokens outputTokens : Option ℤ)

structure RingRule where
  (allowedActions allowedConfigDigests : List String)
  budgets : RingBudgets

structure RingRow where
  (tenantId ringId : String)
  rule : Except String RingRule
  version : ℤ

def RingRow.key (r : RingRow) : String × String := (r.tenantId, r.ringId)

structure MemberRow where
  (tenantId ringId memberPointHex : String)

def MemberRow.key (m : MemberRow) : String × String × String :=
  (m.tenantId, m.ringId, m.memberPointHex)

structure UsageTotals where
  (inputTokens outputTokens : ℤ)
  usd : ℚ

structure UsageRow where
  (tenantId ringId keyImageHex : String)
  totals : UsageTotals

def UsageRow.key (u : UsageRow) : String × String × String := (u.tenantId, u.ringId, u.keyImageHex)

structure Directory where
  agents : Table AgentRow.agentId
  rings : Table RingRow.key
  members : Table MemberRow.key
  usage : Table UsageRow.key

def findAgent (dir : Directory) (agentId tenantId : String) : Option AgentRow :=
  (dir.agents.get agentId).filter (fun a ↦ a.tenantId = tenantId)

def parsePointHex (C : Curve) (s : String) : Except String C.Point :=
  match hexDecode (trim s) with
  | none => .error ("point hex: " ++ C.hexError (trim s))
  | some encoded =>
    if encoded.length ≠ 32 then .error "point must be 32 bytes"
    else
      match C.decompress encoded with
      | none => .error "not a valid ristretto point"
      | some point => .ok point

def activeTenantRing (C : Curve) (dir : Directory) (tenantId : String) (now : ℤ) :
    List C.Point :=
  (Scan.stored.select
    (fun a ↦ a.tenantId = tenantId ∧ a.revoked = 0 ∧ now < a.expiresAt ∧ a.publicKeyHex ≠ "")
    AgentRow.agentId dir.agents.rows).filterMap
      (fun a ↦ do
        let encoded ← hexDecode a.publicKeyHex
        if encoded.length = 32 then C.decompress encoded else none)

def agentPoint (C : Curve) (opts : ValidateAgentActionOptions) (ringKeyImageHex : String) (now : ℤ)
    (a : AgentRow) : Except Rejection C.Point := do
  require
    [(a.humanKeyImage = opts.humanKeyImage ∧ a.revoked = 0 ∧ now ≤ a.expiresAt,
       ⟨401, "Agent revoked, expired, or owner mismatch"⟩),
     (a.publicKeyHex ≠ "", ⟨401, "Agent missing ring public key"⟩),
     (a.ringKeyImageHex ≠ "", ⟨401, "Agent missing registered ring key image"⟩),
     (a.ringKeyImageHex = ringKeyImageHex,
       ⟨401, "agent_action ring key image does not match registered agent"⟩),
     (opts.popJkt.all (fun expected ↦ expected = "" ∨ a.popJkt = "" ∨ expected = a.popJkt),
       ⟨401, "agent_action PoP thumbprint mismatch"⟩)]
  match hexDecode a.publicKeyHex with
  | none => .error ⟨401, "Agent public key encoding invalid"⟩
  | some encoded =>
    if encoded.length ≠ 32 then .error ⟨401, "Agent public key length invalid"⟩
    else
      match C.decompress encoded with
      | none => .error ⟨401, "Agent public key point invalid"⟩
      | some point => .ok point

/-- `none` is `Allow`, a text the reason of `Deny`. -/
def evaluateRule (rule : RingRule) (action configDigest : String) : Option String :=
  let lowered := toAsciiLowercase (trim action)
  if lowered = "" then some "empty action"
  else if ¬ rule.allowedActions.any (fun a ↦ toAsciiLowercase (trim a) = lowered) then
    some ("action '" ++ action ++ "' not permitted by ring rule")
  else if rule.allowedConfigDigests ≠ [] ∧
      ¬ rule.allowedConfigDigests.any (fun d ↦ eqIgnoreAsciiCase (trim d) (trim configDigest)) then
    some "config_digest not in ring allowed-digest set (drift)"
  else none

def listMemberPoints (C : Curve) (dir : Directory) (tenantId ringId : String) :
    Except String (List C.Point) :=
  (Scan.stored.select (fun m ↦ m.tenantId = tenantId ∧ m.ringId = ringId)
    MemberRow.memberPointHex dir.members.rows).mapM (fun m ↦ parsePointHex C m.memberPointHex)

def getUsage (dir : Directory) (tenantId ringId keyImageHex : String) : UsageTotals :=
  ((dir.usage.get (tenantId, ringId, keyImageHex)).map UsageRow.totals).getD ⟨0, 0, 0⟩

def overCap {α : Type} [LT α] [DecidableLT α] (unit : String) (text : α → String) (total : α)
    (cap : Option α) : Option String :=
  cap.bind (fun cap ↦
    if cap < total then some (unit ++ " " ++ text total ++ " > cap " ++ text cap) else none)

def budgetExceeded (totals : UsageTotals) (budgets : RingBudgets) : Option String :=
  (overCap "usd" (formatFixed 4) totals.usd budgets.usd).or
    ((overCap "input_tokens" toString totals.inputTokens budgets.inputTokens).or
      (overCap "output_tokens" toString totals.outputTokens budgets.outputTokens))

structure RingCheck where
  ringId : String
  signature : RingSignature
  primary : Bool

def RingCheck.label (c : RingCheck) : String :=
  if c.primary then "ring" else "ring '" ++ c.ringId ++ "'"

def admitRing (dir : Directory) (env : AnonActionEnvelope) (c : RingCheck) :
    Except Rejection (RingRule × ℤ) :=
  match dir.rings.get (env.tenantId, c.ringId) with
  | none => .error ⟨404, c.label ++ " not found"⟩
  | some row =>
    match row.rule with
    | .error e => .error ⟨500, "rule deserialize: " ++ e⟩
    | .ok rule =>
      match evaluateRule rule env.action env.configDigest with
      | some why => .error ⟨403, c.label ++ " rule denied: " ++ why⟩
      | none => .ok (rule, row.version)

def checkMembers (C : Curve) (dir : Directory) (env : AnonActionEnvelope) (c : RingCheck) :
    Except Rejection Unit :=
  match listMemberPoints C dir env.tenantId c.ringId with
  | .error e => .error ⟨500, e⟩
  | .ok members =>
    if members.isEmpty then .error ⟨401, c.label ++ " has no members"⟩
    else if C.verify (bytes (canonicalAnonEnvelopeJson env)) members c.signature then .ok ()
    else .error ⟨401, (if c.primary then "anon ring" else c.label) ++
      " signature verification failed"⟩

def checkUsage (dir : Directory) (env : AnonActionEnvelope) (keyImageHex : String)
    (budgets : RingBudgets) : Except Rejection Unit :=
  match budgetExceeded (getUsage dir env.tenantId env.ringId keyImageHex) budgets with
  | some why => .error ⟨402, "ring budget exceeded: " ++ why⟩
  | none => .ok ()

end SauronId.Action
