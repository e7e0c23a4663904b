import SauronId.Action.Directory

namespace SauronId.Action

open Lib CryptoProtocol Lib.Encoding

inductive ActionRequest
  | identified (opts : ValidateAgentActionOptions) (proof : AgentActionProof)
  | anonymous (proof : AnonActionProof)

def SignedEnvelope.nonceKey : SignedEnvelope → String
  | .identified env => env.nonce
  | .anonymous env keyImageHex => keyImageHex ++ "|" ++ env.nonce

def SignedEnvelope.expiresAt : SignedEnvelope → ℤ
  | .identified env => env.expiresAt
  | .anonymous env _ => env.expiresAt

def SignedEnvelope.replayMessage : SignedEnvelope → String
  | .identified _ => "agent_action nonce replay"
  | .anonymous _ _ => "anon action nonce replay"

/-- What a request has established before its first write: everything its
receipt will say but the position in the chain. -/
structure Ticket where
  envelope : SignedEnvelope
  (tenantId agentId actionHash ringKeyImageHex policyVersion ajwtJti popJkt : String)
  now : ℤ
  status : String
  (ringId configDigest : Option String)
  ringOk : Bool

def agentTicket (P : Primitives) (opts : ValidateAgentActionOptions) (proof : AgentActionProof)
    (now : ℤ) (ringOk : Bool) : Ticket where
  envelope := .identified proof.envelope
  tenantId := opts.tenantId
  agentId := opts.agentId
  actionHash := actionHash P proof.envelope
  ringKeyImageHex := proof.ringSignature.keyImageHex
  policyVersion := kyaPolicyMatrixVersion
  ajwtJti := opts.ajwtJti
  popJkt := opts.popJkt.getD ""
  now := now
  status := opts.status
  ringId := none
  configDigest := none
  ringOk := ringOk

structure AnonPass where
  proof : AnonActionProof
  now : ℤ
  budgets : RingBudgets
  ringVersions : List String

def anonTicket (P : Primitives) (pass : AnonPass) : Ticket where
  envelope := .anonymous pass.proof.envelope pass.proof.ringSignature.keyImageHex
  tenantId := pass.proof.envelope.tenantId
  agentId := ""
  actionHash := anonActionHash P pass.proof.envelope
  ringKeyImageHex := pass.proof.ringSignature.keyImageHex
  policyVersion := "+".intercalate pass.ringVersions
  ajwtJti := ""
  popJkt := ""
  now := pass.now
  status := "verified"
  ringId := some pass.proof.envelope.ringId
  configDigest := some pass.proof.envelope.configDigest
  ringOk := true

/-- Where a request stands before its first write. A step from one of these to
the next reads the clock once or queries the directory once. -/
inductive Admission (C : Curve)
  | arrived (request : ActionRequest)
  | checked (opts : ValidateAgentActionOptions) (proof : AgentActionProof)
  | timed (opts : ValidateAgentActionOptions) (proof : AgentActionProof) (now : ℤ)
  | keyed (opts : ValidateAgentActionOptions) (proof : AgentActionProof) (now : ℤ)
      (point : C.Point)
  | findingRing (pass : AnonPass) (ring : RingCheck) (rest : List RingCheck)
  | listingMembers (pass : AnonPass) (ring : RingCheck) (version : ℤ) (rest : List RingCheck)
  | readingUsage (pass : AnonPass)

variable {C : Curve}

def primaryRing (proof : AnonActionProof) : RingCheck :=
  ⟨proof.envelope.ringId, proof.ringSignature, true⟩

def alsoRings (proof : AnonActionProof) : List RingCheck :=
  List.zipWith (fun ringId signature ↦ ⟨ringId, signature, false⟩)
    proof.envelope.alsoRingIds proof.alsoRingSignatures

def AnonPass.begin (proof : AnonActionProof) (now : ℤ) : AnonPass :=
  ⟨proof, now, ⟨none, none, none⟩, []⟩

def AnonPass.underRule (pass : AnonPass) (ring : RingCheck) (rule : RingRule) : AnonPass :=
  if ring.primary then { pass with budgets := rule.budgets } else pass

def AnonPass.verified (pass : AnonPass) (ring : RingCheck) (version : ℤ) : AnonPass :=
  { pass with
    ringVersions := pass.ringVersions ++ ["ring:" ++ ring.ringId ++ ":v" ++ toString version] }

def Admission.afterRing (pass : AnonPass) : List RingCheck → Admission C
  | [] => .readingUsage pass
  | ring :: rest => .findingRing pass ring rest

def Admission.next (P : Primitives) (anonRings : Bool) (clock : ℤ) (dir : Directory) :
    Admission C → Except Rejection (Admission C ⊕ Ticket)
  | .arrived (.identified opts proof) => do
    checkEnvelope P opts proof.envelope clock
    return .inl (.checked opts proof)
  | .arrived (.anonymous proof) => do
    require [(anonRings, ⟨503, "anonymous rings are disabled (set SAURON_ANON_RINGS=1)"⟩)]
    checkAnonEnvelope proof clock
    return .inl (.findingRing (.begin proof clock) (primaryRing proof) (alsoRings proof))
  | .checked opts proof => .ok (.inl (.timed opts proof clock))
  | .timed opts proof now =>
    match findAgent dir opts.agentId opts.tenantId with
    | none => .error ⟨404, "Agent not found"⟩
    | some agent => do
      let point ← agentPoint C opts proof.ringSignature.keyImageHex now agent
      return .inl (.keyed opts proof now point)
  | .keyed opts proof now point => do
    let ring := activeTenantRing C dir opts.tenantId now
    require [(ring.contains point, ⟨401, "Agent public key is not in authenticated tenant ring"⟩)]
    let ringOk := C.verify (bytes (canonicalEnvelopeJson proof.envelope)) ring proof.ringSignature
    return .inr (agentTicket P opts proof now ringOk)
  | .findingRing pass ring rest => do
    let (rule, version) ← admitRing dir pass.proof.envelope ring
    return .inl (.listingMembers (pass.underRule ring rule) ring version rest)
  | .listingMembers pass ring version rest => do
    checkMembers C dir pass.proof.envelope ring
    return .inl (.afterRing (pass.verified ring version) rest)
  | .readingUsage pass => do
    checkUsage dir pass.proof.envelope pass.proof.ringSignature.keyImageHex pass.budgets
    return .inr (anonTicket P pass)

def Admission.Timely (clock : ℤ) : Admission C → Prop
  | .arrived _ | .checked _ _ => True
  | .timed _ _ now | .keyed _ _ now _ => now ≤ clock
  | .findingRing pass _ _ | .listingMembers pass _ _ _ | .readingUsage pass => pass.now ≤ clock

theorem Admission.Timely.mono {clock clock' : ℤ} (hle : clock ≤ clock') {a : Admission C}
    (h : a.Timely clock) : a.Timely clock' := by
  cases a with
  | arrived | checked => trivial
  | timed | keyed | findingRing | listingMembers | readingUsage => exact le_trans h hle

@[simp] theorem AnonPass.now_underRule (pass : AnonPass) (ring : RingCheck) (rule : RingRule) :
    (pass.underRule ring rule).now = pass.now := by
  unfold AnonPass.underRule
  split <;> rfl

@[simp] theorem AnonPass.now_verified (pass : AnonPass) (ring : RingCheck) (version : ℤ) :
    (pass.verified ring version).now = pass.now := rfl

theorem Admission.timely_afterRing {clock : ℤ} {pass : AnonPass} (h : pass.now ≤ clock)
    (rest : List RingCheck) : (Admission.afterRing (C := C) pass rest).Timely clock := by
  cases rest <;> exact h

theorem Admission.timely_next {P : Primitives} {anonRings : Bool} {clock : ℤ} {dir : Directory}
    {a : Admission C} {r : Admission C ⊕ Ticket} (ha : a.Timely clock)
    (h : a.next P anonRings clock dir = .ok r) :
    r.elim (Admission.Timely clock) (fun t ↦ t.now ≤ clock) := by
  cases a with
  | arrived request =>
    cases request with
    | identified opts proof =>
      obtain ⟨-, -, h⟩ := bind_eq_ok.mp h
      cases h
      trivial
    | anonymous proof =>
      obtain ⟨-, -, h⟩ := bind_eq_ok.mp h
      obtain ⟨-, -, h⟩ := bind_eq_ok.mp h
      cases h
      exact le_rfl
  | checked opts proof =>
    cases h
    exact le_rfl
  | timed opts proof now =>
    simp only [Admission.next] at h
    split at h
    · cases h
    · obtain ⟨point, -, h⟩ := bind_eq_ok.mp h
      cases h
      exact ha
  | keyed opts proof now point =>
    obtain ⟨-, -, h⟩ := bind_eq_ok.mp h
    cases h
    exact ha
  | findingRing pass ring rest =>
    obtain ⟨⟨rule, version⟩, -, h⟩ := bind_eq_ok.mp h
    cases h
    exact (pass.now_underRule ring rule).trans_le ha
  | listingMembers pass ring version rest =>
    obtain ⟨-, -, h⟩ := bind_eq_ok.mp h
    cases h
    exact timely_afterRing ((pass.now_verified ring version).trans_le ha) rest
  | readingUsage pass =>
    obtain ⟨-, -, h⟩ := bind_eq_ok.mp h
    cases h
    exact ha

end SauronId.Action
