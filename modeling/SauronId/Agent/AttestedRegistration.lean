import SauronId.Agent.Attestation
import SauronId.Agent.Mandate
import SauronId.Lib.Resume
import SauronId.Lib.Voucher

namespace SauronId.Agent

open SauronId.Action (Curve Rejection openCurve)
open CryptoProtocol Lib Lib.Run Lib.Text

variable {C : Curve}

/-! ### The statements of a registration -/

/-- What a registration has settled before it consumes its challenge. -/
structure Prepared where
  (humanKeyImage mandateHash : String)
  checksum : SettledChecksum
  pinned : Option String

def prepareSteps (H : Host C) (call : RegisterCall) : Resume (Registry C) Rejection Prepared := do
  let p := call.payload
  let humanKeyImage ← Resume.result (identifyAgent H call)
  let mandateHash ← Resume.query (fun s ↦ ownerMandateHash H s call)
  Resume.service (limitRegistrations H call humanKeyImage)
  let nonce ← Resume.query (attestationNonce call humanKeyImage)
  let checksum ← Resume.result (agentChecksum H p)
  Resume.result (checkForm H p checksum.value)
  let pinned ← Resume.result (registrationAttestation H p nonce)
  return ⟨humanKeyImage, mandateHash, checksum, pinned⟩

def checkColumn (call : RegisterCall) (field : AgentRecord → String) (value message : String)
    (s : Registry C) : Except Rejection Unit :=
  ensure (inUse s.agents call.tenantId field value = false) ⟨409, message⟩

def checkUnusedSteps (call : RegisterCall) : Resume (Registry C) Rejection Unit := do
  let p := call.payload
  Resume.query (checkColumn call AgentRecord.publicKeyHex p.publicKeyHex
    "public_key_hex already registered to an active agent")
  Resume.query (checkColumn call AgentRecord.ringKeyImageHex p.ringKeyImageHex
    "ring_key_image_hex already registered to an active agent")
  Resume.query (checkColumn call AgentRecord.popPublicKeyB64u p.popPublicKeyB64u
    ("pop_public_key_b64u already registered to an active agent; " ++
      "PoP keys must be agent-unique"))

def checkHumanSteps (humanKeyImage : String) : Resume (Registry C) Rejection Unit := do
  Resume.query (fun s ↦ ensure ((s.users.get humanKeyImage).isSome)
    ⟨404, "Human user not found — register the user first"⟩)
  Resume.query (fun s ↦ ensure (humanKeyImage ∈ s.bankKycLinks)
    ⟨403, "Delegated registration requires bank-verified KYC link. " ++
      "Use /agent/vc/issue for non-bank agents."⟩)

def storeAgent (row : AgentRecord) (s : Registry C) : Except Rejection Unit × Registry C :=
  match insertAgent s.agents row with
  | .error e => (.error ⟨500, e⟩, s)
  | .ok agents => (.ok (), { s with agents := agents })

def storeInputs (H : Host C) (row : AgentRecord) (kind canonical : String) (s : Registry C) :
    Except Rejection Unit × Registry C :=
  let stored := if H.storeInputsHashed then row.agentChecksum else canonical
  match s.checksumInputs.insert
    ⟨row.agentId, kind, stored, row.agentChecksum, 1, row.issuedAt, row.issuedAt⟩ with
  | none => (.error ⟨500, "persist agent_checksum_inputs: " ++
      "UNIQUE constraint failed: agent_checksum_inputs.agent_id"⟩, s)
  | some rows => (.ok (), { s with checksumInputs := rows })

def persistSteps (H : Host C) (inputs : Option (String × String)) (row : AgentRecord) :
    Resume (Registry C) Rejection Unit := do
  Resume.service (storeAgent row)
  match inputs with
  | none => return ()
  | some (kind, canonical) => Resume.service (storeInputs H row kind canonical)

def finishSteps (H : Host C) (call : RegisterCall) (r : Prepared) :
    Resume (Registry C) Rejection RegisterAgentResponse := do
  let p := call.payload
  let points ← Resume.result (checkPoints H p)
  checkUnusedSteps call
  checkHumanSteps r.humanKeyImage
  let parent ← Resume.query (fun s ↦ parentOf H call r.humanKeyImage s.agents)
  let row := newAgentRecord call r.humanKeyImage r.checksum.value r.mandateHash r.pinned parent
  let ajwt ← Resume.result (registrationAjwt H p row)
  persistSteps H r.checksum.inputs row
  Resume.service (fun s ↦ (.ok (), joinRing points.agent s))
  return ⟨row.agentId, ajwt, row.expiresAt, row.assuranceLevel⟩

def registerSteps (H : Host C) (call : RegisterCall) :
    Resume (Registry C) Rejection RegisterAgentResponse := do
  let r ← prepareSteps H call
  Resume.service (consumeChallenge call)
  finishSteps H call r

section Uninterrupted

open Resume

theorem realizes_checkUnused (call : RegisterCall) :
    Realizes (checkUnusedSteps call : Resume (Registry C) Rejection Unit)
      (Handler.query (checkUnused call)) :=
  .andThen_query _ (.andThen_query _ (.query _))

theorem realizes_checkHuman (humanKeyImage : String) :
    Realizes (checkHumanSteps humanKeyImage : Resume (Registry C) Rejection Unit)
      (Handler.query (checkHuman humanKeyImage)) :=
  .andThen_query _ (.query _)

theorem realizes_persist (H : Host C) (inputs : Option (String × String)) (row : AgentRecord) :
    Realizes (persistSteps H inputs row) (Handler.service (persistAgent H inputs row)) := by
  intro s
  have hstore : complete (Resume.service (storeAgent row)) s = storeAgent row s := rfl
  unfold persistSteps
  rw [complete_bind, hstore, Handler.exec_service]
  unfold storeAgent persistAgent
  cases insertAgent s.agents row with
  | error e => rfl
  | ok agents =>
    cases inputs with
    | none => rfl
    | some x => rfl

end Uninterrupted

/-! ### Challenges -/

structure AttestationChallengeCall where
  tenantId : String
  session : Option String
  popPublicKeyB64u : String
  (sessionNow now : ℤ)
  (idRandom nonceRandom : String)

structure AgentAttestationChallengeResponse where
  (attestationChallengeId nonce popJkt : String)
  expiresAt : ℤ

structure ChallengeGrant where
  row : AttestationChallenge
  popJkt : String
  unused : row.usedAt = none

def ChallengeGrant.response (g : ChallengeGrant) : AgentAttestationChallengeResponse :=
  ⟨g.row.id, g.row.nonce, g.popJkt, g.row.expiresAt⟩

def grantChallenge (H : Host C) (call : AttestationChallengeCall) :
    Except Rejection ChallengeGrant := do
  let human ← (call.session.bind
    (fun session ↦ verifyUserSession H call.sessionNow session call.tenantId)).elim
    (.error ⟨401, "Valid x-sauron-session header required"⟩) .ok
  let popJkt ← (ed25519JwkThumbprint H call.popPublicKeyB64u).mapError badRequest
  let raw ← (H.decodeB64u (trim call.popPublicKeyB64u)).mapError
    (fun e ↦ badRequest ("PoP public key base64url: " ++ e))
  ensure (raw.length = 32) (badRequest "PoP public key must be exactly 32 bytes")
  ensure (H.validKey raw) (badRequest "PoP public key is invalid")
  ensure (¬ H.weakKey raw) (badRequest "PoP public key is a weak/small-order Ed25519 key")
  return {
    row := ⟨"atc_" ++ call.idRandom, call.tenantId, human, call.nonceRandom,
      trim call.popPublicKeyB64u, call.now + 300, none⟩
    popJkt := popJkt
    unused := rfl }

def sweepChallenges (now : ℤ) (s : Registry C) : Registry C :=
  let challenges := s.challenges.deleteWhere (fun c ↦ c.expiresAt < now ∨ c.usedAt.isSome)
  { s with challenges := challenges }

/-! ### Requests on connections of their own -/

inductive Reply
  | registered (r : RegisterAgentResponse)
  | challenge (r : AgentAttestationChallengeResponse)

/-- How far a request is: what is left of it, or its reply. -/
inductive Phase (C : Curve)
  | idle
  | sweeping (now : ℤ) (grant : ChallengeGrant)
  | storing (grant : ChallengeGrant)
  | preparing (H : Host C) (call : RegisterCall) (rest : Resume (Registry C) Rejection Prepared)
  | consuming (H : Host C) (call : RegisterCall) (r : Prepared)
  | finishing (call : RegisterCall) (rest : Resume (Registry C) Rejection RegisterAgentResponse)
  | returned (reply : Except Rejection Reply)

structure AttestedWorld (C : Curve) (ι : Type) where
  registry : Registry C
  phase : ι → Phase C
  /-- Every challenge that was stored. -/
  issued : List AttestationChallenge
  /-- Every registration that needed a challenge and was answered with an agent. -/
  registered : List (ι × RegisterCall)

/-- A request comes in, its next statement is executed, the engine or the connection fails it, or
another endpoint changes other tables. Each request brings the settings and verifiers of the time
it is made at. -/
inductive AttestedEvent (C : Curve) (ι : Type)
  | askChallenge (i : ι) (H : Host C) (call : AttestationChallengeCall)
  | register (i : ι) (H : Host C) (call : RegisterCall)
  | step (i : ι)
  | fault (i : ι) (message : String)
  | other (f : Registry C → Registry C)

variable {ι : Type}

def unusedChallenges (s : Registry C) : List AttestationChallenge :=
  s.challenges.rows.filter (fun c ↦ c.usedAt.isNone)

def AttestedWorld.init (s : Registry C) : AttestedWorld C ι :=
  ⟨s, fun _ ↦ .idle, unusedChallenges s, []⟩

def RegisterCall.attested (call : RegisterCall) : Bool :=
  needsChallenge (.parse call.payload.attestationKind)

def RegisterCall.Names (call : RegisterCall) (c : AttestationChallenge) : Prop :=
  c.id = call.payload.attestationChallengeId

section Next

variable [DecidableEq ι]

def AttestedWorld.move (w : AttestedWorld C ι) (i : ι) (p : Phase C) (s : Registry C) :
    AttestedWorld C ι :=
  { w with phase := Function.update w.phase i p, registry := s }

def storeStep (w : AttestedWorld C ι) (i : ι) (grant : ChallengeGrant) : AttestedWorld C ι :=
  match w.registry.challenges.insert grant.row with
  | none => w.move i (.returned (.error
      ⟨500, "UNIQUE constraint failed: agent_attestation_challenges.id"⟩)) w.registry
  | some challenges =>
    { w.move i (.returned (.ok (.challenge grant.response)))
        { w.registry with challenges := challenges } with
      issued := w.issued ++ [grant.row] }

def consumeStep (w : AttestedWorld C ι) (i : ι) (H : Host C) (call : RegisterCall)
    (r : Prepared) : AttestedWorld C ι :=
  match consumeChallenge call w.registry with
  | (.error e, s) => w.move i (.returned (.error e)) s
  | (.ok (), s) => w.move i (.finishing call (finishSteps H call r)) s

def replyStep (w : AttestedWorld C ι) (i : ι) (call : RegisterCall) (r : RegisterAgentResponse) :
    AttestedWorld C ι :=
  { w.move i (.returned (.ok (.registered r))) w.registry with
    registered := if call.attested then w.registered ++ [(i, call)] else w.registered }

def stepRequest (w : AttestedWorld C ι) (i : ι) : Option (AttestedWorld C ι) :=
  match w.phase i with
  | .idle | .returned _ => none
  | .sweeping now grant => some (w.move i (.storing grant) (sweepChallenges now w.registry))
  | .storing grant => some (storeStep w i grant)
  | .preparing H call (.act update resume) =>
    some (w.move i (.preparing H call (resume w.registry)) (update w.registry))
  | .preparing H call (.done (.ok r)) => some (w.move i (.consuming H call r) w.registry)
  | .preparing _ _ (.done (.error e)) => some (w.move i (.returned (.error e)) w.registry)
  | .consuming H call r => some (consumeStep w i H call r)
  | .finishing call (.act update resume) =>
    some (w.move i (.finishing call (resume w.registry)) (update w.registry))
  | .finishing call (.done (.ok r)) => some (replyStep w i call r)
  | .finishing _ (.done (.error e)) => some (w.move i (.returned (.error e)) w.registry)

def Phase.isIdle : Phase C → Bool
  | .idle => true
  | _ => false

def Phase.isRunning : Phase C → Bool
  | .idle | .returned _ => false
  | _ => true

def startChallenge (H : Host C) (call : AttestationChallengeCall) : Phase C :=
  match grantChallenge H call with
  | .ok grant => .sweeping call.now grant
  | .error e => .returned (.error e)

def nextAttested (w : AttestedWorld C ι) : AttestedEvent C ι → Option (AttestedWorld C ι)
  | .askChallenge i H call =>
    if (w.phase i).isIdle then some (w.move i (startChallenge H call) w.registry) else none
  | .register i H call =>
    if (w.phase i).isIdle then
      some (w.move i (.preparing H call (prepareSteps H call)) w.registry)
    else none
  | .step i => stepRequest w i
  | .fault i message =>
    if (w.phase i).isRunning then some (w.move i (.returned (.error ⟨500, message⟩)) w.registry)
    else none
  | .other f => some { w with registry := { f w.registry with challenges := w.registry.challenges } }

end Next

/-! ### What one event can do to the challenges -/

section Challenges

variable {s t : Registry C} {call : RegisterCall}

theorem unusedChallenges_sweep (now : ℤ) :
    (unusedChallenges (sweepChallenges now s)).Subperm (unusedChallenges s) := by
  have hsub : (sweepChallenges now s).challenges.rows.Sublist s.challenges.rows :=
    List.filter_sublist
  exact (hsub.filter _).subperm

theorem unusedChallenges_insert {row : AttestationChallenge}
    {challenges : Table AttestationChallenge.id} (h : s.challenges.insert row = some challenges)
    (hrow : row.usedAt = none) :
    unusedChallenges { s with challenges := challenges } = unusedChallenges s ++ [row] := by
  rw [unusedChallenges, (Table.insert_eq_some.mp h).2, List.filter_append, unusedChallenges]
  simp [hrow]

theorem consumeChallenge_spent (hneeds : call.attested = true)
    (h : consumeChallenge call s = (.ok (), t)) :
    ∃ row, call.Names row ∧ (unusedChallenges s).Perm (row :: unusedChallenges t) := by
  simp only [consumeChallenge, show needsChallenge (.parse call.payload.attestationKind) = true
    from hneeds, if_true] at h
  split at h
  next husable =>
    obtain ⟨row, hmem, hrow⟩ := List.any_eq_true.mp husable
    obtain ⟨hid, -, -⟩ := of_decide_eq_true hrow
    have hone := Table.filter_eq_singleton hmem hrow
      (fun c _ hc ↦ (of_decide_eq_true hc).1.trans hid.symm)
    obtain rfl := (Prod.mk.inj h).2
    have hunused : ∀ c, AttestationChallenge.usable call.payload.attestationChallengeId
        call.consumeNow c = true → c.usedAt.isNone = true :=
      fun c hc ↦ Option.isNone_iff_eq_none.mpr (of_decide_eq_true hc).2.1
    exact ⟨row, hid, Table.perm_updateWhere (f := AttestationChallenge.markUsed call.consumeNow)
      (q := fun c : AttestationChallenge ↦ c.usedAt.isNone) (fun _ ↦ rfl) (fun _ ↦ rfl) hunused
      hone⟩
  next => cases (Prod.mk.inj h).1

theorem consumeChallenge_kept {x : Except Rejection Unit} (h : consumeChallenge call s = (x, t))
    (hx : x = .ok () → call.attested = false) : t = s := by
  unfold consumeChallenge at h
  dsimp only at h
  split_ifs at h with hneeds husable
  · have hfalse := hx (Prod.mk.inj h).1.symm
    rw [RegisterCall.attested, hneeds] at hfalse
    cases hfalse
  · exact (Prod.mk.inj h).2.symm
  · exact (Prod.mk.inj h).2.symm

end Challenges

def SameChallenges (s t : Registry C) : Prop := t.challenges = s.challenges

section Keeps

open Resume

theorem keeps_reading {α : Type} (f : Registry C → Except Rejection α) :
    Keeps SameChallenges (Resume.query f) :=
  keeps_query (fun s ↦ (rfl : SameChallenges s s)) f

theorem keeps_prepareSteps (H : Host C) (call : RegisterCall) :
    Keeps SameChallenges (prepareSteps H call) := by
  refine keeps_bind (keeps_result _) (fun human ↦ ?_)
  refine keeps_bind (keeps_reading _) (fun mandateHash ↦ ?_)
  refine keeps_bind (keeps_service (fun _ ↦ rfl)) (fun _ ↦ ?_)
  refine keeps_bind (keeps_reading _) (fun nonce ↦ ?_)
  refine keeps_bind (keeps_result _) (fun checksum ↦ ?_)
  refine keeps_bind (keeps_result _) (fun _ ↦ ?_)
  exact keeps_bind (keeps_result _) (fun pinned ↦ keeps_pure _)

theorem storeAgent_sameChallenges (row : AgentRecord) (s : Registry C) :
    SameChallenges s (storeAgent row s).2 := by
  unfold storeAgent
  cases insertAgent s.agents row with
  | error e => rfl
  | ok agents => rfl

theorem storeInputs_sameChallenges (H : Host C) (row : AgentRecord) (kind canonical : String)
    (s : Registry C) : SameChallenges s (storeInputs H row kind canonical s).2 := by
  unfold storeInputs
  dsimp only
  split
  · rfl
  · rfl

theorem keeps_persistSteps (H : Host C) (inputs : Option (String × String)) (row : AgentRecord) :
    Keeps SameChallenges (persistSteps H inputs row) := by
  refine keeps_bind (keeps_service (storeAgent_sameChallenges row)) (fun _ ↦ ?_)
  cases inputs with
  | none => exact keeps_pure _
  | some x => exact keeps_service (storeInputs_sameChallenges H row x.1 x.2)

theorem keeps_finishSteps (H : Host C) (call : RegisterCall) (r : Prepared) :
    Keeps SameChallenges (finishSteps H call r) := by
  refine keeps_bind (keeps_result _) (fun points ↦ ?_)
  refine keeps_bind (keeps_bind (keeps_reading _) (fun _ ↦
    keeps_bind (keeps_reading _) (fun _ ↦ keeps_reading _))) (fun _ ↦ ?_)
  refine keeps_bind (keeps_bind (keeps_reading _) (fun _ ↦ keeps_reading _)) (fun _ ↦ ?_)
  refine keeps_bind (keeps_reading _) (fun parent ↦ ?_)
  extract_lets row
  refine keeps_bind (keeps_result _) (fun ajwt ↦ ?_)
  refine keeps_bind (keeps_persistSteps H _ row) (fun _ ↦ ?_)
  exact keeps_bind (keeps_service (fun _ ↦ rfl)) (fun _ ↦ keeps_pure _)

end Keeps

/-! ### Each registration has a challenge of its own -/

namespace Phase

/-- Only the update of a registration touches the challenges. -/
def Quiet : Phase C → Prop
  | .preparing _ _ rest => rest.Keeps SameChallenges
  | .finishing _ rest => rest.Keeps SameChallenges
  | _ => True

def stage : Phase C → Stage RegisterCall
  | .finishing call _ => if call.attested then .holding call else .before
  | .returned _ => .finished
  | _ => .before

theorem stage_of_isIdle {p : Phase C} (h : p.isIdle = true) : p.stage = .before := by
  cases p with
  | idle => rfl
  | _ => cases h

end Phase

structure Attested (w : AttestedWorld C ι) : Prop where
  redeeming : ∃ spent, Redeeming RegisterCall.Names (fun c call ↦ call.Names c) w.issued
    (unusedChallenges w.registry) spent w.registered (fun i ↦ (w.phase i).stage)
  quiet : ∀ i, (w.phase i).Quiet

theorem Attested.init (s : Registry C) : Attested (AttestedWorld.init s : AttestedWorld C ι) where
  redeeming := ⟨[], .start _ (fun _ ↦ rfl)⟩
  quiet _ := trivial

section Step

variable [DecidableEq ι] {w w' : AttestedWorld C ι} {i : ι} {p : Phase C} {s : Registry C}

theorem stage_update (phase : ι → Phase C) (i : ι) (p : Phase C) :
    (fun j ↦ (Function.update phase i p j).stage) =
      Function.update (fun j ↦ (phase j).stage) i p.stage := by
  funext j
  exact Function.apply_update (fun _ ↦ Phase.stage) phase i p j

theorem Attested.quiet_update (h : Attested w) (hp : p.Quiet) (j : ι) :
    (Function.update w.phase i p j).Quiet := by
  by_cases hj : j = i
  · rw [hj, Function.update_self]
    exact hp
  · rw [Function.update_of_ne hj]
    exact h.quiet j

theorem Attested.move (h : Attested w) (hp : p.Quiet)
    (hs : (unusedChallenges s).Subperm (unusedChallenges w.registry))
    (hbefore : p.stage = .before → (w.phase i).stage = .before)
    (hholding : ∀ call, p.stage = .holding call → (w.phase i).stage = .holding call)
    (hfinished : (w.phase i).stage = .finished → p.stage = .finished) :
    Attested (w.move i p s) := by
  obtain ⟨spent, hr⟩ := h.redeeming
  refine ⟨⟨spent, ?_⟩, h.quiet_update hp⟩
  have hrest := (hr.lose hs).rest hbefore hholding hfinished
  rw [← stage_update] at hrest
  exact hrest

theorem Attested.proceed (h : Attested w) (hi : (w.phase i).stage = .before) (hp : p.Quiet)
    (hstage : p.stage = .before ∨ p.stage = .finished)
    (hs : (unusedChallenges s).Subperm (unusedChallenges w.registry)) :
    Attested (w.move i p s) := by
  refine h.move hp hs (fun _ ↦ hi) (fun call he ↦ ?_) (fun he ↦ ?_)
  · rcases hstage with hb | hf
    · rw [hb] at he
      cases he
    · rw [hf] at he
      cases he
  · rw [hi] at he
    cases he

theorem Attested.stop (h : Attested w) (e : Except Rejection Reply) (s : Registry C)
    (hs : unusedChallenges s = unusedChallenges w.registry) :
    Attested (w.move i (.returned e) s) :=
  h.move trivial (hs ▸ List.Subperm.refl _) (fun he ↦ by cases he) (fun _ he ↦ by cases he)
    (fun _ ↦ rfl)

theorem Attested.storeStep (h : Attested w) (grant : ChallengeGrant) :
    Attested (storeStep w i grant) := by
  unfold Agent.storeStep
  cases hins : w.registry.challenges.insert grant.row with
  | none => exact h.stop _ _ rfl
  | some challenges =>
    obtain ⟨spent, hr⟩ := h.redeeming
    refine ⟨⟨spent, ?_⟩, h.quiet_update trivial⟩
    have hissue := hr.issue grant.row
    rw [← unusedChallenges_insert hins grant.unused] at hissue
    have hrest := hissue.rest (i := i) (x := .finished) (fun he ↦ by cases he)
      (fun _ he ↦ by cases he) (fun _ ↦ rfl)
    rw [show Stage.finished = (Phase.returned (C := C)
      (.ok (.challenge grant.response))).stage from rfl, ← stage_update] at hrest
    exact hrest

theorem Attested.consumeStep {H : Host C} {call : RegisterCall} {r : Prepared} (h : Attested w)
    (hi : w.phase i = .consuming H call r) : Attested (consumeStep w i H call r) := by
  have hbefore : (w.phase i).stage = .before := by rw [hi]; rfl
  unfold Agent.consumeStep
  rcases hc : consumeChallenge call w.registry with ⟨e | ⟨⟩, s⟩
  · obtain rfl := consumeChallenge_kept hc (fun he ↦ by cases he)
    exact h.stop _ _ rfl
  · cases hneeds : call.attested with
    | false =>
      obtain rfl := consumeChallenge_kept hc (fun _ ↦ hneeds)
      have hstage : (Phase.finishing call (finishSteps H call r)).stage = .before := by
        simp [Phase.stage, hneeds]
      exact h.proceed hbefore (keeps_finishSteps H call r) (.inl hstage) (List.Subperm.refl _)
    | true =>
      obtain ⟨row, hnames, hperm⟩ := consumeChallenge_spent hneeds hc
      obtain ⟨spent, hr⟩ := h.redeeming
      refine ⟨⟨spent ++ [(i, row)], ?_⟩, h.quiet_update (keeps_finishSteps H call r)⟩
      have hspend := hr.spend hbefore hperm hnames
      have hstage : (Phase.finishing call (finishSteps H call r)).stage = .holding call := by
        simp [Phase.stage, hneeds]
      rw [← hstage, ← stage_update] at hspend
      exact hspend

theorem Attested.replyStep {call : RegisterCall} {r : RegisterAgentResponse} (h : Attested w)
    (hi : w.phase i = .finishing call (.done (.ok r))) : Attested (replyStep w i call r) := by
  cases hneeds : call.attested with
  | false =>
    have hsame : Agent.replyStep w i call r =
        w.move i (.returned (.ok (.registered r))) w.registry := by
      simp [Agent.replyStep, AttestedWorld.move, hneeds]
    rw [hsame]
    exact h.stop _ _ rfl
  | true =>
    have hholding : (w.phase i).stage = .holding call := by
      rw [hi, Phase.stage, if_pos hneeds]
    obtain ⟨spent, hr⟩ := h.redeeming
    refine ⟨⟨spent, ?_⟩, h.quiet_update trivial⟩
    have huse := hr.use (f := call) hholding (fun _ hg ↦ hg)
    rw [show Stage.finished = (Phase.returned (C := C) (.ok (.registered r))).stage from rfl,
      ← stage_update] at huse
    simp only [Agent.replyStep, hneeds, if_true]
    exact huse

theorem unusedChallenges_congr {t : Registry C} (h : SameChallenges s t) :
    unusedChallenges t = unusedChallenges s := by
  rw [unusedChallenges, unusedChallenges, h]

theorem Attested.stepRequest (h : Attested w) (hn : stepRequest w i = some w') :
    Attested w' := by
  have hquiet := h.quiet i
  unfold Agent.stepRequest at hn
  cases hi : w.phase i with
  | idle | returned reply =>
    rw [hi] at hn
    cases hn
  | sweeping now grant =>
    rw [hi] at hn
    obtain rfl := Option.some.inj hn
    exact h.proceed (by rw [hi]; rfl) trivial (.inl rfl) (unusedChallenges_sweep now)
  | storing grant =>
    rw [hi] at hn
    obtain rfl := Option.some.inj hn
    exact h.storeStep grant
  | consuming H call r =>
    rw [hi] at hn
    obtain rfl := Option.some.inj hn
    exact h.consumeStep hi
  | preparing H call rest =>
    rw [hi] at hn hquiet
    have hbefore : (w.phase i).stage = .before := by rw [hi]; rfl
    match rest, hn, hquiet with
    | .act update resume, hn, hquiet =>
      obtain rfl := Option.some.inj hn
      obtain ⟨hsame, hrest⟩ := hquiet w.registry
      refine h.proceed hbefore hrest (.inl rfl) ?_
      rw [unusedChallenges_congr hsame]
    | .done (.ok r), hn, _ =>
      obtain rfl := Option.some.inj hn
      exact h.proceed hbefore trivial (.inl rfl) (List.Subperm.refl _)
    | .done (.error e), hn, _ =>
      obtain rfl := Option.some.inj hn
      exact h.stop _ _ rfl
  | finishing call rest =>
    rw [hi] at hn hquiet
    match rest, hn, hquiet, hi with
    | .act update resume, hn, hquiet, hi =>
      obtain rfl := Option.some.inj hn
      obtain ⟨hsame, hrest⟩ := hquiet w.registry
      have hstage : (Phase.finishing call (resume w.registry)).stage = (w.phase i).stage := by
        rw [hi]
        rfl
      refine h.move hrest ?_ (fun he ↦ hstage.symm.trans he) (fun _ he ↦ hstage.symm.trans he)
        (fun he ↦ hstage.trans he)
      rw [unusedChallenges_congr hsame]
    | .done (.ok r), hn, _, hi =>
      obtain rfl := Option.some.inj hn
      exact h.replyStep hi
    | .done (.error e), hn, _, _ =>
      obtain rfl := Option.some.inj hn
      exact h.stop _ _ rfl

theorem Attested.next {e : AttestedEvent C ι} (h : Attested w) (hn : nextAttested w e = some w') :
    Attested w' := by
  cases e with
  | askChallenge i H call =>
    simp only [nextAttested] at hn
    split_ifs at hn with hidle
    obtain rfl := Option.some.inj hn
    have hbefore := Phase.stage_of_isIdle hidle
    unfold startChallenge
    cases grantChallenge H call with
    | ok grant => exact h.proceed hbefore trivial (.inl rfl) (List.Subperm.refl _)
    | error e => exact h.stop _ _ rfl
  | register i H call =>
    simp only [nextAttested] at hn
    split_ifs at hn with hidle
    obtain rfl := Option.some.inj hn
    exact h.proceed (Phase.stage_of_isIdle hidle) (keeps_prepareSteps H call) (.inl rfl)
      (List.Subperm.refl _)
  | step i => exact h.stepRequest hn
  | fault i message =>
    simp only [nextAttested] at hn
    split_ifs at hn
    obtain rfl := Option.some.inj hn
    exact h.stop _ _ rfl
  | other f =>
    obtain rfl := Option.some.inj hn
    exact ⟨h.redeeming, h.quiet⟩

/-- In every run, each registration that needed a challenge can be charged to an issued one of its
own, with the id that it named. -/
theorem registrations_charged {es : List (AttestedEvent C ι)}
    (h : run nextAttested (.init s) es = some w) :
    ∃ cs : List AttestationChallenge, cs.Subperm w.issued ∧
      List.Forall₂ (fun call c ↦ call.Names c) (w.registered.map Prod.snd) cs := by
  have hinv : Attested w := run_invariant (fun _ _ _ hw _ hn ↦ hw.next hn) (Attested.init s)
    (along_true _ _) h
  obtain ⟨spent, hr⟩ := hinv.redeeming
  exact hr.redeemed.exists_subperm

end Step

/-! ### The gate behind the handler -/

section Gate

variable {H H' : Host C} {call call' : RegisterCall} {s t s' t' : Registry C}
  {resp resp' : RegisterAgentResponse} {K : AttestationCodecs} {P : Primitives}

/-- A blob that is accepted twice was accepted for one nonce and one key, and in every run each
issued challenge backs at most one registration. -/
theorem attestations_single_use [DecidableEq ι] (K : AttestationCodecs)
    {P : Primitives} (hsha : Function.Injective P.sha256) :
    (∀ (kind : AttestationKind) (blob : List UInt8), needsChallenge kind = true →
      ∀ (G G' : Gate) (trusted trusted' measurement measurement' nonce nonce' key key' : String)
        (v v' : RegistrationAttestation),
        enforceRegistrationAttestationBound K P G kind blob trusted measurement nonce key = .ok v →
        enforceRegistrationAttestationBound K P G' kind blob trusted' measurement' nonce' key' =
          .ok v' →
        nonce = nonce' ∧ K.decodeB64u (trim key) = K.decodeB64u (trim key')) ∧
    ∀ (s : Registry C) (es : List (AttestedEvent C ι)) (w : AttestedWorld C ι),
      run nextAttested (.init s) es = some w →
        ∃ cs : List AttestationChallenge, cs.Subperm w.issued ∧
          List.Forall₂ (fun call c ↦ call.Names c) (w.registered.map Prod.snd) cs := by
  constructor
  · intro kind blob hkind G G' trusted trusted' measurement measurement' nonce nonce' key key' v v'
      h h'
    exact checkBinding_inj hsha hkind (checkBinding_of_accepted h) (checkBinding_of_accepted h')
  · intro s es w h
    exact registrations_charged h

end Gate

/-! ### Two registrations race for one challenge -/

section Race

def copyingPrimitives : Primitives := { countingPrimitives with sha256 := fun b ↦ b }

def quoteForPop : Attestation.TpmsAttest where
  magic := Attestation.tpmGeneratedValue
  kind := Attestation.tpmStAttestQuote
  qualifiedSigner := []
  extraData := ((attestationChallengeBinding "n" "pop").toOption).getD []
  clockInfo := ⟨0, 0, 0, 1⟩
  firmwareVersion := 1
  quote := ⟨[⟨11, [1, 0, 0]⟩], [7]⟩

def quoteCodecs : AttestationCodecs where
  parseJson _ :=
    let pem := Json.str "-----BEGIN CERTIFICATE----------END CERTIFICATE-----"
    .ok (.obj [("quote_b64", .str "q"), ("attest_b64", .str "a"), ("signature_b64", .str "s"),
      ("aik_cert_pem", pem), ("ek_cert_chain_pem", pem)])
  decodeB64 s := .ok (if s = "a" then quoteForPop.encode else [])
  decodeB64u s := .ok (Lib.Encoding.bytes s)
  readEnvelope _ := .error "not an envelope"

def openGate : Gate where
  requireHardware := true
  requirePreregistered := false
  goldenMeasurements := []
  verifyAttestation _ _ _ _ := .ok ()
  now := none

def attestedCall (random : String) : RegisterCall :=
  let p := demoRequest 3600
  ⟨"acme", some demoSession,
    { p with attestationKind := "ed25519_self", attestationChallengeId := "atc_00" },
    10, 10, 10, 10, 10, random⟩

def race : List (AttestedEvent openCurve ℕ) :=
  [AttestedEvent.askChallenge 0 demoHost ⟨"acme", some demoSession, "pop", 10, 10, "00", "n"⟩,
    .step 0, .step 0,
    .register 1 demoHost (attestedCall "01"), .register 2 demoHost (attestedCall "02")] ++
  List.replicate 4 (AttestedEvent.step 1) ++ List.replicate 4 (AttestedEvent.step 2) ++
  [AttestedEvent.step 1, .step 2] ++ List.replicate 9 (AttestedEvent.step 1)

theorem attestations_single_use_race :
    Function.Injective copyingPrimitives.sha256 ∧
      (∃ v, enforceRegistrationAttestationBound quoteCodecs copyingPrimitives openGate .tpm2Quote []
        "" "00" "n" "pop" = .ok v) ∧
      (∀ nonce key v, enforceRegistrationAttestationBound quoteCodecs copyingPrimitives openGate
        .tpm2Quote [] "" "00" nonce key = .ok v → "n" = nonce) ∧
      ∃ w, run nextAttested (.init demoRegistry) race = some w ∧ w.registered.length = 1 ∧
        ∃ cs : List AttestationChallenge, cs.Subperm w.issued ∧
          List.Forall₂ (fun call c ↦ call.Names c) (w.registered.map Prod.snd) cs := by
  have hsha : Function.Injective copyingPrimitives.sha256 := fun _ _ h ↦ h
  have haccept : enforceRegistrationAttestationBound quoteCodecs copyingPrimitives openGate
      .tpm2Quote [] "" "00" "n" "pop" = .ok ⟨some "00"⟩ := by
    decide +kernel
  have hrun : (run nextAttested (.init demoRegistry) race).map (fun w ↦ w.registered.length) =
      some 1 := by
    decide +kernel
  obtain ⟨hblob, hruns⟩ := @attestations_single_use openCurve ℕ _ quoteCodecs copyingPrimitives hsha
  obtain ⟨w, hw, hlen⟩ := Option.map_eq_some_iff.mp hrun
  refine ⟨hsha, ⟨_, haccept⟩, ?_, w, hw, hlen, hruns demoRegistry race w hw⟩
  intro nonce key v h
  exact (hblob .tpm2Quote [] (by decide) _ _ _ _ _ _ _ _ _ _ _ _ haccept h).1

end Race

end SauronId.Agent
