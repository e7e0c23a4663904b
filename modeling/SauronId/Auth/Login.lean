import SauronId.Lib.Base64
import SauronId.Lib.Voucher
import SauronId.Payloads

namespace SauronId.User

open SauronId.Action (Rejection)
open Agent (isAsciiHexdigit)
open CryptoProtocol Lib Lib.Encoding Lib.Run Lib.Text Payloads

structure LoginHost where
  primitives : Primitives
  jwtSecret : List UInt8
  validKey : List UInt8 → Bool
  verifyStrict : (key message signature : List UInt8) → Bool

structure AuthChallenge where
  (challengeId tenantId keyImageHex nonce : String)
  (expiresAt usedAt : ℤ)
  deriving DecidableEq

structure AuthCredential where
  (keyImageHex ed25519PublicKeyB64u : String)

structure ChallengeCall where
  (tenantId keyImage challengeId nonce : String)
  now : ℤ

def ChallengeCall.row (c : ChallengeCall) : AuthChallenge :=
  ⟨c.challengeId, c.tenantId, c.keyImage, c.nonce, c.now + 120, 0⟩

structure FinishCall where
  (tenantId challengeId keyImage signatureB64u : String)
  now : ℤ

def FinishCall.accepts (f : FinishCall) (r : AuthChallenge) : Bool :=
  r.tenantId = f.tenantId ∧ r.keyImageHex = f.keyImage ∧ r.usedAt = 0 ∧ f.now ≤ r.expiresAt

inductive Reply
  | challenge (challengeId nonce : String) (expiresAt : ℤ) (signingPayloadB64u : String)
  | session (session keyImage : String) (expiresAt : ℤ)
  | rejected (r : Rejection)
  deriving DecidableEq

/-- The next statement of a request. -/
inductive LoginPhase
  | idle
  | sweeping (c : ChallengeCall)
  | countingAll (c : ChallengeCall)
  | countingActive (c : ChallengeCall) (total : ℕ)
  | inserting (c : ChallengeCall)
  | looking (f : FinishCall)
  | fetchingKey (f : FinishCall) (nonce : String) (expiresAt : ℤ)
  | consuming (f : FinishCall)
  | returned (reply : Reply)

namespace LoginPhase

def finish : LoginPhase → Option FinishCall
  | looking f | fetchingKey f _ _ | consuming f => some f
  | _ => none

def consumer : LoginPhase → Option FinishCall
  | consuming f => some f
  | _ => none

end LoginPhase

structure LoginSession where
  (tenantId keyImage : String)
  challenge : AuthChallenge
  issuedAt : ℤ

structure LoginWorld (ι : Type) where
  clock : ℤ
  challenges : Table AuthChallenge.challengeId
  credentials : Table AuthCredential.keyImageHex
  /-- The pairs `(tenant_id, key_image_hex)` of `user_auth_tenant_bindings`. -/
  bindings : List (String × String)
  phase : ι → LoginPhase
  /-- Every challenge that was ever stored. -/
  stored : List AuthChallenge
  /-- Every session that was issued. -/
  sessions : List LoginSession

/-- A request comes in, its next statement is executed, with the error the engine answers it with
if any, the clock moves, or a user is enrolled. -/
inductive LoginEvent (ι : Type)
  | tick (clock : ℤ)
  | askChallenge (i : ι) (tenantId keyImageHex random nonce : String)
  | askFinish (i : ι) (tenantId challengeId keyImageHex signatureB64u : String)
  | step (i : ι) (fault : Option String)
  | enrol (credential : AuthCredential) (tenantId : String)

variable {ι : Type} [DecidableEq ι]

def LoginWorld.move (w : LoginWorld ι) (i : ι) (p : LoginPhase) : LoginWorld ι :=
  { w with phase := Function.update w.phase i p }

def LoginWorld.reject (w : LoginWorld ι) (i : ι) (status : ℕ) (message : String) : LoginWorld ι :=
  w.move i (.returned (.rejected ⟨status, message⟩))

def LoginWorld.init (clock : ℤ) : LoginWorld ι :=
  ⟨clock, .empty, .empty, [], fun _ ↦ .idle, [], []⟩

def invalidProof : String := "invalid authentication proof"

def selected (challenges : Table AuthChallenge.challengeId) (f : FinishCall) :
    Option AuthChallenge :=
  (challenges.get f.challengeId).filter f.accepts

def markUsed (challenges : Table AuthChallenge.challengeId) (f : FinishCall) :
    Table AuthChallenge.challengeId :=
  challenges.updateWhere (fun r ↦ r.challengeId = f.challengeId ∧ f.accepts r)
    (fun r ↦ { r with usedAt := f.now }) (fun _ ↦ rfl)

def sweep (challenges : Table AuthChallenge.challengeId) (now : ℤ) :
    Table AuthChallenge.challengeId :=
  challenges.deleteWhere (fun r ↦ r.expiresAt < now - 300 ∨ 0 < r.usedAt)

def activeForSubject (challenges : Table AuthChallenge.challengeId) (c : ChallengeCall) : ℕ :=
  challenges.rows.countP (fun r ↦
    r.tenantId = c.tenantId ∧ r.keyImageHex = c.keyImage ∧ r.usedAt = 0 ∧ c.now ≤ r.expiresAt)

def publicKeyOf (w : LoginWorld ι) (f : FinishCall) : Option String :=
  if w.bindings.contains (f.tenantId, f.keyImage) then
    (w.credentials.get f.keyImage).map AuthCredential.ed25519PublicKeyB64u
  else none

def checkSignature (L : LoginHost) (f : FinishCall) (nonce : String) (expiresAt : ℤ)
    (publicKeyB64u : String) : Except Rejection Unit := do
  let invalid : Rejection := ⟨401, invalidProof⟩
  let publicKey ← ((Base64.decode publicKeyB64u).filter (fun b ↦ b.length = 32)).elim
    (.error invalid) .ok
  let signature ← ((Base64.decode (trim f.signatureB64u)).filter (fun b ↦ b.length = 64)).elim
    (.error invalid) .ok
  ensure (L.validKey publicKey) invalid
  let signed ← (userAuthChallengePayload f.challengeId f.tenantId f.keyImage nonce expiresAt).mapError
    Agent.Failure.rejection
  ensure (L.verifyStrict publicKey signed signature) invalid

def issueUserSession (L : LoginHost) (clock : ℤ) (tenantId keyImage : String) : String × ℤ :=
  let expiresAt := clock + 3600
  let payload := "v2|" ++ tenantId ++ "|" ++ keyImage ++ "|" ++ toString expiresAt
  let sessionKey := deriveSubkey L.primitives L.jwtSecret "session-hmac-v1"
  let sig := hexEncode (L.primitives.hmacSha256 sessionKey (bytes "|SESSION|" ++ bytes payload))
  (payload ++ "|" ++ sig, expiresAt)

def challengeReply (c : ChallengeCall) : Reply :=
  match userAuthChallengePayload c.challengeId c.tenantId c.keyImage c.nonce (c.now + 120) with
  | .ok payload => .challenge c.challengeId c.nonce (c.now + 120) (Base64.encode payload)
  | .error e => .rejected (Agent.Failure.rejection e)

def consume (L : LoginHost) (w : LoginWorld ι) (i : ι) (f : FinishCall) : LoginWorld ι :=
  match selected w.challenges f with
  | none => w.reject i 401 invalidProof
  | some row =>
    let (session, expiresAt) := issueUserSession L w.clock f.tenantId f.keyImage
    { w.move i (.returned (.session session f.keyImage expiresAt)) with
      challenges := markUsed w.challenges f
      sessions := w.sessions ++ [⟨f.tenantId, f.keyImage, row, w.clock⟩] }

def loginStep (L : LoginHost) (w : LoginWorld ι) (i : ι) (fault : Option String) :
    Option (LoginWorld ι) :=
  match w.phase i with
  | .idle | .returned _ => none
  | .sweeping c =>
    some { w.move i (.countingAll c) with
      challenges := fault.elim (sweep w.challenges c.now) (fun _ ↦ w.challenges) }
  | .countingAll c =>
    some (w.move i (.countingActive c (fault.elim w.challenges.rows.length (fun _ ↦ 0))))
  | .countingActive c total =>
    let active := fault.elim (activeForSubject w.challenges c) (fun _ ↦ 0)
    if 100000 ≤ total ∨ 5 ≤ active then
      some (w.reject i 429 "authentication challenge capacity exceeded")
    else some (w.move i (.inserting c))
  | .inserting c =>
    match fault, w.challenges.insert c.row with
    | some e, _ => some (w.reject i 500 e)
    | none, none =>
      some (w.reject i 500 "UNIQUE constraint failed: user_auth_challenges.challenge_id")
    | none, some challenges =>
      some { w.move i (.returned (challengeReply c)) with
        challenges := challenges
        stored := w.stored ++ [c.row] }
  | .looking f =>
    match fault, selected w.challenges f with
    | none, some row => some (w.move i (.fetchingKey f row.nonce row.expiresAt))
    | _, _ => some (w.reject i 401 invalidProof)
  | .fetchingKey f nonce expiresAt =>
    match fault, publicKeyOf w f with
    | none, some publicKeyB64u =>
      match checkSignature L f nonce expiresAt publicKeyB64u with
      | .ok () => some (w.move i (.consuming f))
      | .error r => some (w.move i (.returned (.rejected r)))
    | _, _ => some (w.reject i 401 invalidProof)
  | .consuming f =>
    match fault with
    | some e => some (w.reject i 500 e)
    | none => some (consume L w i f)

def startChallenge (w : LoginWorld ι) (tenantId keyImageHex random nonce : String) : LoginPhase :=
  let keyImage := toAsciiLowercase (trim keyImageHex)
  if len keyImage = 64 ∧ keyImage.toList.all isAsciiHexdigit then
    .sweeping ⟨tenantId, keyImage, "uac_" ++ random, nonce, w.clock⟩
  else .returned (.rejected ⟨400, "key_image_hex must be 32-byte hex"⟩)

def startFinish (w : LoginWorld ι) (tenantId challengeId keyImageHex signatureB64u : String) :
    LoginPhase :=
  .looking ⟨tenantId, challengeId, toAsciiLowercase (trim keyImageHex), signatureB64u, w.clock⟩

def LoginPhase.free : LoginPhase → Bool
  | .idle | .returned _ => true
  | _ => false

def nextLogin (L : LoginHost) (w : LoginWorld ι) : LoginEvent ι → Option (LoginWorld ι)
  | .tick clock => if w.clock ≤ clock then some { w with clock := clock } else none
  | .askChallenge i tenantId keyImageHex random nonce =>
    if (w.phase i).free then
      some (w.move i (startChallenge w tenantId keyImageHex random nonce))
    else none
  | .askFinish i tenantId challengeId keyImageHex signatureB64u =>
    if (w.phase i).free then
      some (w.move i (startFinish w tenantId challengeId keyImageHex signatureB64u))
    else none
  | .step i fault => loginStep L w i fault
  | .enrol credential tenantId =>
    some { w with
      credentials := w.credentials.replace credential
      bindings := (tenantId, credential.keyImageHex) :: w.bindings }

/-- The step condition: when a request is about to consume its challenge, the clock has not passed
the expiry since the request read it. -/
def Prompt (w : LoginWorld ι) : LoginEvent ι → Prop
  | .step i none => ∀ f ∈ (w.phase i).consumer, ∀ row ∈ selected w.challenges f,
      w.clock ≤ row.expiresAt
  | _ => True

instance (w : LoginWorld ι) : (e : LoginEvent ι) → Decidable (Prompt w e)
  | .step _ none => inferInstanceAs (Decidable (∀ _ ∈ _, ∀ _ ∈ _, _))
  | .step _ (some _) | .tick _ | .askChallenge .. | .askFinish .. | .enrol .. => isTrue trivial

/-! ### What one event can do -/

variable {L : LoginHost} {w w' : LoginWorld ι} {i j : ι} {p : LoginPhase} {f : FinishCall}
  {row : AuthChallenge} {e : LoginEvent ι}

def LoginWorld.Live (w : LoginWorld ι) (row : AuthChallenge) : Prop :=
  row ∈ w.challenges.rows ∧ row.usedAt = 0

omit [DecidableEq ι] in
theorem selected_eq_some : selected w.challenges f = some row ↔
    row ∈ w.challenges.rows ∧ row.challengeId = f.challengeId ∧ f.accepts row = true := by
  rw [selected, Option.filter_eq_some_iff, Table.get_eq_some, and_assoc]

theorem FinishCall.accepts_iff {r : AuthChallenge} : f.accepts r = true ↔
    r.tenantId = f.tenantId ∧ r.keyImageHex = f.keyImage ∧ r.usedAt = 0 ∧ f.now ≤ r.expiresAt := by
  rw [FinishCall.accepts, decide_eq_true_iff]

omit [DecidableEq ι] in
theorem live_markUsed (hrow : selected w.challenges f = some row) (hnow : f.now ≠ 0)
    {g : AuthChallenge} (hg : g ∈ (markUsed w.challenges f).rows) (hunused : g.usedAt = 0) :
    g ≠ row ∧ g ∈ w.challenges.rows := by
  obtain ⟨-, hid, haccepts⟩ := selected_eq_some.mp hrow
  obtain ⟨s, hs, rfl⟩ := Table.mem_updateWhere.mp hg
  split_ifs at hunused ⊢ with hmarked
  · exact absurd hunused hnow
  · refine ⟨?_, hs⟩
    rintro rfl
    exact hmarked (decide_eq_true ⟨hid, haccepts⟩)

/-- What an event can do to the challenges and the sessions, and which events are prompt. -/
inductive LoginEffect (w : LoginWorld ι) (e : LoginEvent ι) (w' : LoginWorld ι) : Prop
  | quiet (hlive : ∀ g, w'.Live g → w.Live g) (hstored : w'.stored = w.stored)
      (hsessions : w'.sessions = w.sessions) (hprompt : Prompt w e)
  | stored (row : AuthChallenge) (hlive : ∀ g, w'.Live g → g = row ∨ w.Live g)
      (hstored : w'.stored = w.stored ++ [row]) (hsessions : w'.sessions = w.sessions)
      (hprompt : Prompt w e)
  | issued (f : FinishCall) (row : AuthChallenge) (hrow : w.Live row)
      (haccepts : f.accepts row = true) (hlive : ∀ g, w'.Live g → g ≠ row ∧ w.Live g)
      (hstored : w'.stored = w.stored)
      (hsessions : w'.sessions = w.sessions ++ [⟨f.tenantId, f.keyImage, row, w.clock⟩])
      (hprompt : Prompt w e ↔ w.clock ≤ row.expiresAt)

theorem LoginEffect.move (hprompt : Prompt w e) : LoginEffect w e (w.move i p) :=
  .quiet (fun _ hg ↦ hg) rfl rfl hprompt

omit [DecidableEq ι] in
theorem prompt_of_consumer (h : (w.phase i).consumer = none) {fault : Option String} :
    Prompt w (.step i fault) := by
  cases fault with
  | some e => trivial
  | none =>
    intro f hf
    rw [h] at hf
    cases hf

theorem effect_consume (hphase : w.phase i = .consuming f) (hnow : f.now ≠ 0) :
    LoginEffect w (.step i none) (consume L w i f) := by
  have hconsumer : (w.phase i).consumer = some f := by rw [hphase]; rfl
  unfold consume
  cases hrow : selected w.challenges f with
  | none =>
    apply LoginEffect.move
    intro f' hf' row hrow'
    obtain rfl := Option.some.inj (hconsumer.symm.trans hf')
    rw [hrow] at hrow'
    cases hrow'
  | some row =>
    obtain ⟨hmem, -, haccepts⟩ := selected_eq_some.mp hrow
    refine .issued f row ⟨hmem, (FinishCall.accepts_iff.mp haccepts).2.2.1⟩ haccepts ?_ rfl rfl ?_
    · rintro g ⟨hg, hunused⟩
      obtain ⟨hne, hold⟩ := live_markUsed hrow hnow hg hunused
      exact ⟨hne, hold, hunused⟩
    · simp only [Prompt, hconsumer, Option.mem_some_iff, forall_eq', hrow]

variable {challenges : Table AuthChallenge.challengeId}

theorem effect_insert {c : ChallengeCall} (h : w.challenges.insert c.row = some challenges)
    (hprompt : Prompt w e) :
    LoginEffect w e
      { w.move i p with challenges := challenges, stored := w.stored ++ [c.row] } := by
  refine .stored c.row ?_ rfl rfl hprompt
  rintro g ⟨hg, hunused⟩
  replace hg : g ∈ challenges.rows := hg
  rw [(Table.insert_eq_some.mp h).2] at hg
  rcases List.mem_append.mp hg with hg | hg
  · exact .inr ⟨hg, hunused⟩
  · exact .inl (List.mem_singleton.mp hg)

theorem effect_sweep (hsub : ∀ g ∈ challenges.rows, g ∈ w.challenges.rows) (hprompt : Prompt w e) :
    LoginEffect w e { w.move i p with challenges := challenges } :=
  .quiet (fun g hg ↦ ⟨hsub g hg.1, hg.2⟩) rfl rfl hprompt

def Continues (w w' : LoginWorld ι) (i : ι) : Prop :=
  w'.clock = w.clock ∧ ∃ p : LoginPhase, w'.phase = Function.update w.phase i p ∧
    ∀ f, p.finish = some f → (w.phase i).finish = some f

theorem Continues.of_none (hp : p.finish = none) : Continues w (w.move i p) i := by
  refine ⟨rfl, p, rfl, ?_⟩
  intro f hf
  rw [hp] at hf
  cases hf

theorem continues_consume : Continues w (consume L w i f) i := by
  unfold consume
  cases selected w.challenges f with
  | none => exact .of_none rfl
  | some row => exact ⟨rfl, _, rfl, fun _ h ↦ by cases h⟩

theorem loginStep_spec {fault : Option String} (h : loginStep L w i fault = some w')
    (hnow : ∀ f, w.phase i = .consuming f → f.now ≠ 0) :
    LoginEffect w (.step i fault) w' ∧ Continues w w' i := by
  have hquiet : (w.phase i).consumer = none → Prompt w (.step i fault) :=
    fun hnone ↦ prompt_of_consumer hnone
  have hmove : ∀ q : LoginPhase, (w.phase i).consumer = none → some (w.move i q) = some w' →
      (∀ f, q.finish = some f → (w.phase i).finish = some f) →
      LoginEffect w (.step i fault) w' ∧ Continues w w' i := by
    intro q hnone hq hf
    obtain rfl := Option.some.inj hq
    exact ⟨.move (hquiet hnone), rfl, q, rfl, hf⟩
  unfold loginStep at h
  cases hphase : w.phase i with
  | idle | returned reply =>
    rw [hphase] at h
    cases h
  | sweeping c =>
    rw [hphase] at h hquiet
    obtain rfl := Option.some.inj h
    refine ⟨effect_sweep ?_ (hquiet rfl), rfl, _, rfl, nofun⟩
    intro g hg
    cases fault with
    | none => exact (Table.mem_deleteWhere.mp hg).1
    | some e => exact hg
  | countingAll c =>
    rw [hphase] at h hmove
    exact hmove _ rfl h nofun
  | countingActive c total =>
    rw [hphase] at h hmove
    dsimp only at h
    split_ifs at h <;> exact hmove _ rfl h nofun
  | inserting c =>
    rw [hphase] at h hmove hquiet
    dsimp only at h
    split at h
    · exact hmove _ rfl h nofun
    · exact hmove _ rfl h nofun
    · rename_i hins
      obtain rfl := Option.some.inj h
      exact ⟨effect_insert hins (hquiet rfl), rfl, _, rfl, nofun⟩
  | looking f =>
    rw [hphase] at h hmove
    dsimp only at h
    split at h
    · exact hmove _ rfl h (fun _ hf ↦ hf)
    · exact hmove _ rfl h nofun
  | fetchingKey f nonce expiresAt =>
    rw [hphase] at h hmove
    dsimp only at h
    split at h
    · split at h
      · exact hmove _ rfl h (fun _ hf ↦ hf)
      · exact hmove _ rfl h nofun
    · exact hmove _ rfl h nofun
  | consuming f =>
    rw [hphase] at h
    cases fault with
    | some e =>
      obtain rfl := Option.some.inj h
      exact ⟨.move trivial, .of_none rfl⟩
    | none =>
      obtain rfl := Option.some.inj h
      exact ⟨effect_consume hphase (hnow f hphase), continues_consume⟩

/-! ### One session for each challenge -/

structure Dated (w : LoginWorld ι) : Prop where
  clock_pos : 0 < w.clock
  now_pos : ∀ i f, (w.phase i).finish = some f → 0 < f.now

omit [DecidableEq ι] in
theorem Dated.now_ne (hw : Dated w) (hphase : w.phase i = .consuming f) : f.now ≠ 0 := by
  have hpos := hw.now_pos i f (by rw [hphase]; rfl)
  omega

theorem Dated.move (hw : Dated w) (hp : ∀ f, p.finish = some f → 0 < f.now) :
    Dated (w.move i p) where
  clock_pos := hw.clock_pos
  now_pos := by
    apply (Function.forall_update_iff w.phase
      (fun _ p ↦ ∀ f, LoginPhase.finish p = some f → 0 < f.now)).mpr
    exact ⟨hp, fun j _ ↦ hw.now_pos j⟩

theorem Dated.continues (hw : Dated w) (h : Continues w w' i) : Dated w' := by
  obtain ⟨hclock, p, hphase, hp⟩ := h
  have hmove := hw.move (i := i) (p := p) (fun f hf ↦ hw.now_pos i f (hp f hf))
  refine ⟨by rw [hclock]; exact hw.clock_pos, ?_⟩
  rw [hphase]
  exact hmove.now_pos

omit [DecidableEq ι] in
theorem finish_startChallenge {tenantId keyImageHex random nonce : String} :
    (startChallenge w tenantId keyImageHex random nonce).finish = none := by
  unfold startChallenge
  dsimp only
  split_ifs
  · rfl
  · rfl

theorem nextLogin_spec (hw : Dated w) (h : nextLogin L w e = some w') :
    LoginEffect w e w' ∧ Dated w' := by
  cases e with
  | tick clock =>
    simp only [nextLogin] at h
    split_ifs at h with hle
    obtain rfl := Option.some.inj h
    exact ⟨.quiet (fun _ hg ↦ hg) rfl rfl trivial, hw.clock_pos.trans_le hle, hw.now_pos⟩
  | askChallenge i tenantId keyImageHex random nonce =>
    simp only [nextLogin] at h
    split_ifs at h
    obtain rfl := Option.some.inj h
    refine ⟨.move trivial, hw.move ?_⟩
    rw [finish_startChallenge]
    intro f hf
    cases hf
  | askFinish i tenantId challengeId keyImageHex signatureB64u =>
    simp only [nextLogin] at h
    split_ifs at h
    obtain rfl := Option.some.inj h
    refine ⟨.move trivial, hw.move ?_⟩
    intro f hf
    cases hf
    exact hw.clock_pos
  | step i fault =>
    obtain ⟨heffect, hcontinues⟩ := loginStep_spec h (fun f hf ↦ hw.now_ne hf)
    exact ⟨heffect, hw.continues hcontinues⟩
  | enrol credential tenantId =>
    obtain rfl := Option.some.inj h
    exact ⟨.quiet (fun _ hg ↦ hg) rfl rfl trivial, hw.clock_pos, hw.now_pos⟩

def LoginSession.ForSubject (s : LoginSession) : Prop :=
  s.tenantId = s.challenge.tenantId ∧ s.keyImage = s.challenge.keyImageHex

structure LoginInvariant (w : LoginWorld ι) : Prop where
  dated : Dated w
  outstanding : Outstanding w.stored (w.sessions.map LoginSession.challenge) w.Live
  subject : ∀ s ∈ w.sessions, s.ForSubject

theorem invariant_nextLogin (hw : LoginInvariant w) (h : nextLogin L w e = some w') :
    LoginInvariant w' := by
  obtain ⟨heffect, hdated⟩ := nextLogin_spec hw.dated h
  cases heffect with
  | quiet hlive hstored hsessions _ =>
    refine ⟨hdated, ?_, hsessions ▸ hw.subject⟩
    rw [hstored, hsessions]
    exact hw.outstanding.mono hlive
  | stored row hlive hstored hsessions _ =>
    refine ⟨hdated, ?_, hsessions ▸ hw.subject⟩
    rw [hstored, hsessions]
    exact hw.outstanding.store hlive
  | issued f row hrow haccepts hlive hstored hsessions _ =>
    obtain ⟨htenant, himage, -⟩ := FinishCall.accepts_iff.mp haccepts
    refine ⟨hdated, ?_, ?_⟩
    · rw [hstored, hsessions, List.map_append]
      exact hw.outstanding.handOut hrow hlive
    · intro s hs
      rw [hsessions] at hs
      rcases List.mem_append.mp hs with hs | hs
      · exact hw.subject s hs
      · rw [List.mem_singleton.mp hs]
        exact ⟨htenant.symm, himage.symm⟩

omit [DecidableEq ι] in
theorem invariant_init {clock : ℤ} (hclock : 0 < clock) :
    LoginInvariant (LoginWorld.init clock : LoginWorld ι) where
  dated := ⟨hclock, fun _ _ h ↦ by cases h⟩
  outstanding := .start (fun _ hg ↦ absurd hg.1 List.not_mem_nil)
  subject _ hs := absurd hs List.not_mem_nil

/-! ### Late sessions -/

def LoginSession.InTime (s : LoginSession) : Prop := s.issuedAt ≤ s.challenge.expiresAt

theorem inTime_nextLogin (hw : Dated w) (h : nextLogin L w e = some w') :
    (∀ s ∈ w'.sessions, s.InTime) ↔ (∀ s ∈ w.sessions, s.InTime) ∧ Prompt w e := by
  cases (nextLogin_spec hw h).1 with
  | quiet hlive hstored hsessions hprompt => rw [hsessions, and_iff_left hprompt]
  | stored row hlive hstored hsessions hprompt => rw [hsessions, and_iff_left hprompt]
  | issued f row hrow haccepts hlive hstored hsessions hprompt =>
    rw [hsessions, hprompt, List.forall_mem_append, List.forall_mem_singleton]
    rfl

/-- Along a run from a state in which all sessions were in time, they still are exactly if every
step of the run was prompt. -/
theorem inTime_run {es : List (LoginEvent ι)} (hw : Dated w)
    (h : run (nextLogin L) w es = some w') :
    (∀ s ∈ w'.sessions, s.InTime) ↔
      (∀ s ∈ w.sessions, s.InTime) ∧ Along (nextLogin L) Prompt w es := by
  induction es generalizing w with
  | nil =>
    obtain rfl := Option.some.inj h
    exact (and_iff_left trivial).symm
  | cons e es ih =>
    obtain ⟨u, hu, h⟩ := run_cons.mp h
    rw [ih (nextLogin_spec hw hu).2 h, inTime_nextLogin hw hu, and_assoc]
    refine and_congr_right (fun _ ↦ and_congr_right (fun _ ↦ ?_))
    constructor
    · intro hrest v hv
      obtain rfl := Option.some.inj (hu.symm.trans hv)
      exact hrest
    · intro hrest
      exact hrest u hu

/-- In every run, each stored challenge leads to at most one session, and that session is for whom
the challenge was issued to. None is issued after the expiry of its challenge exactly if every
step is prompt. -/
theorem login_sessions {clock : ℤ} (hclock : 0 < clock) {es : List (LoginEvent ι)}
    (h : run (nextLogin L) (LoginWorld.init clock) es = some w) :
    (w.sessions.map LoginSession.challenge).Subperm w.stored ∧
      (∀ s ∈ w.sessions, s.ForSubject) ∧
      ((∀ s ∈ w.sessions, s.InTime) ↔
        Along (nextLogin L) Prompt (LoginWorld.init clock) es) := by
  have hinv : LoginInvariant w := run_invariant (fun u e v hu _ hv ↦ invariant_nextLogin hu hv)
    (invariant_init hclock) (along_true _ es) h
  refine ⟨hinv.outstanding.subperm, hinv.subject, ?_⟩
  rw [inTime_run (invariant_init hclock).dated h]
  exact and_iff_right (fun s hs ↦ absurd hs List.not_mem_nil)

section Demo

def demoHost : LoginHost := ⟨countingPrimitives, [], fun _ ↦ true, fun _ _ _ ↦ true⟩

def demoImage : String := hexEncode (List.replicate 32 7)

def demoSignature : String := Base64.encode (List.replicate 64 1)

def twoFinishes : List (LoginEvent Bool) :=
  [.enrol ⟨demoImage, Base64.encode (List.replicate 32 9)⟩ "t",
    .askChallenge false "t" demoImage "1" "n", .step false none, .step false none,
    .step false none, .step false none,
    .askFinish false "t" "uac_1" demoImage demoSignature,
    .askFinish true "t" "uac_1" demoImage demoSignature,
    .step false none, .step true none, .step true none, .step false none]

theorem run_twoFinishes :
    (run (nextLogin demoHost) (LoginWorld.init 100)
        (twoFinishes ++ [.tick 220, .step false none, .step true none])).map
        (fun w : LoginWorld Bool ↦ w.sessions.map LoginSession.issuedAt) = some [220] ∧
      Along (nextLogin demoHost) Prompt (LoginWorld.init 100 : LoginWorld Bool)
        (twoFinishes ++ [.tick 220, .step false none, .step true none]) := by
  decide +kernel

/-- Both finish, and one of them gets a session. -/
theorem login_sessions_twoFinishes :
    ∃ w : LoginWorld Bool, run (nextLogin demoHost) (LoginWorld.init 100)
        (twoFinishes ++ [.tick 220, .step false none, .step true none]) = some w ∧
      w.sessions.map LoginSession.issuedAt = [220] ∧ ∀ s ∈ w.sessions, s.InTime := by
  obtain ⟨hrun, hprompt⟩ := run_twoFinishes
  obtain ⟨w, hw, hissued⟩ := Option.map_eq_some_iff.mp hrun
  exact ⟨w, hw, hissued, (login_sessions (by decide) hw).2.2.mpr hprompt⟩

/-- The clock passes the expiry between the two statements of a request. -/
theorem session_after_expiry :
    (run (nextLogin demoHost) (LoginWorld.init 100)
        (twoFinishes ++ [.tick 1000, .step false none])).map
      (fun w : LoginWorld Bool ↦ w.sessions.map (fun s ↦ (s.issuedAt, s.challenge.expiresAt))) =
      some [(1000, 220)] := by
  decide +kernel

end Demo

end SauronId.User
