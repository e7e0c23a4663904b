import SauronId.Agent.CallSig
import SauronId.Lib.SingleUse

namespace SauronId.Agent

open CryptoProtocol Lib Lib.Run Lib.SingleUse Lib.Text Lib.Word
open Spend (RepoError)

structure CallNonceRow where
  (agentId nonce : String)
  exp : ℤ

def CallNonceRow.key (r : CallNonceRow) : String × String := (r.agentId, r.nonce)

def CallNonceRow.stamp (r : CallNonceRow) : (String × String) × ℤ := (r.key, r.exp)

def consumeCallNonce (nonces : Table CallNonceRow.key) (row : CallNonceRow) :
    Except RepoError (Table CallNonceRow.key) := do
  ensure (row.nonce ≠ "") (.backend "missing call nonce")
  ensure (len row.nonce ≤ 128) (.backend "call nonce too long (max 128 chars)")
  (nonces.insert row).elim (.error (.replay "call nonce replay (already used)")) .ok

/-- A request that has passed its time check: what it is going to insert, the
time it carries and the time of the check. -/
structure TimedCall where
  row : CallNonceRow
  time : ℤ
  checkedAt : ℕ
  dpop : Bool

def SignedCall.timed (K : CallHost) (call : SignedCall) (clock : ℕ) : TimedCall :=
  ⟨⟨call.agentId, call.nonce, nonceExp K call.callTs⟩, call.callTs, clock, false⟩

def DpopProof.timed (K : CallHost) (agentId : String) (proof : DpopProof) (clock : ℕ) : TimedCall :=
  ⟨⟨agentId, dpopNonce proof.jti, jtiExp K proof.iat⟩, proof.iat * 1000, clock, true⟩

def TimedCall.refusal (t : TimedCall) : RepoError → CallError
  | .backend message => .internal message
  | .replay message =>
    if t.dpop then .detailed 409 "dpop_jti_reused" "DPoP jti replay (already used)"
      "generate a fresh random jti per proof"
    else .detailed 409 "call_sig_nonce_reused" message "generate a fresh random nonce per call"

/-- Where a request stands. A step reads the clock once, or the clock in seconds
and the agents, or runs the insertion. -/
inductive CallPhase
  | idle
  | arrived (req : CallRequest)
  | timed (call : SignedCall) (t : TimedCall)
  | proven (req : CallRequest) (agentId : String) (proof : DpopProof)
  | consuming (t : TimedCall)
  | finished (outcome : Except CallError String)

def failed (e : CallError) : CallPhase := .finished (.error e)

def afterTimeCheck (K : CallHost) (req : CallRequest) (clock : ℕ) : CallPhase :=
  match readSignedCall K req with
  | .error e => failed e
  | .ok call =>
    match checkSkew K call clock with
    | .error e => failed e
    | .ok () => .timed call (call.timed K clock)

def afterProof (K : CallHost) (req : CallRequest) (agents : Table AgentRecord.agentId) (now : ℤ) :
    CallPhase :=
  match proveDpop K req agents now with
  | .error e => failed e
  | .ok (agentId, proof) => .proven req agentId proof

def afterAuthentication (K : CallHost) (call : SignedCall) (t : TimedCall)
    (agents : Table AgentRecord.agentId) (now : ℤ) : CallPhase :=
  match authenticateCall K call agents now with
  | .error e => failed e
  | .ok () => .consuming t

def afterContext (K : CallHost) (req : CallRequest) (agentId : String) (proof : DpopProof)
    (clock : ℕ) : CallPhase :=
  match checkContext K proof req clock, checkAth K proof (bearerToken req) with
  | .error e, _ => failed e
  | .ok (), .error e => failed e
  | .ok (), .ok () => .consuming (proof.timed K agentId clock)

/-- The requests in flight, on a clock in milliseconds, and the clean-up task
with its reading. `passed` only records the history. -/
structure CallWorld (ι : Type) where
  clock : ℕ
  agents : Table AgentRecord.agentId
  nonces : Table CallNonceRow.key
  phase : ι → CallPhase
  sweepNow : Option ℤ
  passed : List (ι × TimedCall)

inductive CallEvent (ι : Type)
  | tick (milliseconds : ℕ)
  | setAgents (agents : Table AgentRecord.agentId)
  | arrive (i : ι) (req : CallRequest)
  | advance (i : ι)
  | readSweep
  | sweep

variable {ι : Type}

def CallWorld.now (w : CallWorld ι) : ℤ := (w.clock : ℤ) / 1000

def CallWorld.sweep (w : CallWorld ι) (now : ℤ) : CallWorld ι :=
  { w with nonces := w.nonces.deleteWhere (fun r ↦ r.exp < now), sweepNow := none }

variable [DecidableEq ι]

def CallWorld.move (w : CallWorld ι) (i : ι) (phase : CallPhase) : CallWorld ι :=
  { w with phase := Function.update w.phase i phase }

def CallWorld.consume (w : CallWorld ι) (i : ι) (t : TimedCall) : CallWorld ι :=
  match consumeCallNonce w.nonces t.row with
  | .error e => w.move i (failed (t.refusal e))
  | .ok nonces =>
    { w with nonces := nonces, passed := w.passed ++ [(i, t)] }.move i
      (.finished (.ok t.row.agentId))

def CallWorld.advance (K : CallHost) (w : CallWorld ι) (i : ι) : Option (CallWorld ι) :=
  match w.phase i with
  | .idle | .finished _ => none
  | .arrived req =>
    if usesDpop K req then some (w.move i (afterProof K req w.agents w.now))
    else some (w.move i (afterTimeCheck K req w.clock))
  | .timed call t => some (w.move i (afterAuthentication K call t w.agents w.now))
  | .proven req agentId proof => some (w.move i (afterContext K req agentId proof w.clock))
  | .consuming t => some (w.consume i t)

def nextCall (K : CallHost) (w : CallWorld ι) : CallEvent ι → Option (CallWorld ι)
  | .tick milliseconds => some { w with clock := w.clock + milliseconds }
  | .setAgents agents => some { w with agents := agents }
  | .arrive i req =>
    match w.phase i with
    | .idle => some (w.move i (.arrived req))
    | _ => none
  | .advance i => w.advance K i
  | .readSweep => some { w with sweepNow := some w.now }
  | .sweep => w.sweepNow.map w.sweep

def CallWorld.init (clock : ℕ) (agents : Table AgentRecord.agentId)
    (nonces : Table CallNonceRow.key) : CallWorld ι :=
  ⟨clock, agents, nonces, fun _ ↦ .idle, none, []⟩

/-! ### Prompt and orderly runs -/

def CallPhase.timedCall : CallPhase → Option TimedCall
  | .timed _ t | .consuming t => some t
  | _ => none

/-- No request is in flight for more than a minute after its time check. -/
def Prompt (w : CallWorld ι) : CallEvent ι → Prop
  | .tick milliseconds => ∀ i, ∀ t ∈ (w.phase i).timedCall,
      w.clock + milliseconds ≤ t.checkedAt + 60000
  | _ => True

omit [DecidableEq ι] in
instance [Fintype ι] (w : CallWorld ι) : (e : CallEvent ι) → Decidable (Prompt w e)
  | .tick milliseconds => inferInstanceAs (Decidable (∀ i, ∀ t ∈ (w.phase i).timedCall,
      w.clock + milliseconds ≤ t.checkedAt + 60000))
  | .setAgents _ | .arrive _ _ | .advance _ | .readSweep | .sweep => isTrue trivial

/-- The time check computes with the time as it is, and one pair of agent and
nonce stands for one time. -/
structure Sane (timeOf : String × String → ℤ) (clock : ℕ) (key : String × String) (time : ℤ) :
    Prop where
  lower : -2 ^ 63 ≤ time
  upper : time < 2 ^ 63
  noOverflow : clock - time < 2 ^ 63
  oneTime : time = timeOf key

instance (timeOf : String × String → ℤ) (clock : ℕ) (key : String × String) (time : ℤ) :
    Decidable (Sane timeOf clock key time) :=
  decidable_of_iff (-2 ^ 63 ≤ time ∧ time < 2 ^ 63 ∧ clock - time < 2 ^ 63 ∧ time = timeOf key)
    ⟨fun ⟨h₁, h₂, h₃, h₄⟩ ↦ ⟨h₁, h₂, h₃, h₄⟩, fun h ↦ ⟨h.lower, h.upper, h.noOverflow, h.oneTime⟩⟩

/-- The time checks are sane, and signed calls are given a skew of whole seconds. -/
def Orderly (K : CallHost) (timeOf : String × String → ℤ) (w : CallWorld ι) : CallEvent ι → Prop
  | .advance i =>
    match w.phase i with
    | .arrived req => ∀ call ∈ (readSignedCall K req).toOption, usesDpop K req = false →
        K.callSigSkewMs % 1000 = 0 ∧ Sane timeOf w.clock (call.agentId, call.nonce) call.callTs
    | .proven _ agentId proof =>
        Sane timeOf w.clock (agentId, dpopNonce proof.jti) (proof.iat * 1000)
    | _ => True
  | _ => True

omit [DecidableEq ι] in
instance (K : CallHost) (timeOf : String × String → ℤ) (w : CallWorld ι)
    (e : CallEvent ι) : Decidable (Orderly K timeOf w e) := by
  unfold Orderly
  split
  · split <;> infer_instance
  · infer_instance

structure Timed (K : CallHost) (timeOf : String × String → ℤ) (t : TimedCall) : Prop where
  fresh : |(t.checkedAt : ℤ) - t.time| ≤ K.callSigSkewMs
  kept : ((t.checkedAt : ℤ) + 60000) / 1000 ≤ t.row.exp
  oneExp : t.row.exp = nonceExp K (timeOf t.row.key)

variable {K : CallHost} {timeOf : String × String → ℤ} {t : TimedCall} {clock : ℕ}

omit [DecidableEq ι] in
theorem Sane.distance_le {key : String × String} {time : ℤ} (h : Sane timeOf clock key time)
    (hd : distance clock time ≤ K.callSigSkewMs) : |(clock : ℤ) - time| ≤ K.callSigSkewMs := by
  rwa [distance_eq (Int.natCast_nonneg clock) h.upper h.noOverflow] at hd

theorem timed_of_checkSkew {call : SignedCall} (hwhole : K.callSigSkewMs % 1000 = 0)
    (hsane : Sane timeOf clock (call.agentId, call.nonce) call.callTs)
    (h : checkSkew K call clock = .ok ()) : Timed K timeOf (call.timed K clock) := by
  have hfresh := hsane.distance_le (ensure_eq_ok.mp h)
  refine ⟨hfresh, seconds_le_nonceExp hwhole hfresh, ?_⟩
  show nonceExp K call.callTs = nonceExp K (timeOf (call.agentId, call.nonce))
  rw [← hsane.oneTime]

theorem jtiExp_eq_nonceExp (K : CallHost) (iat : ℤ) : jtiExp K iat = nonceExp K (iat * 1000) := by
  rw [jtiExp, nonceExp, Int.mul_tdiv_cancel iat (by decide)]

variable {req : CallRequest}

theorem timed_of_checkContext {agentId : String} {proof : DpopProof}
    (hsane : Sane timeOf clock (agentId, dpopNonce proof.jti) (proof.iat * 1000))
    (h : checkContext K proof req clock = .ok ()) :
    Timed K timeOf (proof.timed K agentId clock) := by
  obtain ⟨-, h⟩ := andThen_eq_ok.mp h
  obtain ⟨-, h⟩ := andThen_eq_ok.mp h
  rw [ensure_eq_ok, saturate_of_fits hsane.lower hsane.upper] at h
  have hfresh := hsane.distance_le h
  refine ⟨hfresh, seconds_le_jtiExp hfresh, ?_⟩
  show jtiExp K proof.iat = nonceExp K (timeOf (agentId, dpopNonce proof.jti))
  rw [← hsane.oneTime, jtiExp_eq_nonceExp]

/-! ### What a step does -/

/-- A move of one request that leaves the nonces alone: what it carries past a
time check it carried before, or has just checked. -/
def QuietCall (K : CallHost) (timeOf : String × String → ℤ) (w : CallWorld ι) (i : ι)
    (phase : CallPhase) : Prop :=
  ∀ t, phase.timedCall = some t →
    (w.phase i).timedCall = some t ∨ t.checkedAt = w.clock ∧ Timed K timeOf t

inductive CallStep (K : CallHost) (timeOf : String × String → ℤ) (w : CallWorld ι) :
    CallEvent ι → CallWorld ι → Prop
  | tick (milliseconds : ℕ) :
      CallStep K timeOf w (.tick milliseconds) { w with clock := w.clock + milliseconds }
  | setAgents (agents : Table AgentRecord.agentId) :
      CallStep K timeOf w (.setAgents agents) { w with agents := agents }
  | readSweep : CallStep K timeOf w .readSweep { w with sweepNow := some w.now }
  | sweep (now : ℤ) : w.sweepNow = some now → CallStep K timeOf w .sweep (w.sweep now)
  | quiet (e : CallEvent ι) (i : ι) (phase : CallPhase) : QuietCall K timeOf w i phase →
      CallStep K timeOf w e (w.move i phase)
  | consume (i : ι) (t : TimedCall) (nonces : Table CallNonceRow.key) :
      w.phase i = .consuming t → w.nonces.insert t.row = some nonces →
      CallStep K timeOf w (.advance i)
        ({ w with nonces := nonces, passed := w.passed ++ [(i, t)] }.move i
          (.finished (.ok t.row.agentId)))

variable {w v : CallWorld ι} {i : ι}

omit [DecidableEq ι] in
theorem quietCall_failed (e : CallError) : QuietCall K timeOf w i (failed e) := nofun

omit [DecidableEq ι] in
theorem quietCall_afterTimeCheck
    (hok : ∀ call, readSignedCall K req = .ok call → K.callSigSkewMs % 1000 = 0 ∧
      Sane timeOf w.clock (call.agentId, call.nonce) call.callTs) :
    QuietCall K timeOf w i (afterTimeCheck K req w.clock) := by
  unfold afterTimeCheck
  split
  · exact quietCall_failed _
  · split
    · exact quietCall_failed _
    · rename_i call hcall _ hskew
      rintro t ⟨⟩
      obtain ⟨hwhole, hsane⟩ := hok call hcall
      exact .inr ⟨rfl, timed_of_checkSkew hwhole hsane hskew⟩

omit [DecidableEq ι] in
theorem quietCall_afterContext {agentId : String} {proof : DpopProof}
    (hsane : Sane timeOf w.clock (agentId, dpopNonce proof.jti) (proof.iat * 1000)) :
    QuietCall K timeOf w i (afterContext K req agentId proof w.clock) := by
  unfold afterContext
  split
  · exact quietCall_failed _
  · exact quietCall_failed _
  · rename_i hcontext _
    rintro t ⟨⟩
    exact .inr ⟨rfl, timed_of_checkContext hsane hcontext⟩

theorem consumeCallNonce_eq_ok {nonces nonces' : Table CallNonceRow.key} {row : CallNonceRow}
    (h : consumeCallNonce nonces row = .ok nonces') : nonces.insert row = some nonces' := by
  obtain ⟨-, h⟩ := andThen_eq_ok.mp h
  obtain ⟨-, h⟩ := andThen_eq_ok.mp h
  exact elim_eq_ok.mp h

theorem step_of_advanceCall (hok : Orderly K timeOf w (.advance i))
    (h : w.advance K i = some v) : CallStep K timeOf w (.advance i) v := by
  unfold CallWorld.advance at h
  unfold Orderly at hok
  cases hp : w.phase i with
  | idle | finished =>
    rw [hp] at h
    cases h
  | arrived req =>
    simp only [hp] at h hok
    split_ifs at h with hdpop
    · cases h
      unfold afterProof
      split
      · exact .quiet _ i _ (quietCall_failed _)
      · exact .quiet _ i _ nofun
    · cases h
      refine .quiet _ i _ (quietCall_afterTimeCheck (fun call hcall ↦ ?_))
      exact hok call (by rw [hcall]; rfl) (by simpa using hdpop)
  | timed call t =>
    simp only [hp] at h
    cases h
    unfold afterAuthentication
    split
    · exact .quiet _ i _ (quietCall_failed _)
    · refine .quiet _ i _ (fun u hu ↦ .inl ?_)
      rw [hp]
      exact hu
  | proven req agentId proof =>
    simp only [hp] at h hok
    cases h
    exact .quiet _ i _ (quietCall_afterContext hok)
  | consuming t =>
    simp only [hp] at h
    cases h
    unfold CallWorld.consume
    split
    · exact .quiet _ i _ (quietCall_failed _)
    · exact .consume i t _ hp (consumeCallNonce_eq_ok ‹_›)

theorem step_of_nextCall {e : CallEvent ι} (hok : Orderly K timeOf w e)
    (h : nextCall K w e = some v) : CallStep K timeOf w e v := by
  cases e with
  | tick milliseconds =>
    cases h
    exact .tick milliseconds
  | setAgents agents =>
    cases h
    exact .setAgents agents
  | arrive i req =>
    simp only [nextCall] at h
    split at h
    · cases h
      exact .quiet _ i _ nofun
    · cases h
  | advance i => exact step_of_advanceCall hok h
  | readSweep =>
    cases h
    exact .readSweep
  | sweep =>
    obtain ⟨now, hn, rfl⟩ := Option.map_eq_some_iff.mp h
    exact .sweep now hn

/-! ### What a run keeps -/

def CallWorld.guard (w : CallWorld ι) : Guard ι (String × String) where
  clock := w.now
  held := stamps CallNonceRow.stamp w.nonces
  waiting i := (w.phase i).timedCall.map (fun t ↦ t.row.stamp)
  spent := w.passed.map (fun p ↦ p.2.row.stamp)

theorem guard_moveCall (w : CallWorld ι) (i : ι) (phase : CallPhase) :
    (w.move i phase).guard = { w.guard with
      waiting := Function.update w.guard.waiting i
        (phase.timedCall.map (fun t ↦ t.row.stamp)) } := by
  simp only [CallWorld.guard, CallWorld.move, CallWorld.now, Guard.mk.injEq, true_and, and_true]
  exact Function.comp_update (fun p : CallPhase ↦ p.timedCall.map (fun t ↦ t.row.stamp)) w.phase i
    phase

structure CallInvariant (K : CallHost) (timeOf : String × String → ℤ) (w : CallWorld ι) :
    Prop where
  sweepNow : ∀ now, w.sweepNow = some now → now ≤ w.now
  timed : ∀ i t, (w.phase i).timedCall = some t →
    Timed K timeOf t ∧ w.clock ≤ t.checkedAt + 60000
  passed : ∀ p ∈ w.passed, Timed K timeOf p.2
  sound : Sound w.guard

omit [DecidableEq ι] in
theorem callInvariant_init (clock : ℕ) (agents : Table AgentRecord.agentId)
    (nonces : Table CallNonceRow.key) :
    CallInvariant K timeOf (.init clock agents nonces : CallWorld ι) where
  sweepNow := nofun
  timed := fun _ _ h ↦ by cases h
  passed := fun _ h ↦ by cases h
  sound := ⟨List.nodup_nil, fun _ h ↦ by cases h⟩

omit [DecidableEq ι] in
theorem CallInvariant.now_le_exp (hw : CallInvariant K timeOf w)
    (h : (w.phase i).timedCall = some t) : w.now ≤ t.row.exp := by
  obtain ⟨htimed, hclock⟩ := hw.timed i t h
  have hkept := htimed.kept
  unfold CallWorld.now
  omega

theorem CallInvariant.tick (hw : CallInvariant K timeOf w) {milliseconds : ℕ}
    (hok : ∀ i, ∀ t ∈ (w.phase i).timedCall, w.clock + milliseconds ≤ t.checkedAt + 60000) :
    CallInvariant K timeOf { w with clock := w.clock + milliseconds } := by
  have hle : w.now ≤ ((w.clock + milliseconds : ℕ) : ℤ) / 1000 := by
    unfold CallWorld.now
    omega
  exact ⟨fun now h ↦ (hw.sweepNow now h).trans hle,
    fun i t h ↦ ⟨(hw.timed i t h).1, hok i t h⟩, hw.passed, hw.sound.step (.tick _ hle)⟩

theorem CallInvariant.sweep (hw : CallInvariant K timeOf w) {now : ℤ}
    (hnow : w.sweepNow = some now) : CallInvariant K timeOf (w.sweep now) := by
  have hexpired : ∀ r : CallNonceRow, decide (r.exp < now) = true ↔ r.stamp.2 < now :=
    fun _ ↦ decide_eq_true_iff
  have hguard : (w.sweep now).guard =
      { w.guard with held := {s ∈ w.guard.held | now ≤ s.2} } := by
    simp only [CallWorld.guard, CallWorld.sweep, CallWorld.now, stamps_deleteWhere hexpired]
  refine ⟨nofun, hw.timed, hw.passed, ?_⟩
  rw [hguard]
  refine hw.sound.step (.sweep now (hw.sweepNow now hnow) (fun s _ hlt j hj ↦ ?_))
  obtain ⟨t, ht, rfl⟩ := Option.map_eq_some_iff.mp hj
  exact absurd (hw.now_le_exp ht) (not_le.mpr (lt_of_lt_of_le hlt (hw.sweepNow now hnow)))

theorem QuietCall.refines {phase : CallPhase} (h : QuietCall K timeOf w i phase) :
    SingleUse.Step w.guard (w.move i phase).guard := by
  rw [guard_moveCall]
  refine .move (fun s hs ↦ ?_)
  obtain ⟨t, ht, rfl⟩ := Option.map_eq_some_iff.mp hs
  rcases h t ht with hsame | ⟨hclock, htimed⟩
  · exact .inl (Option.map_eq_some_iff.mpr ⟨t, hsame, rfl⟩)
  · right
    have hkept := htimed.kept
    rw [hclock] at hkept
    show w.now ≤ t.row.exp
    unfold CallWorld.now
    omega

theorem CallInvariant.quiet (hw : CallInvariant K timeOf w) {phase : CallPhase}
    (h : QuietCall K timeOf w i phase) : CallInvariant K timeOf (w.move i phase) where
  sweepNow := hw.sweepNow
  timed := (Function.forall_update_iff w.phase (fun _ p ↦ ∀ t, p.timedCall = some t →
    Timed K timeOf t ∧ w.clock ≤ t.checkedAt + 60000)).mpr
      ⟨fun t ht ↦ (h t ht).elim (hw.timed i t) (fun ⟨hclock, htimed⟩ ↦ ⟨htimed, by omega⟩),
        fun j _ ↦ hw.timed j⟩
  passed := hw.passed
  sound := hw.sound.step h.refines

theorem CallInvariant.consume (hw : CallInvariant K timeOf w) {nonces : Table CallNonceRow.key}
    (hp : w.phase i = .consuming t) (hn : w.nonces.insert t.row = some nonces) :
    CallInvariant K timeOf ({ w with nonces := nonces, passed := w.passed ++ [(i, t)] }.move i
      (.finished (.ok t.row.agentId))) := by
  have hphase : (w.phase i).timedCall = some t := by
    rw [hp]
    rfl
  have hquiet : QuietCall K timeOf w i (.finished (.ok t.row.agentId)) := nofun
  have hmoved := hw.quiet hquiet
  refine ⟨hmoved.sweepNow, hmoved.timed, fun p hmem ↦ ?_, ?_⟩
  · rcases List.mem_append.mp hmem with hmem | hmem
    · exact hw.passed p hmem
    · rw [List.mem_singleton.mp hmem]
      exact (hw.timed i t hphase).1
  · have hguard : CallWorld.guard ({ w with nonces := nonces, passed := w.passed ++ [(i, t)] }.move
        i (.finished (.ok t.row.agentId))) = { w.guard with
          held := insert t.row.stamp w.guard.held
          waiting := Function.update w.guard.waiting i none
          spent := w.guard.spent ++ [t.row.stamp] } := by
      rw [guard_moveCall]
      simp only [CallWorld.guard, CallWorld.now, stamps_insert hn, List.map_append, List.map_cons,
        List.map_nil, CallPhase.timedCall, Option.map_none]
    rw [hguard]
    refine hw.sound.step (.claim i t.row.stamp ?_ ?_)
    · simp only [CallWorld.guard, hphase, Option.map_some]
    · exact stamp_not_mem (fun _ _ he ↦ (Prod.mk.inj he).1) hn

theorem CallStep.invariant {e : CallEvent ι} (hstep : CallStep K timeOf w e v)
    (hw : CallInvariant K timeOf w) (hprompt : Prompt w e) : CallInvariant K timeOf v := by
  cases hstep with
  | tick milliseconds => exact hw.tick hprompt
  | setAgents agents => exact ⟨hw.sweepNow, hw.timed, hw.passed, hw.sound⟩
  | readSweep => exact ⟨fun now h ↦ (Option.some.inj h).ge, hw.timed, hw.passed, hw.sound⟩
  | sweep now hnow => exact hw.sweep hnow
  | quiet e i phase h => exact hw.quiet h
  | consume i t nonces hp hn => exact hw.consume hp hn

/-- In a prompt and orderly run no pair of agent and nonce passes twice, and a
call passes only within the skew. -/
theorem call_passes_once {agents : Table AgentRecord.agentId} {nonces : Table CallNonceRow.key}
    {events : List (CallEvent ι)}
    (hrun : run (nextCall K) (.init clock agents nonces) events = some w)
    (hprompt : Along (nextCall K) Prompt (.init clock agents nonces) events)
    (hok : Along (nextCall K) (Orderly K timeOf) (.init clock agents nonces) events) :
    (w.passed.map (fun p ↦ p.2.row.key)).Nodup ∧
      ∀ p ∈ w.passed, |(p.2.checkedAt : ℤ) - p.2.time| ≤ K.callSigSkewMs := by
  have hw : CallInvariant K timeOf w := run_invariant
    (fun _ _ _ hw hok h ↦ (step_of_nextCall hok.2 h).invariant hw hok.1)
    (callInvariant_init clock agents nonces) (along_and hprompt hok) hrun
  refine ⟨nodup_keys (fun p hp q hq he ↦ ?_) hw.sound.nodup, fun p hp ↦ (hw.passed p hp).fresh⟩
  refine Prod.ext he ?_
  show p.2.row.exp = q.2.row.exp
  rw [(hw.passed p hp).oneExp, (hw.passed q hq).oneExp, he]

/-! ### One nonce used twice -/

def demoCallHost (skewMs : ℤ) : CallHost where
  primitives := countingPrimitives
  skewSetting := some skewMs
  callAudience := "sauron-core"
  acceptDpop := false
  decodeB64u s := some (List.replicate (len s) 0)
  encodeB64u _ := ""
  parseJson _ := none
  parseUri _ := none
  validKey _ := true
  verifyEd25519 _ _ _ := true

def demoCaller : AgentRecord where
  agentId := "agent"
  humanKeyImage := "human"
  agentChecksum := "sum"
  intentJson := ""
  assuranceLevel := "delegated_bank"
  publicKeyHex := ""
  ringKeyImageHex := ""
  issuedAt := 0
  expiresAt := 1000
  revoked := 0
  parentAgentId := none
  delegationDepth := 0
  popJkt := ""
  popPublicKeyB64u := String.ofList (List.replicate 32 'k')
  attestationBlob := none
  attestationKind := ""
  attestationPubkeyB64u := none
  attestationPcrSet := none
  attestationEkCertChainPem := none
  tenantId := "acme"
  ownerMandateSigB64u := ""
  ownerMandateHash := ""

def demoSignedCall (callTs : String) : CallRequest where
  headers := [("x-sauron-agent-id", some "agent"), ("x-sauron-call-ts", some callTs),
    ("x-sauron-call-nonce", some "n1"),
    ("x-sauron-call-sig", some (String.ofList (List.replicate 64 's'))),
    ("x-sauron-protocol-version", some "2"), ("x-sauron-call-audience", some "sauron-core"),
    ("x-sauron-agent-config-digest", some "sum")]
  tenantId := "acme"
  method := "POST"
  uriPath := "/pay"
  uriPathAndQuery := none
  body := []

def callsAt (clock : ℕ) : CallWorld Bool := .init clock ⟨[demoCaller], by decide⟩ .empty

def called (i : Bool) (callTs : String) : List (CallEvent Bool) :=
  .arrive i (demoSignedCall callTs) :: List.replicate 3 (.advance i)

theorem call_passes_once_replayed :
    ∃ w, run (nextCall (demoCallHost 60000)) (callsAt 0) (called false "0" ++ called true "0") =
      some w ∧ w.passed.length = 1 ∧ (w.passed.map (fun p ↦ p.2.row.key)).Nodup ∧
        ∀ p ∈ w.passed, |(p.2.checkedAt : ℤ) - p.2.time| ≤ 60000 := by
  obtain ⟨w, hw, hlen⟩ : ∃ w, run (nextCall (demoCallHost 60000)) (callsAt 0)
      (called false "0" ++ called true "0") = some w ∧ w.passed.length = 1 := by
    decide +kernel
  have hok : Along (nextCall (demoCallHost 60000)) (Orderly (demoCallHost 60000) (fun _ ↦ 0))
      (callsAt 0) (called false "0" ++ called true "0") := by decide +kernel
  exact ⟨w, hw, hlen, call_passes_once hw (by decide +kernel) hok⟩

def outlived : List (CallEvent Bool) :=
  called false "999" ++ [CallEvent.tick 2000, .arrive true (demoSignedCall "999"), .advance true,
    .advance true, .tick 60000, .readSweep, .sweep, .advance true]

def signedAnew : List (CallEvent Bool) :=
  called false "0" ++ [CallEvent.tick 121000, .readSweep, .sweep] ++ called true "121000"

/-- The subtraction overflows, a nonce comes back with a new timestamp, and a
part of a second is lost from the time a nonce is kept. -/
theorem stale_and_repeated_calls :
    (∃ w, run (nextCall (demoCallHost 60000)) (callsAt 10000)
        (called false "-9223372036854765808") = some w ∧
      w.passed.map (fun p ↦ |(p.2.checkedAt : ℤ) - p.2.time|) = [2 ^ 63]) ∧
    (∃ w, run (nextCall (demoCallHost 60000)) (callsAt 0) signedAnew = some w ∧
      Along (nextCall (demoCallHost 60000)) Prompt (callsAt 0) signedAnew ∧
      w.passed.map (fun p ↦ p.2.row.key) = [("agent", "n1"), ("agent", "n1")]) ∧
    ∃ w, run (nextCall (demoCallHost 1001)) (callsAt 0) outlived = some w ∧
      Along (nextCall (demoCallHost 1001)) Prompt (callsAt 0) outlived ∧
      w.passed.map (fun p ↦ p.2.row.key) = [("agent", "n1"), ("agent", "n1")] := by
  decide +kernel

end SauronId.Agent
