import SauronId.Agent.VerifyToken
import SauronId.Lib.SingleUse

namespace SauronId.Agent

open SauronId.Action (AgentRow payers)
open CryptoProtocol Lib Lib.Run Lib.SingleUse
open SauronId.Payment (PopChallenge RiskCounter Token UsedJti consumeAjwtJti secondsClaim textClaim
  verifyAjwt verifyAjwtForTenant)

def jtiStamp (r : UsedJti) : String × ℤ := (r.jti, r.exp)

def VerifyCall.stamp (call : VerifyCall) (claims : Json) : Option (String × ℤ) :=
  if call.consumeJti then do
    let jti ← (textClaim claims "jti").filter (fun j ↦ j ≠ "")
    let exp ← secondsClaim claims "exp"
    return (jti, exp)
  else none

def VerifyPhase.awaited : VerifyPhase → Option (String × ℤ)
  | .verified call claims | .counted call claims => call.stamp claims
  | .consuming _ jti exp | .inserting _ jti exp _ => some (jti, exp)
  | _ => none

def VerifyPhase.reading : VerifyPhase → Option ℤ
  | .inserting _ _ _ now => some now
  | _ => none

def Issued (V : Verifier) (s : String × ℤ) : Prop :=
  ∃ token tenantId now claims,
    verifyAjwtForTenant V.decodeToken V.ajwtAudience now token tenantId = some claims ∧
    textClaim claims "jti" = some s.1 ∧ secondsClaim claims "exp" = some s.2

def OneExpiry (V : Verifier) : Prop :=
  ∀ s t : String × ℤ, Issued V s → Issued V t → s.1 = t.1 → s.2 = t.2

variable {ι : Type}

/-- A deletion of expired identifiers at this time leaves those that a request
has verified and is still to insert. -/
def Spares (w : TokenWorld ι) (now : ℤ) : Prop :=
  ∀ r ∈ w.usedJtis.rows, r.exp < now → ∀ j, (w.phase j).awaited ≠ some (jtiStamp r)

instance [Fintype ι] (w : TokenWorld ι) (now : ℤ) : Decidable (Spares w now) :=
  inferInstanceAs (Decidable (∀ r ∈ w.usedJtis.rows, r.exp < now →
    ∀ j, (w.phase j).awaited ≠ some (jtiStamp r)))

/-- The clean-up and the deletion inside a transaction spare what is awaited. -/
def SparesVerified (w : TokenWorld ι) : TokenEvent ι → Prop
  | .advance i => ∀ now ∈ (w.phase i).reading, Spares w now
  | .sweep => ∀ now ∈ w.sweepNow, Spares w now
  | _ => True

instance [Fintype ι] (w : TokenWorld ι) (e : TokenEvent ι) : Decidable (SparesVerified w e) := by
  unfold SparesVerified
  split <;> infer_instance

variable {V : Verifier} {call : VerifyCall} {claims : Json}

variable {decode : String → Option Token}

theorem not_expired_of_verifyAjwt {audience token : String} {now : ℤ}
    (h : verifyAjwt decode audience now token = some claims) :
    (∃ t, decode token = some t ∧ t.payload = claims) ∧
      ∃ exp, secondsClaim claims "exp" = some exp ∧ now ≤ exp := by
  obtain ⟨t, ht, h⟩ := Option.bind_eq_some_iff.mp h
  obtain ⟨-, h⟩ := guard_bind_eq_some.mp h
  obtain ⟨-, h⟩ := guard_bind_eq_some.mp h
  obtain ⟨agentId, -, h⟩ := Option.bind_eq_some_iff.mp h
  obtain ⟨humanKeyImage, -, h⟩ := Option.bind_eq_some_iff.mp h
  obtain ⟨checksum, -, h⟩ := Option.bind_eq_some_iff.mp h
  obtain ⟨-, h⟩ := guard_bind_eq_some.mp h
  obtain ⟨-, h⟩ := guard_bind_eq_some.mp h
  obtain ⟨-, h⟩ := guard_bind_eq_some.mp h
  obtain ⟨tenantId, -, h⟩ := Option.bind_eq_some_iff.mp h
  obtain ⟨-, h⟩ := guard_bind_eq_some.mp h
  obtain ⟨-, h⟩ := guard_bind_eq_some.mp h
  obtain ⟨exp, hexp, h⟩ := Option.bind_eq_some_iff.mp h
  obtain ⟨hnow, h⟩ := guard_bind_eq_some.mp h
  obtain ⟨-, h⟩ := guard_bind_eq_some.mp h
  obtain ⟨-, h⟩ := guard_bind_eq_some.mp h
  obtain rfl := Option.some.inj h
  exact ⟨⟨t, ht, rfl⟩, exp, hexp, hnow⟩

theorem verifyAjwt_of_tenant {audience token tenantId : String} {now : ℤ}
    (h : verifyAjwtForTenant decode audience now token tenantId = some claims) :
    verifyAjwt decode audience now token = some claims := by
  obtain ⟨claims', hv, h⟩ := Option.bind_eq_some_iff.mp h
  obtain ⟨tenant, -, h⟩ := Option.bind_eq_some_iff.mp h
  obtain ⟨-, h⟩ := guard_bind_eq_some.mp h
  exact hv.trans h

theorem stamp_of_verified {clock : ℤ} {s : String × ℤ}
    (h : verifyAjwtForTenant V.decodeToken V.ajwtAudience clock call.ajwt call.tenantId =
      some claims) (hs : call.stamp claims = some s) : clock ≤ s.2 ∧ Issued V s := by
  unfold VerifyCall.stamp at hs
  split_ifs at hs
  obtain ⟨jti, hjti, hs⟩ := Option.bind_eq_some_iff.mp hs
  obtain ⟨exp, hexp, hs⟩ := Option.bind_eq_some_iff.mp hs
  obtain rfl := Option.some.inj hs
  have hissued : Issued V (jti, exp) :=
    ⟨call.ajwt, call.tenantId, clock, claims, h, (Option.filter_eq_some_iff.mp hjti).1, hexp⟩
  obtain ⟨-, exp', hexp', hle⟩ := not_expired_of_verifyAjwt (verifyAjwt_of_tenant h)
  rw [hexp] at hexp'
  exact ⟨Option.some.inj hexp' ▸ hle, hissued⟩

theorem awaited_afterAgent (reply : VerifyAjwtResponse) :
    (afterAgent call claims reply).awaited = call.stamp claims := by
  unfold afterAgent VerifyCall.stamp
  split_ifs
  · cases (textClaim claims "jti").filter (fun j ↦ j ≠ "") with
    | none => rfl
    | some jti =>
      cases secondsClaim claims "exp" with
      | none => rfl
      | some exp => rfl
  · rfl

theorem reading_afterAgent (reply : VerifyAjwtResponse) :
    (afterAgent call claims reply).reading = none := by
  unfold afterAgent
  split_ifs
  · split <;> rfl
  · rfl

/-! ### What a step does -/

/-- A move of one request that leaves the identifiers alone: what it waits for
afterwards it waited for before, or it has just verified. -/
structure QuietMove (V : Verifier) (w : TokenWorld ι) (i : ι) (phase : VerifyPhase) : Prop where
  awaited : ∀ s, phase.awaited = some s →
    (w.phase i).awaited = some s ∨ w.clock ≤ s.2 ∧ Issued V s
  reading : ∀ now, phase.reading = some now → now ≤ w.clock

variable {w v : TokenWorld ι} {i : ι}

variable {phase : VerifyPhase}

theorem QuietMove.of_stamp (hphase : phase.awaited = call.stamp claims)
    (hreading : phase.reading = none) (hw : (w.phase i).awaited = call.stamp claims) :
    QuietMove V w i phase where
  awaited s hs := .inl (by rw [hw, ← hphase, hs])
  reading now hn := absurd (hreading.symm.trans hn) (Option.some_ne_none now).symm

theorem QuietMove.of_none (hphase : phase.awaited = none) (hreading : phase.reading = none) :
    QuietMove V w i phase where
  awaited s hs := absurd (hphase.symm.trans hs) (Option.some_ne_none s).symm
  reading now hn := absurd (hreading.symm.trans hn) (Option.some_ne_none now).symm

theorem QuietMove.finished (reply : VerifyAjwtResponse) : QuietMove V w i (.finished reply) :=
  .of_none rfl rfl

theorem quietMove_afterVerify : QuietMove V w i (afterVerify V call w.clock) := by
  unfold afterVerify
  split
  · exact .finished _
  · exact ⟨fun s hs ↦ .inr (stamp_of_verified ‹_› hs), fun now hn ↦ by cases hn⟩

theorem quietMove_afterCount (hp : w.phase i = .verified call claims) (r : Except String Unit) :
    QuietMove V w i (afterCount V call claims r) := by
  cases r with
  | error e => exact .finished _
  | ok u => exact .of_stamp rfl rfl (by rw [hp]; rfl)

theorem quietMove_afterAgent (hp : w.phase i = .counted call claims)
    (reply : VerifyAjwtResponse) : QuietMove V w i (afterAgent call claims reply) :=
  .of_stamp (awaited_afterAgent reply) (reading_afterAgent reply) (by rw [hp]; rfl)

theorem quietMove_afterRegistration (hp : w.phase i = .counted call claims)
    (reply : VerifyAjwtResponse) (r : Except String Unit) :
    QuietMove V w i (afterRegistration call claims reply r) := by
  cases r with
  | error e => exact .finished _
  | ok u => exact quietMove_afterAgent hp reply

variable [DecidableEq ι]

inductive TokenStep (V : Verifier) (w : TokenWorld ι) : TokenEvent ι → TokenWorld ι → Prop
  | tick (seconds : ℕ) : TokenStep V w (.tick seconds) { w with clock := w.clock + seconds }
  | outside (e : TokenEvent ι) (agents : Table AgentRow.agentId)
      (challenges : Table PopChallenge.id) :
      TokenStep V w e { w with agents := agents, challenges := challenges }
  | readSweep : TokenStep V w .readSweep { w with sweepNow := some w.clock }
  | sweep (now : ℤ) : w.sweepNow = some now → TokenStep V w .sweep (w.sweep V now)
  | quiet (e : TokenEvent ι) (i : ι) (phase : VerifyPhase) (counters : Table RiskCounter.key)
      (challenges : Table PopChallenge.id) : QuietMove V w i phase →
      TokenStep V w e ({ w with counters := counters, challenges := challenges }.move i phase)
  | consume (i : ι) (reply : VerifyAjwtResponse) (jti : String) (exp now : ℤ)
      (used : Table UsedJti.jti) : w.phase i = .inserting reply jti exp now →
      (w.usedJtis.deleteWhere (fun r ↦ r.exp < now)).insert ⟨jti, exp⟩ = some used →
      TokenStep V w (.advance i)
        ({ w with usedJtis := used, consumed := w.consumed ++ [(i, UsedJti.mk jti exp)] }.move i
          (.finished reply))

variable {exp now : ℤ} {jti : String}

theorem consumeAjwtJti_eq_ok {used used' : Table UsedJti.jti}
    (h : consumeAjwtJti used jti exp now = (.ok (), used')) :
    (used.deleteWhere (fun r ↦ r.exp < now)).insert ⟨jti, exp⟩ = some used' := by
  unfold consumeAjwtJti at h
  split_ifs at h
  · cases h
  · cases h
  · split at h
    · cases h
    · rename_i hi
      rw [hi, (Prod.mk.inj h).2]

theorem step_of_advance (h : w.advance V i = some v) : TokenStep V w (.advance i) v := by
  unfold TokenWorld.advance at h
  split at h
  case h_1 | h_2 => cases h
  case h_3 call hp =>
    cases h
    exact .quiet _ i _ w.counters w.challenges quietMove_afterVerify
  case h_4 call claims hp =>
    cases h
    exact .quiet _ i _ _ w.challenges (quietMove_afterCount hp _)
  case h_5 call claims hp =>
    cases h
    unfold TokenWorld.checkAgent
    split
    · exact .quiet _ i _ w.counters w.challenges (quietMove_afterAgent hp _)
    · exact .quiet _ i _ w.counters _ (quietMove_afterRegistration hp _ _)
  case h_6 reply jti exp hp =>
    cases h
    refine .quiet _ i _ w.counters w.challenges ⟨fun s hs ↦ .inl ?_, fun now hn ↦ ?_⟩
    · rw [hp]
      exact hs
    · exact (Option.some.inj hn).ge
  case h_7 reply jti exp now hp =>
    cases h
    unfold TokenWorld.consume
    split
    · exact .quiet _ i _ w.counters w.challenges (.finished _)
    · exact .consume i reply jti exp now _ hp (consumeAjwtJti_eq_ok ‹_›)

theorem step_of_nextToken {e : TokenEvent ι} (h : nextToken V w e = some v) :
    TokenStep V w e v := by
  cases e with
  | tick seconds =>
    cases h
    exact .tick seconds
  | setAgents agents =>
    cases h
    exact .outside _ agents w.challenges
  | setChallenges challenges =>
    cases h
    exact .outside _ w.agents challenges
  | arrive i call =>
    simp only [nextToken] at h
    split at h
    · cases h
      exact .quiet _ i _ w.counters w.challenges (.of_none rfl rfl)
    · cases h
  | advance i => exact step_of_advance h
  | readSweep =>
    cases h
    exact .readSweep
  | sweep =>
    obtain ⟨now, hn, rfl⟩ := Option.map_eq_some_iff.mp h
    exact .sweep now hn

/-! ### What a run keeps -/

def TokenWorld.guard (w : TokenWorld ι) : Guard ι String where
  clock := w.clock
  held := stamps jtiStamp w.usedJtis
  waiting i := (w.phase i).awaited
  spent := w.consumed.map (fun c ↦ jtiStamp c.2)

omit [DecidableEq ι] in
theorem guard_sweepJtis (V : Verifier) (w : TokenWorld ι) (now : ℤ) :
    (w.sweep V now).guard = { w.guard with held := {s ∈ w.guard.held | now ≤ s.2} } := by
  have hexpired : ∀ r : UsedJti, decide (r.exp < now) = true ↔ (jtiStamp r).2 < now :=
    fun _ ↦ decide_eq_true_iff
  simp only [TokenWorld.guard, TokenWorld.sweep, stamps_deleteWhere hexpired]

theorem guard_move (w : TokenWorld ι) (i : ι) (phase : VerifyPhase) :
    (w.move i phase).guard =
      { w.guard with waiting := Function.update w.guard.waiting i phase.awaited } := by
  simp only [TokenWorld.guard, TokenWorld.move, Guard.mk.injEq, true_and, and_true]
  exact Function.comp_update VerifyPhase.awaited w.phase i phase

structure TokenInvariant (V : Verifier) (w : TokenWorld ι) : Prop where
  sweepNow : ∀ now, w.sweepNow = some now → now ≤ w.clock
  reading : ∀ i now, (w.phase i).reading = some now → now ≤ w.clock
  awaited : ∀ i s, (w.phase i).awaited = some s → Issued V s
  consumed : ∀ c ∈ w.consumed, Issued V (jtiStamp c.2)
  sound : Sound w.guard

omit [DecidableEq ι] in
theorem tokenInvariant_init (clock : ℤ) (agents : Table AgentRow.agentId)
    (counters : Table RiskCounter.key) (challenges : Table PopChallenge.id)
    (usedJtis : Table UsedJti.jti) :
    TokenInvariant V (.init clock agents counters challenges usedJtis : TokenWorld ι) where
  sweepNow := fun _ h ↦ by cases h
  reading := fun _ _ h ↦ by cases h
  awaited := fun _ _ h ↦ by cases h
  consumed := fun _ h ↦ by cases h
  sound := ⟨List.nodup_nil, fun _ h ↦ by cases h⟩

theorem QuietMove.refines (h : QuietMove V w i phase) :
    SingleUse.Step w.guard (w.move i phase).guard := by
  rw [guard_move]
  exact .move (fun s hs ↦ (h.awaited s hs).imp_right And.left)

variable {reply : VerifyAjwtResponse}

theorem consume_refines {used : Table UsedJti.jti} (hp : w.phase i = .inserting reply jti exp now)
    (hn : (w.usedJtis.deleteWhere (fun r ↦ r.exp < now)).insert ⟨jti, exp⟩ = some used)
    (hnow : now ≤ w.clock) (hspares : Spares w now) :
    Relation.ReflTransGen SingleUse.Step w.guard
      (TokenWorld.guard ({ w with
        usedJtis := used
        consumed := w.consumed ++ [(i, UsedJti.mk jti exp)] }.move i (.finished reply))) := by
  have hexpired : ∀ r : UsedJti, decide (r.exp < now) = true ↔ (jtiStamp r).2 < now :=
    fun _ ↦ decide_eq_true_iff
  have hsweep : SingleUse.Step w.guard
      { w.guard with held := stamps jtiStamp (w.usedJtis.deleteWhere (fun r ↦ r.exp < now)) } := by
    rw [stamps_deleteWhere hexpired]
    refine .sweep now hnow ?_
    rintro s ⟨r, hr, rfl⟩ hlt
    exact hspares r hr hlt
  refine .tail (.single hsweep) ?_
  rw [guard_move]
  simp only [TokenWorld.guard, stamps_insert hn, List.map_append]
  refine SingleUse.Step.claim i (jti, exp) ?_ ?_
  · show (w.phase i).awaited = _
    rw [hp]
    rfl
  · exact stamp_not_mem (fun _ _ he ↦ (Prod.mk.inj he).1) hn

theorem TokenInvariant.tick (hw : TokenInvariant V w) (seconds : ℕ) :
    TokenInvariant V { w with clock := w.clock + seconds } := by
  have hle : w.clock ≤ w.clock + seconds := by omega
  exact ⟨fun now h ↦ (hw.sweepNow now h).trans hle, fun i now h ↦ (hw.reading i now h).trans hle,
    hw.awaited, hw.consumed, hw.sound.step (.tick _ hle)⟩

theorem TokenInvariant.sweep (hw : TokenInvariant V w) {now : ℤ} (hnow : w.sweepNow = some now)
    (hspares : Spares w now) : TokenInvariant V (w.sweep V now) := by
  refine ⟨nofun, hw.reading, hw.awaited, hw.consumed, ?_⟩
  rw [guard_sweepJtis]
  refine hw.sound.step (.sweep now (hw.sweepNow now hnow) ?_)
  rintro s ⟨r, hr, rfl⟩ hlt
  exact hspares r hr hlt

theorem TokenInvariant.quiet (hw : TokenInvariant V w) (h : QuietMove V w i phase) :
    TokenInvariant V (w.move i phase) where
  sweepNow := hw.sweepNow
  reading := (Function.forall_update_iff w.phase
    (fun _ p ↦ ∀ now, p.reading = some now → now ≤ w.clock)).mpr
      ⟨h.reading, fun j _ ↦ hw.reading j⟩
  awaited := (Function.forall_update_iff w.phase
    (fun _ p ↦ ∀ s, p.awaited = some s → Issued V s)).mpr
      ⟨fun s hs ↦ (h.awaited s hs).elim (hw.awaited i s) And.right, fun j _ ↦ hw.awaited j⟩
  consumed := hw.consumed
  sound := hw.sound.step h.refines

theorem TokenInvariant.consume (hw : TokenInvariant V w) {used : Table UsedJti.jti}
    (hp : w.phase i = .inserting reply jti exp now)
    (hn : (w.usedJtis.deleteWhere (fun r ↦ r.exp < now)).insert ⟨jti, exp⟩ = some used)
    (hspares : Spares w now) :
    TokenInvariant V ({ w with
      usedJtis := used
      consumed := w.consumed ++ [(i, UsedJti.mk jti exp)] }.move i (.finished reply)) := by
  have hmoved := hw.quiet (i := i) (.finished reply)
  have hnow : now ≤ w.clock := hw.reading i now (by rw [hp]; rfl)
  have hissued : Issued V (jti, exp) := hw.awaited i (jti, exp) (by rw [hp]; rfl)
  refine ⟨hmoved.sweepNow, hmoved.reading, hmoved.awaited, fun c hc ↦ ?_,
    hw.sound.steps (consume_refines hp hn hnow hspares)⟩
  rcases List.mem_append.mp hc with hc | hc
  · exact hw.consumed c hc
  · rw [List.mem_singleton.mp hc]
    exact hissued

theorem TokenStep.invariant {e : TokenEvent ι} (hstep : TokenStep V w e v)
    (hw : TokenInvariant V w) (hok : SparesVerified w e) : TokenInvariant V v := by
  cases hstep with
  | tick seconds => exact hw.tick seconds
  | outside e agents challenges =>
    exact ⟨hw.sweepNow, hw.reading, hw.awaited, hw.consumed, hw.sound⟩
  | readSweep =>
    exact ⟨fun now h ↦ (Option.some.inj h).ge, hw.reading, hw.awaited, hw.consumed, hw.sound⟩
  | sweep now hnow => exact hw.sweep hnow (hok now hnow)
  | quiet e i phase counters challenges h =>
    have hbeside : TokenInvariant V { w with counters := counters, challenges := challenges } :=
      ⟨hw.sweepNow, hw.reading, hw.awaited, hw.consumed, hw.sound⟩
    exact hbeside.quiet ⟨h.awaited, h.reading⟩
  | consume i reply jti exp now used hp hn =>
    exact hw.consume hp hn (hok now (by rw [hp]; rfl))

/-- In a run in which every deletion of used identifiers spares those that a
request has verified and not yet consumed, no identifier is consumed twice. -/
theorem jti_consumed_once (hone : OneExpiry V) {clock : ℤ} {agents : Table AgentRow.agentId}
    {counters : Table RiskCounter.key} {challenges : Table PopChallenge.id}
    {usedJtis : Table UsedJti.jti} {events : List (TokenEvent ι)}
    (hrun : run (nextToken V) (.init clock agents counters challenges usedJtis) events = some w)
    (hok : Along (nextToken V) SparesVerified
      (.init clock agents counters challenges usedJtis) events) :
    (w.consumed.map (fun c ↦ c.2.jti)).Nodup := by
  have hw : TokenInvariant V w := run_invariant
    (fun _ _ _ hw hok h ↦ (step_of_nextToken h).invariant hw hok)
    (tokenInvariant_init clock agents counters challenges usedJtis) hok hrun
  refine nodup_keys (fun c hc d hd he ↦ ?_) hw.sound.nodup
  exact Prod.ext he (hone _ _ (hw.consumed c hc) (hw.consumed d hd) he)

/-! ### One token presented twice -/

def demoToken : Token where
  header := .obj [("alg", .str "EdDSA"), ("typ", .str "ajwt+jwt"), ("kid", .str "agent")]
  payload := .obj [("agent_id", .str "agent"), ("sub", .str "human"),
    ("agent_checksum", .str "sum"), ("iss", .str "did:sauron:idp"), ("aud", .str "sauron-core"),
    ("tenant_id", .str "acme"), ("exp", .integer 100), ("jti", .str "j1")]
  verifies _ _ _ := true

def demoVerifier : Verifier where
  primitives := countingPrimitives
  ajwtAudience := "sauron-core"
  decodeToken _ := some demoToken
  writeJson _ := ""
  verifyEd25519PopJws _ _ _ := .ok ()
  windowSecs := 60
  limitAgentVerify := 300

theorem oneExpiry_demoVerifier : OneExpiry demoVerifier := by
  have hexp : ∀ s, Issued demoVerifier s → s.2 = 100 := by
    rintro s ⟨token, tenantId, now, claims, hv, -, hexp⟩
    obtain ⟨⟨t, ht, rfl⟩, -⟩ := not_expired_of_verifyAjwt (verifyAjwt_of_tenant hv)
    obtain rfl := Option.some.inj ht
    exact (Option.some.inj hexp).symm
  intro s t hs ht _
  rw [hexp s hs, hexp t ht]

def demoWorld (clock : ℤ) : TokenWorld Bool := .init clock payers.agents .empty .empty .empty

def presented : VerifyCall := ⟨"acme", "token", true, "", ""⟩

def presentedTwice (seconds : ℕ) : List (TokenEvent Bool) :=
  [TokenEvent.arrive false presented, .arrive true presented, .advance false, .advance true] ++
    List.replicate 4 (TokenEvent.advance false) ++ [TokenEvent.tick seconds] ++
    List.replicate 4 (TokenEvent.advance true)

theorem jti_consumed_once_presentedTwice :
    ∃ w, run (nextToken demoVerifier) (demoWorld 90) (presentedTwice 5) = some w ∧
      w.consumed.length = 1 ∧ (w.consumed.map (fun c ↦ c.2.jti)).Nodup := by
  obtain ⟨w, hw, hlen⟩ : ∃ w, run (nextToken demoVerifier) (demoWorld 90) (presentedTwice 5) =
      some w ∧ w.consumed.length = 1 := by decide +kernel
  exact ⟨w, hw, hlen, jti_consumed_once oneExpiry_demoVerifier hw (by decide +kernel)⟩

/-- The token expires between the two requests, and the second one deletes the
trace of the first. -/
theorem jti_consumed_twice :
    ∃ w, run (nextToken demoVerifier) (demoWorld 100) (presentedTwice 1) = some w ∧
      w.consumed.map (fun c ↦ c.2.jti) = ["j1", "j1"] := by
  decide +kernel

end SauronId.Agent
