import SauronId.Dp.Ledger
import SauronId.Lib.Locked
import SauronId.Lib.Run

namespace SauronId.Dp

open Lib Lib.Encoding Lib.Run

inductive Request
  | ensureCycle (k : CycleKey) (epsilonCap deltaCap : F64)
  | rotateCycle (k : CycleKey) (newEpsCap newDeltaCap : F64)
  | canPublish (k : CycleKey) (requestedEps requestedDelta : F64)
  | recordPublication (k : CycleKey) (eps delta noiseScale : F64) (now : ℤ) (random : List UInt8)

inductive Call
  | ensureCycle (k : CycleKey) (caps : ℚ × ℚ)
  | rotateCycle (k : CycleKey) (caps : ℚ × ℚ)
  | canPublish (k : CycleKey) (eps delta : ℚ≥0)
  | recordPublication (p : Publication)

def Request.check (T : FloatText) : Request → Except LedgerError Call
  | ensureCycle k epsilonCap deltaCap => do
    let caps ← validateInputs T k epsilonCap deltaCap
    return .ensureCycle k caps
  | rotateCycle k newEpsCap newDeltaCap => do
    let caps ← validateInputs T k newEpsCap newDeltaCap
    return .rotateCycle k caps
  | canPublish k requestedEps requestedDelta => do
    let eps ← checkAmount T "requested_eps" requestedEps
    let delta ← checkAmount T "requested_delta" requestedDelta
    return .canPublish k eps delta
  | recordPublication k eps delta noiseScale now random => do
    let eps ← checkAmount T "eps" eps
    let delta ← checkAmount T "delta" delta
    let noiseScale ← checkAmount T "noise_scale" noiseScale
    return .recordPublication ⟨"pub_" ++ hexEncode random, k, eps, delta, noiseScale, now⟩

inductive Response
  | done
  | decision (d : BudgetDecision)
  | published (publicationId : String)
  deriving DecidableEq

inductive Phase
  | idle
  | rejected (e : LedgerError)
  | pooling (call : Call)
  | connected (call : Call)
  | within (p : Publication) (stage : Stage)
  | returned (call : Call) (result : Except LedgerError Response)

/-- Callers on connections of their own. What they share is the committed
database, and the lock is the write lock of the engine. -/
abbrev World (ι : Type) := Locked ι Phase LedgerDb

/-- A call begins, or its next statement is executed, with the error the
engine or the pool answers it with, if any. -/
inductive Event (ι : Type)
  | call (i : ι) (request : Request)
  | step (i : ι) (fault : Option String)

variable {ι : Type} [DecidableEq ι]

def World.fail (w : World ι) (i : ι) (call : Call) (message : String) : World ι :=
  w.move i (.returned call (.error (.storage message)))

def startCall (T : FloatText) (w : World ι) (i : ι) (call : Call) (fault : Option String) :
    Option (World ι) :=
  match fault, call with
  | some e, .recordPublication _ => some (w.fail i call ("begin immediate: " ++ e))
  | some e, _ => some (w.fail i call e)
  | none, .ensureCycle k caps =>
    w.once i (.returned call (.ok .done)) (ensureCycle w.shared k caps)
  | none, .rotateCycle k caps =>
    w.once i (.returned call (.ok .done)) (rotateCycle w.shared k caps)
  | none, .canPublish k eps delta =>
    some (w.move i (.returned call (.ok (.decision (canPublish T w.shared k eps delta)))))
  | none, .recordPublication p => w.enter i (.within p .selecting)

def continueTxn (T : FloatText) (w : World ι) (i : ι) (p : Publication) (stage : Stage)
    (fault : Option String) : World ι :=
  match advance T w.shared p fault stage with
  | .error e => w.leave i (.returned (.recordPublication p) (.error e)) w.shared
  | .ok (.inl next) => w.move i (.within p next)
  | .ok (.inr db) =>
    w.leave i (.returned (.recordPublication p) (.ok (.published p.publicationId))) db

def next (T : FloatText) (w : World ι) : Event ι → Option (World ι)
  | .call i request =>
    match w.phase i with
    | .idle | .rejected _ | .returned _ _ =>
      match request.check T with
      | .error e => some (w.move i (.rejected e))
      | .ok call => some (w.move i (.pooling call))
    | _ => none
  | .step i fault =>
    match w.phase i with
    | .pooling call => some (fault.elim (w.move i (.connected call)) (w.fail i call))
    | .connected call => startCall T w i call fault
    | .within p stage => some (continueTxn T w i p stage fault)
    | _ => none

def World.init (db : LedgerDb) : World ι := Locked.init db .idle

def Phase.Inside : Phase → Prop
  | .within _ _ => True
  | _ => False

def Phase.Knows : Phase → LedgerDb → Prop
  | .within p stage, db => stage.Knows p db
  | _, _ => True

def Phase.call : Phase → Option Call
  | .pooling call | .connected call | .returned call _ => some call
  | .within p _ => some (.recordPublication p)
  | .idle | .rejected _ => none

structure Invariant (w : World ι) : Prop where
  guarded : w.Guarded Phase.Inside Phase.Knows
  balanced : Balanced w.shared

structure Sound (w : World ι) (e : Event ι) (w' : World ι) : Prop where
  grows : Grows w.shared w'.shared
  within : ∀ i fault p r, e = .step i fault →
    w'.phase i = .returned (.recordPublication p) (.ok r) → Within w'.shared p
  /-- Also a call that is refused before it reaches the database. -/
  unchanged : ∀ i request, e = .call i request → w'.shared = w.shared
  rolledBack : ∀ i fault p, e = .step i fault → (w.phase i).call = some (.recordPublication p) →
    w'.shared = w.shared ∨ ∃ r, w'.phase i = .returned (.recordPublication p) (.ok r)

variable {T : FloatText} {w w' : World ι} {i : ι} {fault : Option String} {call : Call}
  {p : Publication} {stage : Stage}

/-- What a statement may do to the committed database. -/
inductive Effect (w : World ι) (i : ι) (w' : World ι) : Prop
  | quiet (hshared : w'.shared = w.shared)
      (hphase : ∀ p r, w'.phase i ≠ .returned (.recordPublication p) (.ok r))
  | ensured (k : CycleKey) (caps : ℚ × ℚ) (hcall : (w.phase i).call = some (.ensureCycle k caps))
      (hshared : w'.shared = ensureCycle w.shared k caps)
  | rotated (k : CycleKey) (caps : ℚ × ℚ) (hcall : (w.phase i).call = some (.rotateCycle k caps))
      (hshared : w'.shared = rotateCycle w.shared k caps)
  | published (p : Publication) (r : Response)
      (hcall : (w.phase i).call = some (.recordPublication p))
      (hphase : w'.phase i = .returned (.recordPublication p) (.ok r))
      (hpub : Publishes w.shared p w'.shared)

structure Stepped (w : World ι) (i : ι) (w' : World ι) : Prop where
  invariant : Invariant w'
  call : (w'.phase i).call = (w.phase i).call
  others : ∀ j, j ≠ i → w'.phase j = w.phase j
  effect : Effect w i w'

omit [DecidableEq ι] in
theorem Stepped.sound (h : Stepped w i w') : Sound w (.step i fault) w' := by
  -- A phase that reports a publication belongs to a call that publishes.
  have hrecord : ∀ {p r}, w'.phase i = .returned (.recordPublication p) (.ok r) →
      (w.phase i).call = some (.recordPublication p) := by
    intro p r hr
    rw [← h.call, hr]
    rfl
  have hunchanged : ∀ j request, Event.step i fault = .call j request → w'.shared = w.shared := by
    intro j request he
    cases he
  refine ⟨?_, ?_, hunchanged, ?_⟩
  · cases h.effect with
    | quiet hshared hphase => exact hshared ▸ grows_refl w.shared
    | ensured k caps hcall hshared => exact hshared ▸ grows_ensureCycle
    | rotated k caps hcall hshared => exact hshared ▸ grows_rotateCycle
    | published p r hcall hphase hpub => exact hpub.grows
  · intro j f p r he hr
    cases he
    cases h.effect with
    | quiet hshared hphase => exact absurd hr (hphase p r)
    | ensured k caps hcall hshared => simp [hrecord hr] at hcall
    | rotated k caps hcall hshared => simp [hrecord hr] at hcall
    | published q s hcall hphase hpub =>
      rw [hphase] at hr
      cases hr
      exact hpub.within
  · intro j f p he hp
    cases he
    cases h.effect with
    | quiet hshared hphase => exact .inl hshared
    | ensured k caps hcall hshared => simp [hp] at hcall
    | rotated k caps hcall hshared => simp [hp] at hcall
    | published q r hcall hphase hpub =>
      rw [hp] at hcall
      cases hcall
      exact .inr ⟨r, hphase⟩

omit [DecidableEq ι] in
theorem not_inside {q : Phase} (hphase : w.phase i = q) (hq : ¬ q.Inside) :
    ¬ (w.phase i).Inside := by
  rwa [hphase]

theorem stepped_move {q : Phase} (hw : Invariant w) (hi : ¬ (w.phase i).Inside) (hq : ¬ q.Inside)
    (hcall : q.call = (w.phase i).call)
    (hphase : ∀ p r, q ≠ .returned (.recordPublication p) (.ok r)) :
    Stepped w i (w.move i q) where
  invariant := ⟨hw.guarded.move hi hq, hw.balanced⟩
  call := by rw [Locked.phase_move, hcall]
  others j hj := by simp [Locked.move, hj]
  effect := .quiet rfl (by simpa using hphase)

theorem stepped_fail (hw : Invariant w) (hi : ¬ (w.phase i).Inside)
    (hcall : (w.phase i).call = some call) (message : String) :
    Stepped w i (w.fail i call message) :=
  stepped_move hw hi id hcall.symm (by simp)

theorem stepped_startCall (hw : Invariant w) (hphase : w.phase i = .connected call)
    (h : startCall T w i call fault = some w') : Stepped w i w' := by
  have hi : ¬ (w.phase i).Inside := not_inside hphase id
  have hcall : (w.phase i).call = some call := by
    rw [hphase]
    rfl
  cases fault with
  | some e =>
    cases call with
    | ensureCycle | rotateCycle | canPublish | recordPublication =>
      obtain rfl := Option.some.inj h
      exact stepped_fail hw hi hcall _
  | none =>
    cases call with
    | ensureCycle k caps =>
      obtain ⟨-, rfl⟩ := Locked.once_eq_some.mp h
      refine ⟨⟨hw.guarded.once h id, balanced_ensureCycle hw.balanced⟩, ?_, ?_,
        .ensured k caps hcall rfl⟩
      · rw [hcall]
        simp [Phase.call]
      · intro j hj
        simp [Locked.leave, hj]
    | rotateCycle k caps =>
      obtain ⟨-, rfl⟩ := Locked.once_eq_some.mp h
      refine ⟨⟨hw.guarded.once h id, balanced_rotateCycle hw.balanced⟩, ?_, ?_,
        .rotated k caps hcall rfl⟩
      · rw [hcall]
        simp [Phase.call]
      · intro j hj
        simp [Locked.leave, hj]
    | canPublish k eps delta =>
      obtain rfl := Option.some.inj h
      exact stepped_move hw hi id hcall.symm (by simp)
    | recordPublication p =>
      have hg := hw.guarded.enter h trivial trivial
      obtain ⟨-, rfl⟩ := Locked.enter_eq_some.mp h
      refine ⟨⟨hg, hw.balanced⟩, ?_, ?_, .quiet rfl (by simp)⟩
      · rw [hcall]
        simp [Phase.call]
      · intro j hj
        simp [hj]

theorem stepped_continueTxn (hw : Invariant w) (hphase : w.phase i = .within p stage) :
    Stepped w i (continueTxn T w i p stage fault) := by
  have hi : (w.phase i).Inside := by
    rw [hphase]
    trivial
  have hknows : stage.Knows p w.shared := by
    have hk := hw.guarded.knows i ((hw.guarded.inside_iff i).mp hi)
    rwa [hphase] at hk
  have hcall : (w.phase i).call = some (.recordPublication p) := by
    rw [hphase]
    rfl
  unfold continueTxn
  split
  · refine ⟨⟨hw.guarded.leave hi id, hw.balanced⟩, ?_, ?_, .quiet rfl (by simp)⟩
    · rw [hcall]
      simp [Phase.call]
    · intro j hj
      simp [Locked.leave, hj]
  · rename_i next hnext
    refine ⟨⟨hw.guarded.work hi trivial (hknows.advance hnext), hw.balanced⟩, ?_, ?_,
      .quiet rfl (by simp)⟩
    · rw [hcall]
      simp [Phase.call]
    · intro j hj
      simp [Locked.move, hj]
  · rename_i db hdb
    have hpub := hknows.commits hdb
    refine ⟨⟨hw.guarded.leave hi id, hpub.balanced hw.balanced⟩, ?_, ?_,
      .published p _ hcall (Locked.phase_leave _ _ _ _) hpub⟩
    · rw [hcall]
      simp [Phase.call]
    · intro j hj
      simp [Locked.leave, hj]

theorem stepped_step (hw : Invariant w) (h : next T w (.step i fault) = some w') :
    Stepped w i w' := by
  simp only [next] at h
  split at h
  · rename_i call hphase
    have hi : ¬ (w.phase i).Inside := not_inside hphase id
    have hcall : (w.phase i).call = some call := by
      rw [hphase]
      rfl
    obtain rfl := Option.some.inj h
    cases fault with
    | some e => exact stepped_fail hw hi hcall e
    | none => exact stepped_move hw hi id hcall.symm (by simp)
  · exact stepped_startCall hw (by assumption) h
  · obtain rfl := Option.some.inj h
    exact stepped_continueTxn hw (by assumption)
  · cases h

variable {request : Request}

theorem call_eq_some (h : next T w (.call i request) = some w') :
    ¬ (w.phase i).Inside ∧ ((∃ e, request.check T = .error e ∧ w' = w.move i (.rejected e)) ∨
      ∃ call, request.check T = .ok call ∧ w' = w.move i (.pooling call)) := by
  have hstart : (match request.check T with
      | .error e => some (w.move i (.rejected e))
      | .ok call => some (w.move i (.pooling call))) = some w' →
      (∃ e, request.check T = .error e ∧ w' = w.move i (.rejected e)) ∨
        ∃ call, request.check T = .ok call ∧ w' = w.move i (.pooling call) := by
    intro hc
    split at hc
    · exact .inl ⟨_, by assumption, (Option.some.inj hc).symm⟩
    · exact .inr ⟨_, by assumption, (Option.some.inj hc).symm⟩
  simp only [next] at h
  split at h
  · exact ⟨not_inside (by assumption) id, hstart h⟩
  · exact ⟨not_inside (by assumption) id, hstart h⟩
  · exact ⟨not_inside (by assumption) id, hstart h⟩
  · cases h

theorem invariant_call (hw : Invariant w) (h : next T w (.call i request) = some w') :
    Invariant w' := by
  obtain ⟨hi, ⟨e, -, rfl⟩ | ⟨call, -, rfl⟩⟩ := call_eq_some h
  · exact ⟨hw.guarded.move hi id, hw.balanced⟩
  · exact ⟨hw.guarded.move hi id, hw.balanced⟩

theorem shared_call (h : next T w (.call i request) = some w') :
    w'.shared = w.shared := by
  obtain ⟨-, ⟨e, -, rfl⟩ | ⟨call, -, rfl⟩⟩ := call_eq_some h
  · rfl
  · rfl

theorem phase_call (h : next T w (.call i request) = some w') {j : ι} (hj : j ≠ i) :
    w'.phase j = w.phase j := by
  obtain ⟨-, ⟨e, -, rfl⟩ | ⟨call, -, rfl⟩⟩ := call_eq_some h
  · simp [Locked.move, hj]
  · simp [Locked.move, hj]

theorem next_spec {e : Event ι} (hw : Invariant w) (h : next T w e = some w') :
    Invariant w' ∧ Sound w e w' := by
  cases e with
  | call i request =>
    have hshared := shared_call h
    refine ⟨invariant_call hw h, hshared ▸ grows_refl _, ?_, fun _ _ _ ↦ hshared, ?_⟩
    · intro j f p r he
      cases he
    · intro j f p he
      cases he
  | step i fault =>
    have hstep := stepped_step hw h
    exact ⟨hstep.invariant, hstep.sound⟩

/-- However calls interleave and wherever they fail, the ledger agrees with the
trail of publications, and every further step grows the spend, keeps what it
publishes within the caps, and undoes what it does not publish. -/
theorem ledger_conserved {db : LedgerDb} {es : List (Event ι)} (hdb : Balanced db)
    (h : run (next T) (World.init db) es = some w) :
    Balanced w.shared ∧ ∀ e w', next T w e = some w' → Sound w e w' := by
  have hinit : Invariant (World.init db : World ι) := ⟨Locked.guarded_init id, hdb⟩
  have hany : Along (next T) (fun _ _ ↦ True) (World.init db) es := along_true _ _
  have hw : Invariant w := run_invariant (fun v e v' hv _ hn ↦ (next_spec hv hn).1) hinit hany h
  exact ⟨hw.balanced, fun e w' hn ↦ (next_spec hw hn).2⟩

section Demo

def demoText : FloatText := ⟨fun _ ↦ "", fun _ ↦ ""⟩

def demoCycle : CycleKey := ⟨"coh_a", "success_rate", 0⟩

def demoPublication (id : UInt8) : Request :=
  .recordPublication demoCycle (.finite 3) (.finite (1 / 10)) (.finite 2) 50 [id]

def steps (thread : Bool) (n : ℕ) : List (Event Bool) := List.replicate n (.step thread none)

def racingPublications : List (Event Bool) :=
  [Event.call false (.ensureCycle demoCycle (.finite 4) (.finite (1 / 2)))] ++ steps false 2 ++
    [Event.call false (demoPublication 1), Event.call true (demoPublication 2)] ++
    steps false 3 ++ steps true 1 ++ steps false 3 ++ steps true 3 ++
    [Event.call true (.rotateCycle demoCycle (.finite 8) (.finite (1 / 2)))] ++ steps true 2 ++
    [Event.call true (demoPublication 2)] ++ steps true 6

theorem ledger_conserved_racing :
    ∃ w : World Bool, run (next demoText) (World.init LedgerDb.empty) racingPublications = some w ∧
      w.shared.ledger.rows.map LedgerEntry.epsilonSpent = [6] ∧ Balanced w.shared := by
  have hrun : (run (next demoText) (World.init LedgerDb.empty) racingPublications).map
      (fun w : World Bool ↦ w.shared.ledger.rows.map LedgerEntry.epsilonSpent) = some [6] := by
    decide +kernel
  obtain ⟨w, hw, hspent⟩ := Option.map_eq_some_iff.mp hrun
  exact ⟨w, hw, hspent, (ledger_conserved balanced_empty hw).1⟩

end Demo

end SauronId.Dp
