import Mathlib.Data.List.Chain
import Mathlib.Tactic.Common

namespace SauronId.Sdk.Workflow

structure WorkflowStep where
  (id name : String)
  allowedNext : List String
  maxDurationMs : Option ℤ
  terminal : Bool

structure WorkflowDefinition where
  (id name entryPoint : String)
  steps : List (String × WorkflowStep)

namespace WorkflowDefinition

def get (D : WorkflowDefinition) (stepId : String) : Option WorkflowStep := D.steps.lookup stepId

def has (D : WorkflowDefinition) (stepId : String) : Bool := (D.get stepId).isSome

end WorkflowDefinition

/-! ### The tracker -/

inductive StepResult
  | success
  | failure
  | skipped
  deriving DecidableEq

structure StepExecution (μ : Type) where
  stepId : String
  startedAt : ℤ
  completedAt : Option ℤ
  result : Option StepResult
  metadata : Option μ

inductive ViolationType
  | unauthorizedStep
  | sequenceViolation
  | timeout
  | unknownStep
  deriving DecidableEq

structure WorkflowViolation where
  type : ViolationType
  (message attemptedStep currentStep timestamp : String)

/-- The details of the four kinds of events. -/
inductive Telemetry (μ : Type)
  | stepStarted (metadata : Option μ)
  | stepCompleted (duration : ℤ)
  | violation (v : WorkflowViolation)
  | workflowCompleted (totalDuration : ℤ) (totalSteps violations : ℕ)

structure TelemetryEvent (μ : Type) where
  details : Telemetry μ
  (workflowId stepId timestamp : String)

structure WorkflowTracker (μ : Type) where
  currentStepId : String
  executionLog : List (StepExecution μ)
  violations : List WorkflowViolation
  telemetryBuffer : List (TelemetryEvent μ)
  (startedAt stepStartedAt : ℤ)

structure Call (μ : Type) where
  now : ℤ
  stepId : String
  metadata : Option μ

section Tracker

variable {μ : Type} (D : WorkflowDefinition) (toISOString : ℤ → String)

def emitTelemetry (now : ℤ) (stepId : String) (details : Telemetry μ) (t : WorkflowTracker μ) :
    WorkflowTracker μ :=
  { t with telemetryBuffer := t.telemetryBuffer ++ [⟨details, D.id, stepId, toISOString now⟩] }

def addViolation (now : ℤ) (type : ViolationType) (attemptedStep message : String)
    (t : WorkflowTracker μ) : WorkflowTracker μ :=
  let violation := ⟨type, message, attemptedStep, t.currentStepId, toISOString now⟩
  emitTelemetry D toISOString now attemptedStep (.violation violation)
    { t with violations := t.violations ++ [violation] }

def new (now : ℤ) : WorkflowTracker μ :=
  emitTelemetry D toISOString now D.entryPoint (.stepStarted none)
    ⟨D.entryPoint, [], [], [], now, now⟩

def isAllowed (t : WorkflowTracker μ) (nextStepId : String) : Bool :=
  match D.get t.currentStepId with
  | none => false
  | some currentStep =>
    if currentStep.terminal then false else currentStep.allowedNext.contains nextStepId

def checkTimeout (call : Call μ) (t : WorkflowTracker μ) : WorkflowTracker μ :=
  match (D.get t.currentStepId).bind (fun s ↦ s.maxDurationMs) with
  | none => t
  | some maxDurationMs =>
    let elapsed := call.now - t.stepStartedAt
    if maxDurationMs ≠ 0 ∧ maxDurationMs < elapsed then
      addViolation D toISOString call.now .timeout call.stepId
        ("Step '" ++ t.currentStepId ++ "' exceeded max duration: " ++ toString elapsed ++
          "ms > " ++ toString maxDurationMs ++ "ms") t
    else t

def completePrevious (call : Call μ) (t : WorkflowTracker μ) : WorkflowTracker μ :=
  match t.executionLog.getLast? with
  | none => t
  | some prevExec =>
    emitTelemetry D toISOString call.now t.currentStepId
      (.stepCompleted (call.now - t.stepStartedAt))
      { t with
        executionLog := t.executionLog.dropLast ++
          [{ prevExec with completedAt := some call.now, result := some .success }] }

def startStep (call : Call μ) (t : WorkflowTracker μ) : WorkflowTracker μ :=
  emitTelemetry D toISOString call.now call.stepId (.stepStarted call.metadata)
    { t with
      currentStepId := call.stepId
      stepStartedAt := call.now
      executionLog := t.executionLog ++ [⟨call.stepId, call.now, none, none, call.metadata⟩] }

def announceCompletion (call : Call μ) (t : WorkflowTracker μ) : WorkflowTracker μ :=
  if (D.get call.stepId).any (fun s ↦ s.terminal) then
    emitTelemetry D toISOString call.now call.stepId (.workflowCompleted (call.now - t.startedAt)
      t.executionLog.length t.violations.length) t
  else t

def recordStep (call : Call μ) (t : WorkflowTracker μ) : Bool × WorkflowTracker μ :=
  if ¬ D.has call.stepId then
    (false, addViolation D toISOString call.now .unknownStep call.stepId
      ("Step '" ++ call.stepId ++ "' not in workflow definition") t)
  else if (D.get t.currentStepId).any (fun s ↦ !s.allowedNext.contains call.stepId) then
    (false, addViolation D toISOString call.now .sequenceViolation call.stepId
      ("Transition " ++ t.currentStepId ++ " → " ++ call.stepId ++ " not allowed. Allowed: [" ++
        ", ".intercalate (((D.get t.currentStepId).map (fun s ↦ s.allowedNext)).getD []) ++ "]") t)
  else
    (true, announceCompletion D toISOString call (startStep D toISOString call
      (completePrevious D toISOString call (checkTimeout D toISOString call t))))

def after (startedAt : ℤ) (calls : List (Call μ)) : WorkflowTracker μ :=
  calls.foldl (fun t call ↦ (recordStep D toISOString call t).2) (new D toISOString startedAt)

def accepted : WorkflowTracker μ → List (Call μ) → List String
  | _, [] => []
  | t, call :: calls =>
    let (ok, t') := recordStep D toISOString call t
    if ok then call.stepId :: accepted t' calls else accepted t' calls

end Tracker

/-! ### What a call does -/

variable {μ : Type} {D : WorkflowDefinition} {toISOString : ℤ → String} {t : WorkflowTracker μ}
  {call : Call μ}

def WorkflowDefinition.Edge (D : WorkflowDefinition) (a b : String) : Prop :=
  ∃ step, D.get a = some step ∧ b ∈ step.allowedNext

theorem recordStep_fst :
    (recordStep D toISOString call t).1 = true ↔
      D.has call.stepId = true ∧
        (D.has t.currentStepId = true → D.Edge t.currentStepId call.stepId) := by
  unfold recordStep WorkflowDefinition.Edge WorkflowDefinition.has
  cases hcur : D.get t.currentStepId with
  | none => cases hnext : D.get call.stepId <;> simp
  | some step =>
    cases hnext : D.get call.stepId with
    | none => simp
    | some next => by_cases hmem : call.stepId ∈ step.allowedNext <;> simp [hmem]

theorem announceCompletion_currentStepId :
    (announceCompletion D toISOString call t).currentStepId = t.currentStepId := by
  unfold announceCompletion
  split_ifs <;> rfl

theorem recordStep_currentStepId :
    (recordStep D toISOString call t).2.currentStepId =
      if (recordStep D toISOString call t).1 then call.stepId else t.currentStepId := by
  unfold recordStep
  by_cases hhas : ¬ D.has call.stepId = true
  · rw [if_pos hhas]
    rfl
  · rw [if_neg hhas]
    by_cases hedge : (D.get t.currentStepId).any
        (fun s ↦ !s.allowedNext.contains call.stepId) = true
    · rw [if_pos hedge]
      rfl
    · rw [if_neg hedge]
      exact announceCompletion_currentStepId

theorem isAllowed_iff {nextStepId : String} :
    isAllowed D t nextStepId = true ↔ ∃ step, D.get t.currentStepId = some step ∧
      step.terminal = false ∧ nextStepId ∈ step.allowedNext := by
  unfold isAllowed
  cases D.get t.currentStepId with
  | none => simp
  | some step => cases hterminal : step.terminal <;> simp [hterminal]

/-! ### Runs -/

structure Tracks (μ : Type) (D : WorkflowDefinition) (toISOString : ℤ → String) (startedAt : ℤ) :
    Prop where
  path : ∀ calls : List (Call μ),
    List.IsChain D.Edge (D.entryPoint :: accepted D toISOString (new D toISOString startedAt) calls)
  terminal : ∀ (calls : List (Call μ)) call,
    (D.get (after D toISOString startedAt calls).currentStepId).any (fun s ↦ s.terminal) = true →
      (recordStep D toISOString call (after D toISOString startedAt calls)).1 = false
  unchanged : ∀ (calls : List (Call μ)) call,
    (recordStep D toISOString call (after D toISOString startedAt calls)).1 = false →
      (recordStep D toISOString call (after D toISOString startedAt calls)).2.currentStepId =
        (after D toISOString startedAt calls).currentStepId
  agree : ∀ (calls : List (Call μ)) call,
    isAllowed D (after D toISOString startedAt calls) call.stepId =
      (recordStep D toISOString call (after D toISOString startedAt calls)).1

inductive Reachable (D : WorkflowDefinition) : String → Prop
  | entry : Reachable D D.entryPoint
  | next {a b : String} : Reachable D a → D.Edge a b → D.has b = true → Reachable D b

/-- The entry point is defined unless nothing is, and from a step that can be reached the edges lead
to defined steps, or, if it is terminal, to undefined ones. -/
structure WellFormed (D : WorkflowDefinition) : Prop where
  entry : D.has D.entryPoint = true ∨ ∀ s, D.has s = false
  edges : ∀ a step, Reachable D a → D.get a = some step → ∀ b ∈ step.allowedNext,
    (D.has b = true ↔ step.terminal = false)

variable {startedAt : ℤ}

theorem after_concat (calls : List (Call μ)) (call : Call μ) :
    after D toISOString startedAt (calls ++ [call]) =
      (recordStep D toISOString call (after D toISOString startedAt calls)).2 := by
  rw [after, List.foldl_append]
  rfl

theorem has_recordStep (h : D.has t.currentStepId = true) :
    D.has (recordStep D toISOString call t).2.currentStepId = true := by
  rw [recordStep_currentStepId]
  split_ifs with hok
  · exact (recordStep_fst.mp hok).1
  · exact h

theorem reachable_after (toISOString : ℤ → String) (startedAt : ℤ)
    (hentry : D.has D.entryPoint = true) (calls : List (Call μ)) :
    Reachable D (after D toISOString startedAt calls).currentStepId ∧
      D.has (after D toISOString startedAt calls).currentStepId = true := by
  induction calls using List.reverseRecOn with
  | nil => exact ⟨.entry, hentry⟩
  | append_singleton calls call ih =>
    obtain ⟨hreach, hhas⟩ := ih
    rw [after_concat]
    refine ⟨?_, has_recordStep hhas⟩
    rw [recordStep_currentStepId]
    split_ifs with hok
    · obtain ⟨hnext, hedge⟩ := recordStep_fst.mp hok
      exact .next hreach (hedge hhas) hnext
    · exact hreach

theorem exists_after (μ : Type) (toISOString : ℤ → String) (startedAt : ℤ) {a : String}
    (h : Reachable D a) :
    ∃ calls : List (Call μ), (after D toISOString startedAt calls).currentStepId = a := by
  induction h with
  | entry => exact ⟨[], rfl⟩
  | @next a b _ hedge hb ih =>
    obtain ⟨calls, rfl⟩ := ih
    have hok : (recordStep D toISOString ⟨0, b, none⟩
        (after D toISOString startedAt calls)).1 = true :=
      recordStep_fst.mpr ⟨hb, fun _ ↦ hedge⟩
    refine ⟨calls ++ [⟨0, b, none⟩], ?_⟩
    rw [after_concat, recordStep_currentStepId, if_pos hok]

theorem accepted_cons {calls : List (Call μ)} :
    accepted D toISOString t (call :: calls) =
      if (recordStep D toISOString call t).1 then
        call.stepId :: accepted D toISOString (recordStep D toISOString call t).2 calls
      else accepted D toISOString (recordStep D toISOString call t).2 calls := rfl

theorem isChain_accepted (h : D.has t.currentStepId = true) (calls : List (Call μ)) :
    List.IsChain D.Edge (t.currentStepId :: accepted D toISOString t calls) := by
  induction calls generalizing t with
  | nil => exact List.isChain_singleton _
  | cons call calls ih =>
    have hrest := ih (t := (recordStep D toISOString call t).2) (has_recordStep h)
    rw [recordStep_currentStepId] at hrest
    rw [accepted_cons]
    split_ifs at hrest ⊢ with hok
    · exact hrest.cons_cons ((recordStep_fst.mp hok).2 h)
    · exact hrest

theorem accepted_of_forall_not_has (h : ∀ s, D.has s = false) (calls : List (Call μ)) :
    accepted D toISOString t calls = [] := by
  induction calls generalizing t with
  | nil => rfl
  | cons call calls ih =>
    have hok : ¬ (recordStep D toISOString call t).1 = true := by
      rw [recordStep_fst, h]
      exact fun hcontra ↦ Bool.false_ne_true hcontra.1
    rw [accepted_cons, if_neg hok, ih]

theorem isAllowed_eq_recordStep_iff {step : WorkflowStep} (h : D.get t.currentStepId = some step)
    (call : Call μ) :
    isAllowed D t call.stepId = (recordStep D toISOString call t).1 ↔
      (call.stepId ∈ step.allowedNext → (D.has call.stepId = true ↔ step.terminal = false)) := by
  have hhas : D.has t.currentStepId = true := by rw [WorkflowDefinition.has, h]; rfl
  have hedge : D.Edge t.currentStepId call.stepId ↔ call.stepId ∈ step.allowedNext := by
    simp [WorkflowDefinition.Edge, h]
  have hallowed : isAllowed D t call.stepId = true ↔
      step.terminal = false ∧ call.stepId ∈ step.allowedNext := by
    simp [isAllowed_iff, h]
  rw [Bool.eq_iff_iff, hallowed, recordStep_fst, hedge]
  tauto

theorem isAllowed_of_get_none (h : D.get t.currentStepId = none) (s : String) :
    isAllowed D t s = false := by
  rw [isAllowed, h]

theorem WellFormed.agree (h : WellFormed D) (calls : List (Call μ)) (call : Call μ) :
    isAllowed D (after D toISOString startedAt calls) call.stepId =
      (recordStep D toISOString call (after D toISOString startedAt calls)).1 := by
  rcases h.entry with hentry | hnone
  · obtain ⟨hreach, hhas⟩ := reachable_after toISOString startedAt hentry calls
    obtain ⟨step, hstep⟩ := Option.isSome_iff_exists.mp hhas
    exact (isAllowed_eq_recordStep_iff hstep call).mpr (h.edges _ _ hreach hstep _)
  · have hget := Option.not_isSome_iff_eq_none.mp
      (Bool.eq_false_iff.mp (hnone (after D toISOString startedAt calls).currentStepId))
    rw [isAllowed_of_get_none hget, eq_comm, Bool.eq_false_iff, ne_eq, recordStep_fst, hnone]
    exact fun hcontra ↦ Bool.false_ne_true hcontra.1

theorem recordStep_unchanged (h : (recordStep D toISOString call t).1 = false) :
    (recordStep D toISOString call t).2.currentStepId = t.currentStepId := by
  rw [recordStep_currentStepId, h, if_neg Bool.false_ne_true]

theorem WellFormed.tracks (h : WellFormed D) : Tracks μ D toISOString startedAt where
  path calls := by
    rcases h.entry with hentry | hnone
    · exact isChain_accepted (t := new D toISOString startedAt) hentry calls
    · rw [accepted_of_forall_not_has hnone]
      exact List.isChain_singleton _
  terminal calls call hterminal := by
    rw [← h.agree calls call, Bool.eq_false_iff, ne_eq, isAllowed_iff]
    rintro ⟨step, hstep, hlive, -⟩
    rw [hstep] at hterminal
    exact absurd (hlive.symm.trans hterminal) Bool.false_ne_true
  unchanged calls call := recordStep_unchanged
  agree := h.agree

theorem Tracks.wellFormed (h : Tracks μ D toISOString startedAt) : WellFormed D where
  entry := by
    by_contra! hnone
    obtain ⟨hentry, s, hs⟩ := hnone
    have hget := Option.not_isSome_iff_eq_none.mp hentry
    have hagree := h.agree [] ⟨0, s, none⟩
    rw [isAllowed_of_get_none (t := after D toISOString startedAt []) hget, eq_comm,
      Bool.eq_false_iff, ne_eq, recordStep_fst] at hagree
    exact hagree ⟨Bool.not_eq_false _ ▸ hs, fun hcontra ↦ absurd hcontra hentry⟩
  edges a step hreach hstep b hb := by
    obtain ⟨calls, rfl⟩ := exists_after μ toISOString startedAt hreach
    exact (isAllowed_eq_recordStep_iff hstep ⟨0, b, none⟩).mp (h.agree calls _) hb

/-- A rejected step never moves the tracker. Everything else it promises holds over every sequence
of calls exactly when the workflow is well formed. -/
theorem workflow_tracking_iff (μ : Type) (D : WorkflowDefinition) (toISOString : ℤ → String)
    (startedAt : ℤ) :
    (∀ (calls : List (Call μ)) call,
      (recordStep D toISOString call (after D toISOString startedAt calls)).1 = false →
        (recordStep D toISOString call (after D toISOString startedAt calls)).2.currentStepId =
          (after D toISOString startedAt calls).currentStepId) ∧
    (Tracks μ D toISOString startedAt ↔ WellFormed D) :=
  ⟨fun _ _ ↦ recordStep_unchanged, Tracks.wellFormed, WellFormed.tracks⟩

def retryWorkflow : WorkflowDefinition where
  id := "w"
  name := "retry"
  entryPoint := "a"
  steps := [("a", ⟨"a", "A", ["b"], none, false⟩), ("b", ⟨"b", "B", ["a"], none, true⟩)]

/-- The terminal step is left again, although the step was not allowed. -/
theorem retryWorkflow_leaves_terminal :
    let t := after retryWorkflow (fun _ ↦ "") 0 [(⟨1, "b", none⟩ : Call Unit)]
    t.currentStepId = "b" ∧ (retryWorkflow.get "b").any (fun s ↦ s.terminal) ∧
      (recordStep retryWorkflow (fun _ ↦ "") ⟨2, "a", none⟩ t).1 = true ∧
      isAllowed retryWorkflow t "a" = false := by
  decide +kernel

end SauronId.Sdk.Workflow
