import SauronId.Aggregation.Cohorts
import SauronId.Dp.Conservation

namespace SauronId.Dp

def LedgerError.display : LedgerError → String
  | invalid s => "invalid ledger input: " ++ s
  | storage s => "ledger storage: " ++ s

inductive DpError
  | invalidEpsilon (v : F64)
  | invalidSensitivity (v : F64)
  | nonFinite
  deriving DecidableEq

def DpError.display (T : FloatText) : DpError → String
  | invalidEpsilon v => "epsilon must be > 0, got " ++ T.display v
  | invalidSensitivity v => "sensitivity must be >= 0, got " ++ T.display v
  | nonFinite => "non-finite value"

structure LaplaceMechanism where
  (epsilon sensitivity : ℚ)
  epsilon_pos : 0 < epsilon
  sensitivity_nonneg : 0 ≤ sensitivity

def LaplaceMechanism.new (epsilon sensitivity : F64) : Except DpError LaplaceMechanism :=
  match epsilon, sensitivity with
  | .finite e, .finite s =>
    if he : 0 < e then
      if hs : 0 ≤ s then .ok ⟨e, s, he, hs⟩ else .error (.invalidSensitivity sensitivity)
    else .error (.invalidEpsilon epsilon)
  | _, _ => .error .nonFinite

def LaplaceMechanism.scale (laplace : LaplaceMechanism) : ℚ := laplace.sensitivity / laplace.epsilon

end SauronId.Dp

namespace SauronId.Aggregation

open Dp Lib

def quartileSensitivity : ℚ := 1

def clampUnit (v : ℚ) : ℚ := max 0 (min v 1)

/-- The rank is `⌈p · n⌉`, clamped to `[1, n]`. -/
def nearestRank (sorted : List ℚ) (p : ℚ) : ℚ :=
  if sorted.isEmpty then 0
  else sorted.getD (max 1 (min ⌈p * sorted.length⌉.toNat sorted.length) - 1) 0

structure Quartiles where
  (p25 p50 p75 p95 : F64)

structure PublishedMetric where
  metricId : String
  value : Quartiles
  noiseEps : F64
  suppressed : Bool
  suppressionReason : Option String

def PublishedMetric.withheld (metricId reason : String) : PublishedMetric :=
  ⟨metricId, ⟨.finite 0, .finite 0, .finite 0, .finite 0⟩, .finite 0, true, some reason⟩

def PublishedMetric.released (metricId : String) (value : Quartiles) (noiseEps : F64) :
    PublishedMetric :=
  ⟨metricId, value, noiseEps, false, none⟩

structure PrivacyNotice where
  (epsilonTotal delta : F64)
  kAnonymityThreshold : ℕ
  note : String
  epsilonRemaining : Option F64

structure PublishedCohort where
  (cohortId label : String)
  (vendor sector : Option String)
  nTenants : ℕ
  (periodStart periodEnd : ℤ)
  metrics : List PublishedMetric
  privacyNotice : PrivacyNotice

inductive PublishError
  | invalid (message : String)
  | dp (message : String)
  deriving DecidableEq

structure PublishText extends FloatText where
  exp0 : F64 → String

structure Job (σ : Type) where
  call : PublishCall σ
  laplace : LaplaceMechanism

structure Progress (σ : Type) where
  metrics : List PublishedMetric
  (epsTotal epsilonRemaining : F64)
  rng : σ

variable {σ : Type}

def prepare (T : PublishText) (call : PublishCall σ) : Except PublishError (Job σ) := do
  ensure (¬ call.periodEnd < call.periodStart) (.invalid "period_end < period_start")
  (call.cohort.validate T.toFloatText).mapError (fun e ↦ .invalid e.display)
  let laplace ← (LaplaceMechanism.new (call.cohort.epsilonPerMetric.times (1 / 4))
    (.finite quartileSensitivity)).mapError (fun e ↦ .dp (e.display T.toFloatText))
  return ⟨call, laplace⟩

namespace PublishCall

variable (call : PublishCall σ)

def cycleStart : ℤ := call.cohort.cycleStartFor call.nowEpochSecs

def key (metricId : String) : CycleKey := ⟨call.cohort.cohortId, metricId, call.cycleStart⟩

end PublishCall

namespace Job

variable (job : Job σ)

def note (T : PublishText) : String :=
  "Cohort statistics are released under (ε, δ)-differential privacy. " ++
  "Each non-suppressed metric carries Laplace noise calibrated to " ++
  "ε=" ++ job.call.cohort.epsilonPerMetric.fixed 3 ++
  " per metric (split across 4 quartiles) and δ=" ++ T.exp0 job.call.cohort.delta ++ ", " ++
  "and is suppressed when fewer than k=" ++ toString job.call.cohort.kAnonymityThreshold ++
  " tenants contributed to " ++
  "the bucket OR the cohort's lifetime ε budget for this cycle is " ++
  "exhausted. Sensitivity is fixed at " ++ (F64.finite quartileSensitivity).fixed 1 ++
  " and per-tenant " ++
  "values are clamped to [0, 1] before percentile computation; " ++
  "per-cycle ε cap = " ++ job.call.cohort.effectiveEpsilonCapPerCycle.fixed 3 ++
  " (cycle_start = " ++ toString job.call.cycleStart ++ "). Noise sampling " ++
  "uses f64 floats; the floating-point quantisation inflates the " ++
  "effective δ by ≈ 2⁻⁵² ≈ 2.22e-16, negligible against the chosen δ."

def published (T : PublishText) (done : Progress σ) : PublishedCohort where
  cohortId := job.call.cohort.cohortId
  label := job.call.cohort.label
  vendor := job.call.cohort.vendor
  sector := job.call.cohort.sector
  nTenants := job.call.cohort.tenantIds.length
  periodStart := job.call.periodStart
  periodEnd := job.call.periodEnd
  metrics := done.metrics
  privacyNotice := {
    epsilonTotal := done.epsTotal
    delta := job.call.cohort.delta
    kAnonymityThreshold := job.call.cohort.kAnonymityThreshold
    note := job.note T
    epsilonRemaining := some done.epsilonRemaining }

end Job

namespace Progress

def start (rng : σ) : Progress σ := ⟨[], .finite 0, .finite 0, rng⟩

def withhold (done : Progress σ) (metricId reason : String) : Progress σ :=
  { done with metrics := done.metrics ++ [.withheld metricId reason] }

def release (done : Progress σ) (metricId : String) (value : Quartiles) (eps remaining : F64)
    (rng : σ) : Progress σ where
  metrics := done.metrics ++ [.released metricId value eps]
  epsTotal := done.epsTotal.plus eps
  epsilonRemaining := done.epsilonRemaining.plus remaining
  rng := rng

end Progress

/-- The call of the ledger a publication waits for. Before it charges for a
metric it has drawn the noise. -/
inductive Wait (σ : Type)
  | ensuring
  | asking
  | recording (remaining : F64) (value : Quartiles) (rng : σ)

structure Task (σ : Type) where
  job : Job σ
  bucket : Bucket
  rest : List Bucket
  done : Progress σ
  wait : Wait σ

inductive Outcome (σ : Type)
  | waiting (task : Task σ)
  | finished (result : Except PublishError PublishedCohort)

def proceed (T : PublishText) (job : Job σ) : List Bucket → Progress σ → Outcome σ
  | [], done => .finished (.ok (job.published T done))
  | bucket :: rest, done =>
    if bucket.2.length < job.call.cohort.kAnonymityThreshold then
      proceed T job rest (done.withhold bucket.1
        ("k-anonymity gate: " ++ toString bucket.2.length ++ " contributors < threshold " ++
          toString job.call.cohort.kAnonymityThreshold))
    else .waiting ⟨job, bucket, rest, done, .ensuring⟩

def begin (T : PublishText) (call : PublishCall σ) : Outcome σ :=
  match prepare T call with
  | .error e => .finished (.error e)
  | .ok job => proceed T job call.buckets (.start call.rng)

/-- What the noise of a mechanism makes of a value. It may depend on the value
and on the generator in any way. -/
abbrev AddNoise (σ : Type) := LaplaceMechanism → ℚ → σ → F64 × σ

def quartiles (addNoise : AddNoise σ) (laplace : LaplaceMechanism) (rows : List CohortRow)
    (rng : σ) : Quartiles × σ :=
  -- The values are sorted, so the order in which the map yields the rows does not matter.
  let values := (rows.map (fun r ↦ clampUnit (r.claimedValue / 1000))).insertionSort (· ≤ ·)
  let (p25, rng) := addNoise laplace (nearestRank values (1 / 4)) rng
  let (p50, rng) := addNoise laplace (nearestRank values (1 / 2)) rng
  let (p75, rng) := addNoise laplace (nearestRank values (3 / 4)) rng
  let (p95, rng) := addNoise laplace (nearestRank values (19 / 20)) rng
  (⟨p25, p50, p75, p95⟩, rng)

namespace Task

def request (task : Task σ) (now : ℤ) (random : List UInt8) : Request :=
  let cohort := task.job.call.cohort
  let key := task.job.call.key task.bucket.1
  match task.wait with
  | .ensuring =>
    .ensureCycle key cohort.effectiveEpsilonCapPerCycle cohort.effectiveDeltaCapPerCycle
  | .asking => .canPublish key cohort.epsilonPerMetric cohort.delta
  | .recording _ _ _ =>
    .recordPublication key cohort.epsilonPerMetric cohort.delta (.finite task.job.laplace.scale)
      now random

def answer (T : PublishText) (addNoise : AddNoise σ) (task : Task σ) :
    Except LedgerError Response → Option (Outcome σ)
  | .error e => some (.finished (.error (.dp ("ledger: " ++ e.display))))
  | .ok response =>
    match task.wait, response with
    | .ensuring, .done => some (.waiting { task with wait := .asking })
    | .asking, .decision (.denied reason _ _) =>
      some (proceed T task.job task.rest (task.done.withhold task.bucket.1
        ("epsilon budget exhausted for this cycle (" ++ reason ++ ")")))
    | .asking, .decision (.approved remaining) =>
      let (value, rng) := quartiles addNoise task.job.laplace task.bucket.2 task.done.rng
      some (.waiting { task with wait := .recording remaining value rng })
    | .recording remaining value rng, .published _ =>
      some (proceed T task.job task.rest (task.done.release task.bucket.1 value
        task.job.call.cohort.epsilonPerMetric remaining rng))
    | _, _ => none

end Task

end SauronId.Aggregation
