import Mathlib.Data.List.Sort
import Mathlib.Data.Rat.Floor
import SauronId.Dp.Ledger
import SauronId.Lib.Grouping
import SauronId.Lib.Word

namespace SauronId.Dp.F64

open Lib.Text

def value : F64 → ℚ
  | finite value => value
  | _ => 0

def positive : F64 → Bool
  | finite value => 0 < value
  | _ => false

def fraction : F64 → Bool
  | finite value => 0 ≤ value ∧ value < 1
  | _ => false

def times (c : ℚ) : F64 → F64
  | finite value => finite (value * c)
  | x => x

def plus : F64 → F64 → F64
  | finite x, finite y => finite (x + y)
  | finite _, y => y
  | infinite _, nan => nan
  | infinite x, infinite y => if x = y then infinite x else nan
  | x, _ => x

def fixed (places : ℕ) : F64 → String
  | finite value => formatFixed places value
  | infinite negative => if negative then "-inf" else "inf"
  | nan => "NaN"

end SauronId.Dp.F64

namespace SauronId.Aggregation

open Dp Lib Lib.Grouping Lib.Text

structure CohortDefinition where
  (cohortId label : String)
  (vendor sector : Option String)
  tenantIds : List String
  kAnonymityThreshold : ℕ
  (epsilonPerMetric delta : F64)
  cycleSeconds : Option ℕ
  (epsilonCapPerCycle deltaCapPerCycle : Option F64)

def defaultCycleSeconds : ℕ := 7776000

inductive CohortError
  | invalid (message : String)
  deriving DecidableEq

def CohortError.display : CohortError → String
  | invalid s => "invalid cohort: " ++ s

namespace CohortDefinition

def validate (T : FloatText) (cohort : CohortDefinition) : Except CohortError Unit := do
  ensure (trim cohort.cohortId ≠ "") (.invalid "cohort_id empty")
  ensure (trim cohort.label ≠ "") (.invalid "label empty")
  ensure (cohort.epsilonPerMetric.positive = true)
    (.invalid ("epsilon_per_metric must be > 0, got " ++ T.display cohort.epsilonPerMetric))
  ensure (cohort.delta.fraction = true)
    (.invalid ("delta must be in [0,1), got " ++ T.display cohort.delta))
  ensure (cohort.kAnonymityThreshold ≠ 0) (.invalid "k_anonymity_threshold must be >= 1")
  ensure (cohort.cycleSeconds ≠ some 0) (.invalid "cycle_seconds must be > 0 when set")
  cohort.epsilonCapPerCycle.elim (.ok ()) (fun c ↦ ensure (c.positive = true)
    (.invalid ("epsilon_cap_per_cycle must be > 0, got " ++ T.display c)))
  cohort.deltaCapPerCycle.elim (.ok ()) (fun c ↦ ensure (c.fraction = true)
    (.invalid ("delta_cap_per_cycle must be in [0,1), got " ++ T.display c)))

variable (cohort : CohortDefinition)

def effectiveCycleSeconds : ℕ := cohort.cycleSeconds.getD defaultCycleSeconds

def effectiveEpsilonCapPerCycle : F64 :=
  cohort.epsilonCapPerCycle.getD (cohort.epsilonPerMetric.times 4)

def effectiveDeltaCapPerCycle : F64 := cohort.deltaCapPerCycle.getD (cohort.delta.times 4)

def cycleStartFor (nowEpochSecs : ℤ) : ℤ :=
  let period := Word.wrap cohort.effectiveCycleSeconds
  if period ≤ 0 then 0
  else if nowEpochSecs ≤ 0 then 0
  else nowEpochSecs / period * period

end CohortDefinition

structure CohortRow where
  (tenantId metricId : String)
  (claimedValue periodStart periodEnd submittedAt : ℤ)

structure PublishCall (σ : Type) where
  cohort : CohortDefinition
  rawStats : List CohortRow
  (periodStart periodEnd nowEpochSecs : ℤ)
  rng : σ

abbrev Bucket := String × List CohortRow

def byMetric (rows : List CohortRow) : List Bucket :=
  groups CohortRow.metricId CohortRow.tenantId
    (fun row existing ↦ existing.submittedAt < row.submittedAt) rows

namespace PublishCall

variable {σ : Type} (call : PublishCall σ)

def inWindow : List CohortRow :=
  call.rawStats.filter (fun r ↦ r.tenantId ∈ call.cohort.tenantIds ∧
    call.periodStart ≤ r.periodStart ∧ r.periodEnd ≤ call.periodEnd)

def buckets : List Bucket := byMetric call.inWindow

def contributors (metricId : String) : Finset String :=
  ((call.rawStats.filter (fun r ↦ r.tenantId ∈ call.cohort.tenantIds ∧
    call.periodStart ≤ r.periodStart ∧ r.periodEnd ≤ call.periodEnd ∧
      r.metricId = metricId)).map CohortRow.tenantId).toFinset

variable {call}

theorem buckets_pairwise : call.buckets.Pairwise (fun b c ↦ b.1 < c.1) :=
  (grouped call.inWindow).ascending

theorem buckets_nodup : (call.buckets.map Prod.fst).Nodup := by
  refine List.Pairwise.map _ (fun b c hlt ↦ ?_) buckets_pairwise
  exact hlt.ne

theorem length_le_contributors {bucket : Bucket} (h : bucket ∈ call.buckets) :
    bucket.2.length ≤ (call.contributors bucket.1).card := by
  refine (Grouped.length_le (grouped call.inWindow) h).trans (Finset.card_le_card ?_)
  intro tenant ht
  simp only [contributors, inWindow, List.mem_toFinset, List.mem_map, List.mem_filter,
    decide_eq_true_eq] at ht ⊢
  obtain ⟨r, ⟨⟨hr, htenant, hstart, hend⟩, hmetric⟩, rfl⟩ := ht
  exact ⟨r, ⟨hr, htenant, hstart, hend, hmetric⟩, rfl⟩

end PublishCall

section Redaction

variable (hidden : String → Bool)

def CohortRow.clear (row : CohortRow) : CohortRow := { row with claimedValue := 0 }

def CohortRow.redact (row : CohortRow) : CohortRow :=
  if hidden row.metricId then row.clear else row

def redactBucket (bucket : Bucket) : Bucket :=
  (bucket.1, if hidden bucket.1 then bucket.2.map CohortRow.clear else bucket.2)

theorem length_redactBucket (bucket : Bucket) :
    (redactBucket hidden bucket).2.length = bucket.2.length := by
  unfold redactBucket
  split_ifs <;> simp

variable {hidden}

theorem fst_eq_of_redactBucket {bucket bucket' : Bucket}
    (h : redactBucket hidden bucket' = redactBucket hidden bucket) : bucket'.1 = bucket.1 :=
  (Prod.mk.inj h).1

theorem redactBucket_of_visible {bucket : Bucket} (h : hidden bucket.1 = false) :
    redactBucket hidden bucket = bucket := by
  simp [redactBucket, h]

theorem map_redact_byMetric (rows : List CohortRow) :
    (byMetric rows).map (redactBucket hidden) = byMetric (rows.map (CohortRow.redact hidden)) := by
  apply map_groups
  · intro a
    unfold CohortRow.redact
    split_ifs <;> rfl
  · intro b
    rfl
  · intro a l
    simp only [redactBucket, CohortRow.redact]
    split_ifs with ha
    · exact congrArg (Prod.mk a.metricId) (map_keep (fun b ↦ rfl) (fun b c ↦ rfl))
    · rfl
  · intro g
    simp [redactBucket]

end Redaction

end SauronId.Aggregation
