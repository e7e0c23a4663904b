import SauronId.Aggregation.Influence

namespace SauronId.Aggregation

open Dp Lib Lib.Run

variable {ι σ : Type}

/-- What the outputs of a system of publications that started with the ledger
`db` have to do with the ledger and with the submissions. -/
structure Published (db : LedgerDb) (w : Publishers ι σ) : Prop where
  /-- The released metrics of a publication, with the rows they are charged to. -/
  charged : ∀ o ∈ w.outputs, ∀ published, o.result = .ok published →
    List.Forall₂ (Charged o.call) (published.metrics.filter (fun m ↦ !m.suppressed))
      (w.charges o.number)
  /-- No row is charged for twice, be it in one publication or in two. -/
  own : (w.issued.map Prod.snd).Nodup
  trail : ∀ p ∈ w.issued.map Prod.snd,
    p ∈ w.ledger.shared.publications.rows ∧ p ∉ db.publications.rows
  capped : ∀ o ∈ w.outputs, ∀ m ∈ o.metrics, m.suppressed = false →
    ∃ l ∈ w.ledger.shared.ledger.rows, l.key = o.call.key m.metricId ∧
      w.releasedEpsilon l.key ≤ l.epsilonCap
  anonymous : ∀ o ∈ w.outputs, ∀ m ∈ o.metrics, m.suppressed = false →
    o.call.cohort.kAnonymityThreshold ≤ (o.call.contributors m.metricId).card
  /-- A suppressed metric costs nothing: no row of the publication is its own. -/
  free : ∀ o ∈ w.outputs, ∀ m ∈ o.metrics, m.suppressed = true →
    m.noiseEps = .finite 0 ∧ ∀ p ∈ w.charges o.number, p.key ≠ o.call.key m.metricId
  /-- Nor is there a row that no publication was told of, once all have gone on. -/
  covered : ∀ p ∈ w.ledger.shared.publications.rows, p ∈ db.publications.rows ∨
    p ∈ w.issued.map Prod.snd ∨ ∃ i, p ∈ w.pending i

namespace Publishers

variable {T : PublishText} {addNoise : AddNoise σ} {db : LedgerDb} {w : Publishers ι σ}

theorem Accounted.loop (hw : Accounted T w) {o : Output σ} (ho : o ∈ w.outputs)
    {m : PublishedMetric} (hm : m ∈ o.metrics) :
    LoopInvariant o.call [] o.metrics (w.charges o.number) := by
  have hsound := hw.outputs o ho
  unfold Output.metrics at hm ⊢
  cases hresult : o.result with
  | error e =>
    rw [hresult] at hm
    exact absurd hm List.not_mem_nil
  | ok published =>
    rw [hresult] at hsound
    exact hsound

theorem Invariant.published (hw : Invariant T db w) : Published db w where
  charged o ho published hresult := by
    have hsound := hw.accounted.outputs o ho
    rw [hresult] at hsound
    exact hsound.charged
  own := hw.owned.nodup
  trail := hw.owned.issued
  capped o ho m hm hs := by
    have hreleased : m ∈ o.metrics.filter (fun m ↦ !m.suppressed) :=
      List.mem_filter.mpr ⟨hm, by simp [hs]⟩
    obtain ⟨p, hp, hcharged⟩ :=
      exists_of_mem_right (hw.accounted.loop ho hm).charged.flip hreleased
    have hissued : p ∈ w.issued.map Prod.snd := by
      obtain ⟨x, hx, rfl⟩ := List.mem_map.mp hp
      exact List.mem_map_of_mem (List.mem_filter.mp hx).1
    obtain ⟨l, hl, hkey⟩ :=
      hw.steady.invariant.balanced.owned p (hw.owned.issued p hissued).1
    exact ⟨l, hl, hkey.trans hcharged.1, hw.releasedEpsilon_le hissued hl hkey⟩
  anonymous o ho m hm hs := (hw.accounted.loop ho hm).anonymous m hm hs
  free o ho m hm hs := by
    have hloop := hw.accounted.loop ho hm
    exact ⟨hloop.free m hm hs, hloop.uncharged hm hs⟩
  covered := hw.owned.covered

variable [DecidableEq ι]

/-- However publications interleave: what they release is charged for, within
the caps and only for enough contributors, and an execution in which the calls
have other submissions outside the cohort or the window, and other claims for
metrics they suppress, charges the same and answers the same. -/
theorem publication_private {es : List (PublishEvent ι σ)} (hdb : Balanced db)
    (h : run (next T addNoise) (init db) es = some w) :
    Published db w ∧
      ∀ (hidden : ℕ → String → Bool) (variant : ℕ → PublishCall σ → PublishCall σ),
        (∀ n call, PublishCall.Alike (hidden n) call (variant n call)) →
        ∃ v, run (next T addNoise) (init db) (retell variant 0 es) = some v ∧
          v.ledger = w.ledger ∧ v.issued = w.issued ∧
          ∀ o ∈ w.outputs,
            (∀ m ∈ o.metrics, hidden o.number m.metricId = true → m.suppressed = true) →
            ⟨o.number, variant o.number o.call, o.result⟩ ∈ v.outputs := by
  refine ⟨(invariant_run hdb h).published, fun hidden variant halike ↦ ?_⟩
  have hinit : Mirrors hidden variant (init db : Publishers ι σ) (init db) := mirrors_init db
  obtain ⟨v, hv, hmirrors⟩ := hinit.run halike h
  refine ⟨v, hv, hmirrors.ledger, hmirrors.issued, fun o ho hsuppressed ↦ ?_⟩
  obtain ⟨o', ho', hlike⟩ := exists_of_mem_right hmirrors.outputs.flip ho
  have hclean : Clean (hidden o.number) o.metrics := by
    intro m hm hs
    by_contra hhidden
    have hm' := hsuppressed m hm (by simpa using hhidden)
    rw [hs] at hm'
    cases hm'
  have hresult : o'.result = o.result := Output.Like.result hlike hclean
  rw [← hresult, ← hlike.2.1, ← hlike.1]
  exact ho'

section Demo

def demoText : PublishText := ⟨Dp.demoText, fun _ ↦ ""⟩

def demoNoise : AddNoise ℚ := fun _ value rng ↦ (.finite (value + rng), rng + 1)

def demoCohort : CohortDefinition :=
  ⟨"coh_a", "A", none, none, ["t1", "t2"], 2, .finite 1, .finite 0, none, some (.finite 1), none⟩

def demoCall : PublishCall ℚ where
  cohort := demoCohort
  rawStats := [⟨"t1", "m", 400, 0, 60, 1⟩, ⟨"t2", "m", 600, 0, 60, 1⟩, ⟨"t1", "s", 700, 0, 60, 1⟩,
    ⟨"x", "s", 999, 0, 60, 1⟩]
  periodStart := 0
  periodEnd := 60
  nowEpochSecs := 100
  rng := 0

def turn (i : Bool) (statements : ℕ) (random : List UInt8) : List (PublishEvent Bool ℚ) :=
  List.replicate statements (.statement i none) ++ [.resume i 100 random]

def racingPublishers : List (PublishEvent Bool ℚ) :=
  List.flatten [[.publish false demoCall], turn false 2 [], turn false 2 [1],
    [.publish true demoCall], turn true 2 [], turn true 2 [2], turn false 6 [], turn true 4 [],
    [.publish true demoCall], turn true 2 [], turn true 2 []]

def demoHidden (_ : ℕ) (metricId : String) : Bool := metricId == "s"

def demoVariant (n : ℕ) (call : PublishCall ℚ) : PublishCall ℚ := call.redacted (demoHidden n)

theorem publication_private_racing :
    ∃ w v : Publishers Bool ℚ,
      run (next demoText demoNoise) (init LedgerDb.empty) racingPublishers = some w ∧
      w.outputs.map (fun o ↦ o.metrics.map PublishedMetric.suppressed) =
        [[false, true], [], [true, true]] ∧
      Published LedgerDb.empty w ∧
      run (next demoText demoNoise) (init LedgerDb.empty)
        (retell demoVariant 0 racingPublishers) = some v ∧
      ∀ o ∈ w.outputs, ⟨o.number, demoVariant o.number o.call, o.result⟩ ∈ v.outputs := by
  have hrun : (run (next demoText demoNoise) (init LedgerDb.empty) racingPublishers).map
      (fun w : Publishers Bool ℚ ↦ (w.outputs.map (fun o ↦ o.metrics.map PublishedMetric.suppressed),
        w.outputs.all (fun o ↦ o.metrics.all (fun m ↦ !demoHidden o.number m.metricId ||
          m.suppressed)))) = some ([[false, true], [], [true, true]], true) := by
    decide +kernel
  obtain ⟨w, hw, hout⟩ := Option.map_eq_some_iff.mp hrun
  obtain ⟨hflags, hhidden⟩ := Prod.mk.inj hout
  obtain ⟨hpublished, hmirror⟩ := publication_private balanced_empty hw
  have halike : ∀ n call, PublishCall.Alike (demoHidden n) call (demoVariant n call) :=
    fun n call ↦ PublishCall.alike_redacted (demoHidden n) call
  obtain ⟨v, hv, -, -, hsame⟩ := hmirror demoHidden demoVariant halike
  refine ⟨w, v, hw, hflags, hpublished, hv, fun o ho ↦ hsame o ho (fun m hm hs ↦ ?_)⟩
  have hm := List.all_eq_true.mp (List.all_eq_true.mp hhidden o ho) m hm
  simpa [hs] using hm

end Demo

end Publishers

end SauronId.Aggregation
