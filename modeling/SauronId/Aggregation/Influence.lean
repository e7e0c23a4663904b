import SauronId.Aggregation.Accounting

namespace SauronId.Aggregation

open Dp Lib Lib.Run

variable {σ : Type}

/-- The second call has other submissions, but the same ones of the tenants of
the cohort in the window, up to what they claim for the hidden metrics. -/
structure PublishCall.Alike (hidden : String → Bool) (call call' : PublishCall σ) : Prop where
  cohort : call'.cohort = call.cohort
  periodStart : call'.periodStart = call.periodStart
  periodEnd : call'.periodEnd = call.periodEnd
  nowEpochSecs : call'.nowEpochSecs = call.nowEpochSecs
  rng : call'.rng = call.rng
  rows : call'.inWindow.map (CohortRow.redact hidden) = call.inWindow.map (CohortRow.redact hidden)

def PublishCall.redacted (hidden : String → Bool) (call : PublishCall σ) : PublishCall σ :=
  { call with rawStats := call.inWindow.map (CohortRow.redact hidden) }

theorem PublishCall.alike_redacted (hidden : String → Bool) (call : PublishCall σ) :
    call.Alike hidden (call.redacted hidden) := by
  have hrow : ∀ r : CohortRow, (r.redact hidden).tenantId = r.tenantId ∧
      (r.redact hidden).periodStart = r.periodStart ∧
      (r.redact hidden).periodEnd = r.periodEnd ∧
      (r.redact hidden).redact hidden = r.redact hidden := by
    intro r
    unfold CohortRow.redact
    split_ifs <;> simp [CohortRow.clear]
  refine ⟨rfl, rfl, rfl, rfl, rfl, ?_⟩
  have hwindow : (call.redacted hidden).inWindow = call.inWindow.map (CohortRow.redact hidden) := by
    unfold PublishCall.inWindow
    apply List.filter_eq_self.mpr
    intro r hr
    obtain ⟨r', hr', rfl⟩ := List.mem_map.mp hr
    obtain ⟨htenant, hstart, hend, -⟩ := hrow r'
    have hr' := (List.mem_filter.mp hr').2
    simpa only [PublishCall.redacted, htenant, hstart, hend] using hr'
  rw [hwindow, List.map_map]
  exact List.map_congr_left (fun r _ ↦ (hrow r).2.2.2)

def Clean (hidden : String → Bool) (metrics : List PublishedMetric) : Prop :=
  ∀ m ∈ metrics, m.suppressed = false → hidden m.metricId = false

theorem Clean.of_concat {hidden : String → Bool} {metrics : List PublishedMetric}
    {m : PublishedMetric} (h : Clean hidden (metrics ++ [m])) : Clean hidden metrics :=
  fun m' hm' ↦ h m' (List.mem_append_left _ hm')

/-- As long as a publication has released nothing for a hidden metric, `same`
holds, and it has drawn the same noise as its counterpart. -/
def Wait.Like (same : Prop) : Wait σ → Wait σ → Prop
  | .ensuring, .ensuring => True
  | .asking, .asking => True
  | .recording remaining value rng, .recording remaining' value' rng' =>
    same → remaining' = remaining ∧ value' = value ∧ rng' = rng
  | _, _ => False

section Waits

variable {same : Prop} {w : Wait σ}

theorem Wait.Like.of_ensuring (h : Wait.Like same .ensuring w) : w = .ensuring := by
  cases w with
  | ensuring => rfl
  | asking => exact h.elim
  | recording remaining value rng => exact h.elim

theorem Wait.Like.of_asking (h : Wait.Like same .asking w) : w = .asking := by
  cases w with
  | ensuring => exact h.elim
  | asking => rfl
  | recording remaining value rng => exact h.elim

theorem Wait.Like.of_recording {remaining : F64} {value : Quartiles} {rng : σ}
    (h : Wait.Like same (.recording remaining value rng) w) :
    ∃ remaining' value' rng', w = .recording remaining' value' rng' ∧
      (same → remaining' = remaining ∧ value' = value ∧ rng' = rng) := by
  cases w with
  | ensuring => exact h.elim
  | asking => exact h.elim
  | recording remaining' value' rng' => exact ⟨_, _, _, rfl, h⟩

end Waits

section Calls

variable {hidden : String → Bool} {f : PublishCall σ → PublishCall σ} {T : PublishText}
  {addNoise : AddNoise σ}

namespace PublishCall.Alike

variable {call call' : PublishCall σ} (h : call.Alike hidden call')

include h

theorem buckets : call'.buckets.map (redactBucket hidden) =
    call.buckets.map (redactBucket hidden) := by
  unfold PublishCall.buckets
  rw [map_redact_byMetric, map_redact_byMetric, h.rows]

theorem cycleStart : call'.cycleStart = call.cycleStart := by
  unfold PublishCall.cycleStart
  rw [h.cohort, h.nowEpochSecs]

theorem key (metricId : String) : call'.key metricId = call.key metricId := by
  unfold PublishCall.key
  rw [h.cycleStart, h.cohort]

theorem published (laplace : LaplaceMechanism) (done : Progress σ) :
    Job.published ⟨call', laplace⟩ T done = Job.published ⟨call, laplace⟩ T done := by
  unfold Job.published Job.note
  rw [h.cycleStart, h.cohort, h.periodStart, h.periodEnd]

theorem prepare : prepare T call' =
    (Aggregation.prepare T call).map (fun job ↦ ⟨call', job.laplace⟩) := by
  unfold Aggregation.prepare
  rw [h.cohort, h.periodStart, h.periodEnd]
  cases ensure (¬ call.periodEnd < call.periodStart)
      (PublishError.invalid "period_end < period_start") with
  | error e => rfl
  | ok _ =>
    cases call.cohort.validate T.toFloatText with
    | error e => rfl
    | ok _ =>
      cases LaplaceMechanism.new (call.cohort.epsilonPerMetric.times (1 / 4))
          (.finite quartileSensitivity) with
      | error e => rfl
      | ok laplace => rfl

end PublishCall.Alike

/-- A task and its counterpart in the execution where `f` has replaced the call.
They agree as long as nothing was released for a hidden metric. -/
structure Task.Like (hidden : String → Bool) (f : PublishCall σ → PublishCall σ)
    (task task' : Task σ) : Prop where
  call : task'.job.call = f task.job.call
  laplace : task'.job.laplace = task.job.laplace
  bucket : redactBucket hidden task'.bucket = redactBucket hidden task.bucket
  rest : task'.rest.map (redactBucket hidden) = task.rest.map (redactBucket hidden)
  done : Clean hidden task.done.metrics → task'.done = task.done
  wait : task.wait.Like (Clean hidden task.done.metrics ∧ hidden task.bucket.1 = false) task'.wait

def Outcome.Like (hidden : String → Bool) (f : PublishCall σ → PublishCall σ) :
    Outcome σ → Outcome σ → Prop
  | .waiting task, .waiting task' => task.Like hidden f task'
  | .finished (.ok published), .finished (.ok published') =>
    Clean hidden published.metrics → published' = published
  | .finished (.error e), .finished (.error e') => e' = e
  | _, _ => False

variable (halike : ∀ call, PublishCall.Alike hidden call (f call))

variable {task task' : Task σ}

include halike in
theorem Task.Like.request (h : task.Like hidden f task') (now : ℤ) (random : List UInt8) :
    task'.request now random = task.request now random := by
  have hcohort : task'.job.call.cohort = task.job.call.cohort := by
    rw [h.call, (halike _).cohort]
  have hkey : task'.job.call.key task'.bucket.1 = task.job.call.key task.bucket.1 := by
    have hid : task'.bucket.1 = task.bucket.1 := fst_eq_of_redactBucket h.bucket
    rw [hid, h.call, (halike _).key]
  have hwait := h.wait
  unfold Task.request
  rw [hcohort, hkey, h.laplace]
  cases hw : task.wait <;> cases hw' : task'.wait <;> simp_all [Wait.Like]

include halike in
theorem like_proceed {job job' : Job σ} (hcall : job'.call = f job.call)
    (hlaplace : job'.laplace = job.laplace) {todo todo' : List Bucket} {done done' : Progress σ}
    (htodo : todo'.map (redactBucket hidden) = todo.map (redactBucket hidden))
    (hdone : Clean hidden done.metrics → done' = done) :
    (proceed T job todo done).Like hidden f (proceed T job' todo' done') := by
  have hjob : job' = ⟨f job.call, job.laplace⟩ := by
    rw [← hcall, ← hlaplace]
  induction todo generalizing todo' done done' with
  | nil =>
    obtain rfl : todo' = [] := by simpa using htodo
    intro hclean
    rw [hdone hclean, hjob]
    exact (halike job.call).published job.laplace done
  | cons bucket rest ih =>
    cases todo' with
    | nil => simp at htodo
    | cons bucket' rest' =>
      obtain ⟨hbucket, hrest⟩ := List.cons.inj htodo
      have hid : bucket'.1 = bucket.1 := fst_eq_of_redactBucket hbucket
      have hlength : bucket'.2.length = bucket.2.length := by
        rw [← length_redactBucket hidden bucket', hbucket, length_redactBucket]
      have hk : job'.call.cohort.kAnonymityThreshold = job.call.cohort.kAnonymityThreshold := by
        rw [hcall, (halike _).cohort]
      rw [proceed, proceed, hlength, hk, hid]
      split_ifs with hlt
      · apply ih hrest
        intro hclean
        rw [hdone hclean.of_concat]
      · exact ⟨hcall, hlaplace, hbucket, hrest, hdone, trivial⟩

include halike in
theorem like_begin (call : PublishCall σ) :
    (begin T call).Like hidden f (begin T (f call)) := by
  have h := halike call
  unfold begin
  rw [h.prepare]
  cases hjob : prepare T call with
  | error e => exact rfl
  | ok job =>
    have hcall := call_of_prepare hjob
    simp only [Except.map]
    apply like_proceed halike
    · rw [hcall]
    · rfl
    · exact h.buckets
    · intro _
      rw [h.rng]

theorem Task.Like.quartiles (h : task.Like hidden f task') (hclean : Clean hidden task.done.metrics)
    (hvisible : hidden task.bucket.1 = false) :
    Aggregation.quartiles addNoise task'.job.laplace task'.bucket.2 task'.done.rng =
      Aggregation.quartiles addNoise task.job.laplace task.bucket.2 task.done.rng := by
  have hvisible' : hidden task'.bucket.1 = false := by
    rw [fst_eq_of_redactBucket h.bucket, hvisible]
  have hbucket : task'.bucket = task.bucket := by
    rw [← redactBucket_of_visible hvisible', h.bucket, redactBucket_of_visible hvisible]
  rw [hbucket, h.laplace, h.done hclean]

include halike in
theorem like_answer (h : task.Like hidden f task') {result : Except LedgerError Response}
    {out : Outcome σ}
    (hout : task.Answers T addNoise result out) :
    ∃ out', task'.Answers T addNoise result out' ∧ out.Like hidden f out' := by
  have hid : task'.bucket.1 = task.bucket.1 := fst_eq_of_redactBucket h.bucket
  have hwait' := h.wait
  cases hout with
  | failed e => exact ⟨_, .failed e, rfl⟩
  | ensured hwait =>
    rw [hwait] at hwait'
    refine ⟨_, .ensured hwait'.of_ensuring, ?_⟩
    exact ⟨h.call, h.laplace, h.bucket, h.rest, h.done, trivial⟩
  | denied hwait reason used cap =>
    rw [hwait] at hwait'
    refine ⟨_, .denied hwait'.of_asking reason used cap, ?_⟩
    apply like_proceed halike h.call h.laplace h.rest
    intro hclean
    rw [h.done hclean.of_concat, hid]
  | approved hwait remaining value rng hnoise =>
    rw [hwait] at hwait'
    obtain ⟨value', rng', hnoise'⟩ : ∃ value' rng',
        quartiles addNoise task'.job.laplace task'.bucket.2 task'.done.rng = (value', rng') :=
      ⟨_, _, rfl⟩
    refine ⟨_, .approved hwait'.of_asking remaining value' rng' hnoise', ?_⟩
    refine ⟨h.call, h.laplace, h.bucket, h.rest, h.done, fun hsame ↦ ?_⟩
    rw [h.quartiles hsame.1 hsame.2, hnoise] at hnoise'
    cases hnoise'
    exact ⟨rfl, rfl, rfl⟩
  | recorded remaining value rng hwait id =>
    rw [hwait] at hwait'
    obtain ⟨remaining', value', rng', hrecording, hsame⟩ := hwait'.of_recording
    refine ⟨_, .recorded remaining' value' rng' hrecording id, ?_⟩
    apply like_proceed halike h.call h.laplace h.rest
    intro hclean
    have hvisible : hidden task.bucket.1 = false :=
      hclean (.released task.bucket.1 value _) (List.mem_append_right _ List.mem_cons_self) rfl
    obtain ⟨rfl, rfl, rfl⟩ := hsame ⟨hclean.of_concat, hvisible⟩
    rw [h.done hclean.of_concat, hid, h.call, (halike _).cohort]

end Calls

variable {ι : Type}

namespace PublishEvent

/-- The event in the execution where the calls are replaced, if `n` publications
have begun before it. -/
def retold (variant : ℕ → PublishCall σ → PublishCall σ) (n : ℕ) :
    PublishEvent ι σ → PublishEvent ι σ
  | publish i call => publish i (variant n call)
  | e => e

def begins : PublishEvent ι σ → ℕ
  | publish _ _ => 1
  | _ => 0

end PublishEvent

def retell (variant : ℕ → PublishCall σ → PublishCall σ) :
    ℕ → List (PublishEvent ι σ) → List (PublishEvent ι σ)
  | _, [] => []
  | n, e :: es => e.retold variant n :: retell variant (n + e.begins) es

section Mirror

variable (hidden : ℕ → String → Bool) (variant : ℕ → PublishCall σ → PublishCall σ)

def Status.Like : Status σ → Status σ → Prop
  | .idle, .idle => True
  | .running n task, .running n' task' => n' = n ∧ task.Like (hidden n) (variant n) task'
  | .returned _, .returned _ => True
  | _, _ => False

def Output.Like (o o' : Output σ) : Prop :=
  o'.number = o.number ∧ o'.call = variant o.number o.call ∧
    (Outcome.finished o.result).Like (hidden o.number) (variant o.number) (.finished o'.result)

theorem Output.Like.result {hidden : ℕ → String → Bool}
    {variant : ℕ → PublishCall σ → PublishCall σ} {o o' : Output σ} (h : o.Like hidden variant o')
    (hclean : Clean (hidden o.number) o.metrics) : o'.result = o.result := by
  obtain ⟨-, -, hlike⟩ := h
  unfold Output.metrics at hclean
  cases hr : o.result with
  | ok published =>
    cases hr' : o'.result with
    | ok published' =>
      rw [hr, hr'] at hlike
      rw [hr] at hclean
      rw [hlike hclean]
    | error e =>
      rw [hr, hr'] at hlike
      exact hlike.elim
  | error e =>
    cases hr' : o'.result with
    | ok published' =>
      rw [hr, hr'] at hlike
      exact hlike.elim
    | error e' =>
      rw [hr, hr'] at hlike
      rw [show e' = e from hlike]

namespace Publishers

structure Mirrors (w v : Publishers ι σ) : Prop where
  ledger : v.ledger = w.ledger
  started : v.started = w.started
  issued : v.issued = w.issued
  status : ∀ i, (w.status i).Like hidden variant (v.status i)
  outputs : List.Forall₂ (Output.Like hidden variant) w.outputs v.outputs

variable {hidden variant} {T : PublishText} {addNoise : AddNoise σ} {w v w' : Publishers ι σ}

theorem mirrors_init (db : LedgerDb) :
    Mirrors hidden variant (init db : Publishers ι σ) (init db) :=
  ⟨rfl, rfl, rfl, fun _ ↦ trivial, .nil⟩

variable [DecidableEq ι] {i : ι} {number : ℕ}

theorem like_update {s t : ι → Status σ} {a b : Status σ}
    (h : ∀ j, (s j).Like hidden variant (t j)) (hab : a.Like hidden variant b) (j : ι) :
    (Function.update s i a j).Like hidden variant (Function.update t i b j) := by
  by_cases hj : j = i
  · subst hj
    simpa using hab
  · simpa [hj] using h j

theorem Mirrors.enter (h : Mirrors hidden variant w v) :
    Mirrors hidden variant (w.enter i) (v.enter i) where
  ledger := h.ledger
  started := congrArg (· + 1) h.started
  issued := h.issued
  status := like_update h.status trivial
  outputs := h.outputs

theorem Mirrors.collect (h : Mirrors hidden variant w v) :
    Mirrors hidden variant (w.collect i number) (v.collect i number) where
  ledger := h.ledger
  started := h.started
  issued := by simp only [Publishers.collect, h.issued, h.ledger]
  status := like_update h.status trivial
  outputs := h.outputs

variable (halike : ∀ n call, PublishCall.Alike (hidden n) call (variant n call))

include halike

theorem Mirrors.settle {call : PublishCall σ} {now : ℤ} {random : List UInt8}
    {out out' : Outcome σ} (h : Mirrors hidden variant w v)
    (hout : out.Like (hidden number) (variant number) out')
    (hs : w.settle T i number call now random out = some w') :
    ∃ v', v.settle T i number (variant number call) now random out' = some v' ∧
      Mirrors hidden variant w' v' := by
  cases out with
  | waiting task =>
    cases out' with
    | finished result => exact hout.elim
    | waiting task' =>
      obtain ⟨ledger, hledger, rfl⟩ := Option.map_eq_some_iff.mp hs
      rw [← h.ledger, ← Task.Like.request (halike number) hout] at hledger
      refine ⟨_, Option.map_eq_some_iff.mpr ⟨ledger, hledger, rfl⟩, ?_⟩
      exact ⟨rfl, h.started, h.issued, like_update h.status ⟨rfl, hout⟩, h.outputs⟩
  | finished result =>
    cases out' with
    | waiting task' =>
      cases result with
      | ok published => exact hout.elim
      | error e => exact hout.elim
    | finished result' =>
      obtain rfl := Option.some.inj hs
      refine ⟨_, rfl, h.ledger, h.started, h.issued, like_update h.status trivial, ?_⟩
      exact List.rel_append h.outputs (.cons ⟨rfl, rfl, hout⟩ .nil)

theorem Mirrors.next {e : PublishEvent ι σ} (h : Mirrors hidden variant w v)
    (hn : next T addNoise w e = some w') :
    w'.started = w.started + e.begins ∧
      ∃ v', next T addNoise v (e.retold variant w.started) = some v' ∧
        Mirrors hidden variant w' v' := by
  cases e with
  | publish i call =>
    have hstatus := h.status i
    cases hw : w.status i with
    | running n task => simp [Publishers.next, hw] at hn
    | idle | returned =>
      simp only [Publishers.next, hw] at hn
      refine ⟨(settled hn).started, ?_⟩
      have hsettle := h.enter.settle halike (like_begin (halike _) call) hn
      cases hv : v.status i with
      | running n task => simp [hw, hv, Status.Like] at hstatus
      | idle | returned =>
        simpa only [Publishers.next, PublishEvent.retold, hv, h.started,
          (halike w.started call).nowEpochSecs] using hsettle
  | statement i fault =>
    have hstatus := h.status i
    cases hw : w.status i with
    | idle | returned => simp [Publishers.next, hw] at hn
    | running n task =>
      simp only [Publishers.next, hw] at hn
      obtain ⟨ledger, hledger, rfl⟩ := Option.map_eq_some_iff.mp hn
      refine ⟨rfl, ?_⟩
      cases hv : v.status i with
      | idle | returned => simp [hw, hv, Status.Like] at hstatus
      | running n' task' =>
        simp only [PublishEvent.retold, Publishers.next, hv, h.ledger, hledger, Option.map_some,
          Option.some.injEq, exists_eq_left']
        exact ⟨rfl, h.started, h.issued, h.status, h.outputs⟩
  | resume i now random =>
    have hstatus := h.status i
    cases hw : w.status i with
    | idle | returned => simp [Publishers.next, hw] at hn
    | running n task =>
      cases hanswer : (w.ledger.phase i).answer with
      | none => simp [Publishers.next, hw, hanswer] at hn
      | some result =>
        simp only [Publishers.next, hw, hanswer] at hn
        obtain ⟨out, hout, hsettle⟩ := Option.bind_eq_some_iff.mp hn
        refine ⟨(settled hsettle).started, ?_⟩
        cases hv : v.status i with
        | idle | returned => simp [hw, hv, Status.Like] at hstatus
        | running n' task' =>
          rw [hw, hv] at hstatus
          obtain ⟨rfl, htask⟩ := hstatus
          obtain ⟨out', hout', hlike⟩ :=
            like_answer (halike _) htask (Task.answer_eq_some.mp hout)
          obtain ⟨v', hv', hmirrors⟩ := h.collect.settle halike hlike hsettle
          refine ⟨v', ?_, hmirrors⟩
          simp only [PublishEvent.retold, Publishers.next, hv, h.ledger, hanswer,
            Task.answer_eq_some.mpr hout', Option.bind_some, htask.call]
          exact hv'

/-- Two executions that differ in the calls only go through the same states of
the ledger. -/
theorem Mirrors.run {es : List (PublishEvent ι σ)} (h : Mirrors hidden variant w v)
    (hr : run (Publishers.next T addNoise) w es = some w') :
    ∃ v', Run.run (Publishers.next T addNoise) v (retell variant w.started es) = some v' ∧
      Mirrors hidden variant w' v' := by
  induction es generalizing w v with
  | nil =>
    obtain rfl := Option.some.inj hr
    exact ⟨v, rfl, h⟩
  | cons e es ih =>
    obtain ⟨u, hu, hr⟩ := run_cons.mp hr
    obtain ⟨hstarted, u', hu', hmirrors⟩ := h.next halike hu
    obtain ⟨v', hv', hend⟩ := ih hmirrors hr
    rw [hstarted] at hv'
    exact ⟨v', run_cons.mpr ⟨u', hu', hv'⟩, hend⟩

end Publishers

end Mirror

end SauronId.Aggregation
