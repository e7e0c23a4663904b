import SauronId.Aggregation.Publish
import SauronId.Dp.Steady

namespace SauronId.Aggregation

open Dp Lib

variable {σ : Type}

def Charged (call : PublishCall σ) (m : PublishedMetric) (p : Publication) : Prop :=
  p.key = call.key m.metricId ∧ m.noiseEps = .finite p.epsilon

/-- What the metrics that the loop has handled look like, and the rows of the
trail it was told of, when the buckets of `todo` are left. -/
structure LoopInvariant (call : PublishCall σ) (todo : List Bucket) (metrics : List PublishedMetric)
    (charges : List Publication) : Prop where
  handled : ∃ done, call.buckets = done ++ todo ∧
    metrics.map PublishedMetric.metricId = done.map Prod.fst
  anonymous : ∀ m ∈ metrics, m.suppressed = false →
    call.cohort.kAnonymityThreshold ≤ (call.contributors m.metricId).card
  free : ∀ m ∈ metrics, m.suppressed = true → m.noiseEps = .finite 0
  charged : List.Forall₂ (Charged call) (metrics.filter (fun m ↦ !m.suppressed)) charges

structure Task.Sound (task : Task σ) (charges : List Publication) : Prop where
  loop : LoopInvariant task.job.call (task.bucket :: task.rest) task.done.metrics charges
  reached : task.job.call.cohort.kAnonymityThreshold ≤ task.bucket.2.length

def Outcome.Sound (call : PublishCall σ) (charges : List Publication) : Outcome σ → Prop
  | .waiting task => task.job.call = call ∧ task.Sound charges
  | .finished (.ok published) => LoopInvariant call [] published.metrics charges
  | .finished (.error _) => True

def Task.Awaits (T : PublishText) (task : Task σ) (phase : Phase) : Prop :=
  ∀ call, phase.call = some call →
    ∃ now random, (task.request now random).check T.toFloatText = .ok call

section Loop

variable {call : PublishCall σ} {bucket : Bucket} {todo rest : List Bucket}
  {metrics : List PublishedMetric} {charges : List Publication} {T : PublishText}

theorem LoopInvariant.handle (h : LoopInvariant call (bucket :: rest) metrics charges)
    {m : PublishedMetric} (hm : m.metricId = bucket.1) :
    ∃ done, call.buckets = done ++ rest ∧
      (metrics ++ [m]).map PublishedMetric.metricId = done.map Prod.fst := by
  obtain ⟨done, hdone, hids⟩ := h.handled
  refine ⟨done ++ [bucket], ?_, ?_⟩
  · rw [hdone, List.append_assoc, List.singleton_append]
  · rw [List.map_append, List.map_append, hids]
    simp [hm]

theorem LoopInvariant.withhold (h : LoopInvariant call (bucket :: rest) metrics charges)
    (reason : String) :
    LoopInvariant call rest (metrics ++ [.withheld bucket.1 reason]) charges where
  handled := h.handle rfl
  anonymous m hm hs := by
    rcases List.mem_append.mp hm with hm | hm
    · exact h.anonymous m hm hs
    · obtain rfl := List.mem_singleton.mp hm
      cases hs
  free m hm hs := by
    rcases List.mem_append.mp hm with hm | hm
    · exact h.free m hm hs
    · obtain rfl := List.mem_singleton.mp hm
      rfl
  charged := by
    simpa [PublishedMetric.withheld] using h.charged

theorem LoopInvariant.release {value : Quartiles} {eps : F64} {p : Publication}
    (h : LoopInvariant call (bucket :: rest) metrics charges)
    (hk : call.cohort.kAnonymityThreshold ≤ bucket.2.length) (hkey : p.key = call.key bucket.1)
    (heps : eps = .finite p.epsilon) :
    LoopInvariant call rest (metrics ++ [.released bucket.1 value eps]) (charges ++ [p]) where
  handled := h.handle rfl
  anonymous m hm hs := by
    rcases List.mem_append.mp hm with hm | hm
    · exact h.anonymous m hm hs
    · obtain rfl := List.mem_singleton.mp hm
      obtain ⟨done, hdone, -⟩ := h.handled
      have hbucket : bucket ∈ call.buckets := by simp [hdone]
      exact hk.trans (PublishCall.length_le_contributors hbucket)
  free m hm hs := by
    rcases List.mem_append.mp hm with hm | hm
    · exact h.free m hm hs
    · obtain rfl := List.mem_singleton.mp hm
      cases hs
  charged := by
    rw [List.filter_append]
    exact List.rel_append h.charged (.cons ⟨hkey, heps⟩ .nil)

theorem LoopInvariant.uncharged (h : LoopInvariant call todo metrics charges)
    {m : PublishedMetric} (hm : m ∈ metrics) (hs : m.suppressed = true) :
    ∀ p ∈ charges, p.key ≠ call.key m.metricId := by
  intro p hp hkey
  obtain ⟨done, hdone, hids⟩ := h.handled
  have hnodup : (metrics.map PublishedMetric.metricId).Nodup := by
    have hall : (call.buckets.map Prod.fst).Nodup := PublishCall.buckets_nodup
    rw [hdone, List.map_append] at hall
    exact hids ▸ hall.of_append_left
  obtain ⟨m', hm', hcharged⟩ := exists_of_mem_right h.charged hp
  obtain ⟨hm', hreleased⟩ := List.mem_filter.mp hm'
  have hid : m'.metricId = m.metricId :=
    congrArg CycleKey.metricId (hcharged.1.symm.trans hkey)
  obtain rfl := List.inj_on_of_nodup_map hnodup hm' hm hid
  simp [hs] at hreleased

theorem sound_proceed {job : Job σ} {done : Progress σ}
    (h : LoopInvariant job.call todo done.metrics charges) :
    (proceed T job todo done).Sound job.call charges := by
  induction todo generalizing done with
  | nil => exact h
  | cons bucket rest ih =>
    rw [proceed]
    split_ifs with hk
    · exact ih (h.withhold _)
    · exact ⟨rfl, h, not_lt.mp hk⟩

theorem call_of_prepare {job : Job σ} (h : prepare T call = .ok job) : job.call = call := by
  obtain ⟨-, h⟩ := andThen_eq_ok.mp h
  obtain ⟨-, h⟩ := andThen_eq_ok.mp h
  obtain ⟨laplace, -, h⟩ := bind_eq_ok.mp h
  cases h
  rfl

theorem sound_begin (call : PublishCall σ) : (begin T call).Sound call [] := by
  unfold begin
  cases hjob : prepare T call with
  | error e => trivial
  | ok job =>
    obtain rfl := call_of_prepare hjob
    apply sound_proceed
    exact ⟨⟨[], rfl, rfl⟩, fun m hm ↦ absurd hm List.not_mem_nil,
      fun m hm ↦ absurd hm List.not_mem_nil, .nil⟩

end Loop

section Answer

variable {T : PublishText} {addNoise : AddNoise σ} {task : Task σ} {now : ℤ} {random : List UInt8}
  {c : Call} {charges : List Publication}

theorem eq_of_checkAmount {F : FloatText} {name : String} {x : F64} {q : ℚ≥0}
    (h : checkAmount F name x = .ok q) : x = .finite q := by
  unfold checkAmount at h
  cases x with
  | finite v =>
    simp only at h
    split_ifs at h with hv
    exact Except.ok.inj h ▸ rfl
  | infinite negative => cases h
  | nan => cases h

def Task.Makes (task : Task σ) : Call → Prop
  | .ensureCycle _ _ => task.wait = .ensuring
  | .rotateCycle _ _ => False
  | .canPublish _ _ _ => task.wait = .asking
  | .recordPublication p => (∃ remaining value rng, task.wait = .recording remaining value rng) ∧
      p.key = task.job.call.key task.bucket.1 ∧
      task.job.call.cohort.epsilonPerMetric = .finite p.epsilon

theorem Task.Makes.tame (h : task.Makes c) : c.Tame := by
  cases c with
  | ensureCycle k caps => trivial
  | rotateCycle k caps => exact h
  | canPublish k eps delta => trivial
  | recordPublication p => trivial

theorem makes_of_check (h : (task.request now random).check T.toFloatText = .ok c) :
    task.Makes c := by
  unfold Task.request at h
  cases hwait : task.wait with
  | ensuring =>
    rw [hwait] at h
    obtain ⟨caps, -, h⟩ := bind_eq_ok.mp h
    cases h
    exact hwait
  | asking =>
    rw [hwait] at h
    obtain ⟨eps, -, h⟩ := bind_eq_ok.mp h
    obtain ⟨delta, -, h⟩ := bind_eq_ok.mp h
    cases h
    exact hwait
  | recording remaining value rng =>
    rw [hwait] at h
    obtain ⟨eps, heps, h⟩ := bind_eq_ok.mp h
    obtain ⟨delta, -, h⟩ := bind_eq_ok.mp h
    obtain ⟨scale, -, h⟩ := bind_eq_ok.mp h
    cases h
    exact ⟨⟨remaining, value, rng, hwait⟩, rfl, eq_of_checkAmount heps⟩

variable {phase : Phase}

theorem Task.Awaits.makes (h : task.Awaits T phase) (hc : phase.call = some c) :
    task.Makes c := by
  obtain ⟨now, random, hcheck⟩ := h c hc
  exact makes_of_check hcheck

/-- What a task may be told, and what it goes on to do. -/
inductive Task.Answers (T : PublishText) (addNoise : AddNoise σ) (task : Task σ) :
    Except LedgerError Response → Outcome σ → Prop
  | failed (e : LedgerError) :
    Answers T addNoise task (.error e) (.finished (.error (.dp ("ledger: " ++ e.display))))
  | ensured (hwait : task.wait = .ensuring) :
    Answers T addNoise task (.ok .done) (.waiting { task with wait := .asking })
  | denied (hwait : task.wait = .asking) (reason : String) (used : ℚ) (cap : F64) :
    Answers T addNoise task (.ok (.decision (.denied reason used cap)))
      (proceed T task.job task.rest (task.done.withhold task.bucket.1
        ("epsilon budget exhausted for this cycle (" ++ reason ++ ")")))
  | approved (hwait : task.wait = .asking) (remaining : F64) (value : Quartiles) (rng : σ)
      (hnoise : quartiles addNoise task.job.laplace task.bucket.2 task.done.rng = (value, rng)) :
    Answers T addNoise task (.ok (.decision (.approved remaining)))
      (.waiting { task with wait := .recording remaining value rng })
  | recorded (remaining : F64) (value : Quartiles) (rng : σ)
      (hwait : task.wait = .recording remaining value rng) (id : String) :
    Answers T addNoise task (.ok (.published id))
      (proceed T task.job task.rest (task.done.release task.bucket.1 value
        task.job.call.cohort.epsilonPerMetric remaining rng))

variable {result : Except LedgerError Response}

theorem Task.answer_eq_some {out : Outcome σ} :
    task.answer T addNoise result = some out ↔ task.Answers T addNoise result out := by
  constructor
  · intro h
    cases result with
    | error e =>
      obtain rfl := Option.some.inj h
      exact .failed e
    | ok response =>
      cases hwait : task.wait with
      | ensuring =>
        simp only [Task.answer, hwait] at h
        cases response with
        | decision | published => cases h
        | done =>
          obtain rfl := Option.some.inj h
          exact .ensured hwait
      | asking =>
        simp only [Task.answer, hwait] at h
        cases response with
        | done | published => cases h
        | decision d =>
          cases d with
          | denied reason used cap =>
            obtain rfl := Option.some.inj h
            exact .denied hwait reason used cap
          | approved remaining =>
            obtain rfl := Option.some.inj h
            exact .approved hwait remaining _ _ rfl
      | recording remaining value rng =>
        simp only [Task.answer, hwait] at h
        cases response with
        | done | decision => cases h
        | published id =>
          obtain rfl := Option.some.inj h
          exact .recorded remaining value rng hwait id
  · intro h
    cases h with
    | failed e => rfl
    | ensured hwait => simp only [Task.answer, hwait]
    | denied hwait reason used cap => simp only [Task.answer, hwait]
    | approved hwait remaining value rng hnoise => simp only [Task.answer, hwait, hnoise]
    | recorded remaining value rng hwait id => simp only [Task.answer, hwait]

theorem Task.Awaits.receipt_eq_nil (h : task.Awaits T phase)
    (hwait : ∀ remaining value rng, task.wait ≠ .recording remaining value rng) :
    phase.receipt = [] := by
  apply Phase.receipt_eq_nil
  intro p hp
  obtain ⟨⟨remaining, value, rng, hw⟩, -, -⟩ := h.makes hp
  exact hwait remaining value rng hw

theorem Task.Awaits.receipt_eq (h : task.Awaits T phase) {response : Response}
    (hanswer : phase.answer = some (.ok response)) {remaining : F64} {value : Quartiles} {rng : σ}
    (hwait : task.wait = .recording remaining value rng) :
    ∃ p, phase.receipt = [p] ∧ p.key = task.job.call.key task.bucket.1 ∧
      task.job.call.cohort.epsilonPerMetric = .finite p.epsilon := by
  cases phase with
  | idle | pooling | connected | within => cases hanswer
  | rejected e => cases hanswer
  | returned c r =>
    obtain rfl : r = .ok response := Option.some.inj hanswer
    have hmakes : task.Makes c := h.makes rfl
    cases c with
    | rotateCycle k caps => exact hmakes.elim
    | ensureCycle k caps =>
      have hensuring : task.wait = .ensuring := hmakes
      rw [hwait] at hensuring
      cases hensuring
    | canPublish k eps delta =>
      have hasking : task.wait = .asking := hmakes
      rw [hwait] at hasking
      cases hasking
    | recordPublication p => exact ⟨p, rfl, hmakes.2⟩

theorem sound_answer {out : Outcome σ} (hsound : task.Sound charges) (hawaits : task.Awaits T phase)
    (hanswer : phase.answer = some result) (h : task.answer T addNoise result = some out) :
    out.Sound task.job.call (charges ++ phase.receipt) := by
  cases Task.answer_eq_some.mp h with
  | failed e => trivial
  | ensured hwait =>
    rw [hawaits.receipt_eq_nil (by simp [hwait]), List.append_nil]
    exact ⟨rfl, hsound.loop, hsound.reached⟩
  | denied hwait reason used cap =>
    rw [hawaits.receipt_eq_nil (by simp [hwait]), List.append_nil]
    exact sound_proceed (hsound.loop.withhold _)
  | approved hwait remaining value rng hnoise =>
    rw [hawaits.receipt_eq_nil (by simp [hwait]), List.append_nil]
    exact ⟨rfl, hsound.loop, hsound.reached⟩
  | recorded remaining value rng hwait id =>
    obtain ⟨p, hp, hkey, heps⟩ := hawaits.receipt_eq hanswer hwait
    rw [hp]
    exact sound_proceed (hsound.loop.release hsound.reached hkey heps)

end Answer

end SauronId.Aggregation
