import SauronId.Aggregation.Release

namespace SauronId.Aggregation

open Dp Lib Lib.Run

inductive Status (σ : Type)
  | idle
  | running (number : ℕ) (task : Task σ)
  | returned (result : Except PublishError PublishedCohort)

structure Output (σ : Type) where
  number : ℕ
  call : PublishCall σ
  result : Except PublishError PublishedCohort

def Output.metrics {σ : Type} (o : Output σ) : List PublishedMetric :=
  match o.result with
  | .ok published => published.metrics
  | .error _ => []

/-- Publications that share the ledger. They are numbered in the order they
begin. `issued` keeps the rows of the trail the ledger has reported, with the
number of the publication it reported them to. -/
structure Publishers (ι σ : Type) where
  ledger : World ι
  status : ι → Status σ
  started : ℕ
  issued : List (ℕ × Publication)
  outputs : List (Output σ)

/-- A caller begins a publication, the next statement of its call of the ledger
is executed, or it goes on with the answer of the ledger. -/
inductive PublishEvent (ι σ : Type)
  | publish (i : ι) (call : PublishCall σ)
  | statement (i : ι) (fault : Option String)
  | resume (i : ι) (now : ℤ) (random : List UInt8)

namespace Publishers

variable {ι σ : Type}

def init (db : LedgerDb) : Publishers ι σ := ⟨World.init db, fun _ ↦ .idle, 0, [], []⟩

def charges (w : Publishers ι σ) (number : ℕ) : List Publication :=
  (w.issued.filter (fun x ↦ x.1 = number)).map Prod.snd

def pending (w : Publishers ι σ) (i : ι) : List Publication :=
  match w.status i with
  | .running _ _ => (w.ledger.phase i).receipt
  | _ => []

def releasedEpsilon (w : Publishers ι σ) (k : CycleKey) : ℚ :=
  (w.outputs.map (fun o ↦ sumWhere (fun m ↦ !m.suppressed && decide (o.call.key m.metricId = k))
    (fun m ↦ m.noiseEps.value) o.metrics)).sum

variable [DecidableEq ι]

def enter (w : Publishers ι σ) (i : ι) : Publishers ι σ :=
  { w with started := w.started + 1, status := Function.update w.status i .idle }

def collect (w : Publishers ι σ) (i : ι) (number : ℕ) : Publishers ι σ :=
  { w with
    issued := w.issued ++ (w.ledger.phase i).receipt.map (Prod.mk number)
    status := Function.update w.status i .idle }

def settle (T : PublishText) (w : Publishers ι σ) (i : ι) (number : ℕ) (call : PublishCall σ)
    (now : ℤ) (random : List UInt8) : Outcome σ → Option (Publishers ι σ)
  | .waiting task =>
    (Dp.next T.toFloatText w.ledger (.call i (task.request now random))).map (fun ledger ↦
      { w with
        ledger := ledger
        status := Function.update w.status i (.running number task) })
  | .finished result => some
    { w with
      status := Function.update w.status i (.returned result)
      outputs := w.outputs ++ [⟨number, call, result⟩] }

def next (T : PublishText) (addNoise : AddNoise σ) (w : Publishers ι σ) :
    PublishEvent ι σ → Option (Publishers ι σ)
  | .publish i call =>
    match w.status i with
    | .running _ _ => none
    -- The first call of the ledger does not charge: it reads no clock and no random bytes.
    | _ => (w.enter i).settle T i w.started call call.nowEpochSecs [] (begin T call)
  | .statement i fault =>
    match w.status i with
    | .running _ _ =>
      (Dp.next T.toFloatText w.ledger (.step i fault)).map (fun ledger ↦ { w with ledger := ledger })
    | _ => none
  | .resume i now random =>
    match w.status i, (w.ledger.phase i).answer with
    | .running number task, some result =>
      (task.answer T addNoise result).bind
        ((w.collect i number).settle T i number task.job.call now random)
    | _, _ => none

end Publishers

namespace Outcome

variable {σ : Type}

def status (number : ℕ) : Outcome σ → Status σ
  | .waiting task => .running number task
  | .finished result => .returned result

def outputs (number : ℕ) (call : PublishCall σ) : Outcome σ → List (Output σ)
  | .waiting _ => []
  | .finished result => [⟨number, call, result⟩]

theorem mem_outputs {out : Outcome σ} {number : ℕ} {call : PublishCall σ} {o : Output σ} :
    o ∈ out.outputs number call ↔
      ∃ result, out = .finished result ∧ o = ⟨number, call, result⟩ := by
  cases out <;> simp [outputs]

end Outcome

namespace Publishers

variable {ι σ : Type}

/-- What a publication does to the world when it calls the ledger or returns. -/
structure Settled (T : PublishText) (w : Publishers ι σ) (i : ι) (number : ℕ)
    (call : PublishCall σ) (out : Outcome σ) (w' : Publishers ι σ) : Prop where
  started : w'.started = w.started
  issued : w'.issued = w.issued
  shared : w'.ledger.shared = w.ledger.shared
  others : ∀ j, j ≠ i → w'.status j = w.status j ∧ w'.ledger.phase j = w.ledger.phase j
  status : w'.status i = out.status number
  outputs : w'.outputs = w.outputs ++ out.outputs number call
  steady : ∀ {db}, Steady db w.ledger → Steady db w'.ledger
  calls : ∀ task, out = .waiting task →
    task.Awaits T (w'.ledger.phase i) ∧ (w'.ledger.phase i).receipt = []

variable {T : PublishText} {w w' : Publishers ι σ} {i j : ι} {number n : ℕ}
  {call : PublishCall σ} {out : Outcome σ} {task : Task σ}

theorem settled [DecidableEq ι] {now : ℤ} {random : List UInt8}
    (h : w.settle T i number call now random out = some w') :
    Settled T w i number call out w' := by
  cases out with
  | finished result =>
    have hcalls : ∀ task : Task σ, Outcome.finished result = .waiting task →
        task.Awaits T (w.ledger.phase i) ∧ (w.ledger.phase i).receipt = [] := by
      intro task htask
      cases htask
    obtain rfl := Option.some.inj h
    exact ⟨rfl, rfl, rfl, fun j hj ↦ by simp [hj], by simp [Outcome.status], rfl, id, hcalls⟩
  | waiting task =>
    obtain ⟨ledger, hledger, rfl⟩ := Option.map_eq_some_iff.mp h
    refine ⟨rfl, rfl, shared_call hledger, fun j hj ↦ ⟨by simp [hj], phase_call hledger hj⟩,
      by simp [Outcome.status], by simp [Outcome.outputs],
      fun hw ↦ hw.call (fun c hc ↦ (makes_of_check hc).tame) hledger, ?_⟩
    intro task' htask
    cases htask
    obtain ⟨-, ⟨e, -, rfl⟩ | ⟨c, hc, rfl⟩⟩ := call_eq_some hledger
    · simp [Task.Awaits, Phase.call, Phase.receipt]
    · simp only [Locked.phase_move]
      refine ⟨fun c' hc' ↦ ?_, rfl⟩
      cases hc'
      exact ⟨now, random, hc⟩

theorem Settled.running (h : Settled T w i number call out w')
    (hj : w'.status j = .running n task) :
    (j ≠ i ∧ w.status j = .running n task) ∨ (j = i ∧ n = number ∧ out = .waiting task) := by
  by_cases hji : j = i
  · subst hji
    rw [h.status] at hj
    cases out with
    | waiting task' =>
      cases hj
      exact .inr ⟨rfl, rfl, rfl⟩
    | finished result => cases hj
  · exact .inl ⟨hji, (h.others j hji).1 ▸ hj⟩

theorem Settled.pending (h : Settled T w i number call out w') (hi : w.status i = .idle) (j : ι) :
    w'.pending j = w.pending j := by
  by_cases hj : j = i
  · subst hj
    have hnone : w.pending j = [] := by simp [Publishers.pending, hi]
    rw [hnone, Publishers.pending, h.status]
    cases out with
    | waiting task => exact (h.calls task rfl).2
    | finished result => rfl
  · simp only [Publishers.pending, h.others j hj]

theorem Settled.charges (h : Settled T w i number call out w') (n : ℕ) :
    w'.charges n = w.charges n := by
  rw [Publishers.charges, h.issued, Publishers.charges]

end Publishers

end SauronId.Aggregation
