import SauronId.Aggregation.Publishers

namespace SauronId.Aggregation.Publishers

open Dp Lib Lib.Run

variable {ι σ : Type}

/-- Every row that was added to the trail of `db` belongs to one publication. -/
structure Owned (db : LedgerDb) (w : Publishers ι σ) : Prop where
  kept : db.publications.rows ⊆ w.ledger.shared.publications.rows
  nodup : (w.issued.map Prod.snd).Nodup
  issued : ∀ p ∈ w.issued.map Prod.snd,
    p ∈ w.ledger.shared.publications.rows ∧ p ∉ db.publications.rows
  pending : ∀ i, ∀ p ∈ w.pending i, p ∈ w.ledger.shared.publications.rows ∧
    p ∉ db.publications.rows ∧ p ∉ w.issued.map Prod.snd
  apart : ∀ i j p, p ∈ w.pending i → p ∈ w.pending j → i = j
  covered : ∀ p ∈ w.ledger.shared.publications.rows,
    p ∈ db.publications.rows ∨ p ∈ w.issued.map Prod.snd ∨ ∃ i, p ∈ w.pending i

def Unused (w : Publishers ι σ) (number : ℕ) : Prop :=
  number < w.started ∧ (∀ i task, w.status i ≠ .running number task) ∧
    ∀ o ∈ w.outputs, o.number ≠ number

structure Numbered (w : Publishers ι σ) : Prop where
  running : ∀ i number task, w.status i = .running number task →
    number < w.started ∧ ∀ o ∈ w.outputs, o.number ≠ number
  apart : ∀ i j number task task', w.status i = .running number task →
    w.status j = .running number task' → i = j
  outputs : ∀ o ∈ w.outputs, o.number < w.started
  distinct : (w.outputs.map Output.number).Nodup
  issued : ∀ x ∈ w.issued, x.1 < w.started

structure Accounted (T : PublishText) (w : Publishers ι σ) : Prop where
  awaits : ∀ i number task, w.status i = .running number task → task.Awaits T (w.ledger.phase i)
  tasks : ∀ i number task, w.status i = .running number task → task.Sound (w.charges number)
  outputs : ∀ o ∈ w.outputs, (Outcome.finished o.result).Sound o.call (w.charges o.number)

structure Invariant (T : PublishText) (db : LedgerDb) (w : Publishers ι σ) : Prop where
  steady : Steady db w.ledger
  owned : Owned db w
  numbered : Numbered w
  accounted : Accounted T w

variable {T : PublishText} {addNoise : AddNoise σ} {db : LedgerDb} {w w' : Publishers ι σ} {i : ι}
  {number : ℕ} {task : Task σ} {call : PublishCall σ} {out : Outcome σ}

theorem Owned.congr (h : Owned db w)
    (hrows : w'.ledger.shared.publications.rows = w.ledger.shared.publications.rows)
    (hissued : w'.issued = w.issued) (hpending : ∀ j, w'.pending j = w.pending j) :
    Owned db w' := by
  refine ⟨hrows ▸ h.kept, hissued ▸ h.nodup, ?_, ?_, ?_, ?_⟩
  · rw [hissued, hrows]
    exact h.issued
  · intro j
    rw [hissued, hrows, hpending]
    exact h.pending j
  · intro j k p
    rw [hpending, hpending]
    exact h.apart j k p
  · simp only [hissued, hrows, hpending]
    exact h.covered

theorem pending_of_idle (h : ∀ n t, w.status i ≠ .running n t) : w.pending i = [] := by
  unfold Publishers.pending
  cases hs : w.status i with
  | idle => rfl
  | running n t => exact absurd hs (h n t)
  | returned result => rfl

theorem pending_of_running (h : w.status i = .running number task) :
    w.pending i = (w.ledger.phase i).receipt := by
  rw [Publishers.pending, h]

section Budget

variable {k : CycleKey}

theorem sum_charged {metrics : List PublishedMetric} {charges : List Publication}
    (h : List.Forall₂ (Charged call) metrics charges) :
    sumWhere (fun m ↦ decide (call.key m.metricId = k)) (fun m ↦ m.noiseEps.value) metrics =
      sumWhere (fun p ↦ decide (p.key = k)) (fun p ↦ (p.epsilon : ℚ)) charges := by
  induction h with
  | nil => rfl
  | @cons m p metrics charges hmp _ ih =>
    rw [sumWhere_cons, sumWhere_cons, ih, ← hmp.1, hmp.2]
    rfl

theorem Accounted.released_le (hw : Accounted T w) {o : Output σ} (ho : o ∈ w.outputs) :
    sumWhere (fun m ↦ !m.suppressed && decide (o.call.key m.metricId = k))
        (fun m ↦ m.noiseEps.value) o.metrics ≤
      sumWhere (fun p ↦ decide (p.key = k)) (fun p ↦ (p.epsilon : ℚ)) (w.charges o.number) := by
  have hsound := hw.outputs o ho
  unfold Output.metrics
  cases hresult : o.result with
  | ok published =>
    rw [hresult] at hsound
    rw [← sumWhere_filter, sum_charged hsound.charged]
  | error e => exact sumWhere_nonneg (fun p _ ↦ p.epsilon.2)

theorem Accounted.releasedEpsilon_le_issued (hw : Accounted T w) : w.releasedEpsilon k ≤
    ((w.outputs.map Output.number).map (fun n ↦
      sumWhere (fun x ↦ decide (x.1 = n) && decide (x.2.key = k)) (fun x ↦ (x.2.epsilon : ℚ))
        w.issued)).sum := by
  rw [releasedEpsilon, List.map_map]
  refine List.sum_le_sum (fun o ho ↦ (hw.released_le ho).trans_eq ?_)
  rw [charges, sumWhere_map, sumWhere_filter]
  rfl

theorem Invariant.releasedEpsilon_le (hw : Invariant T db w) {p : Publication}
    (hp : p ∈ w.issued.map Prod.snd) {l : LedgerEntry} (hl : l ∈ w.ledger.shared.ledger.rows)
    (hkey : l.key = p.key) : w.releasedEpsilon l.key ≤ l.epsilonCap := by
  have hpos : ∀ x ∈ w.issued, (0 : ℚ) ≤ x.2.epsilon := fun x _ ↦ x.2.epsilon.2
  have hsub : w.issued.map Prod.snd ⊆ w.ledger.shared.publications.rows :=
    fun p hp ↦ (hw.owned.issued p hp).1
  calc w.releasedEpsilon l.key
      ≤ sumWhere (fun x ↦ decide (x.1 ∈ w.outputs.map Output.number) && decide (x.2.key = l.key))
          (fun x ↦ (x.2.epsilon : ℚ)) w.issued := by
        rw [← sum_map_sumWhere _ hw.numbered.distinct]
        exact hw.accounted.releasedEpsilon_le_issued
    _ ≤ sumWhere (fun x ↦ decide (x.2.key = l.key)) (fun x ↦ (x.2.epsilon : ℚ)) w.issued := by
        refine sumWhere_mono hpos (fun x _ hx ↦ ?_)
        exact (Bool.and_eq_true _ _ ▸ hx).2
    _ = sumWhere (fun p ↦ decide (p.key = l.key)) (fun p ↦ (p.epsilon : ℚ))
          (w.issued.map Prod.snd) := by
        rw [sumWhere_map]
    _ ≤ published w.ledger.shared l.key Publication.epsilon :=
        sumWhere_le_of_subset (fun p _ ↦ p.epsilon.2) hw.owned.nodup hsub
    _ = l.epsilonSpent := (hw.steady.invariant.balanced.epsilon l hl).symm
    _ ≤ l.epsilonCap :=
        hw.steady.capped p (hw.owned.issued p hp).1 (hw.owned.issued p hp).2 l hl hkey

end Budget

section Settle

variable (hi : w.status i = .idle) (h : Settled T w i number call out w')

include h

include hi in
theorem Owned.settled (hw : Owned db w) : Owned db w' :=
  hw.congr (congrArg (fun d ↦ d.publications.rows) h.shared) h.issued (h.pending hi)

theorem Numbered.settled (hw : Numbered w) (hunused : Unused w number) : Numbered w' := by
  obtain ⟨hlt, hstatus, houtputs⟩ := hunused
  constructor
  · intro j n t hj
    rw [h.started, h.outputs]
    rcases h.running hj with ⟨-, hj⟩ | ⟨-, rfl, rfl⟩
    · obtain ⟨hn, ho⟩ := hw.running j n t hj
      refine ⟨hn, fun o hmem ↦ ?_⟩
      rcases List.mem_append.mp hmem with hmem | hmem
      · exact ho o hmem
      · obtain ⟨result, -, rfl⟩ := Outcome.mem_outputs.mp hmem
        rintro rfl
        exact hstatus j t hj
    · simpa [Outcome.outputs] using ⟨hlt, houtputs⟩
  · intro j k n t t' hj hk
    rcases h.running hj with ⟨-, hj⟩ | ⟨rfl, rfl, -⟩
    · rcases h.running hk with ⟨-, hk⟩ | ⟨-, rfl, -⟩
      · exact hw.apart j k n t t' hj hk
      · exact absurd hj (hstatus j t)
    · rcases h.running hk with ⟨-, hk⟩ | ⟨rfl, -, -⟩
      · exact absurd hk (hstatus k t')
      · rfl
  · intro o ho
    rw [h.outputs] at ho
    rw [h.started]
    rcases List.mem_append.mp ho with ho | ho
    · exact hw.outputs o ho
    · obtain ⟨result, -, rfl⟩ := Outcome.mem_outputs.mp ho
      exact hlt
  · rw [h.outputs, List.map_append, List.nodup_append]
    refine ⟨hw.distinct, ?_, ?_⟩
    · cases out with
      | waiting task => exact List.nodup_nil
      | finished result => exact List.nodup_singleton _
    · intro n hn n' hn'
      obtain ⟨o, ho, rfl⟩ := List.mem_map.mp hn
      obtain ⟨o', ho', rfl⟩ := List.mem_map.mp hn'
      obtain ⟨result, -, rfl⟩ := Outcome.mem_outputs.mp ho'
      exact houtputs o ho
  · rw [h.issued, h.started]
    exact hw.issued

theorem Accounted.settled (hw : Accounted T w) (hout : out.Sound call (w.charges number)) :
    Accounted T w' := by
  constructor
  · intro j n t hj
    rcases h.running hj with ⟨hne, hj⟩ | ⟨rfl, -, ht⟩
    · rw [(h.others j hne).2]
      exact hw.awaits j n t hj
    · exact (h.calls t ht).1
  · intro j n t hj
    rw [h.charges]
    rcases h.running hj with ⟨-, hj⟩ | ⟨-, rfl, rfl⟩
    · exact hw.tasks j n t hj
    · exact hout.2
  · intro o ho
    rw [h.charges]
    rw [h.outputs] at ho
    rcases List.mem_append.mp ho with ho | ho
    · exact hw.outputs o ho
    · obtain ⟨result, rfl, rfl⟩ := Outcome.mem_outputs.mp ho
      exact hout

end Settle

section Enter

variable [DecidableEq ι]

theorem status_enter : (w.enter i).status i = .idle := by simp [enter]

theorem status_collect : (w.collect i number).status i = .idle := by simp [collect]

theorem running_update {s : ι → Status σ} {j : ι} {n : ℕ} {t : Task σ}
    (h : Function.update s i .idle j = .running n t) : j ≠ i ∧ s j = .running n t := by
  by_cases hj : j = i
  · subst hj
    simp at h
  · exact ⟨hj, by simpa [hj] using h⟩

section Begin

variable (hi : ∀ n t, w.status i ≠ .running n t)

include hi in
theorem Owned.enter (hw : Owned db w) : Owned db (w.enter i) := by
  refine hw.congr rfl rfl (fun j ↦ ?_)
  by_cases hj : j = i
  · subst hj
    rw [pending_of_idle hi, pending_of_idle (by simp [status_enter])]
  · simp [Publishers.pending, Publishers.enter, hj]

theorem Numbered.enter (hw : Numbered w) :
    Numbered (w.enter i) ∧ Unused (w.enter i) w.started := by
  refine ⟨⟨?_, ?_, ?_, hw.distinct, ?_⟩, Nat.lt_succ_self _, ?_, ?_⟩
  · intro j n t hj
    obtain ⟨hn, ho⟩ := hw.running j n t (running_update hj).2
    exact ⟨Nat.lt_succ_of_lt hn, ho⟩
  · intro j k n t t' hj hk
    exact hw.apart j k n t t' (running_update hj).2 (running_update hk).2
  · exact fun o ho ↦ Nat.lt_succ_of_lt (hw.outputs o ho)
  · exact fun x hx ↦ Nat.lt_succ_of_lt (hw.issued x hx)
  · intro j t hj
    exact absurd (hw.running j _ t (running_update hj).2).1 (lt_irrefl _)
  · intro o ho
    exact (hw.outputs o ho).ne

omit [DecidableEq ι] in
theorem Numbered.charges_started (hw : Numbered w) : w.charges w.started = [] := by
  refine List.map_eq_nil_iff.mpr (List.filter_eq_nil_iff.mpr (fun x hx ↦ ?_))
  simpa using (hw.issued x hx).ne

theorem Accounted.enter (hw : Accounted T w) : Accounted T (w.enter i) where
  awaits j n t hj := hw.awaits j n t (running_update hj).2
  tasks j n t hj := hw.tasks j n t (running_update hj).2
  outputs := hw.outputs

end Begin

section Collect

variable (hi : w.status i = .running number task)

theorem charges_collect (n : ℕ) : (w.collect i number).charges n =
    w.charges n ++ if n = number then (w.ledger.phase i).receipt else [] := by
  unfold charges collect
  rw [List.filter_append, List.map_append]
  congr 1
  split_ifs with hn
  · subst hn
    rw [List.filter_eq_self.mpr (by simp), List.map_map]
    exact List.map_id _
  · rw [List.filter_eq_nil_iff.mpr (by simp [Ne.symm hn])]
    rfl

theorem receipt_nodup (phase : Phase) : phase.receipt.Nodup := by
  unfold Phase.receipt
  split
  · exact List.nodup_singleton _
  · exact List.nodup_nil

theorem map_issued_collect : (w.collect i number).issued.map Prod.snd =
    w.issued.map Prod.snd ++ (w.ledger.phase i).receipt := by
  simp [collect, Function.comp_def]

theorem pending_collect {j : ι} {p : Publication} (hp : p ∈ (w.collect i number).pending j) :
    j ≠ i ∧ p ∈ w.pending j := by
  by_cases hj : j = i
  · subst hj
    rw [pending_of_idle (by simp [status_collect])] at hp
    exact absurd hp List.not_mem_nil
  · refine ⟨hj, ?_⟩
    simpa [Publishers.pending, collect, hj] using hp

include hi

theorem Owned.collect (hw : Owned db w) : Owned db (w.collect i number) := by
  have hreceipt := pending_of_running hi
  constructor
  · exact hw.kept
  · rw [map_issued_collect, List.nodup_append]
    refine ⟨hw.nodup, receipt_nodup _, fun p hp q hq hpq ↦ ?_⟩
    exact (hw.pending i q (hreceipt ▸ hq)).2.2 (hpq ▸ hp)
  · intro p hp
    rw [map_issued_collect] at hp
    rcases List.mem_append.mp hp with hp | hp
    · exact hw.issued p hp
    · obtain ⟨hrow, hdb, -⟩ := hw.pending i p (hreceipt ▸ hp)
      exact ⟨hrow, hdb⟩
  · intro j p hp
    obtain ⟨hj, hp⟩ := pending_collect hp
    obtain ⟨hrow, hdb, hissued⟩ := hw.pending j p hp
    refine ⟨hrow, hdb, ?_⟩
    rw [map_issued_collect, List.mem_append, not_or]
    refine ⟨hissued, fun hmem ↦ hj ?_⟩
    exact hw.apart j i p hp (hreceipt ▸ hmem)
  · intro j k p hj hk
    exact hw.apart j k p (pending_collect hj).2 (pending_collect hk).2
  · intro p hp
    rw [map_issued_collect]
    rcases hw.covered p hp with hdb | hissued | ⟨j, hpending⟩
    · exact .inl hdb
    · exact .inr (.inl (List.mem_append_left _ hissued))
    · by_cases hj : j = i
      · subst hj
        exact .inr (.inl (List.mem_append_right _ (hreceipt ▸ hpending)))
      · refine .inr (.inr ⟨j, ?_⟩)
        simpa [Publishers.pending, Publishers.collect, hj] using hpending

theorem Numbered.collect (hw : Numbered w) :
    Numbered (w.collect i number) ∧ Unused (w.collect i number) number := by
  obtain ⟨hlt, houtputs⟩ := hw.running i number task hi
  refine ⟨⟨?_, ?_, hw.outputs, hw.distinct, ?_⟩, hlt, ?_, houtputs⟩
  · exact fun j n t hj ↦ hw.running j n t (running_update hj).2
  · exact fun j k n t t' hj hk ↦ hw.apart j k n t t' (running_update hj).2 (running_update hk).2
  · intro x hx
    rcases List.mem_append.mp hx with hx | hx
    · exact hw.issued x hx
    · obtain ⟨p, -, rfl⟩ := List.mem_map.mp hx
      exact hlt
  · intro j t hj
    obtain ⟨hne, hj⟩ := running_update hj
    exact hne (hw.apart j i number t task hj hi)

theorem Accounted.collect (hnum : Numbered w) (hw : Accounted T w) :
    Accounted T (w.collect i number) := by
  constructor
  · exact fun j n t hj ↦ hw.awaits j n t (running_update hj).2
  · intro j n t hj
    obtain ⟨hne, hrunning⟩ := running_update hj
    have hn : n ≠ number := by
      rintro rfl
      exact hne (hnum.apart j i n t task hrunning hi)
    rw [charges_collect, if_neg hn, List.append_nil]
    exact hw.tasks j n t hrunning
  · intro o ho
    have hn : o.number ≠ number := (hnum.running i number task hi).2 o ho
    rw [charges_collect, if_neg hn, List.append_nil]
    exact hw.outputs o ho

end Collect

end Enter

section Statement

variable {ledger : World ι} (hi : w.status i = .running number task)
  (hstep : Stepped w.ledger i ledger)

include hi hstep

theorem Owned.statement (hbefore : (w.ledger.phase i).receipt = []) (hw : Owned db w) :
    Owned db { w with ledger := ledger } := by
  obtain ⟨hrows, hfresh⟩ := hstep.rows
  have hold : ∀ p, p ∈ w.ledger.shared.publications.rows → p ∈ ledger.shared.publications.rows := by
    intro p hp
    rw [hrows]
    exact List.mem_append_left _ hp
  -- The row a statement has just reported is the only one that becomes pending.
  have hself : Publishers.pending { w with ledger := ledger } i = (ledger.phase i).receipt :=
    pending_of_running hi
  have hother : ∀ j, j ≠ i → Publishers.pending { w with ledger := ledger } j = w.pending j := by
    intro j hj
    simp only [Publishers.pending, hstep.others j hj]
  have hnone : w.pending i = [] := (pending_of_running hi).trans hbefore
  constructor
  · exact fun p hp ↦ hold p (hw.kept hp)
  · exact hw.nodup
  · exact fun p hp ↦ (hw.issued p hp).imp_left (hold p)
  · intro j p hp
    by_cases hj : j = i
    · subst hj
      rw [hself] at hp
      have hnew := hfresh p hp
      refine ⟨?_, fun hdb ↦ hnew (hw.kept hdb), fun hissued ↦ hnew (hw.issued p hissued).1⟩
      rw [hrows]
      exact List.mem_append_right _ hp
    · rw [hother j hj] at hp
      exact (hw.pending j p hp).imp_left (hold p)
  · -- A pending row of another caller was on the trail before.
    have hapart : ∀ j p, j ≠ i → p ∈ (ledger.phase i).receipt → p ∉ w.pending j :=
      fun j p _ hp hpj ↦ hfresh p hp (hw.pending j p hpj).1
    intro j k p hj hk
    by_cases hji : j = i
    · by_cases hki : k = i
      · rw [hji, hki]
      · rw [hji, hself] at hj
        rw [hother k hki] at hk
        exact absurd hk (hapart k p hki hj)
    · rw [hother j hji] at hj
      by_cases hki : k = i
      · rw [hki, hself] at hk
        exact absurd hj (hapart j p hji hk)
      · rw [hother k hki] at hk
        exact hw.apart j k p hj hk
  · intro p hp
    rw [hrows] at hp
    rcases List.mem_append.mp hp with hp | hp
    · refine (hw.covered p hp).imp_right (Or.imp_right ?_)
      rintro ⟨j, hj⟩
      have hne : j ≠ i := by
        rintro rfl
        rw [hnone] at hj
        exact absurd hj List.not_mem_nil
      exact ⟨j, (hother j hne).symm ▸ hj⟩
    · exact .inr (.inr ⟨i, hself.symm ▸ hp⟩)

theorem Accounted.statement (hw : Accounted T w) : Accounted T { w with ledger := ledger } := by
  refine ⟨?_, hw.tasks, hw.outputs⟩
  intro j n t hj
  by_cases hji : j = i
  · subst hji
    intro c hc
    exact hw.awaits j n t hj c (hstep.call ▸ hc)
  · simpa only [hstep.others j hji] using hw.awaits j n t hj

end Statement

variable [DecidableEq ι] {e : PublishEvent ι σ}

omit [DecidableEq ι] in
theorem Numbered.withLedger {ledger : World ι} (hw : Numbered w) :
    Numbered { w with ledger := ledger } :=
  ⟨hw.running, hw.apart, hw.outputs, hw.distinct, hw.issued⟩

theorem invariant_publish {call : PublishCall σ} (hw : Invariant T db w)
    (h : next T addNoise w (.publish i call) = some w') : Invariant T db w' := by
  have hi : ∀ n t, w.status i ≠ .running n t := by
    intro n t hs
    simp [next, hs] at h
  have hsettle : (w.enter i).settle T i w.started call call.nowEpochSecs [] (begin T call) =
      some w' := by
    cases hs : w.status i with
    | running n t => exact absurd hs (hi n t)
    | idle => simpa only [next, hs] using h
    | returned result => simpa only [next, hs] using h
  have hsettled := settled hsettle
  obtain ⟨hnumbered, hunused⟩ := hw.numbered.enter (i := i)
  have hsound : (begin T call).Sound call ((w.enter i).charges w.started) := by
    have hnone : (w.enter i).charges w.started = [] := hw.numbered.charges_started
    rw [hnone]
    exact sound_begin call
  exact ⟨hsettled.steady hw.steady, (hw.owned.enter hi).settled status_enter hsettled,
    hnumbered.settled hsettled hunused, hw.accounted.enter.settled hsettled hsound⟩

theorem invariant_statement {fault : Option String} (hw : Invariant T db w)
    (h : next T addNoise w (.statement i fault) = some w') : Invariant T db w' := by
  cases hi : w.status i with
  | idle => simp [next, hi] at h
  | returned result => simp [next, hi] at h
  | running number task =>
    simp only [next, hi] at h
    obtain ⟨ledger, hledger, rfl⟩ := Option.map_eq_some_iff.mp h
    have hstep := stepped_step hw.steady.invariant hledger
    exact ⟨hw.steady.step hledger, hw.owned.statement hi hstep (receipt_of_step hledger),
      hw.numbered.withLedger, hw.accounted.statement hi hstep⟩

theorem invariant_resume {now : ℤ} {random : List UInt8} (hw : Invariant T db w)
    (h : next T addNoise w (.resume i now random) = some w') : Invariant T db w' := by
  cases hi : w.status i with
  | idle => simp [next, hi] at h
  | returned result => simp [next, hi] at h
  | running number task =>
    cases hanswer : (w.ledger.phase i).answer with
    | none => simp [next, hi, hanswer] at h
    | some result =>
      simp only [next, hi, hanswer] at h
      obtain ⟨out, hout, hsettle⟩ := Option.bind_eq_some_iff.mp h
      have hsettled := settled hsettle
      obtain ⟨hnumbered, hunused⟩ := hw.numbered.collect hi
      have hsound : out.Sound task.job.call ((w.collect i number).charges number) := by
        rw [charges_collect, if_pos rfl]
        exact sound_answer (hw.accounted.tasks i number task hi)
          (hw.accounted.awaits i number task hi) hanswer hout
      exact ⟨hsettled.steady hw.steady, (hw.owned.collect hi).settled status_collect hsettled,
        hnumbered.settled hsettled hunused,
        (hw.accounted.collect hi hw.numbered).settled hsettled hsound⟩

theorem invariant_next (hw : Invariant T db w) (h : next T addNoise w e = some w') :
    Invariant T db w' := by
  cases e with
  | publish i call => exact invariant_publish hw h
  | statement i fault => exact invariant_statement hw h
  | resume i now random => exact invariant_resume hw h

omit [DecidableEq ι] in
theorem invariant_init (hdb : Balanced db) :
    Invariant T db (init db : Publishers ι σ) where
  steady := steady_init hdb
  owned := {
    kept := fun _ hp ↦ hp
    nodup := List.nodup_nil
    issued := fun p hp ↦ absurd hp List.not_mem_nil
    pending := fun i p hp ↦ absurd hp List.not_mem_nil
    apart := fun i j p hp ↦ absurd hp List.not_mem_nil
    covered := fun p hp ↦ .inl hp }
  numbered := {
    running := fun i n t hi ↦ by cases hi
    apart := fun i j n t t' hi ↦ by cases hi
    outputs := fun o ho ↦ absurd ho List.not_mem_nil
    distinct := List.nodup_nil
    issued := fun x hx ↦ absurd hx List.not_mem_nil }
  accounted := {
    awaits := fun i n t hi ↦ by cases hi
    tasks := fun i n t hi ↦ by cases hi
    outputs := fun o ho ↦ absurd ho List.not_mem_nil }

theorem invariant_run {es : List (PublishEvent ι σ)} (hdb : Balanced db)
    (h : run (next T addNoise) (init db) es = some w) : Invariant T db w := by
  have hany : Along (next T addNoise) (fun _ _ ↦ True) (init db) es := along_true _ _
  exact run_invariant (fun v e v' hv _ hn ↦ invariant_next hv hn) (invariant_init hdb)
    hany h

end SauronId.Aggregation.Publishers
