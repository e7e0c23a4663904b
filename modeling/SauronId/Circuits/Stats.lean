import SauronId.Circuits.ActionLog

namespace SauronId.Circuits

open Lib.Gadgets

variable {K : Circomlib} {T : Set (List Fr)} {levels fields N : ℕ}

/-! ### Receipts -/

section Schema

variable (hfields : 7 ≤ fields) (e : Entry fields)

def statusBit : Fr := e ⟨0, by omega⟩

def latencyMs : Fr := e ⟨1, by omega⟩

def amountMilli : Fr := e ⟨2, by omega⟩

def receiptTool : Fr := e ⟨3, by omega⟩

def receiptTenant : Fr := e ⟨4, by omega⟩

def receiptAgent : Fr := e ⟨5, by omega⟩

def createdAt : Fr := e ⟨6, by omega⟩

end Schema

structure Sums (R : Type) where
  (status latency amount tool denied : R)

inductive Metric
  | successRate
  | errorRate
  | toolCallCount
  | costTotal
  | policyViolationsBlocked
  | avgSessionDuration
  deriving DecidableEq

namespace Metric

instance : Fintype Metric where
  elems := {successRate, errorRate, toolCallCount, costTotal, policyViolationsBlocked,
    avgSessionDuration}
  complete m := by cases m <;> decide

def id : Metric → ℕ
  | successRate => 0
  | errorRate => 3
  | toolCallCount => 4
  | costTotal => 6
  | policyViolationsBlocked => 7
  | avgSessionDuration => 9

def numerator {R : Type} [Sub R] (n : R) (sums : Sums R) : Metric → R
  | successRate => sums.status
  | errorRate => n - sums.status
  | toolCallCount => sums.tool
  | costTotal => sums.amount
  | policyViolationsBlocked => sums.denied
  | avgSessionDuration => sums.latency

def denominator {R : Type} [Mul R] [NatCast R] (n : R) : Metric → R
  | successRate | errorRate => n
  | toolCallCount | policyViolationsBlocked => (1 : ℕ)
  | costTotal => (1000 : ℕ)
  | avgSessionDuration => n * (1000 : ℕ)

end Metric

/-! ### The circuit -/

structure StatsSignals (levels fields N : ℕ) extends RangeRows levels fields N where
  (root metricId claimedValue nRecords periodStart periodEnd treeSize tenantHash agentHash : Fr)

structure ReceiptCheck (K : Circomlib) (hfields : 7 ≤ fields) (s : StatsSignals levels fields N)
    (agentScopeIsZero : Fr) (k : Fin N) : Prop where
  status : statusBit hfields (s.entries k) * (1 - statusBit hfields (s.entries k)) = 0
  latency : Fits 64 (latencyMs hfields (s.entries k))
  amount : Fits 64 (amountMilli hfields (s.entries k))
  created : Fits 64 (createdAt hfields (s.entries k))
  tenant : receiptTenant hfields (s.entries k) = s.tenantHash
  agent : (1 - agentScopeIsZero) * (receiptAgent hfields (s.entries k) - s.agentHash) = 0
  afterStart : GreaterEqThan 64 (createdAt hfields (s.entries k)) s.periodStart 1
  beforeEnd : LessEqThan 64 (createdAt hfields (s.entries k)) s.periodEnd 1
  path : IndexedPath K ((k : ℕ) : Fr) (entryLeaf K (s.entries k)) (s.pathElements k)
    (s.pathIndices k) s.root

structure Aggregated (hfields : 7 ≤ fields) (entries : Fin N → Entry fields) (sums : Sums Fr) :
    Prop where
  status : RunningSum (fun k ↦ statusBit hfields (entries k)) sums.status
  latency : RunningSum (fun k ↦ latencyMs hfields (entries k)) sums.latency
  amount : RunningSum (fun k ↦ amountMilli hfields (entries k)) sums.amount
  tool : ∃ toolZero : Fin N → Fr, (∀ k, IsZero (receiptTool hfields (entries k)) (toolZero k)) ∧
    RunningSum (fun k ↦ 1 - toolZero k) sums.tool
  denied : RunningSum (fun k ↦ 1 - statusBit hfields (entries k)) sums.denied

/-- The choice of a numerator and a denominator: one flag for each metric, of which one is set. -/
structure Selected (metricId nRecords : Fr) (sums : Sums Fr) (numerator denominator : Fr) :
    Prop where
  flags : ∃ isMetric : Metric → Fr, (∀ m : Metric, IsEqual metricId (m.id : Fr) (isMetric m)) ∧
    ∑ m, isMetric m = 1 ∧ numerator = ∑ m, isMetric m * m.numerator nRecords sums ∧
    denominator = ∑ m, isMetric m * m.denominator nRecords

structure StatsHonestComputation (K : Circomlib) (hfields : 7 ≤ fields)
    (s : StatsSignals levels fields N) (valid : Fr) : Prop where
  period : Fits 64 s.periodStart ∧ Fits 64 s.periodEnd
  receipts : ∃ agentScopeIsZero, IsZero s.agentHash agentScopeIsZero ∧
    ∀ k, ReceiptCheck K hfields s agentScopeIsZero k
  honest : ∃ sums numerator denominator, Aggregated hfields s.entries sums ∧
    Selected s.metricId s.nRecords sums numerator denominator ∧
    s.claimedValue * denominator = numerator * 1000
  periodCheck : LessEqThan 64 s.periodStart s.periodEnd 1
  claimed : Fits 64 s.claimedValue
  treeSize : s.treeSize = (N : Fr)
  nRecords : s.nRecords = (N : Fr)
  valid : valid = 1

/-! ### Sums as numbers -/

def totals (hfields : 7 ≤ fields) (entries : Fin N → Entry fields) : Sums ℕ where
  status := ∑ k, (statusBit hfields (entries k)).val
  latency := ∑ k, (latencyMs hfields (entries k)).val
  amount := ∑ k, (amountMilli hfields (entries k)).val
  tool := (Finset.univ.filter (fun k ↦ receiptTool hfields (entries k) ≠ 0)).card
  denied := (Finset.univ.filter (fun k ↦ statusBit hfields (entries k) = 0)).card

def Sums.cast (sums : Sums ℕ) : Sums Fr where
  status := sums.status
  latency := sums.latency
  amount := sums.amount
  tool := sums.tool
  denied := sums.denied

theorem sum_eq_cast (f : Fin N → Fr) : ∑ k, f k = ((∑ k, (f k).val : ℕ) : Fr) := by
  rw [Nat.cast_sum]
  exact Finset.sum_congr rfl (fun k _ ↦ (ZMod.natCast_zmod_val (f k)).symm)

theorem sum_flag_eq_cast (P : Fin N → Prop) [DecidablePred P] :
    (∑ k, if P k then 1 else 0) = ((Finset.univ.filter P).card : Fr) := by
  rw [Finset.sum_boole]

section

variable {hfields : 7 ≤ fields} {entries : Fin N → Entry fields}

theorem aggregated_iff {sums : Sums Fr}
    (hstatus : ∀ k, statusBit hfields (entries k) = 0 ∨ statusBit hfields (entries k) = 1) :
    Aggregated hfields entries sums ↔ sums = (totals hfields entries).cast := by
  have htool : ∀ k, (1 - if receiptTool hfields (entries k) = 0 then 1 else 0 : Fr) =
      if receiptTool hfields (entries k) ≠ 0 then 1 else 0 := by
    intro k
    by_cases hzero : receiptTool hfields (entries k) = 0
    · simp [hzero]
    · simp [hzero]
  have hdenied : ∀ k, 1 - statusBit hfields (entries k) =
      if statusBit hfields (entries k) = 0 then 1 else 0 := by
    intro k
    rcases hstatus k with hk | hk
    · simp [hk]
    · simp [hk]
  constructor
  · rintro ⟨hs, hl, ha, ⟨toolZero, hzero, ht⟩, hd⟩
    rw [runningSum_iff] at hs hl ha ht hd
    obtain rfl : toolZero = _ := funext (fun k ↦ isZero_iff.mp (hzero k))
    simp only [htool, sum_flag_eq_cast] at ht
    simp only [hdenied, sum_flag_eq_cast] at hd
    cases sums
    simp only [Sums.cast, totals, Sums.mk.injEq]
    exact ⟨hs.trans (sum_eq_cast _), hl.trans (sum_eq_cast _), ha.trans (sum_eq_cast _), ht, hd⟩
  · rintro rfl
    refine ⟨runningSum_iff.mpr (sum_eq_cast _).symm, runningSum_iff.mpr (sum_eq_cast _).symm,
      runningSum_iff.mpr (sum_eq_cast _).symm, ⟨_, fun k ↦ isZero_iff.mpr rfl, ?_⟩, ?_⟩
    · simp only [runningSum_iff, htool, sum_flag_eq_cast]
      rfl
    · simp only [runningSum_iff, hdenied, sum_flag_eq_cast]
      rfl

/-- With a metric of the table, exactly its numerator and its denominator are chosen. With any
other no flag is set, and the constraints cannot be met. -/
theorem selected_iff {metricId nRecords numerator denominator : Fr} {sums : Sums Fr} :
    Selected metricId nRecords sums numerator denominator ↔
      ∃ m : Metric, metricId = (m.id : Fr) ∧ numerator = m.numerator nRecords sums ∧
        denominator = m.denominator nRecords := by
  have hid : ∀ m m' : Metric, (m.id : Fr) = (m'.id : Fr) ↔ m = m' := by decide
  constructor
  · rintro ⟨isMetric, hflags, hone, hnum, hden⟩
    obtain rfl : isMetric = _ := funext (fun m ↦ isEqual_iff.mp (hflags m))
    obtain ⟨m, rfl⟩ : ∃ m : Metric, metricId = (m.id : Fr) := by
      by_contra hnone
      rw [not_exists] at hnone
      simp [hnone] at hone
    refine ⟨m, rfl, ?_, ?_⟩
    · simpa [hid] using hnum
    · simpa [hid] using hden
  · rintro ⟨m, rfl, rfl, rfl⟩
    exact ⟨_, fun m' ↦ isEqual_iff.mpr rfl, by simp [hid], by simp [hid], by simp [hid]⟩

/-! ### No wrap-around -/

theorem status_le (hstatus : ∀ k, statusBit hfields (entries k) = 0 ∨
    statusBit hfields (entries k) = 1) : (totals hfields entries).status ≤ N := by
  have hone : ∀ k ∈ Finset.univ, (statusBit hfields (entries k)).val ≤ 1 := by
    intro k _
    rcases hstatus k with hk | hk
    · rw [hk, ZMod.val_zero]
      exact Nat.zero_le 1
    · rw [hk, ZMod.val_one]
  exact (Finset.sum_le_card_nsmul _ _ 1 hone).trans_eq (by simp)

theorem numerator_cast (hstatus : (totals hfields entries).status ≤ N) (m : Metric) :
    m.numerator (N : Fr) (totals hfields entries).cast =
      (m.numerator N (totals hfields entries) : ℕ) := by
  cases m with
  | errorRate => exact (Nat.cast_sub hstatus).symm
  | _ => rfl

theorem denominator_cast (m : Metric) :
    m.denominator (N : Fr) = (m.denominator N : ℕ) := by
  cases m with
  | avgSessionDuration => exact (Nat.cast_mul N 1000).symm
  | _ => rfl

theorem denominator_le (hN : N < 2 ^ 32) (m : Metric) : m.denominator N ≤ 2 ^ 32 * 1000 := by
  cases m with
  | avgSessionDuration => exact Nat.mul_le_mul_right 1000 hN.le
  | _ => simp only [Metric.denominator, Nat.cast_id]; omega

theorem numerator_le (hN : N < 2 ^ 32)
    (hstatus : (totals hfields entries).status ≤ N)
    (hlatency : ∀ k, (latencyMs hfields (entries k)).val < 2 ^ 64)
    (hamount : ∀ k, (amountMilli hfields (entries k)).val < 2 ^ 64) (m : Metric) :
    m.numerator N (totals hfields entries) ≤ 2 ^ 32 * 2 ^ 64 := by
  have hsum : ∀ f : Fin N → Fr, (∀ k, (f k).val < 2 ^ 64) →
      ∑ k, (f k).val ≤ 2 ^ 32 * 2 ^ 64 := by
    intro f hf
    calc ∑ k, (f k).val ≤ Finset.univ.card • 2 ^ 64 :=
          Finset.sum_le_card_nsmul _ _ _ (fun k _ ↦ (hf k).le)
      _ = N * 2 ^ 64 := by rw [Finset.card_univ, Fintype.card_fin, smul_eq_mul]
      _ ≤ 2 ^ 32 * 2 ^ 64 := Nat.mul_le_mul_right _ hN.le
  have hcount : ∀ (P : Fin N → Prop) [DecidablePred P],
      (Finset.univ.filter P).card ≤ 2 ^ 32 * 2 ^ 64 := by
    intro P _
    have hcard : (Finset.univ.filter P).card ≤ N := by
      simpa using Finset.card_filter_le Finset.univ P
    omega
  cases m with
  | successRate => exact hstatus.trans (by omega)
  | errorRate => exact (Nat.sub_le _ _).trans (by omega)
  | toolCallCount => exact hcount _
  | costTotal => exact hsum _ hamount
  | policyViolationsBlocked => exact hcount _
  | avgSessionDuration => exact hsum _ hlatency

theorem honest_field_iff (hN : N < 2 ^ 32)
    (hstatus : ∀ k, statusBit hfields (entries k) = 0 ∨ statusBit hfields (entries k) = 1)
    (hlatency : ∀ k, (latencyMs hfields (entries k)).val < 2 ^ 64)
    (hamount : ∀ k, (amountMilli hfields (entries k)).val < 2 ^ 64)
    {claimed : ℕ} (hclaimed : claimed < 2 ^ 64) (m : Metric) :
    (claimed : Fr) * m.denominator (N : Fr) =
        m.numerator (N : Fr) (totals hfields entries).cast * 1000 ↔
      claimed * m.denominator N = 1000 * m.numerator N (totals hfields entries) := by
  have hle := status_le hstatus
  have hnum := numerator_le hN hle hlatency hamount m
  have hprod : claimed * m.denominator N ≤ 2 ^ 64 * (2 ^ 32 * 1000) :=
    Nat.mul_le_mul hclaimed.le (denominator_le hN m)
  have hmod : 2 ^ 107 ≤ scalarModulus := two_pow_le_scalarModulus (by decide)
  have hcast : m.numerator (N : Fr) (totals hfields entries).cast * 1000 =
      ((1000 * m.numerator N (totals hfields entries) : ℕ) : Fr) := by
    rw [numerator_cast hle, Nat.cast_mul, mul_comm]
    rfl
  rw [hcast, denominator_cast, ← Nat.cast_mul, ZMod.natCast_eq_natCast_iff',
    Nat.mod_eq_of_lt (by omega), Nat.mod_eq_of_lt (by omega)]

end

/-! ### Soundness -/

/-- What the public inputs say about the receipts of a tree: they lie in the period and belong to
the tenant, and to the agent if one is given. -/
structure InScope (hfields : 7 ≤ fields) (s : StatsSignals levels fields N) (e : Entry fields) :
    Prop where
  afterStart : s.periodStart.val ≤ (createdAt hfields e).val
  beforeEnd : (createdAt hfields e).val ≤ s.periodEnd.val
  tenant : receiptTenant hfields e = s.tenantHash
  agent : s.agentHash ≠ 0 → receiptAgent hfields e = s.agentHash

section

variable {hfields : 7 ≤ fields} {s : StatsSignals levels fields N} {valid : Fr}

theorem inScope_of_check (h : StatsHonestComputation K hfields s valid) (k : Fin N) :
    InScope hfields s (s.entries k) := by
  obtain ⟨unscoped, hzero, hchecks⟩ := h.receipts
  have hk := hchecks k
  have hcreated := fits_64_iff.mp hk.created
  refine ⟨?_, ?_, hk.tenant, ?_⟩
  · exact (greaterEqThan_one two_pow_65_le hcreated (fits_64_iff.mp h.period.1)).mp
      hk.afterStart
  · exact (lessEqThan_one two_pow_65_le hcreated (fits_64_iff.mp h.period.2)).mp hk.beforeEnd
  · intro hscoped
    obtain rfl : unscoped = 0 := by
      rw [isZero_iff.mp hzero, if_neg hscoped]
    have hagent := hk.agent
    rw [sub_zero, one_mul] at hagent
    exact sub_eq_zero.mp hagent

theorem status_binary (h : StatsHonestComputation K hfields s valid) (k : Fin N) :
    statusBit hfields (s.entries k) = 0 ∨ statusBit hfields (s.entries k) = 1 := by
  obtain ⟨_, -, hchecks⟩ := h.receipts
  exact binary_iff'.mp (hchecks k).status

theorem claimed_mul_eq (hN : N < 2 ^ 32) (h : StatsHonestComputation K hfields s valid) :
    ∃ m : Metric, s.metricId = (m.id : Fr) ∧
      s.claimedValue.val * m.denominator N = 1000 * m.numerator N (totals hfields s.entries) := by
  obtain ⟨unscoped, -, hchecks⟩ := h.receipts
  obtain ⟨sums, numerator, denominator, hagg, hselected, hhonest⟩ := h.honest
  obtain rfl := (aggregated_iff (status_binary h)).mp hagg
  obtain ⟨m, hm, rfl, rfl⟩ := selected_iff.mp hselected
  refine ⟨m, hm, ?_⟩
  rw [h.nRecords, ← ZMod.natCast_zmod_val s.claimedValue] at hhonest
  exact (honest_field_iff hN (status_binary h) (fun k ↦ fits_64_iff.mp (hchecks k).latency)
    (fun k ↦ fits_64_iff.mp (hchecks k).amount) (fits_64_iff.mp h.claimed) m).mp hhonest

end

/-- In every satisfying assignment the entries are the first `N` leaves of the tree, all in scope,
and the claimed value is the one of the selected metric. The last is an equation between
numbers. -/
theorem statsHonestComputation_sound (hT : Set.InjOn K.poseidon T) (hlevels : levels ≤ 253)
    (hfields : 7 ≤ fields) (hN : N < 2 ^ 32) (t : Tree K T levels)
    (s : StatsSignals levels fields N) (valid : Fr)
    (h : StatsHonestComputation K hfields s valid) (hin : s.inputs K ⊆ T)
    (hroot : s.root = t.root) :
    (∀ k : Fin N, t.EntryAt k (s.entries k) ∧ InScope hfields s (s.entries k)) ∧
      ∃ m : Metric, s.metricId = (m.id : Fr) ∧
        s.claimedValue.val * m.denominator N =
          1000 * m.numerator N (totals hfields s.entries) := by
  refine ⟨fun k ↦ ⟨?_, inScope_of_check h k⟩, claimed_mul_eq hN h⟩
  obtain ⟨_, -, hchecks⟩ := h.receipts
  have hk : ((k : ℕ) : Fr).val = k := by
    apply ZMod.val_cast_of_lt
    exact (k.isLt.trans hN).trans_le (two_pow_le_scalarModulus (by decide))
  rw [← hk]
  exact entryAt_of_path hT hlevels (Set.iUnion_subset_iff.mp hin k) (hroot ▸ (hchecks k).path)

section Demo

def receiptRows (i : ℕ) : Entry 7 :=
  fun j ↦ ((if i = 0 then ![1, 2000, 500, 9, 3, 4, 100] else ![0, 4000, 700, 0, 3, 4, 101] :
    Fin 7 → ℕ) j : Fr)

def receiptsAsked : List (List Fr) :=
  [List.ofFn (receiptRows 0), List.ofFn (receiptRows 1),
    [entryLeaf sumKit (receiptRows 0), entryLeaf sumKit (receiptRows 1)]]

theorem injOn_receiptsAsked : Set.InjOn sumKit.poseidon {q | q ∈ receiptsAsked} :=
  injOn_listed (by decide +kernel)

def receiptTree : Tree sumKit {q | q ∈ receiptsAsked} 1 :=
  twoLeaves (fun i ↦ entryLeaf sumKit (receiptRows i)) (by simp [receiptsAsked])

theorem receiptTree_window : receiptTree.Window 0 2 receiptRows :=
  window_twoLeaves (by simp [receiptsAsked]) (by simp [receiptsAsked]) (by simp [receiptsAsked])

def halfSignals (r : RangeRows 1 7 2) : StatsSignals 1 7 2 :=
  ⟨r, receiptTree.root, 0, (500 : ℕ), (2 : ℕ), (100 : ℕ), (200 : ℕ), (2 : ℕ), (3 : ℕ), (4 : ℕ)⟩

theorem receiptCheck_half {r : RangeRows 1 7 2} (hrows : ∀ k : Fin 2, r.entries k = receiptRows k)
    (hpaths : r.Committed sumKit 0 receiptTree.root) (k : Fin 2) :
    ReceiptCheck sumKit le_rfl (halfSignals r) 0 k := by
  have hend : (200 : Fr).val < 2 ^ 64 ∧ (100 : Fr).val < 2 ^ 64 := by decide
  have hrow : ∀ k : Fin 2,
      (statusBit le_rfl (receiptRows k) = 0 ∨ statusBit le_rfl (receiptRows k) = 1) ∧
      (latencyMs le_rfl (receiptRows k)).val < 2 ^ 64 ∧
      (amountMilli le_rfl (receiptRows k)).val < 2 ^ 64 ∧
      (createdAt le_rfl (receiptRows k)).val < 2 ^ 64 ∧
      receiptTenant le_rfl (receiptRows k) = 3 ∧ receiptAgent le_rfl (receiptRows k) = 4 ∧
      (100 : Fr).val ≤ (createdAt le_rfl (receiptRows k)).val ∧
      (createdAt le_rfl (receiptRows k)).val ≤ (200 : Fr).val := by decide +kernel
  obtain ⟨hstatus, hlatency, hamount, hcreated, htenant, hagent, hlo, hhi⟩ := hrow k
  rw [← hrows k] at hstatus hlatency hamount hcreated htenant hagent hlo hhi
  exact
    { status := binary_iff'.mpr hstatus
      latency := fits_64_iff.mpr hlatency
      amount := fits_64_iff.mpr hamount
      created := fits_64_iff.mpr hcreated
      tenant := htenant
      agent := by
        rw [sub_zero, one_mul, sub_eq_zero]
        exact hagent
      afterStart := (greaterEqThan_one two_pow_65_le hcreated hend.2).mpr hlo
      beforeEnd := (lessEqThan_one two_pow_65_le hcreated hend.1).mpr hhi
      path := by
        have hpath := hpaths k
        rwa [zero_add] at hpath }

theorem exists_half : ∃ s : StatsSignals 1 7 2, StatsHonestComputation sumKit le_rfl s 1 ∧
    s.inputs sumKit ⊆ {q | q ∈ receiptsAsked} ∧ s.root = receiptTree.root := by
  obtain ⟨r, hrows, hpaths, hin⟩ := RangeRows.exists_committed receiptTree_window
  simp only [Nat.zero_add] at hrows
  rw [Nat.cast_zero] at hpaths
  have hchecks := receiptCheck_half hrows hpaths
  have hsmall : (100 : Fr).val < 2 ^ 64 ∧ (200 : Fr).val < 2 ^ 64 ∧ (500 : Fr).val < 2 ^ 64 ∧
      (100 : Fr).val ≤ (200 : Fr).val := by decide
  obtain ⟨hstart, hend, hclaimed, hperiod⟩ := hsmall
  have hagent : (0 : Fr) = if (4 : Fr) = 0 then 1 else 0 := by decide
  have hentries : (halfSignals r).entries = fun k : Fin 2 ↦ receiptRows k := funext hrows
  have hhonest : (500 : Fr) * Metric.successRate.denominator (2 : Fr) =
      Metric.successRate.numerator (2 : Fr)
        (totals le_rfl (fun k : Fin 2 ↦ receiptRows k)).cast * 1000 := by decide +kernel
  refine ⟨halfSignals r, ?_, hin, rfl⟩
  exact
    { period := ⟨fits_64_iff.mpr hstart, fits_64_iff.mpr hend⟩
      receipts := ⟨0, isZero_iff.mpr hagent, hchecks⟩
      honest := ⟨_, _, _, (aggregated_iff (fun k ↦ binary_iff'.mp (hchecks k).status)).mpr rfl,
        selected_iff.mpr ⟨.successRate, rfl, rfl, rfl⟩, by rw [hentries]; exact hhonest⟩
      periodCheck := (lessEqThan_one two_pow_65_le hstart hend).mpr hperiod
      claimed := fits_64_iff.mpr hclaimed
      treeSize := rfl
      nRecords := rfl
      valid := rfl }

theorem statsHonestComputation_sound_half : ∃ s : StatsSignals 1 7 2,
    StatsHonestComputation sumKit le_rfl s 1 ∧
    (∀ k : Fin 2, receiptTree.EntryAt k (s.entries k)) ∧
    ∃ m : Metric, s.metricId = (m.id : Fr) ∧
      s.claimedValue.val * m.denominator 2 = 1000 * m.numerator 2 (totals le_rfl s.entries) := by
  obtain ⟨s, hs, hin, hroot⟩ := exists_half
  obtain ⟨hrows, hvalue⟩ := statsHonestComputation_sound injOn_receiptsAsked (by decide) le_rfl
    (by decide) receiptTree s 1 hs hin hroot
  exact ⟨s, hs, fun k ↦ (hrows k).1, hvalue⟩

end Demo

end SauronId.Circuits
