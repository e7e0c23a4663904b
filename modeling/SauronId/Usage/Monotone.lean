import SauronId.Lib.Run
import SauronId.Usage.Ledger

namespace SauronId.Usage

open Lib Lib.Run

instance : Preorder UsageTotals where
  le s t := s.inputTokens ≤ t.inputTokens ∧ s.outputTokens ≤ t.outputTokens ∧ s.usd ≤ t.usd
  le_refl _ := ⟨le_rfl, le_rfl, le_rfl⟩
  le_trans _ _ _ h h' := ⟨h.1.trans h'.1, h.2.1.trans h'.2.1, h.2.2.trans h'.2.2⟩

structure UsageWorld where
  db : UsageDb
  reported : List (UsageKey × UsageTotals)

inductive UsageEvent
  | record (c : RecordCall)
  | query (k : UsageKey) (fault : Option String)

def nextUsage (w : UsageWorld) : UsageEvent → Option UsageWorld
  | .record c =>
    match (recordUsage c).exec w.db with
    | (.ok answer, db) => some ⟨db, w.reported ++ [answer]⟩
    | (.error _, db) => some ⟨db, w.reported⟩
  | .query k fault =>
    match getUsage w.db k fault with
    | .ok totals => some { w with reported := w.reported ++ [(k, totals)] }
    | .error _ => some w

/-- The counts of the call can be added to the row of its pseudonym. -/
def RecordCall.Fits (c : RecordCall) (row : UsageLedgerRow) : Prop :=
  row.inputTokens.Fits c.inTokens ∧ row.outputTokens.Fits c.outTokens

instance (c : RecordCall) (row : UsageLedgerRow) : Decidable (c.Fits row) :=
  inferInstanceAs (Decidable (_ ∧ _))

/-- The step condition: the totals can be read, no sum leaves `i64` and nothing
is charged a negative price. -/
def Countable (w : UsageWorld) : UsageEvent → Prop
  | .record c => c.readFault = none ∧ 0 ≤ c.usd ∧
      ∀ row ∈ (c.target w.db).toOption.bind w.db.ledger.get, c.Fits row
  | .query _ fault => fault = none

instance (w : UsageWorld) : (e : UsageEvent) → Decidable (Countable w e)
  | .record _ => inferInstanceAs (Decidable (_ ∧ _ ∧ _))
  | .query _ fault => inferInstanceAs (Decidable (fault = none))

def totalsOf (t : Table UsageLedgerRow.key) (k : UsageKey) : UsageTotals :=
  ((t.get k).bind UsageLedgerRow.totals).getD {}

theorem getUsage_none (db : UsageDb) (k : UsageKey) :
    getUsage db k none = .ok (totalsOf db.ledger k) := rfl

variable {c : RecordCall} {k : UsageKey} {row : UsageLedgerRow} {w w' : UsageWorld}

theorem totals_le_addTo (hcounts : 0 ≤ c.inTokens ∧ 0 ≤ c.outTokens) (husd : 0 ≤ c.usd)
    (hfits : c.Fits row) : row.totals.getD {} ≤ (c.addTo row).totals.getD {} := by
  obtain ⟨key, inputs, outputs, usd, updatedAt⟩ := row
  obtain ⟨hin, hout⟩ := hfits
  cases inputs with
  | real => exact le_rfl
  | integer m =>
    cases outputs with
    | real =>
      have hnone : (c.addTo ⟨key, .integer m, .real, usd, updatedAt⟩).totals = none := by
        rw [RecordCall.addTo, UsageLedgerRow.totals, Cell.add_of_fits hin]
        rfl
      rw [hnone]
      exact le_rfl
    | integer n =>
      have hsome : (c.addTo ⟨key, .integer m, .integer n, usd, updatedAt⟩).totals =
          some ⟨m + c.inTokens, n + c.outTokens, usd + c.usd⟩ := by
        rw [RecordCall.addTo, UsageLedgerRow.totals, Cell.add_of_fits hin, Cell.add_of_fits hout]
        rfl
      rw [hsome]
      exact ⟨le_add_of_nonneg_right hcounts.1, le_add_of_nonneg_right hcounts.2,
        le_add_of_nonneg_right husd⟩

theorem totalsOf_upsert_le {t : Table UsageLedgerRow.key}
    (hcounts : 0 ≤ c.inTokens ∧ 0 ≤ c.outTokens) (husd : 0 ≤ c.usd)
    (hfits : ∀ row, t.get k = some row → c.Fits row) (k' : UsageKey) :
    totalsOf t k' ≤ totalsOf (t.upsert (c.freshRow k) c.addTo c.addTo_key) k' := by
  unfold totalsOf
  rw [Table.get_upsert]
  split_ifs with hk
  · have hk : k' = k := hk
    subst hk
    cases hrow : t.get k' with
    | none => exact ⟨hcounts.1, hcounts.2, husd⟩
    | some row => exact totals_le_addTo hcounts husd (hfits row hrow)
  · exact le_rfl

/-- The answers for a pseudonym never decrease, and it still has what they said. -/
structure UsageInvariant (w : UsageWorld) : Prop where
  ordered : w.reported.Pairwise (fun r s ↦ r.1 = s.1 → r.2 ≤ s.2)
  held : ∀ r ∈ w.reported, r.2 ≤ totalsOf w.db.ledger r.1

theorem UsageInvariant.grow (hw : UsageInvariant w) {db : UsageDb}
    (h : ∀ k, totalsOf w.db.ledger k ≤ totalsOf db.ledger k) :
    UsageInvariant ⟨db, w.reported⟩ where
  ordered := hw.ordered
  held r hr := (hw.held r hr).trans (h r.1)

theorem UsageInvariant.answer (hw : UsageInvariant w) (k : UsageKey) :
    UsageInvariant ⟨w.db, w.reported ++ [(k, totalsOf w.db.ledger k)]⟩ where
  ordered := by
    apply List.pairwise_append.mpr ⟨hw.ordered, List.pairwise_singleton _ _, ?_⟩
    intro r hr s hs hkey
    obtain rfl := List.mem_singleton.mp hs
    obtain rfl : r.1 = k := hkey
    exact hw.held r hr
  held r hr := by
    rcases List.mem_append.mp hr with hr | hr
    · exact hw.held r hr
    · obtain rfl := List.mem_singleton.mp hr
      exact le_rfl

theorem invariant_record (hw : UsageInvariant w) (hok : Countable w (.record c))
    (h : nextUsage w (.record c) = some w') : UsageInvariant w' := by
  obtain ⟨hread, husd, hfits⟩ := hok
  simp only [nextUsage] at h
  rcases hexec : (recordUsage c).exec w.db with ⟨r, db⟩
  rw [hexec] at h
  rcases recordUsage_cases hexec with ⟨hledger, e, rfl⟩ | ⟨k, t, hk, hledger, hget, rfl⟩
  · obtain rfl := Option.some.inj h
    apply hw.grow
    intro k
    rw [hledger]
  · obtain rfl := Option.some.inj h
    have hgrown : UsageInvariant ⟨db, w.reported⟩ := by
      apply hw.grow
      intro k'
      rw [hledger]
      apply totalsOf_upsert_le (RecordCall.target_nonneg hk) husd
      intro row hrow
      apply hfits
      rw [hk]
      exact hrow
    rw [hread, getUsage_none] at hget
    obtain rfl := Except.ok.inj hget
    exact hgrown.answer k

theorem invariant_nextUsage (w : UsageWorld) (e : UsageEvent) (w' : UsageWorld)
    (hw : UsageInvariant w) (hok : Countable w e) (h : nextUsage w e = some w') :
    UsageInvariant w' := by
  cases e with
  | record c => exact invariant_record hw hok h
  | query k fault =>
    obtain rfl : fault = none := hok
    obtain rfl := Option.some.inj h
    exact hw.answer k

theorem capExceeded_mono {α : Type} [LinearOrder α] {unit : String} {text : α → String}
    {s t : α} {cap : Option α} (hst : s ≤ t) (h : (capExceeded unit text s cap).isSome = true) :
    (capExceeded unit text t cap).isSome = true := by
  cases cap with
  | none => cases h
  | some cap =>
    have hs : cap < s := by
      by_contra hle
      simp [capExceeded, hle] at h
    simp [capExceeded, hs.trans_le hst]

theorem budgetExceeded_mono {s t : UsageTotals} {budgets : RingBudgets} (hst : s ≤ t)
    (h : (budgetExceeded s budgets).isSome = true) :
    (budgetExceeded t budgets).isSome = true := by
  obtain ⟨hin, hout, husd⟩ := hst
  simp only [budgetExceeded, Option.isSome_or, Bool.or_eq_true] at h ⊢
  exact h.imp (capExceeded_mono husd) (.imp (capExceeded_mono hin) (capExceeded_mono hout))

/-- In every run of recordings and queries that meets the step condition, the
totals of a pseudonym never decrease, and once it is over budget it stays so. -/
theorem totals_never_decrease {db : UsageDb} {es : List UsageEvent}
    (hok : Along nextUsage Countable ⟨db, []⟩ es) (h : run nextUsage ⟨db, []⟩ es = some w) :
    w.reported.Pairwise (fun r s ↦ r.1 = s.1 → r.2 ≤ s.2 ∧
      ∀ budgets, (budgetExceeded r.2 budgets).isSome = true →
        (budgetExceeded s.2 budgets).isSome = true) := by
  have hinit : UsageInvariant ⟨db, []⟩ := ⟨.nil, fun r hr ↦ absurd hr List.not_mem_nil⟩
  have hw := run_invariant invariant_nextUsage hinit hok h
  apply hw.ordered.imp
  intro r s hle hkey
  exact ⟨hle hkey, fun budgets ↦ budgetExceeded_mono (hle hkey)⟩

section Demo

def demoUsageDb : UsageDb :=
  ⟨⟨[⟨"ar_1", "default", some "r", "kimg"⟩], List.nodup_singleton _⟩, .empty, .empty⟩

def demoUsageKey : UsageKey := ⟨"default", "r", "kimg"⟩

def demoRecord (inTokens : ℤ) (logId : String) : UsageEvent :=
  .record ⟨"ar_1", "local-model", inTokens, 5, 1, [], logId, none, none, none, none⟩

def demoBudgets : RingBudgets := ⟨none, some 1000, none⟩

theorem totals_never_decrease_twoReports :
    ∃ w, run nextUsage ⟨demoUsageDb, []⟩ [demoRecord 900 "ul_1", .query demoUsageKey none,
        demoRecord 200 "ul_2"] = some w ∧
      w.reported.map (fun r ↦ r.2.inputTokens) = [900, 900, 1100] ∧
      w.reported.Pairwise (fun r s ↦ r.1 = s.1 → r.2 ≤ s.2 ∧
        ∀ budgets, (budgetExceeded r.2 budgets).isSome = true →
          (budgetExceeded s.2 budgets).isSome = true) := by
  have hrun : (run nextUsage ⟨demoUsageDb, []⟩ [demoRecord 900 "ul_1", .query demoUsageKey none,
      demoRecord 200 "ul_2"]).map (fun w ↦ w.reported.map (fun r ↦ r.2.inputTokens)) =
      some [900, 900, 1100] := by
    decide +kernel
  obtain ⟨w, hw, hreported⟩ := Option.map_eq_some_iff.mp hrun
  exact ⟨w, hw, hreported, totals_never_decrease (by decide +kernel) hw⟩

/-- The second count takes the stored total out of `i64`. The query then fails,
which is answered with zero, and the pseudonym is within its budget again. -/
theorem totals_reset_by_overflow :
    (run nextUsage ⟨demoUsageDb, []⟩ [demoRecord (2 ^ 63 - 1) "ul_1", demoRecord 1 "ul_2"]).map
        (fun w ↦ w.reported.map Prod.snd) = some [⟨2 ^ 63 - 1, 5, 0⟩, ⟨0, 0, 0⟩] ∧
      (budgetExceeded ⟨2 ^ 63 - 1, 5, 0⟩ demoBudgets).isSome = true ∧
      budgetExceeded ⟨0, 0, 0⟩ demoBudgets = none := by
  decide +kernel

end Demo

end SauronId.Usage
