import Mathlib.Algebra.Order.Ring.Rat
import Mathlib.Data.NNRat.Defs
import SauronId.Lib.Fallible
import SauronId.Lib.Sum
import SauronId.Lib.Table
import SauronId.Lib.Text

namespace SauronId.Dp

open Lib Lib.Encoding Lib.Text

/-- An `f64`. A finite one is taken as the exact number it stands for. -/
inductive F64
  | finite (value : ℚ)
  | infinite (negative : Bool)
  | nan
  deriving DecidableEq

namespace F64

def below (q : ℚ) : F64 → Bool
  | finite value => value < q
  | infinite negative => negative
  | nan => false

def minus (q : ℚ) : F64 → F64
  | finite value => finite (value - q)
  | x => x

def fixed6 : F64 → String
  | finite value => formatFixed 6 value
  | infinite negative => if negative then "-inf" else "inf"
  | nan => "NaN"

end F64

/-- The texts of a float that depend on its shortest decimal form. -/
structure FloatText where
  (display exp6 : F64 → String)

inductive LedgerError
  | invalid (message : String)
  | storage (message : String)
  deriving DecidableEq

structure CycleKey where
  (cohortId metricId : String)
  cycleStart : ℤ
  deriving DecidableEq

structure LedgerEntry where
  key : CycleKey
  (epsilonSpent deltaSpent epsilonCap deltaCap : ℚ)
  lastPublished : ℤ

/-- A row of `dp_budget_publications`. What it charges passed the check that
it is not negative. -/
structure Publication where
  publicationId : String
  key : CycleKey
  (epsilon delta noiseScale : ℚ≥0)
  publishedAt : ℤ
  deriving DecidableEq

structure LedgerDb where
  ledger : Table LedgerEntry.key
  publications : Table Publication.publicationId

def LedgerDb.empty : LedgerDb := ⟨.empty, .empty⟩

inductive BudgetDecision
  | approved (remainingEps : F64)
  | denied (reason : String) (used : ℚ) (cap : F64)
  deriving DecidableEq

def validateInputs (T : FloatText) (k : CycleKey) (epsilonCap deltaCap : F64) :
    Except LedgerError (ℚ × ℚ) := do
  ensure (trim k.cohortId ≠ "") (.invalid "cohort_id empty")
  ensure (trim k.metricId ≠ "") (.invalid "metric_id empty")
  ensure (0 ≤ k.cycleStart)
    (.invalid ("cycle_start must be >= 0, got " ++ toString k.cycleStart))
  let eps ← match epsilonCap with
    | .finite q => if 0 < q then .ok q else
        .error (.invalid ("epsilon_cap must be > 0 and finite, got " ++ T.display epsilonCap))
    | _ => .error (.invalid ("epsilon_cap must be > 0 and finite, got " ++ T.display epsilonCap))
  let delta ← match deltaCap with
    | .finite q => if 0 ≤ q ∧ q < 1 then .ok q else
        .error (.invalid ("delta_cap must be in [0, 1) and finite, got " ++ T.display deltaCap))
    | _ => .error (.invalid ("delta_cap must be in [0, 1) and finite, got " ++ T.display deltaCap))
  return (eps, delta)

def checkAmount (T : FloatText) (name : String) (x : F64) : Except LedgerError ℚ≥0 :=
  match x with
  | .finite q =>
    if h : 0 ≤ q then .ok ⟨q, h⟩
    else .error (.invalid (name ++ " must be >= 0 and finite, got " ++ T.display x))
  | _ => .error (.invalid (name ++ " must be >= 0 and finite, got " ++ T.display x))

def freshEntry (k : CycleKey) (epsilonCap deltaCap : ℚ) : LedgerEntry :=
  ⟨k, 0, 0, epsilonCap, deltaCap, 0⟩

/-- `INSERT OR IGNORE`: the caps of a cycle that exists stay. -/
def ensureCycle (db : LedgerDb) (k : CycleKey) (caps : ℚ × ℚ) : LedgerDb :=
  { db with ledger := (db.ledger.insert (freshEntry k caps.1 caps.2)).getD db.ledger }

def rotateCycle (db : LedgerDb) (k : CycleKey) (caps : ℚ × ℚ) : LedgerDb :=
  ⟨db.ledger.upsert (freshEntry k caps.1 caps.2)
    (fun l ↦ { l with epsilonCap := caps.1, deltaCap := caps.2 }) (fun _ ↦ rfl), db.publications⟩

def canPublish (T : FloatText) (db : LedgerDb) (k : CycleKey) (requestedEps requestedDelta : ℚ≥0) :
    BudgetDecision :=
  let (spentEps, spentDelta, capEps, capDelta) := match db.ledger.get k with
    | some l => (l.epsilonSpent, l.deltaSpent, F64.finite l.epsilonCap, F64.finite l.deltaCap)
    | none => (0, 0, .infinite false, .infinite false)
  let newEps := spentEps + requestedEps
  let newDelta := spentDelta + requestedDelta
  if capEps.below newEps then
    .denied ("epsilon budget exhausted for this cycle (cap=" ++ capEps.fixed6 ++
      ", would spend " ++ formatFixed 6 newEps ++ ")") spentEps capEps
  else if capDelta.below newDelta then
    .denied ("delta budget exhausted for this cycle (cap=" ++ T.exp6 capDelta ++
      ", would spend " ++ T.exp6 (.finite newDelta) ++ ")") spentDelta capDelta
  else .approved (capEps.minus newEps)

def Chargeable (p : Publication) (l : LedgerEntry) : Prop :=
  l.key = p.key ∧ l.epsilonSpent + p.epsilon ≤ l.epsilonCap ∧ l.deltaSpent + p.delta ≤ l.deltaCap

instance (p : Publication) (l : LedgerEntry) : Decidable (Chargeable p l) :=
  inferInstanceAs (Decidable (_ ∧ _))

def chargeEntry (p : Publication) (l : LedgerEntry) : LedgerEntry :=
  { l with
    epsilonSpent := l.epsilonSpent + p.epsilon
    deltaSpent := l.deltaSpent + p.delta
    lastPublished := p.publishedAt }

def charge (db : LedgerDb) (p : Publication) : Option LedgerDb :=
  if ∃ l ∈ db.ledger.rows, Chargeable p l then
    some ⟨db.ledger.updateWhere (fun l ↦ Chargeable p l) (chargeEntry p) (fun _ ↦ rfl),
      db.publications⟩
  else none

def insertPublication (db : LedgerDb) (p : Publication) : Except LedgerError LedgerDb :=
  match db.publications.insert p with
  | none => .error (.storage "UNIQUE constraint failed: dp_budget_publications.publication_id")
  | some publications =>
    if (db.ledger.get p.key).isSome then .ok { db with publications := publications }
    else .error (.storage "FOREIGN KEY constraint failed")

/-- What a transaction of `record_publication` has still to do. -/
inductive Stage
  | selecting
  | charging
  | inserting (work : LedgerDb)
  | committing (work : LedgerDb)

def engine (context : String) (fault : Option String) : Except LedgerError Unit :=
  fault.elim (.ok ()) (fun e ↦ .error (.storage (context ++ e)))

def advance (T : FloatText) (db : LedgerDb) (p : Publication) (fault : Option String) :
    Stage → Except LedgerError (Stage ⊕ LedgerDb)
  | .selecting => do
    engine "" fault
    ensure ((db.ledger.get p.key).isSome = true)
      (.invalid ("ledger row missing for (" ++ p.key.cohortId ++ ", " ++ p.key.metricId ++ ", " ++
        toString p.key.cycleStart ++ "); call ensure_cycle first"))
    return .inl .charging
  | .charging => do
    engine "" fault
    match charge db p with
    | none => .error (.invalid ("budget exceeded: charging eps=" ++ T.display (.finite p.epsilon) ++
        "/delta=" ++ T.display (.finite p.delta) ++
        " would exceed the cohort cap for cycle " ++ toString p.key.cycleStart ++
        " (concurrent publish or stale can_publish)"))
    | some work => return .inl (.inserting work)
  | .inserting work => do
    engine "" fault
    let work ← insertPublication work p
    return .inl (.committing work)
  | .committing work => do
    engine "commit: " fault
    return .inr work

def published (db : LedgerDb) (k : CycleKey) (amount : Publication → ℚ≥0) : ℚ :=
  sumWhere (fun p ↦ p.key = k) (fun p ↦ (amount p : ℚ)) db.publications.rows

/-- Every ledger row carries the sums of its publications, and no publication
is without a ledger row. -/
structure Balanced (db : LedgerDb) : Prop where
  epsilon : ∀ l ∈ db.ledger.rows, l.epsilonSpent = published db l.key Publication.epsilon
  delta : ∀ l ∈ db.ledger.rows, l.deltaSpent = published db l.key Publication.delta
  owned : ∀ p ∈ db.publications.rows, ∃ l ∈ db.ledger.rows, l.key = p.key

/-- No cycle is lost and none has less spent on it. -/
def Grows (db db' : LedgerDb) : Prop :=
  ∀ l ∈ db.ledger.rows, ∃ l' ∈ db'.ledger.rows, l'.key = l.key ∧
    l.epsilonSpent ≤ l'.epsilonSpent ∧ l.deltaSpent ≤ l'.deltaSpent

def Within (db : LedgerDb) (p : Publication) : Prop :=
  p ∈ db.publications.rows ∧ ∃ l ∈ db.ledger.rows, l.key = p.key ∧
    l.epsilonSpent ≤ l.epsilonCap ∧ l.deltaSpent ≤ l.deltaCap

variable {db db' work : LedgerDb} {p : Publication} {k : CycleKey} {caps : ℚ × ℚ}

theorem balanced_empty : Balanced LedgerDb.empty where
  epsilon _ hl := absurd hl List.not_mem_nil
  delta _ hl := absurd hl List.not_mem_nil
  owned _ hp := absurd hp List.not_mem_nil

theorem grows_refl (db : LedgerDb) : Grows db db := by
  intro l hl
  exact ⟨l, hl, rfl, le_rfl, le_rfl⟩

theorem Balanced.published_eq_zero (h : Balanced db) (hk : ∀ l ∈ db.ledger.rows, l.key ≠ k)
    (amount : Publication → ℚ≥0) : published db k amount = 0 := by
  apply sumWhere_eq_zero
  intro p hp hpk
  obtain ⟨l, hl, hlp⟩ := h.owned p hp
  have hpk : p.key = k := by simpa using hpk
  exact absurd (hlp.trans hpk) (hk l hl)

section Caps

variable {t : Table LedgerEntry.key}

theorem Balanced.insertFresh (h : Balanced db)
    (ht : db.ledger.insert (freshEntry k caps.1 caps.2) = some t) :
    Balanced { db with ledger := t } := by
  obtain ⟨hfresh, hrows⟩ := Table.insert_eq_some.mp ht
  have hzero := h.published_eq_zero hfresh
  constructor
  · intro l hl
    rw [hrows] at hl
    rcases List.mem_append.mp hl with hl | hl
    · exact h.epsilon l hl
    · rw [List.mem_singleton.mp hl]
      exact (hzero _).symm
  · intro l hl
    rw [hrows] at hl
    rcases List.mem_append.mp hl with hl | hl
    · exact h.delta l hl
    · rw [List.mem_singleton.mp hl]
      exact (hzero _).symm
  · intro p hp
    obtain ⟨l, hl, hlp⟩ := h.owned p hp
    exact ⟨l, hrows ▸ List.mem_append_left _ hl, hlp⟩

theorem grows_insertFresh (ht : db.ledger.insert (freshEntry k caps.1 caps.2) = some t) :
    Grows db { db with ledger := t } := by
  intro l hl
  have hrows := (Table.insert_eq_some.mp ht).2
  exact ⟨l, hrows ▸ List.mem_append_left _ hl, rfl, le_rfl, le_rfl⟩

theorem balanced_ensureCycle (h : Balanced db) : Balanced (ensureCycle db k caps) := by
  unfold ensureCycle
  cases ht : db.ledger.insert (freshEntry k caps.1 caps.2) with
  | none => exact h
  | some t => exact h.insertFresh ht

theorem grows_ensureCycle : Grows db (ensureCycle db k caps) := by
  unfold ensureCycle
  cases ht : db.ledger.insert (freshEntry k caps.1 caps.2) with
  | none => exact grows_refl db
  | some t => exact grows_insertFresh ht

theorem balanced_rotateCycle (h : Balanced db) : Balanced (rotateCycle db k caps) := by
  unfold rotateCycle Table.upsert
  cases ht : db.ledger.insert (freshEntry k caps.1 caps.2) with
  | some t => exact h.insertFresh ht
  | none =>
    constructor
    · intro l hl
      obtain ⟨m, hm, rfl⟩ := List.mem_map.mp hl
      split_ifs <;> exact h.epsilon m hm
    · intro l hl
      obtain ⟨m, hm, rfl⟩ := List.mem_map.mp hl
      split_ifs <;> exact h.delta m hm
    · intro p hp
      obtain ⟨l, hl, hlp⟩ := h.owned p hp
      refine ⟨_, List.mem_map_of_mem hl, ?_⟩
      split_ifs <;> exact hlp

theorem grows_rotateCycle : Grows db (rotateCycle db k caps) := by
  unfold rotateCycle Table.upsert
  cases ht : db.ledger.insert (freshEntry k caps.1 caps.2) with
  | some t => exact grows_insertFresh ht
  | none =>
    intro l hl
    refine ⟨_, List.mem_map_of_mem hl, ?_⟩
    split_ifs <;> exact ⟨rfl, le_rfl, le_rfl⟩

end Caps

def Publishes (db : LedgerDb) (p : Publication) (db' : LedgerDb) : Prop :=
  ∃ work, charge db p = some work ∧ insertPublication work p = .ok db'

theorem charge_eq_some : charge db p = some work ↔
    (∃ l ∈ db.ledger.rows, Chargeable p l) ∧
      work = ⟨db.ledger.updateWhere (fun l ↦ Chargeable p l) (chargeEntry p) (fun _ ↦ rfl),
        db.publications⟩ := by
  unfold charge
  split_ifs with h <;> simp [h, eq_comm]

theorem insertPublication_eq_ok : insertPublication db p = .ok db' ↔
    ∃ publications, db.publications.insert p = some publications ∧
      (db.ledger.get p.key).isSome = true ∧ db' = { db with publications := publications } := by
  unfold insertPublication
  cases db.publications.insert p with
  | none => simp
  | some publications =>
    simp only [Option.some.injEq, exists_eq_left']
    split_ifs with h <;> simp [h, eq_comm]

theorem Publishes.mem_ledger (h : Publishes db p db') {l' : LedgerEntry} :
    l' ∈ db'.ledger.rows ↔ ∃ l ∈ db.ledger.rows,
      l' = if l.key = p.key then chargeEntry p l else l := by
  obtain ⟨work, hcharge, hins⟩ := h
  obtain ⟨⟨c, hc, hcp⟩, rfl⟩ := charge_eq_some.mp hcharge
  obtain ⟨publications, -, -, rfl⟩ := insertPublication_eq_ok.mp hins
  have hiff : ∀ l ∈ db.ledger.rows, Chargeable p l ↔ l.key = p.key := by
    intro l hl
    refine ⟨fun hcl ↦ hcl.1, fun hkey ↦ ?_⟩
    rwa [db.ledger.eq_of_key hl hc (hkey.trans hcp.1.symm)]
  refine List.mem_map.trans (exists_congr (fun l ↦ and_congr_right (fun hl ↦ ?_)))
  simp only [hiff l hl, decide_eq_true_eq]
  exact eq_comm

theorem Publishes.publications_eq (h : Publishes db p db') :
    db'.publications.rows = db.publications.rows ++ [p] := by
  obtain ⟨work, hcharge, hins⟩ := h
  obtain ⟨-, rfl⟩ := charge_eq_some.mp hcharge
  obtain ⟨publications, hp, -, rfl⟩ := insertPublication_eq_ok.mp hins
  exact (Table.insert_eq_some.mp hp).2

theorem Publishes.published_eq (h : Publishes db p db') (amount : Publication → ℚ≥0) :
    published db' k amount = published db k amount + if p.key = k then (amount p : ℚ) else 0 := by
  rw [published, h.publications_eq, sumWhere_concat]
  simp only [decide_eq_true_eq]
  rfl

theorem Publishes.balanced (h : Publishes db p db') (hb : Balanced db) : Balanced db' := by
  constructor
  · intro l' hl'
    obtain ⟨l, hl, rfl⟩ := h.mem_ledger.mp hl'
    rw [h.published_eq]
    by_cases hk : l.key = p.key
    · simp [hk, chargeEntry, hb.epsilon l hl]
    · simp [hk, Ne.symm hk, hb.epsilon l hl]
  · intro l' hl'
    obtain ⟨l, hl, rfl⟩ := h.mem_ledger.mp hl'
    rw [h.published_eq]
    by_cases hk : l.key = p.key
    · simp [hk, chargeEntry, hb.delta l hl]
    · simp [hk, Ne.symm hk, hb.delta l hl]
  · intro q hq
    have hkey : ∀ l : LedgerEntry, (if l.key = p.key then chargeEntry p l else l).key = l.key := by
      intro l
      split_ifs <;> rfl
    obtain ⟨l, hl, hlq⟩ : ∃ l ∈ db.ledger.rows, l.key = q.key := by
      rw [h.publications_eq] at hq
      rcases List.mem_append.mp hq with hq | hq
      · exact hb.owned q hq
      · obtain ⟨work, hcharge, -⟩ := h
        obtain ⟨⟨c, hc, hcp⟩, -⟩ := charge_eq_some.mp hcharge
        exact ⟨c, hc, List.mem_singleton.mp hq ▸ hcp.1⟩
    exact ⟨_, h.mem_ledger.mpr ⟨l, hl, rfl⟩, (hkey l).trans hlq⟩

theorem Publishes.grows (h : Publishes db p db') : Grows db db' := by
  intro l hl
  refine ⟨_, h.mem_ledger.mpr ⟨l, hl, rfl⟩, ?_⟩
  split_ifs with hk
  · have heps : (0 : ℚ) ≤ p.epsilon := p.epsilon.2
    have hdelta : (0 : ℚ) ≤ p.delta := p.delta.2
    exact ⟨rfl, le_add_of_nonneg_right heps, le_add_of_nonneg_right hdelta⟩
  · exact ⟨rfl, le_rfl, le_rfl⟩

theorem Publishes.within (h : Publishes db p db') : Within db' p := by
  constructor
  · rw [h.publications_eq]
    exact List.mem_concat_self
  · obtain ⟨l, hl, hkey, heps, hdelta⟩ : ∃ l ∈ db.ledger.rows, Chargeable p l := by
      obtain ⟨work, hcharge, -⟩ := h
      exact (charge_eq_some.mp hcharge).1
    refine ⟨chargeEntry p l, h.mem_ledger.mpr ⟨l, hl, ?_⟩, hkey, heps, hdelta⟩
    rw [if_pos hkey]

def Stage.Knows (p : Publication) (db : LedgerDb) : Stage → Prop
  | .selecting | .charging => True
  | .inserting work => charge db p = some work
  | .committing work => Publishes db p work

variable {T : FloatText} {fault : Option String} {s s' : Stage}

theorem Stage.Knows.advance (h : s.Knows p db) (hs : advance T db p fault s = .ok (.inl s')) :
    s'.Knows p db := by
  cases s with
  | selecting =>
    obtain ⟨-, hs⟩ := andThen_eq_ok.mp hs
    obtain ⟨-, hs⟩ := andThen_eq_ok.mp hs
    cases hs
    trivial
  | charging =>
    obtain ⟨-, hs⟩ := andThen_eq_ok.mp hs
    cases hc : charge db p with
    | none => simp [hc] at hs
    | some work =>
      rw [hc] at hs
      cases hs
      exact hc
  | inserting work =>
    obtain ⟨-, hs⟩ := andThen_eq_ok.mp hs
    obtain ⟨work', hw, hs⟩ := bind_eq_ok.mp hs
    cases hs
    exact ⟨work, h, hw⟩
  | committing work =>
    obtain ⟨-, hs⟩ := andThen_eq_ok.mp hs
    cases hs

theorem Stage.Knows.commits (h : s.Knows p db) (hs : Dp.advance T db p fault s = .ok (.inr db')) :
    Publishes db p db' := by
  cases s with
  | selecting =>
    obtain ⟨-, hs⟩ := andThen_eq_ok.mp hs
    obtain ⟨-, hs⟩ := andThen_eq_ok.mp hs
    cases hs
  | charging =>
    obtain ⟨-, hs⟩ := andThen_eq_ok.mp hs
    cases hc : charge db p with
    | none => simp [hc] at hs
    | some work =>
      rw [hc] at hs
      cases hs
  | inserting work =>
    obtain ⟨-, hs⟩ := andThen_eq_ok.mp hs
    obtain ⟨work', hw, hs⟩ := bind_eq_ok.mp hs
    cases hs
  | committing work =>
    obtain ⟨-, hs⟩ := andThen_eq_ok.mp hs
    cases hs
    exact h

end SauronId.Dp
