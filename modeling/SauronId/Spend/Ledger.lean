import Mathlib.Data.Rat.Defs
import Mathlib.Algebra.Order.Ring.Rat
import SauronId.Lib.Run
import SauronId.Lib.Sum
import SauronId.Lib.Table

namespace SauronId.Spend

open Lib Lib.Run

/-- An `f64` that is either not finite or taken as the exact number it stands for. -/
inductive Amount
  | finite (value : ℚ)
  | notFinite
  deriving DecidableEq

inductive RepoError
  | backend (message : String)
  | replay (message : String)
  deriving DecidableEq

inductive AppError
  | badRequest (message : String)
  | conflict (message : String)
  | internal (message : String)
  deriving DecidableEq

def AppError.display : AppError → String
  | badRequest s => "bad request: " ++ s
  | conflict s => "conflict: " ++ s
  | internal s => "internal: " ++ s

structure LogRow where
  (logId policyId agentId : String)
  actionId : Option String
  amountUsd : ℚ
  recordedAt : ℤ
  (source tenantId : String)

/-- A row of `spend_ledger`. Its primary key leaves the tenant out. -/
structure LedgerRow where
  (policyId agentId : String)
  periodStart : ℤ
  totalUsd : ℚ
  lastUpdated : ℤ
  tenantId : String

def LedgerRow.key (l : LedgerRow) : String × String × ℤ := (l.policyId, l.agentId, l.periodStart)

structure SpendDb where
  log : Table LogRow.logId
  ledger : Table LedgerRow.key

def SpendDb.empty : SpendDb := ⟨.empty, .empty⟩

def addToTotal (amountUsd : ℚ) (now : ℤ) (l : LedgerRow) : LedgerRow :=
  { l with totalUsd := l.totalUsd + amountUsd, lastUpdated := now }

/-- The transaction of `record_spend_with_period_tenant`: a log row, then the
upsert of the running total. -/
def recordTransaction (db : SpendDb) (row : LogRow) (periodStart : ℤ) :
    Except RepoError SpendDb :=
  match db.log.insert row with
  | none => .error (.backend "spend_log insert: UNIQUE constraint failed: spend_log.log_id")
  | some log => .ok
      { log := log
        ledger := db.ledger.upsert
          { policyId := row.policyId
            agentId := row.agentId
            periodStart := periodStart
            totalUsd := row.amountUsd
            lastUpdated := row.recordedAt
            tenantId := row.tenantId }
          (addToTotal row.amountUsd row.recordedAt) (fun _ ↦ rfl) }

def recordSpendWithPeriodTenant (db : SpendDb) (tenantId policyId agentId : String)
    (actionId : Option String) (amountUsd : Amount) (source : String) (periodStart now : ℤ)
    (random : String) : Except RepoError (String × SpendDb) :=
  if policyId = "" ∨ agentId = "" then .error (.backend "missing policy_id or agent_id")
  else
    match amountUsd with
    | .notFinite => .error (.backend "amount_usd must be finite")
    | .finite value =>
      if source ≠ "sdk_flush" ∧ source ≠ "server_recompute" then
        .error (.backend ("unknown spend source '" ++ source ++ "'"))
      else do
        let logId := "splog_" ++ random
        let db ← recordTransaction db
          { logId := logId
            policyId := policyId
            agentId := agentId
            actionId := actionId
            amountUsd := value
            recordedAt := now
            source := source
            tenantId := tenantId } periodStart
        return (logId, db)

def recordSpendTenant (db : SpendDb) (tenantId policyId agentId : String)
    (actionId : Option String) (amountUsd : Amount) (source : String) (now : ℤ)
    (random : String) : Except RepoError (String × SpendDb) :=
  recordSpendWithPeriodTenant db tenantId policyId agentId actionId amountUsd source 0 now random

def getSpendTotalTenant (db : SpendDb) (tenantId policyId agentId : String) (periodStart : ℤ) : ℚ :=
  (((db.ledger.get (policyId, agentId, periodStart)).filter (fun l ↦ l.tenantId = tenantId)).map
    LedgerRow.totalUsd).getD 0

def maxSpendRecordUsd : ℚ := 1000000

def mapRepoErr : RepoError → AppError
  | .backend s => .internal ("ledger backend: " ++ s)
  | .replay s => .conflict ("ledger replay: " ++ s)

def recordSpendInnerTenant (db : SpendDb) (tenantId agentId policyId : String)
    (actionId : Option String) (amountUsd : Amount) (now : ℤ) (random : String) :
    Except AppError ((String × ℚ) × SpendDb) :=
  if agentId = "" then .error (.badRequest "agent_id required")
  else if policyId = "" then .error (.badRequest "policy_id required")
  else
    match amountUsd with
    | .notFinite => .error (.badRequest "amount_usd must be a finite number")
    | .finite value =>
      if value < 0 then .error (.badRequest "amount_usd must be non-negative")
      else if maxSpendRecordUsd < value then
        .error (.badRequest "amount_usd exceeds sanity cap of 1000000")
      else
        match recordSpendTenant db tenantId policyId agentId actionId amountUsd "sdk_flush" now
          random with
        | .error e => .error (mapRepoErr e)
        | .ok (logId, db) => .ok ((logId, getSpendTotalTenant db tenantId policyId agentId 0), db)

structure SpendRecord where
  (tenantId policyId agentId : String)
  actionId : Option String
  amountUsd : ℚ
  source : String
  now : ℤ
  random : String

def next (db : SpendDb) (r : SpendRecord) : Option SpendDb :=
  (recordSpendTenant db r.tenantId r.policyId r.agentId r.actionId (.finite r.amountUsd) r.source
    r.now r.random).toOption.map Prod.snd

def recordedTotal (rs : List SpendRecord) (tenantId policyId agentId : String) : ℚ :=
  sumWhere (fun r ↦ r.tenantId = tenantId ∧ r.policyId = policyId ∧ r.agentId = agentId)
    SpendRecord.amountUsd rs

def loggedTotal (db : SpendDb) (tenantId policyId agentId : String) : ℚ :=
  sumWhere (fun r ↦ r.tenantId = tenantId ∧ r.policyId = policyId ∧ r.agentId = agentId)
    LogRow.amountUsd db.log.rows

def pairTotal (rs : List SpendRecord) (policyId agentId : String) : ℚ :=
  sumWhere (fun r ↦ r.policyId = policyId ∧ r.agentId = agentId) SpendRecord.amountUsd rs

def owner (rs : List SpendRecord) (policyId agentId : String) : Option String :=
  (rs.find? (fun r ↦ r.policyId = policyId ∧ r.agentId = agentId)).map SpendRecord.tenantId

variable {db db' : SpendDb} {r : SpendRecord} {rs : List SpendRecord}
  {tenantId policyId agentId : String}

theorem next_eq_some (h : next db r = some db') :
    (∃ logId, db'.log.rows = db.log.rows ++
      [⟨logId, r.policyId, r.agentId, r.actionId, r.amountUsd, r.now, r.source, r.tenantId⟩]) ∧
    ∀ k, db'.ledger.get k = if k = (r.policyId, r.agentId, 0) then
      some ((db.ledger.get k).elim ⟨r.policyId, r.agentId, 0, r.amountUsd, r.now, r.tenantId⟩
        (addToTotal r.amountUsd r.now)) else db.ledger.get k := by
  obtain ⟨⟨logId, u⟩, hu, rfl⟩ := Option.map_eq_some_iff.mp h
  unfold recordSpendTenant recordSpendWithPeriodTenant at hu
  split_ifs at hu
  · cases hu
  · cases hu
  simp only [recordTransaction] at hu
  cases hi : db.log.insert ⟨"splog_" ++ r.random, r.policyId, r.agentId, r.actionId, r.amountUsd,
      r.now, r.source, r.tenantId⟩ with
  | none =>
    rw [hi] at hu
    cases hu
  | some log =>
    rw [hi] at hu
    obtain ⟨rfl, rfl⟩ := Prod.mk.inj (Option.some.inj hu)
    exact ⟨⟨_, (Table.insert_eq_some.mp hi).2⟩, fun k ↦ Table.get_upsert k⟩

theorem owner_concat : owner (rs ++ [r]) policyId agentId =
    (owner rs policyId agentId).or
      (if r.policyId = policyId ∧ r.agentId = agentId then some r.tenantId else none) := by
  unfold owner
  rw [List.find?_append, Option.map_or]
  by_cases h : r.policyId = policyId ∧ r.agentId = agentId <;> simp [h]

theorem pairTotal_concat : pairTotal (rs ++ [r]) policyId agentId =
    pairTotal rs policyId agentId +
      if r.policyId = policyId ∧ r.agentId = agentId then r.amountUsd else 0 := by
  simp only [pairTotal, sumWhere_concat, decide_eq_true_eq]

theorem recordedTotal_concat : recordedTotal (rs ++ [r]) tenantId policyId agentId =
    recordedTotal rs tenantId policyId agentId +
      if r.tenantId = tenantId ∧ r.policyId = policyId ∧ r.agentId = agentId then r.amountUsd
      else 0 := by
  simp only [recordedTotal, sumWhere_concat, decide_eq_true_eq]

theorem pairTotal_of_owner_none (h : owner rs policyId agentId = none) :
    pairTotal rs policyId agentId = 0 := by
  have hnone := List.find?_eq_none.mp (Option.map_eq_none_iff.mp h)
  exact sumWhere_eq_zero (fun r hr hp ↦ absurd hp (hnone r hr))

/-- The lifetime row of a policy and an agent belongs to whoever recorded first
and adds up what every tenant recorded. -/
theorem ledger_of_run (h : run next .empty rs = some db) :
    (db.ledger.get (policyId, agentId, 0)).map (fun l ↦ (l.tenantId, l.totalUsd)) =
      (owner rs policyId agentId).map (fun t ↦ (t, pairTotal rs policyId agentId)) := by
  induction rs using List.reverseRecOn generalizing db with
  | nil =>
    obtain rfl := Option.some.inj h
    rfl
  | append_singleton rs r ih =>
    obtain ⟨mid, hmid, hr⟩ := run_append.mp h
    obtain ⟨u, hu, hdb⟩ := run_cons.mp hr
    obtain rfl := Option.some.inj hdb
    have hih := ih hmid
    rw [(next_eq_some hu).2, owner_concat, pairTotal_concat]
    by_cases hk : r.policyId = policyId ∧ r.agentId = agentId
    · obtain ⟨rfl, rfl⟩ := hk
      simp only [and_self, if_true]
      -- A first record makes the row, a later one adds to it and keeps its tenant.
      cases howner : owner rs r.policyId r.agentId with
      | none =>
        rw [howner, Option.map_none, Option.map_eq_none_iff] at hih
        simp [hih, pairTotal_of_owner_none howner]
      | some t =>
        rw [howner, Option.map_some] at hih
        obtain ⟨l, hl, he⟩ := Option.map_eq_some_iff.mp hih
        obtain ⟨rfl, htotal⟩ := Prod.mk.inj he
        simp [hl, addToTotal, htotal]
    · have hne : (policyId, agentId, (0 : ℤ)) ≠ (r.policyId, r.agentId, 0) := by
        intro he
        simp only [Prod.mk.injEq] at he
        exact hk ⟨he.1.symm, he.2.1.symm⟩
      rw [if_neg hne, if_neg hk, if_neg hk, Option.or_none, add_zero]
      exact hih

theorem getSpendTotalTenant_of_run (h : run next .empty rs = some db) :
    getSpendTotalTenant db tenantId policyId agentId 0 =
      if owner rs policyId agentId = some tenantId then pairTotal rs policyId agentId else 0 := by
  have hrow := @ledger_of_run _ _ policyId agentId h
  unfold getSpendTotalTenant
  cases hl : db.ledger.get (policyId, agentId, 0) with
  | none =>
    have howner : owner rs policyId agentId = none := by simpa [hl] using hrow.symm
    simp [howner]
  | some l =>
    rw [hl, Option.map_some] at hrow
    obtain ⟨t, ht, he⟩ := Option.map_eq_some_iff.mp hrow.symm
    obtain ⟨rfl, htotal⟩ := Prod.mk.inj he
    rw [ht, htotal, Option.filter_some]
    by_cases hten : l.tenantId = tenantId <;> simp [hten]

theorem loggedTotal_of_run (h : run next .empty rs = some db) :
    loggedTotal db tenantId policyId agentId = recordedTotal rs tenantId policyId agentId := by
  induction rs using List.reverseRecOn generalizing db with
  | nil =>
    obtain rfl := Option.some.inj h
    rfl
  | append_singleton rs r ih =>
    obtain ⟨mid, hmid, hr⟩ := run_append.mp h
    obtain ⟨u, hu, hdb⟩ := run_cons.mp hr
    obtain rfl := Option.some.inj hdb
    obtain ⟨logId, hlog⟩ := (next_eq_some hu).1
    rw [recordedTotal_concat, ← ih hmid, loggedTotal, hlog, sumWhere_concat, ← loggedTotal]
    simp only [decide_eq_true_eq]

end SauronId.Spend
