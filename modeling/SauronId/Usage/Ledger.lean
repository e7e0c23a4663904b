import Mathlib.Algebra.Order.Ring.Rat
import SauronId.Lib.Fallible
import SauronId.Lib.Table
import SauronId.Lib.Text

namespace SauronId.Usage

open Lib Lib.Text

/-- The value in an `INTEGER` column. A sum that leaves the range of `i64` is
stored as a floating-point value, and adding a count to it does not bring it
back. -/
inductive Cell
  | integer (n : ℤ)
  | real
  deriving DecidableEq

namespace Cell

def add : Cell → ℤ → Cell
  | integer m, n => if -2 ^ 63 ≤ m + n ∧ m + n < 2 ^ 63 then integer (m + n) else real
  | real, _ => real

/-- Reading the column as an `i64`, which the driver refuses for a
floating-point value. -/
def get : Cell → Option ℤ
  | integer n => some n
  | real => none

def Fits : Cell → ℤ → Prop
  | integer m, n => -2 ^ 63 ≤ m + n ∧ m + n < 2 ^ 63
  | real, _ => True

instance : (c : Cell) → (n : ℤ) → Decidable (c.Fits n)
  | integer _, _ => inferInstanceAs (Decidable (_ ∧ _))
  | real, _ => isTrue trivial

theorem add_of_fits {m n : ℤ} (h : (integer m).Fits n) : (integer m).add n = integer (m + n) :=
  if_pos h

end Cell

structure ModelPrice where
  (inPer1k outPer1k : ℚ)

structure UsageTotals where
  inputTokens : ℤ := 0
  outputTokens : ℤ := 0
  usd : ℚ := 0
  deriving DecidableEq

structure RingBudgets where
  usd : Option ℚ
  (inputTokens outputTokens : Option ℤ)

structure UsageKey where
  (tenantId ringId keyImageHex : String)
  deriving DecidableEq

structure Receipt where
  (receiptId tenantId : String)
  ringId : Option String
  ringKeyImageHex : String

structure UsageLogRow where
  logId : String
  key : UsageKey
  modelId : String
  (inputTokens outputTokens : ℤ)
  usd : ℚ
  recordedAt : ℤ

structure UsageLedgerRow where
  key : UsageKey
  (inputTokens outputTokens : Cell)
  usd : ℚ
  updatedAt : ℤ

structure UsageDb where
  receipts : Table Receipt.receiptId
  log : Table UsageLogRow.logId
  ledger : Table UsageLedgerRow.key

def usdFromPrices (prices : List (String × ModelPrice)) (modelId : String)
    (inTokens outTokens : ℤ) : ℚ :=
  match prices.lookup modelId with
  | some p => inTokens / 1000 * p.inPer1k + outTokens / 1000 * p.outPer1k
  | none => 0

def UsageLedgerRow.totals (row : UsageLedgerRow) : Option UsageTotals := do
  let inputTokens ← row.inputTokens.get
  let outputTokens ← row.outputTokens.get
  return ⟨inputTokens, outputTokens, row.usd⟩

def getUsage (db : UsageDb) (k : UsageKey) (fault : Option String) : Except String UsageTotals :=
  let row := match fault with
    | some _ => none
    | none => (db.ledger.get k).bind UsageLedgerRow.totals
  .ok (row.getD {})

def capExceeded {α : Type} [LinearOrder α] (unit : String) (text : α → String) (total : α)
    (cap : Option α) : Option String :=
  match cap with
  | some cap =>
    if cap < total then some (unit ++ " " ++ text total ++ " > cap " ++ text cap) else none
  | none => none

def budgetExceeded (totals : UsageTotals) (budgets : RingBudgets) : Option String :=
  (capExceeded "usd" (formatFixed 4) totals.usd budgets.usd).or
    ((capExceeded "input_tokens" toString totals.inputTokens budgets.inputTokens).or
      (capExceeded "output_tokens" toString totals.outputTokens budgets.outputTokens))

/-- One call of `record_usage`, with the clock, the prices and the random log id
that it reads, and the errors that the engine answers its statements with. -/
structure RecordCall where
  (receiptId modelId : String)
  (inTokens outTokens now : ℤ)
  prices : List (String × ModelPrice)
  logId : String
  receiptFault : Option String := none
  logFault : Option String := none
  ledgerFault : Option String := none
  readFault : Option String := none

namespace RecordCall

variable (c : RecordCall)

def usd : ℚ := usdFromPrices c.prices c.modelId c.inTokens c.outTokens

def findReceipt (db : UsageDb) : Except (ℕ × String) Receipt :=
  match c.receiptFault, db.receipts.get c.receiptId with
  | none, some receipt => .ok receipt
  | _, _ => .error (404, "receipt not found")

def logRow (k : UsageKey) : UsageLogRow :=
  ⟨c.logId, k, c.modelId, c.inTokens, c.outTokens, c.usd, c.now⟩

def appendLog (k : UsageKey) (db : UsageDb) : Except (ℕ × String) Unit × UsageDb :=
  match c.logFault, db.log.insert (c.logRow k) with
  | some e, _ => (.error (500, e), db)
  | none, none => (.error (500, "UNIQUE constraint failed: usage_log.log_id"), db)
  | none, some log => (.ok (), { db with log := log })

def freshRow (k : UsageKey) : UsageLedgerRow :=
  ⟨k, .integer c.inTokens, .integer c.outTokens, c.usd, c.now⟩

def addTo (row : UsageLedgerRow) : UsageLedgerRow :=
  { row with
    inputTokens := row.inputTokens.add c.inTokens
    outputTokens := row.outputTokens.add c.outTokens
    usd := row.usd + c.usd
    updatedAt := c.now }

theorem addTo_key (row : UsageLedgerRow) : (c.addTo row).key = row.key := rfl

def accumulate (k : UsageKey) (db : UsageDb) : Except (ℕ × String) Unit × UsageDb :=
  match c.ledgerFault with
  | some e => (.error (500, e), db)
  | none => (.ok (), { db with ledger := db.ledger.upsert (c.freshRow k) c.addTo c.addTo_key })

def target (db : UsageDb) : Except (ℕ × String) UsageKey := do
  ensure (0 ≤ c.inTokens ∧ 0 ≤ c.outTokens) (400, "token counts must be >= 0")
  let receipt ← c.findReceipt db
  let ringId ← (receipt.ringId.filter (fun s ↦ s ≠ "")).elim
    (.error (400, "usage recording requires an anon-ring receipt (ring_id missing)")) .ok
  return ⟨receipt.tenantId, ringId, receipt.ringKeyImageHex⟩

end RecordCall

open Handler in
def recordUsage (c : RecordCall) : Handler (ℕ × String) UsageDb (UsageKey × UsageTotals) := do
  let k ← query c.target
  service (c.appendLog k)
  service (c.accumulate k)
  let totals ← query (fun db ↦ (getUsage db k c.readFault).mapError (fun e ↦ (500, e)))
  return (k, totals)

variable {c : RecordCall} {db db' : UsageDb} {k : UsageKey}

theorem RecordCall.target_nonneg (h : c.target db = .ok k) : 0 ≤ c.inTokens ∧ 0 ≤ c.outTokens := by
  obtain ⟨hcounts, -⟩ := andThen_eq_ok.mp h
  exact ensure_eq_ok.mp hcounts

/-- A call that fails leaves the ledger alone. One that succeeds adds its counts
to the row of its pseudonym and answers with what can be read there. -/
theorem recordUsage_cases {r : Except (ℕ × String) (UsageKey × UsageTotals)}
    (h : (recordUsage c).exec db = (r, db')) :
    (db'.ledger = db.ledger ∧ ∃ e, r = .error e) ∨
      ∃ k t, c.target db = .ok k ∧
        db'.ledger = db.ledger.upsert (c.freshRow k) c.addTo c.addTo_key ∧
        getUsage db' k c.readFault = .ok t ∧ r = .ok (k, t) := by
  simp only [recordUsage, Handler.exec_bind, Handler.exec_query] at h
  cases hk : c.target db with
  | error e =>
    rw [hk] at h
    obtain ⟨rfl, rfl⟩ := Prod.mk.inj h
    exact .inl ⟨rfl, e, rfl⟩
  | ok k =>
    rw [hk] at h
    simp only [Handler.exec_service, RecordCall.appendLog, RecordCall.accumulate, getUsage,
      Handler.exec_pure] at h
    cases hlog : c.logFault with
    | some e =>
      rw [hlog] at h
      obtain ⟨rfl, rfl⟩ := Prod.mk.inj h
      exact .inl ⟨rfl, _, rfl⟩
    | none =>
      rw [hlog] at h
      cases hins : db.log.insert (c.logRow k) with
      | none =>
        rw [hins] at h
        obtain ⟨rfl, rfl⟩ := Prod.mk.inj h
        exact .inl ⟨rfl, _, rfl⟩
      | some log =>
        rw [hins] at h
        cases hledger : c.ledgerFault with
        | some e =>
          rw [hledger] at h
          obtain ⟨rfl, rfl⟩ := Prod.mk.inj h
          exact .inl ⟨rfl, _, rfl⟩
        | none =>
          rw [hledger] at h
          obtain ⟨rfl, rfl⟩ := Prod.mk.inj h
          exact .inr ⟨k, _, rfl, rfl, rfl, rfl⟩

end SauronId.Usage
