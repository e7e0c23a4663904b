import SauronId.Policy.Compiler
import SauronId.Spend.Ledger

namespace SauronId.Policy

open Lib Spend

structure BindingRow where
  (tenantId agentId policyId : String)
  boundAt : ℤ

def BindingRow.key (r : BindingRow) : String × String := (r.tenantId, r.agentId)

structure Handles where
  bindings : Table BindingRow.key
  policies : String × String → Option CompiledPolicy
  spend : SpendDb

def lookupBoundPolicyId (h : Handles) (tenantId agentId : String) :
    Except AppError (Option String) :=
  if agentId = "" then .error (.badRequest "agent_id required")
  else .ok ((h.bindings.get (tenantId, agentId)).map BindingRow.policyId)

def getByIdTenant (h : Handles) (tenantId id : String) : Option CompiledPolicy :=
  h.policies (tenantId, id)

def simulatorWarning : String :=
  "agent_id omitted; client-supplied spend_total_usd accepted as-is. Ledger NOT consulted."

def resolveSpendForEvaluationTenant (db : SpendDb) (tenantId policyId : String)
    (agentId : Option String) (overrideSpend : Option ℚ) : ℚ × Bool × Option String :=
  if agentId.getD "" ≠ "" then
    (getSpendTotalTenant db tenantId policyId (agentId.getD "") 0, false, none)
  else (overrideSpend.getD 0, true, some simulatorWarning)

def computeTzHhmm (Z : ZoneDb) (p : Policy) (nowEpoch : ℤ) : String :=
  let tzName := (p.binding.timeWindow.map TimeWindow.timezone).getD "UTC"
  let tz := (Z.fromStr tzName).toOption.getD Z.utc
  if Z.representable nowEpoch then (Z.localTime tz nowEpoch).hhmm else "00:00"

inductive BoundPolicyOutcome
  | noBinding
  | policyUnavailable (policyId : String)
  | allow (policyId : String)
  | deny (policyId check reason : String)
  deriving DecidableEq

def enforcementContext (L : Engine) (raw : Policy) (spend : ℚ) (now : ℕ) (action : Action) :
    EvaluationContext :=
  { EvaluationContext.withDefaults action with
    spendTotalUsd := spend
    nowEpoch := now
    nowTzHhmm := computeTzHhmm L.zones raw now
    nowWeekday := 1
    nowDateYyyyMmDd := "2026-05-21" }

/-- `now` is the system clock in seconds since the epoch. -/
def enforceBoundPolicyWithHandles (L : Engine) (h : Handles) (now : ℕ)
    (tenantId agentId : String) (action : Action) : Except AppError BoundPolicyOutcome := do
  match ← lookupBoundPolicyId h tenantId agentId with
  | none => return .noBinding
  | some policyId =>
    match getByIdTenant h tenantId policyId with
    | none => return .policyUnavailable policyId
    | some compiled =>
      let (spend, _, _) :=
        resolveSpendForEvaluationTenant h.spend tenantId policyId (some agentId) none
      match evaluate compiled (enforcementContext L compiled.raw spend now action) with
      | .allow => return .allow policyId
      | .deny check reason => return .deny policyId check reason

def allows (L : Engine) (h : Handles) (now : ℕ) (tenantId agentId : String) (action : Action) :
    Bool :=
  match enforceBoundPolicyWithHandles L h now tenantId agentId action with
  | .ok (.allow _) => true
  | _ => false

structure Uploaded (L : Engine) (p : Policy) (c : CompiledPolicy) : Prop where
  valid : validate L.text L.zones p = .ok ()
  compiled : compile L p = .ok c

structure Bound (h : Handles) (tenantId agentId policyId : String) (c : CompiledPolicy) :
    Prop where
  agent_ne : agentId ≠ ""
  row : (h.bindings.get (tenantId, agentId)).map BindingRow.policyId = some policyId
  stored : h.policies (tenantId, policyId) = some c

def boundContext (L : Engine) (h : Handles) (now : ℕ) (tenantId agentId policyId : String)
    (c : CompiledPolicy) (action : Action) : EvaluationContext :=
  enforcementContext L c.raw (getSpendTotalTenant h.spend tenantId policyId agentId 0) now action

section Bound

variable {L : Engine} {h : Handles} {now : ℕ} {tenantId agentId policyId : String}
variable {c : CompiledPolicy} {action : Action}

theorem enforce_of_bound (hb : Bound h tenantId agentId policyId c) :
    enforceBoundPolicyWithHandles L h now tenantId agentId action =
      .ok (match evaluate c (boundContext L h now tenantId agentId policyId c action) with
        | .allow => .allow policyId
        | .deny check reason => .deny policyId check reason) := by
  have hlookup : lookupBoundPolicyId h tenantId agentId = .ok (some policyId) := by
    rw [lookupBoundPolicyId, if_neg hb.agent_ne, hb.row]
  have hspend : resolveSpendForEvaluationTenant h.spend tenantId policyId (some agentId) none =
      (getSpendTotalTenant h.spend tenantId policyId agentId 0, false, none) := by
    simp [resolveSpendForEvaluationTenant, hb.agent_ne]
  simp only [enforceBoundPolicyWithHandles, hlookup, getByIdTenant, hb.stored, hspend, bind,
    Except.bind, boundContext]
  split
  · simp [pure, Except.pure]
  · simp [pure, Except.pure]

theorem allows_iff (hb : Bound h tenantId agentId policyId c) :
    allows L h now tenantId agentId action = true ↔
      evaluate c (boundContext L h now tenantId agentId policyId c action) = .allow := by
  rw [allows, enforce_of_bound hb]
  cases evaluate c (boundContext L h now tenantId agentId policyId c action) <;> simp

end Bound

theorem Uploaded.ofBinding {L : Engine} {p : Policy} (hv : validate L.text L.zones p = .ok ())
    (hi : p.invariants = []) : Uploaded L p (.ofBinding L p) :=
  ⟨hv, compile_of_valid (validate_eq_ok.mp hv) hi⟩

def Handles.solo (tenantId agentId : String) (c : CompiledPolicy) : Handles where
  bindings := ⟨[⟨tenantId, agentId, c.policyId, 0⟩], List.nodup_singleton _⟩
  policies := fun key ↦ if key = (tenantId, c.policyId) then some c else none
  spend := .empty

theorem Bound.solo {tenantId agentId : String} (h : agentId ≠ "") (c : CompiledPolicy) :
    Bound (.solo tenantId agentId c) tenantId agentId c.policyId c where
  agent_ne := h
  row := by simp [Handles.solo, Table.get, BindingRow.key]
  stored := by simp [Handles.solo]

def LocalTime.atOffset (offset epoch : ℤ) : LocalTime :=
  let days := (epoch + offset) / 86400
  let seconds := ((epoch + offset) % 86400).toNat
  let era := (days + 719468) / 146097
  let dayOfEra := ((days + 719468) % 146097).toNat
  let yearOfEra :=
    (dayOfEra - dayOfEra / 1460 + dayOfEra / 36524 - dayOfEra / 146096) / 365
  let dayOfYear := dayOfEra - (365 * yearOfEra + yearOfEra / 4 - yearOfEra / 100)
  let shifted := (5 * dayOfYear + 2) / 153
  let month := if shifted < 10 then shifted + 3 else shifted - 9
  { weekday := Fin.ofNat 7 ((days + 4) % 7).toNat
    hour := Fin.ofNat 24 (seconds / 3600)
    minute := Fin.ofNat 60 (seconds / 60)
    year := yearOfEra + era * 400 + (if month ≤ 2 then 1 else 0)
    month := month
    day := dayOfYear - (153 * shifted + 2) / 5 + 1 }

def plainEngine : Engine where
  text :=
    { emailLike := fun s ↦ s.contains '@'
      ssnLike := fun _ ↦ false
      decimalDigit := Char.isDigit
      debugStrings := fun items ↦ ", ".intercalate items
      displayF64 := usd }
  zones :=
    { Zone := ℤ
      utc := 0
      fromStr := fun name ↦
        if name = "UTC" then .ok 0
        else if name = "Asia/Tokyo" then .ok 32400
        else .error "failed to parse timezone"
      representable := fun _ ↦ true
      localTime := LocalTime.atOffset }
  expressions :=
    { Expr := Empty
      parse := fun src ↦ .error ("unexpected input: " ++ src)
      evalPredicate := fun expr ↦ nomatch expr }
  hashPolicy := fun p ↦ "pol_" ++ p.agent

example : (LocalTime.atOffset 0 1779364800).date = "2026-05-21" ∧
    (LocalTime.atOffset 0 1779364800).weekday = 4 := by decide +kernel

end SauronId.Policy
