import SauronId.Policy.Enforcement

namespace SauronId.Policy

open Lib Spend

def openOn (hours : BusinessHours) (weekday : ℕ) (hhmm : String) : Bool :=
  (hours.weekdayWindows.lookup weekday).any (fun w ↦ inWindow w.1 w.2 hhmm)

def openAt (Z : ZoneDb) (hours : BusinessHours) (dates : List String) (now : ℕ) : Bool :=
  match Z.fromStr hours.timezone with
  | .ok zone =>
    let t := Z.localTime zone now
    openOn hours t.weekday t.hhmm ∧ t.date ∉ dates
  | .error _ => false

variable {ctx : EvaluationContext}

theorem businessHoursCheck_eq_none {hours : BusinessHours} :
    businessHoursCheck hours ctx = none ↔ openOn hours ctx.nowWeekday ctx.nowTzHhmm = true := by
  unfold businessHoursCheck openOn
  cases hours.weekdayWindows.lookup ctx.nowWeekday with
  | none => simp
  | some w => simp

theorem holidayBlackoutCheck_eq_none {dates : List String} (h : ctx.nowDateYyyyMmDd ≠ "") :
    holidayBlackoutCheck dates ctx = none ↔ ctx.nowDateYyyyMmDd ∉ dates := by
  simp [holidayBlackoutCheck, h]

def calendarChecks : List String := ["business_hours", "holiday_blackout"]

section

variable {L : Engine} {h : Handles} {now : ℕ} {tenantId agentId policyId : String}
variable {p : Policy} {c : CompiledPolicy} {action : Action}
variable {hours : BusinessHours} {dates : List String}

theorem allows_iff_fixed_day (hu : Uploaded L p c) (hb : Bound h tenantId agentId policyId c)
    (hh : p.binding.businessHours = some hours)
    (hd : p.binding.holidayBlackoutDates = some dates) :
    allows L h now tenantId agentId action = true ↔
      openOn hours 1 (computeTzHhmm L.zones p now) = true ∧ "2026-05-21" ∉ dates ∧
        c.OthersPass calendarChecks (boundContext L h now tenantId agentId policyId c action) := by
  have hhours : ("business_hours", p.binding.businessHours.map businessHoursCheck) ∈
      slots L.text p.binding := by
    simp [slots]
  have hdates : ("holiday_blackout", p.binding.holidayBlackoutDates.map holidayBlackoutCheck) ∈
      slots L.text p.binding := by
    simp [slots]
  have hdate : (boundContext L h now tenantId agentId policyId c action).nowDateYyyyMmDd ≠ "" := by
    simp [boundContext, enforcementContext]
  rw [allows_iff hb, evaluate_eq_allow calendarChecks]
  simp only [calendarChecks, List.forall_mem_cons, List.not_mem_nil, false_implies,
    forall_const, and_true, passes_setting_iff hu.compiled hhours,
    passes_setting_iff hu.compiled hdates, hh, hd, Option.some.injEq, forall_eq', businessHoursCheck_eq_none,
    holidayBlackoutCheck_eq_none hdate]
  simp only [boundContext, enforcementContext, compile_raw hu.compiled, and_assoc]

end

def officeHours : BusinessHours where
  weekdayWindows := [(1, "09:00", "17:00"), (2, "09:00", "17:00"), (3, "09:00", "17:00"),
    (4, "09:00", "17:00"), (5, "09:00", "17:00")]
  timezone := "UTC"

def officePolicy : Policy where
  version := "1"
  agent := "clerk"
  binding := { businessHours := some officeHours, holidayBlackoutDates := some ["2026-12-25"] }
  invariants := []

theorem officePolicy_uploaded :
    Uploaded plainEngine officePolicy (.ofBinding plainEngine officePolicy) :=
  .ofBinding (by decide +kernel) rfl

def officeHandles : Handles := .solo "default" "agt_clerk" (.ofBinding plainEngine officePolicy)

def readMail : Action := { actionId := "act_1", tool := "read_mail", timestamp := 0 }

end SauronId.Policy
