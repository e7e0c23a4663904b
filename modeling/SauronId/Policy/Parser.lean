import SauronId.Lib.Fallible
import SauronId.Lib.Text
import SauronId.Policy.Ast

namespace SauronId.Policy

open Lib Lib.Encoding Lib.Text

structure TextEngine where
  (emailLike ssnLike : String → Bool)
  decimalDigit : Char → Bool
  debugStrings : List String → String
  displayF64 : ℚ → String

structure LocalTime where
  weekday : Fin 7
  hour : Fin 24
  minute : Fin 60
  year : ℤ
  (month day : ℕ)

def LocalTime.hhmm (t : LocalTime) : String := zeroPad 2 t.hour ++ ":" ++ zeroPad 2 t.minute

def LocalTime.date (t : LocalTime) : String :=
  (if t.year < 0 then "-" else if 9999 < t.year then "+" else "") ++
    zeroPad 4 t.year.natAbs ++ "-" ++ zeroPad 2 t.month ++ "-" ++ zeroPad 2 t.day

structure ZoneDb where
  Zone : Type
  utc : Zone
  fromStr : String → Except String Zone
  representable : ℤ → Bool
  localTime : Zone → ℤ → LocalTime

inductive PolicyParseError
  | schemaViolation (message : String)
  | unsupportedVersion (message : String)
  deriving DecidableEq

def PolicyParseError.display : PolicyParseError → String
  | schemaViolation m => "schema violation: " ++ m
  | unsupportedVersion m => "unsupported policy version: " ++ m

/-- The pattern `^(?:[01]\d|2[0-3]):[0-5]\d$`, in which `\d` is any decimal
digit of Unicode. -/
def hhmmLike (E : TextEngine) (s : String) : Bool :=
  match s.toList with
  | [h₁, h₂, colon, m₁, m₂] =>
    (((h₁ = '0' ∨ h₁ = '1') ∧ E.decimalDigit h₂) ∨ (h₁ = '2' ∧ '0' ≤ h₂ ∧ h₂ ≤ '3')) ∧
      colon = ':' ∧ ('0' ≤ m₁ ∧ m₁ ≤ '5') ∧ E.decimalDigit m₂
  | _ => false

def validateHhmm (E : TextEngine) (s : String) : Except PolicyParseError Unit :=
  ensure (hhmmLike E s) (.schemaViolation ("invalid HH:MM time '" ++ s ++
    "' (expected 24-hour with leading zeros, e.g. 09:00)"))

def validateIanaTz (Z : ZoneDb) (tz : String) : Except PolicyParseError Unit :=
  match Z.fromStr tz with
  | .ok _ => .ok ()
  | .error e => .error (.schemaViolation ("invalid IANA tz '" ++ tz ++ "': " ++ e))

theorem validateIanaTz_eq_ok {Z : ZoneDb} {tz : String} :
    validateIanaTz Z tz = .ok () ↔ ∃ zone, Z.fromStr tz = .ok zone := by
  unfold validateIanaTz
  split
  · next zone h => simp [h]
  · next e h => simp [h]

def supportedVersion : String := "1"

def validateUsd (E : TextEngine) (field : String) (amount : ℚ) : Except PolicyParseError Unit :=
  ensure (0 ≤ amount) (.schemaViolation ("`binding." ++ field ++
    "` must be a finite, non-negative number, got " ++ E.displayF64 amount))

def validateRate (field : String) (requests : ℕ) : Except PolicyParseError Unit :=
  ensure (requests ≠ 0) (.schemaViolation ("`binding." ++ field ++ "` must be > 0"))

def validateDataScope (E : TextEngine) (scope : DataScope) : Except PolicyParseError Unit :=
  let conflict := scope.allow.filter (fun t ↦ t ∈ scope.deny)
  ensure (conflict = []) (.schemaViolation
    ("`binding.data_scope.allow` and `.deny` must be disjoint; overlap: " ++
      E.debugStrings conflict))

def validateSignature (r : SignatureRequirement) : Except PolicyParseError Unit := do
  ensure (r.threshold ≠ 0) (.schemaViolation
    ("`required_signatures[role=" ++ r.role ++ "].threshold` must be > 0"))
  ensure (trim r.role ≠ "") (.schemaViolation "`required_signatures[].role` must be non-empty")

def validateTimeWindow (E : TextEngine) (Z : ZoneDb) (w : TimeWindow) :
    Except PolicyParseError Unit := do
  validateHhmm E w.start
  validateHhmm E w.stop
  validateIanaTz Z w.timezone

def validateBusinessHours (E : TextEngine) (Z : ZoneDb) (hours : BusinessHours) :
    Except PolicyParseError Unit := do
  validateIanaTz Z hours.timezone
  hours.weekdayWindows.forM (fun (weekday, start, stop) ↦ do
    ensure (weekday ≤ 6) (.schemaViolation
      ("`business_hours.weekday_windows` key must be 0..=6 (got " ++ toString weekday ++ ")"))
    validateHhmm E start
    validateHhmm E stop)

def isAsciiDigit (b : UInt8) : Bool := 48 ≤ b ∧ b ≤ 57

def isYyyyMmDd (s : String) : Bool :=
  match bytes s with
  | [y₁, y₂, y₃, y₄, dash₁, m₁, m₂, dash₂, d₁, d₂] =>
    dash₁ = 45 ∧ dash₂ = 45 ∧ [y₁, y₂, y₃, y₄, m₁, m₂, d₁, d₂].all isAsciiDigit
  | _ => false

def validateDate (d : String) : Except PolicyParseError Unit :=
  ensure (isYyyyMmDd d) (.schemaViolation
    ("`holiday_blackout_dates` entry must be YYYY-MM-DD, got '" ++ d ++ "'"))

def validate (E : TextEngine) (Z : ZoneDb) (p : Policy) : Except PolicyParseError Unit := do
  ensure (p.version = supportedVersion) (.unsupportedVersion
    ("expected version \"" ++ supportedVersion ++ "\", got \"" ++ p.version ++ "\""))
  ensure (trim p.agent ≠ "") (.schemaViolation "`agent` must be non-empty")
  ensureSome p.binding.maxBudgetUsd (validateUsd E "max_budget_usd")
  ensureSome p.binding.rateLimit
    (fun r ↦ validateRate "rate_limit.requests_per_minute" r.requestsPerMinute)
  ensureSome p.binding.timeWindow (validateTimeWindow E Z)
  ensureSome p.binding.dataScope (validateDataScope E)
  ensureSome p.binding.requiredSignatures (fun rs ↦ rs.forM validateSignature)
  ensureSome p.binding.dailyBudgetUsd (validateUsd E "daily_budget_usd")
  ensureSome p.binding.maxSingleActionUsd (validateUsd E "max_single_action_usd")
  ensureSome p.binding.weeklyRate
    (fun r ↦ validateRate "weekly_rate.requests_per_week" r.requestsPerWeek)
  ensureSome p.binding.businessHours (validateBusinessHours E Z)
  ensureSome p.binding.holidayBlackoutDates (fun ds ↦ ds.forM validateDate)

variable {E : TextEngine} {Z : ZoneDb} {p : Policy}

@[mk_iff]
structure Valid (E : TextEngine) (Z : ZoneDb) (p : Policy) : Prop where
  version : p.version = supportedVersion
  agent : trim p.agent ≠ ""
  maxBudget : ∀ b, p.binding.maxBudgetUsd = some b → 0 ≤ b
  rateLimit : ∀ r, p.binding.rateLimit = some r → r.requestsPerMinute ≠ 0
  timeWindow : ∀ w, p.binding.timeWindow = some w →
    hhmmLike E w.start ∧ hhmmLike E w.stop ∧ ∃ zone, Z.fromStr w.timezone = .ok zone
  dataScope : ∀ s, p.binding.dataScope = some s → ∀ t ∈ s.allow, t ∉ s.deny
  signatures : ∀ rs, p.binding.requiredSignatures = some rs →
    ∀ r ∈ rs, r.threshold ≠ 0 ∧ trim r.role ≠ ""
  dailyBudget : ∀ b, p.binding.dailyBudgetUsd = some b → 0 ≤ b
  singleAction : ∀ b, p.binding.maxSingleActionUsd = some b → 0 ≤ b
  weeklyRate : ∀ r, p.binding.weeklyRate = some r → r.requestsPerWeek ≠ 0
  businessHours : ∀ hours, p.binding.businessHours = some hours →
    (∃ zone, Z.fromStr hours.timezone = .ok zone) ∧
      ∀ w ∈ hours.weekdayWindows, w.1 ≤ 6 ∧ hhmmLike E w.2.1 ∧ hhmmLike E w.2.2
  blackoutDates : ∀ ds, p.binding.holidayBlackoutDates = some ds → ∀ d ∈ ds, isYyyyMmDd d

theorem validate_eq_ok : validate E Z p = .ok () ↔ Valid E Z p := by
  simp only [validate, validateUsd, validateRate, validateTimeWindow, validateDataScope,
    validateSignature, validateBusinessHours, validateDate, validateHhmm, validateIanaTz_eq_ok,
    andThen_eq_ok, forM_eq_ok, ensure_eq_ok, ensureSome_eq_ok, List.filter_eq_nil_iff,
    decide_eq_true_eq, valid_iff]

end SauronId.Policy
