import SauronId.Json

namespace SauronId.Policy

structure WeeklyRate where
  requestsPerWeek : ℕ

/-- Windows by weekday, 0 for Sunday. A day without one is closed. -/
structure BusinessHours where
  weekdayWindows : List (ℕ × String × String)
  timezone : String

structure DataScope where
  (allow deny : List String)

structure RateLimit where
  requestsPerMinute : ℕ

structure TimeWindow where
  (start stop timezone : String)

structure SignatureRequirement where
  role : String
  threshold : ℕ

structure DelegationLimits where
  maxDepth : ℕ
  allowedSubagents : List String

structure Binding where
  allowedTools : Option (List String) := none
  maxBudgetUsd : Option ℚ := none
  dataScope : Option DataScope := none
  rateLimit : Option RateLimit := none
  timeWindow : Option TimeWindow := none
  requiredSignatures : Option (List SignatureRequirement) := none
  delegation : Option DelegationLimits := none
  domainAllowlist : Option (List String) := none
  domainDenylist : Option (List String) := none
  toolDenylist : Option (List String) := none
  dailyBudgetUsd : Option ℚ := none
  maxSingleActionUsd : Option ℚ := none
  weeklyRate : Option WeeklyRate := none
  maxConcurrent : Option ℕ := none
  cooldownSeconds : Option ℕ := none
  maxPayloadBytes : Option ℕ := none
  contentTypeAllowlist : Option (List String) := none
  maxRecipients : Option ℕ := none
  maxChainDepth : Option ℕ := none
  piiBlock : Option Bool := none
  languageAllowlist : Option (List String) := none
  currencyAllowlist : Option (List String) := none
  geoAllowCountries : Option (List String) := none
  geoDenyCountries : Option (List String) := none
  businessHours : Option BusinessHours := none
  holidayBlackoutDates : Option (List String) := none
  pinnedVersion : Option String := none
  dryRun : Option Bool := none

structure Action where
  (actionId tool : String)
  amountUsd : Option ℚ := none
  dataClassification : Option String := none
  signatures : List String := []
  delegationDepth : ℕ := 0
  timestamp : ℤ
  metadata : List (String × Json) := []

def Action.text (a : Action) (name : String) : Option String :=
  (a.metadata.lookup name).bind Json.asStr

def Action.count (a : Action) (name : String) : Option ℕ :=
  (a.metadata.lookup name).bind Json.asU64

structure EvaluationContext where
  action : Action
  spendTotalUsd : ℚ
  recentCallTimestamps : List ℤ
  nowEpoch : ℤ
  nowTzHhmm : String
  dailySpendUsd : ℚ
  weeklyCallTimestamps : List ℤ
  inFlightActions : ℕ
  lastActionAt : Option ℤ
  nowWeekday : ℕ
  nowDateYyyyMmDd : String

def EvaluationContext.withDefaults (action : Action) : EvaluationContext where
  action := action
  spendTotalUsd := 0
  recentCallTimestamps := []
  nowEpoch := 0
  nowTzHhmm := ""
  dailySpendUsd := 0
  weeklyCallTimestamps := []
  inFlightActions := 0
  lastActionAt := none
  nowWeekday := 0
  nowDateYyyyMmDd := ""

inductive Verdict
  | allow
  | deny (check reason : String)
  deriving DecidableEq

abbrev Objection := EvaluationContext → Option String

structure RuntimeCheck where
  name : String
  objection : Objection

def RuntimeCheck.evaluate (c : RuntimeCheck) (ctx : EvaluationContext) : Verdict :=
  match c.objection ctx with
  | none => .allow
  | some reason => .deny c.name reason

end SauronId.Policy

namespace SauronId

structure Policy where
  (version agent : String)
  binding : Policy.Binding
  invariants : List String

end SauronId
