import SauronId.Policy.Parser

namespace SauronId.Policy

open Lib.Text

def usd (amount : ℚ) : String := formatFixed 2 amount

def objectIf (holds : Prop) [Decidable holds] (reason : String) : Option String :=
  if holds then some reason else none

@[simp] theorem objectIf_eq_none {holds : Prop} [Decidable holds] {reason : String} :
    objectIf holds reason = none ↔ ¬ holds := by
  unfold objectIf
  split_ifs with h <;> simp [h]

def Action.amount (a : Action) : ℚ := a.amountUsd.getD 0

def projectedWithin (spent : EvaluationContext → ℚ) (message : ℚ → String) (cap : ℚ) :
    Objection := fun ctx ↦
  let projected := spent ctx + ctx.action.amount
  objectIf (cap < projected) (message projected)

variable {ctx : EvaluationContext}

theorem projectedWithin_eq_none {spent : EvaluationContext → ℚ} {message : ℚ → String} {cap : ℚ} :
    projectedWithin spent message cap ctx = none ↔ spent ctx + ctx.action.amount ≤ cap :=
  objectIf_eq_none.trans not_lt

def budgetCheck (maxUsd : ℚ) : Objection :=
  projectedWithin EvaluationContext.spendTotalUsd
    (fun projected ↦
      "projected spend " ++ usd projected ++ " USD exceeds cap " ++ usd maxUsd ++ " USD")
    maxUsd

def dailyBudgetCheck (dailyCapUsd : ℚ) : Objection :=
  projectedWithin EvaluationContext.dailySpendUsd
    (fun projected ↦
      "projected daily spend " ++ usd projected ++ " USD exceeds daily cap " ++ usd dailyCapUsd ++
        " USD")
    dailyCapUsd

def perActionCapCheck (maxSingleActionUsd : ℚ) : Objection := fun ctx ↦
  objectIf (maxSingleActionUsd < ctx.action.amount)
    ("single action amount " ++ usd ctx.action.amount ++ " USD exceeds per-action cap " ++
      usd maxSingleActionUsd ++ " USD")

def scopeCheck (E : TextEngine) (scope : DataScope) : Objection := fun ctx ↦
  ctx.action.dataClassification.bind (fun raw ↦
    let tag := toAsciiLowercase raw
    let allow := scope.allow.map toAsciiLowercase
    (objectIf (tag ∈ scope.deny.map toAsciiLowercase)
      ("classification '" ++ tag ++ "' is on deny list")).or
    (objectIf (allow ≠ [] ∧ tag ∉ allow)
      ("classification '" ++ tag ++ "' not in allow list " ++ E.debugStrings allow)))

def allowlistCheck (tools : List String) : Objection := fun ctx ↦
  objectIf (ctx.action.tool ∉ tools) ("tool '" ++ ctx.action.tool ++ "' not in allowlist")

def toolDenylistCheck (tools : List String) : Objection := fun ctx ↦
  objectIf (ctx.action.tool ∈ tools) ("tool '" ++ ctx.action.tool ++ "' is on deny list")

def i64Max : ℤ := 2 ^ 63 - 1

def i64Min : ℤ := -2 ^ 63

def saturatingSub (a b : ℤ) : ℤ := max i64Min (min i64Max (a - b))

def recentCalls (window now : ℤ) (timestamps : List ℤ) : ℕ :=
  (timestamps.filter (fun t ↦ saturatingSub now window < t ∧ t ≤ now)).length % 2 ^ 32

def callsBelow (window : ℤ) (history : EvaluationContext → List ℤ) (message : ℕ → String)
    (limit : ℕ) : Objection := fun ctx ↦
  let count := recentCalls window ctx.nowEpoch (history ctx)
  objectIf (limit ≤ count) (message count)

theorem callsBelow_of_no_history {window : ℤ} {history : EvaluationContext → List ℤ}
    {message : ℕ → String} {limit : ℕ} (hlimit : limit ≠ 0)
    (h : history ctx = []) : callsBelow window history message limit ctx = none := by
  simp [callsBelow, recentCalls, h, hlimit]

def rateCheck (requestsPerMinute : ℕ) : Objection :=
  callsBelow 60 EvaluationContext.recentCallTimestamps
    (fun count ↦
      toString count ++ " calls in last 60s reached limit " ++ toString requestsPerMinute)
    requestsPerMinute

def weeklyRateCheck (requestsPerWeek : ℕ) : Objection :=
  callsBelow (7 * 24 * 60 * 60) EvaluationContext.weeklyCallTimestamps
    (fun count ↦
      toString count ++ " calls in last 7 days reached weekly limit " ++ toString requestsPerWeek)
    requestsPerWeek

def asI64 (n : ℕ) : ℤ := if n < 2 ^ 63 then n else n - 2 ^ 64

def cooldownCheck (cooldownSeconds : ℕ) : Objection := fun ctx ↦
  ctx.lastActionAt.bind (fun last ↦
    let gap := saturatingSub ctx.nowEpoch last
    objectIf (gap < asI64 cooldownSeconds)
      ("only " ++ toString gap ++ "s since previous action; cooldown requires " ++
        toString cooldownSeconds ++ "s"))

def concurrencyCheck (maxConcurrent : ℕ) : Objection := fun ctx ↦
  objectIf (maxConcurrent ≤ ctx.inFlightActions)
    (toString ctx.inFlightActions ++ " in-flight actions reached concurrency cap " ++
      toString maxConcurrent)

def inWindow (start stop hhmm : String) : Bool :=
  if start ≤ stop then start ≤ hhmm ∧ hhmm ≤ stop else start ≤ hhmm ∨ hhmm ≤ stop

def timeCheck (window : TimeWindow) : Objection := fun ctx ↦
  objectIf (¬ inWindow window.start window.stop ctx.nowTzHhmm)
    ("current time " ++ ctx.nowTzHhmm ++ " (" ++ window.timezone ++ ") outside window [" ++
      window.start ++ ", " ++ window.stop ++ "]")

def businessHoursCheck (hours : BusinessHours) : Objection := fun ctx ↦
  match hours.weekdayWindows.lookup ctx.nowWeekday with
  | some (start, stop) =>
    objectIf (¬ inWindow start stop ctx.nowTzHhmm)
      ("current time " ++ ctx.nowTzHhmm ++ " (" ++ hours.timezone ++ ") outside business hours [" ++
        start ++ ", " ++ stop ++ "] on weekday " ++ toString ctx.nowWeekday)
  | none => some ("weekday " ++ toString ctx.nowWeekday ++ " not configured as a business day")

def holidayBlackoutCheck (dates : List String) : Objection := fun ctx ↦
  objectIf (ctx.nowDateYyyyMmDd ≠ "" ∧ ctx.nowDateYyyyMmDd ∈ dates)
    (ctx.nowDateYyyyMmDd ++ " is on holiday blackout")

def signatureBearsRole (sig role : String) : Bool :=
  sig = role ∨ (role.toList <+: sig.toList ∧
    let rest := sig.toList.drop role.toList.length
    rest.head? = some ':' ∧ 1 < rest.length)

def distinctRoleSignatures (signatures : List String) (role : String) : ℕ :=
  (signatures.filter (fun s ↦ signatureBearsRole s role)).dedup.length % 2 ^ 32

def signatureCheck (requirements : List SignatureRequirement) : Objection := fun ctx ↦
  requirements.findSome? (fun r ↦
    let got := distinctRoleSignatures ctx.action.signatures r.role
    objectIf (got < r.threshold)
      ("role '" ++ r.role ++ "' has " ++ toString got ++ " of " ++ toString r.threshold ++
        " required distinct signatures"))

def delegationDepthCheck (maxDepth : ℕ) : Objection := fun ctx ↦
  objectIf (maxDepth < ctx.action.delegationDepth)
    ("delegation_depth = " ++ toString ctx.action.delegationDepth ++ " exceeds max " ++
      toString maxDepth)

def domainDenylistCheck (domains : List String) : Objection := fun ctx ↦
  (ctx.action.text "target_domain").bind (fun raw ↦
    let tag := toAsciiLowercase raw
    objectIf (tag ∈ domains.map toAsciiLowercase) ("domain '" ++ tag ++ "' is on deny list"))

def declaredIn (field label : String) (normal item : String → String) (allowed : List String) :
    Objection := fun ctx ↦
  match ctx.action.text field with
  | none => some ("action.metadata." ++ field ++ " missing")
  | some raw =>
    let value := normal raw
    objectIf (value ∉ allowed.map item) (label ++ " '" ++ value ++ "' not in allowlist")

def domainAllowlistCheck : List String → Objection :=
  declaredIn "target_domain" "domain" toAsciiLowercase toAsciiLowercase

def mediaType (raw : String) : String :=
  toAsciiLowercase (trim (String.ofList (raw.toList.takeWhile (fun c ↦ c ≠ ';'))))

def contentTypeCheck : List String → Objection :=
  declaredIn "content_type" "content type" mediaType toAsciiLowercase

def languageAllowlistCheck : List String → Objection :=
  declaredIn "detected_language" "language" toAsciiLowercase toAsciiLowercase

def currencyAllowlistCheck : List String → Objection :=
  declaredIn "currency" "currency" toAsciiUppercase toAsciiUppercase

def declaredAtMost (field : String) (message : ℕ → String) (cap : ℕ) : Objection := fun ctx ↦
  (ctx.action.count field).bind (fun n ↦ objectIf (cap < n) (message n))

def payloadSizeCheck (maxBytes : ℕ) : Objection :=
  declaredAtMost "payload_bytes"
    (fun n ↦ "payload " ++ toString n ++ " bytes exceeds max " ++ toString maxBytes ++ " bytes")
    maxBytes

def recipientCountCheck (maxRecipients : ℕ) : Objection :=
  declaredAtMost "recipient_count"
    (fun n ↦ toString n ++ " recipients exceeds max " ++ toString maxRecipients) maxRecipients

def chainDepthCheck (maxChainDepth : ℕ) : Objection := fun ctx ↦
  let depth := (ctx.action.count "chain_depth").getD 0
  objectIf (maxChainDepth < depth)
    ("chain_depth " ++ toString depth ++ " exceeds max " ++ toString maxChainDepth)

def piiDetectionCheck (E : TextEngine) : Objection := fun ctx ↦
  if (ctx.action.metadata.lookup "pii_detected").bind Json.asBool = some true then
    some "action.metadata.pii_detected is true"
  else
    (ctx.action.text "payload").bind (fun payload ↦
      (objectIf (E.emailLike payload) "payload contains email-like pattern").or
      (objectIf (E.ssnLike payload) "payload contains SSN-like pattern"))

def geoRestrictionCheck (allow deny : List String) : Objection := fun ctx ↦
  let country := (ctx.action.text "client_country").map toAsciiUppercase
  (country.bind (fun c ↦
    objectIf (c ∈ deny.map toAsciiUppercase) ("country '" ++ c ++ "' on geo deny list"))).or
  (if allow = [] then none
  else
    match country with
    | none => some "action.metadata.client_country missing"
    | some c => objectIf (c ∉ allow.map toAsciiUppercase)
        ("country '" ++ c ++ "' not in geo allow list"))

def versionPinCheck (pinned : String) : Objection := fun ctx ↦
  match ctx.action.text "agent_version" with
  | none => some "action.metadata.agent_version missing"
  | some v => objectIf (v ≠ pinned)
      ("agent_version '" ++ v ++ "' does not match pinned '" ++ pinned ++ "'")

def dryRunCheck : Objection := fun _ ↦ none

end SauronId.Policy
