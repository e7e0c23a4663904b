import SauronId.Policy.Checks

namespace SauronId.Policy

open Lib

structure Expressions where
  Expr : Type
  parse : String → Except String Expr
  evalPredicate : Expr → EvaluationContext → Binding → Except String Bool

structure Engine where
  text : TextEngine
  zones : ZoneDb
  expressions : Expressions
  hashPolicy : Policy → String

structure CompiledPolicy where
  (policyId agent : String)
  checks : List RuntimeCheck
  raw : Policy

inductive CompileError
  | invalidScope (message : String)
  | invalidTimeWindow (message : String)
  | invariantParseError (line : ℕ) (message : String)
  deriving DecidableEq

def slots (E : TextEngine) (b : Binding) : List (String × Option Objection) :=
  let geoAllow := b.geoAllowCountries.getD []
  let geoDeny := b.geoDenyCountries.getD []
  [("budget", b.maxBudgetUsd.map budgetCheck),
    ("scope", b.dataScope.map (scopeCheck E)),
    ("allowlist", b.allowedTools.map allowlistCheck),
    ("rate_limit", b.rateLimit.map (fun r ↦ rateCheck r.requestsPerMinute)),
    ("time_window", b.timeWindow.map timeCheck),
    ("signatures", b.requiredSignatures.map signatureCheck),
    ("delegation_depth", b.delegation.map (fun d ↦ delegationDepthCheck d.maxDepth)),
    ("domain_denylist", b.domainDenylist.map domainDenylistCheck),
    ("domain_allowlist", b.domainAllowlist.map domainAllowlistCheck),
    ("tool_denylist", b.toolDenylist.map toolDenylistCheck),
    ("daily_budget", b.dailyBudgetUsd.map dailyBudgetCheck),
    ("per_action_cap", b.maxSingleActionUsd.map perActionCapCheck),
    ("weekly_rate", b.weeklyRate.map (fun r ↦ weeklyRateCheck r.requestsPerWeek)),
    ("concurrency", b.maxConcurrent.map concurrencyCheck),
    ("cooldown", b.cooldownSeconds.map cooldownCheck),
    ("payload_size", b.maxPayloadBytes.map payloadSizeCheck),
    ("content_type_allowlist", b.contentTypeAllowlist.map contentTypeCheck),
    ("recipient_count", b.maxRecipients.map recipientCountCheck),
    ("chain_depth", b.maxChainDepth.map chainDepthCheck),
    ("pii_detection", if b.piiBlock = some true then some (piiDetectionCheck E) else none),
    ("language_allowlist", b.languageAllowlist.map languageAllowlistCheck),
    ("currency_allowlist", b.currencyAllowlist.map currencyAllowlistCheck),
    ("geo_restriction",
      if geoAllow ≠ [] ∨ geoDeny ≠ [] then some (geoRestrictionCheck geoAllow geoDeny) else none),
    ("business_hours", b.businessHours.map businessHoursCheck),
    ("holiday_blackout", b.holidayBlackoutDates.map holidayBlackoutCheck),
    ("version_pin", b.pinnedVersion.map versionPinCheck),
    ("dry_run", if b.dryRun = some true then some dryRunCheck else none)]

def bindingChecks (E : TextEngine) (b : Binding) : List RuntimeCheck :=
  (slots E b).filterMap (fun (name, slot) ↦ slot.map (RuntimeCheck.mk name))

def expressionCheck (X : Expressions) (src : String) (expr : X.Expr) (b : Binding) :
    RuntimeCheck where
  name := "invariant_expr"
  objection := fun ctx ↦
    match X.evalPredicate expr ctx b with
    | .ok true => none
    | .ok false => some ("invariant violated: " ++ src)
    | .error e => some ("invariant evaluation error in `" ++ src ++ "`: " ++ e)

def compileInvariant (X : Expressions) (b : Binding) :
    String × ℕ → Except CompileError RuntimeCheck
  | (src, line) =>
    match X.parse src with
    | .ok expr => .ok (expressionCheck X src expr b)
    | .error message => .error (.invariantParseError line message)

def revalidateHhmm (E : TextEngine) (s : String) : Except CompileError Unit :=
  (validateHhmm E s).mapError (fun e ↦ .invalidTimeWindow e.display)

def compile (L : Engine) (p : Policy) : Except CompileError CompiledPolicy := do
  ensureSome p.binding.timeWindow (fun w ↦ do
    revalidateHhmm L.text w.start
    revalidateHhmm L.text w.stop)
  ensureSome p.binding.businessHours (fun hours ↦
    hours.weekdayWindows.forM (fun (_, start, stop) ↦ do
      revalidateHhmm L.text start
      revalidateHhmm L.text stop))
  let invariants ← p.invariants.zipIdx.mapM (compileInvariant L.expressions p.binding)
  return {
    policyId := L.hashPolicy p
    agent := p.agent
    checks := bindingChecks L.text p.binding ++ invariants
    raw := p }

def evaluateChecks : List RuntimeCheck → EvaluationContext → Verdict
  | [], _ => .allow
  | check :: checks, ctx =>
    match check.evaluate ctx with
    | .allow => evaluateChecks checks ctx
    | .deny name reason => .deny name reason

def evaluate (compiled : CompiledPolicy) (ctx : EvaluationContext) : Verdict :=
  evaluateChecks compiled.checks ctx

variable {ctx : EvaluationContext}

theorem evaluateChecks_eq_allow {checks : List RuntimeCheck} :
    evaluateChecks checks ctx = .allow ↔ ∀ k ∈ checks, k.objection ctx = none := by
  induction checks with
  | nil => simp [evaluateChecks]
  | cons k checks ih =>
    cases h : k.objection ctx with
    | none => simp [evaluateChecks, RuntimeCheck.evaluate, h, ih]
    | some reason => simp [evaluateChecks, RuntimeCheck.evaluate, h]

def CompiledPolicy.Passes (c : CompiledPolicy) (name : String) (ctx : EvaluationContext) : Prop :=
  ∀ k ∈ c.checks, k.name = name → k.objection ctx = none

def CompiledPolicy.OthersPass (c : CompiledPolicy) (names : List String)
    (ctx : EvaluationContext) : Prop :=
  ∀ k ∈ c.checks, k.name ∉ names → k.objection ctx = none

instance (c : CompiledPolicy) (names : List String) (ctx : EvaluationContext) :
    Decidable (c.OthersPass names ctx) :=
  inferInstanceAs (Decidable (∀ k ∈ c.checks, k.name ∉ names → k.objection ctx = none))

theorem evaluate_eq_allow {c : CompiledPolicy} (names : List String) :
    evaluate c ctx = .allow ↔ (∀ name ∈ names, c.Passes name ctx) ∧ c.OthersPass names ctx := by
  rw [evaluate, evaluateChecks_eq_allow]
  constructor
  · intro h
    exact ⟨fun name _ k hk _ ↦ h k hk, fun k hk _ ↦ h k hk⟩
  · intro h k hk
    by_cases hn : k.name ∈ names
    · exact h.1 k.name hn k hk rfl
    · exact h.2 k hk hn

def checkNames : List String :=
  ["budget", "scope", "allowlist", "rate_limit", "time_window", "signatures", "delegation_depth",
    "domain_denylist", "domain_allowlist", "tool_denylist", "daily_budget", "per_action_cap",
    "weekly_rate", "concurrency", "cooldown", "payload_size", "content_type_allowlist",
    "recipient_count", "chain_depth", "pii_detection", "language_allowlist",
    "currency_allowlist", "geo_restriction", "business_hours", "holiday_blackout", "version_pin",
    "dry_run"]

theorem slots_map_fst (E : TextEngine) (b : Binding) : (slots E b).map Prod.fst = checkNames := rfl

theorem checkNames_nodup : checkNames.Nodup := by decide +kernel

variable {L : Engine} {p : Policy} {c : CompiledPolicy} {ctx : EvaluationContext}

theorem compile_raw (h : compile L p = .ok c) : c.raw = p := by
  simp only [compile, bind_eq_ok, pure, Except.pure, Except.ok.injEq] at h
  obtain ⟨-, -, -, -, invariants, -, rfl⟩ := h
  rfl

def CompiledPolicy.ofBinding (L : Engine) (p : Policy) : CompiledPolicy where
  policyId := L.hashPolicy p
  agent := p.agent
  checks := bindingChecks L.text p.binding
  raw := p

theorem revalidateHhmm_eq_ok {E : TextEngine} {s : String} (h : hhmmLike E s) :
    revalidateHhmm E s = .ok () := by
  have hv : validateHhmm E s = .ok () := ensure_eq_ok.mpr h
  simp [revalidateHhmm, hv, Except.mapError]

theorem compile_of_valid (hv : Valid L.text L.zones p) (hi : p.invariants = []) :
    compile L p = .ok (.ofBinding L p) := by
  simp only [compile, hi, andThen_eq_ok, ensureSome_eq_ok, forM_eq_ok]
  refine ⟨fun w hw ↦ ?_, fun hours hh w hw ↦ ?_, ?_⟩
  · have htimes := hv.timeWindow w hw
    exact ⟨revalidateHhmm_eq_ok htimes.1, revalidateHhmm_eq_ok htimes.2.1⟩
  · have htimes := (hv.businessHours hours hh).2 w hw
    exact ⟨revalidateHhmm_eq_ok htimes.2.1, revalidateHhmm_eq_ok htimes.2.2⟩
  · simp [CompiledPolicy.ofBinding, pure, Except.pure, bind, Except.bind]

theorem mem_compile_checks (h : compile L p = .ok c) {k : RuntimeCheck} (hk : k ∈ c.checks) :
    (k.name, some k.objection) ∈ slots L.text p.binding ∨ k.name = "invariant_expr" := by
  simp only [compile, bind_eq_ok, pure, Except.pure, Except.ok.injEq] at h
  obtain ⟨-, -, -, -, invariants, hinv, rfl⟩ := h
  rcases List.mem_append.mp hk with hk | hk
  · obtain ⟨⟨name, slot⟩, hslot, hk⟩ := List.mem_filterMap.mp hk
    obtain ⟨objection, rfl, rfl⟩ := Option.map_eq_some_iff.mp hk
    exact .inl hslot
  · obtain ⟨⟨src, line⟩, -, hs⟩ := exists_of_mem_mapM hinv hk
    simp only [compileInvariant] at hs
    split at hs
    · exact .inr (Except.ok.inj hs ▸ rfl)
    · cases hs

variable {name : String}

theorem slot_mem_checks (h : compile L p = .ok c) {objection : Objection}
    (hs : (name, some objection) ∈ slots L.text p.binding) : ⟨name, objection⟩ ∈ c.checks := by
  simp only [compile, bind_eq_ok, pure, Except.pure, Except.ok.injEq] at h
  obtain ⟨-, -, -, -, invariants, -, rfl⟩ := h
  exact List.mem_append_left _ (List.mem_filterMap.mpr ⟨_, hs, rfl⟩)

theorem passes_iff (h : compile L p = .ok c) {slot : Option Objection}
    (hs : (name, slot) ∈ slots L.text p.binding) :
    c.Passes name ctx ↔ ∀ objection, slot = some objection → objection ctx = none := by
  constructor
  · rintro hp objection rfl
    exact hp ⟨name, objection⟩ (slot_mem_checks h hs) rfl
  · intro hp k hk hname
    rcases mem_compile_checks h hk with hk | hk
    · have hnodup : ((slots L.text p.binding).map Prod.fst).Nodup :=
        slots_map_fst _ _ ▸ checkNames_nodup
      have he := List.inj_on_of_nodup_map hnodup hk hs hname
      exact hp k.objection (Prod.mk.inj he).2.symm
    · have hmem : "invariant_expr" ∈ checkNames := by
        rw [← slots_map_fst L.text p.binding, ← hk, hname]
        exact List.mem_map_of_mem hs
      exact absurd hmem (by decide +kernel)

theorem passes_setting_iff (h : compile L p = .ok c) {σ : Type} {setting : Option σ}
    {check : σ → Objection}
    (hs : (name, setting.map check) ∈ slots L.text p.binding) :
    c.Passes name ctx ↔ ∀ s, setting = some s → check s ctx = none := by
  rw [passes_iff h hs]
  cases setting <;> simp

end SauronId.Policy
