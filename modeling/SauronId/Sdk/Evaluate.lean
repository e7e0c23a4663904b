import SauronId.Lib.Word
import SauronId.Policy.Enforcement

namespace SauronId.Sdk

open Lib Lib.Text Policy

structure SdkBinding where
  allowedTools : Option (List String) := none
  maxBudgetUsd : Option ℚ := none
  dataScope : Option DataScope := none
  rateLimit : Option RateLimit := none
  timeWindow : Option TimeWindow := none
  requiredSignatures : Option (List SignatureRequirement) := none
  delegation : Option DelegationLimits := none

def SdkBinding.toCore (b : SdkBinding) : Binding :=
  { allowedTools := b.allowedTools
    maxBudgetUsd := b.maxBudgetUsd
    dataScope := b.dataScope
    rateLimit := b.rateLimit
    timeWindow := b.timeWindow
    requiredSignatures := b.requiredSignatures
    delegation := b.delegation }

def Ascii (s : String) : Prop := ∀ c ∈ s.toList, c.toNat < 128

structure LowerCase where
  apply : String → String
  ascii : ∀ s, Ascii s → apply s = toAsciiLowercase s

/-- What the languages of the local evaluators do each in their own way. On
ASCII text they lower and compare alike. -/
structure Runtime where
  lower : String → String
  le : String → String → Bool
  minus : ℤ → ℤ → ℤ
  fixed2 : ℚ → String
  arrayText : List String → String
  lower_ascii : ∀ s, Ascii s → lower s = toAsciiLowercase s
  le_ascii : ∀ s t, Ascii s → Ascii t → (le s t = true ↔ s ≤ t)

namespace Runtime

def quotedArray (items : List String) : String :=
  "[" ++ ",".intercalate (items.map (fun s ↦ "\"" ++ s ++ "\"")) ++ "]"

def python (lower : LowerCase) : Runtime where
  lower := lower.apply
  le s t := s ≤ t
  minus x y := x - y
  fixed2 := formatFixed 2
  arrayText := quotedArray
  lower_ascii := lower.ascii
  le_ascii _ _ _ _ := decide_eq_true_iff

def go (lower : LowerCase) : Runtime where
  lower := lower.apply
  le s t := s ≤ t
  minus x y := Word.wrap (x - y)
  fixed2 := formatFixed 2
  arrayText := quotedArray
  lower_ascii := lower.ascii
  le_ascii _ _ _ _ := decide_eq_true_iff

end Runtime

def utf16 (s : String) : List ℕ :=
  s.toList.flatMap (fun c ↦
    if c.toNat < 0x10000 then [c.toNat]
    else [0xD800 + (c.toNat - 0x10000) / 0x400, 0xDC00 + (c.toNat - 0x10000) % 0x400])

theorem utf16_eq_map {s : String} (h : Ascii s) : utf16 s = s.toList.map Char.toNat := by
  unfold utf16
  unfold Ascii at h
  generalize s.toList = l at h
  induction l with
  | nil => rfl
  | cons c l ih =>
    obtain ⟨hc, hl⟩ := List.forall_mem_cons.mp h
    have hlow : c.toNat < 0x10000 := by omega
    simp [hlow, ih hl]

theorem map_toNat_lt {l m : List Char} : l.map Char.toNat < m.map Char.toNat ↔ l < m := by
  induction l generalizing m with
  | nil => cases m <;> simp
  | cons c l ih =>
    cases m with
    | nil => simp
    | cons d m =>
      have hlt : c.toNat < d.toNat ↔ c < d := Iff.rfl
      have heq : c.toNat = d.toNat ↔ c = d := Char.toNat_inj
      simp only [List.map_cons, List.cons_lt_cons_iff, hlt, heq, ih]

def Runtime.typescript (lower : LowerCase) (minus : ℤ → ℤ → ℤ) (toFixed2 : ℚ → String) :
    Runtime where
  lower := lower.apply
  le s t := utf16 s ≤ utf16 t
  minus := minus
  fixed2 := toFixed2
  arrayText items := "[" ++ ",".intercalate (items.map jsonStr) ++ "]"
  lower_ascii := lower.ascii
  le_ascii s t hs ht := by
    rw [decide_eq_true_iff, utf16_eq_map hs, utf16_eq_map ht, ← not_lt, ← not_lt, map_toNat_lt,
      String.lt_iff_toList_lt]

section Checks

variable (R : Runtime)

def budgetLocal (cap : ℚ) : Objection :=
  projectedWithin EvaluationContext.spendTotalUsd
    (fun projected ↦ "projected spend " ++ R.fixed2 projected ++ " USD exceeds cap " ++
      R.fixed2 cap ++ " USD")
    cap

def scopeLocal (scope : DataScope) : Objection := fun ctx ↦
  ctx.action.dataClassification.bind (fun raw ↦
    let tag := R.lower raw
    let allow := scope.allow.map R.lower
    (objectIf (tag ∈ scope.deny.map R.lower)
      ("classification '" ++ tag ++ "' is on deny list")).or
    (objectIf (allow ≠ [] ∧ tag ∉ allow)
      ("classification '" ++ tag ++ "' not in allow list " ++ R.arrayText allow)))

def callsLocal (now : ℤ) (timestamps : List ℤ) : ℕ :=
  (timestamps.filter (fun t ↦ R.minus now 60 < t ∧ t ≤ now)).length

def rateLocal (limit : ℕ) : Objection := fun ctx ↦
  let count := callsLocal R ctx.nowEpoch ctx.recentCallTimestamps
  objectIf (limit ≤ count)
    (toString count ++ " calls in last 60s reached limit " ++ toString limit)

def inWindowLocal (start stop hhmm : String) : Bool :=
  if R.le start stop then R.le start hhmm ∧ R.le hhmm stop
  else R.le start hhmm ∨ R.le hhmm stop

def timeLocal (window : TimeWindow) : Objection := fun ctx ↦
  objectIf (¬ inWindowLocal R window.start window.stop ctx.nowTzHhmm)
    ("current time " ++ ctx.nowTzHhmm ++ " (" ++ window.timezone ++ ") outside window [" ++
      window.start ++ ", " ++ window.stop ++ "]")

def signersLocal (signatures : List String) (role : String) : ℕ := signatures.count role

def signaturesLocal (requirements : List SignatureRequirement) : Objection := fun ctx ↦
  requirements.findSome? (fun r ↦
    let got := signersLocal ctx.action.signatures r.role
    objectIf (got < r.threshold)
      ("role '" ++ r.role ++ "' has " ++ toString got ++ " of " ++ toString r.threshold ++
        " required signatures"))

def localSlots (b : SdkBinding) : List (String × Option Objection) :=
  [("allowlist", b.allowedTools.map allowlistCheck),
    ("budget", b.maxBudgetUsd.map (budgetLocal R)),
    ("scope", b.dataScope.map (scopeLocal R)),
    ("rate_limit", b.rateLimit.map (fun r ↦ rateLocal R r.requestsPerMinute)),
    ("time_window", b.timeWindow.map (timeLocal R)),
    ("signatures", b.requiredSignatures.map signaturesLocal),
    ("delegation_depth", b.delegation.map (fun d ↦ delegationDepthCheck d.maxDepth))]

def evaluateLocal (b : SdkBinding) (ctx : EvaluationContext) : Verdict :=
  evaluateChecks ((localSlots R b).filterMap (fun (name, slot) ↦ slot.map (RuntimeCheck.mk name)))
    ctx

end Checks

def evaluateTypescript (lower : LowerCase) (minus : ℤ → ℤ → ℤ) (toFixed2 : ℚ → String) :
    SdkBinding → EvaluationContext → Verdict :=
  evaluateLocal (.typescript lower minus toFixed2)

def evaluateGo (lower : LowerCase) : SdkBinding → EvaluationContext → Verdict :=
  evaluateLocal (.go lower)

/-- The clock and the zones that the Python client falls back on. -/
structure PythonClock where
  time : ℤ
  computeNowTzHhmm : ℤ → String → String
  ascii : ∀ epoch zone, Ascii (computeNowTzHhmm epoch zone)

def PythonClock.resolve (clock : PythonClock) (b : SdkBinding) (ctx : EvaluationContext) :
    EvaluationContext :=
  let now := if 0 < ctx.nowEpoch then ctx.nowEpoch else clock.time
  { ctx with
    nowEpoch := now
    nowTzHhmm :=
      if ctx.nowTzHhmm ≠ "" then ctx.nowTzHhmm
      else (b.timeWindow.map (fun w ↦ clock.computeNowTzHhmm now w.timezone)).getD "" }

def evaluatePython (lower : LowerCase) (clock : PythonClock) (b : SdkBinding)
    (ctx : EvaluationContext) : Verdict :=
  evaluateLocal (.python lower) b (clock.resolve b ctx)

structure AsciiInput (b : SdkBinding) (ctx : EvaluationContext) : Prop where
  classification : ∀ raw, ctx.action.dataClassification = some raw → Ascii raw
  scope : ∀ scope, b.dataScope = some scope → ∀ s ∈ scope.allow ++ scope.deny, Ascii s
  window : ∀ w, b.timeWindow = some w → Ascii w.start ∧ Ascii w.stop
  hhmm : Ascii ctx.nowTzHhmm

/-- The rate limit and the thresholds are met by this count of recent calls and
this count of the signers of a role. -/
def SdkBinding.MeetsCounts (b : SdkBinding) (calls : ℕ) (signers : String → ℕ) : Prop :=
  (∀ r, b.rateLimit = some r → calls < r.requestsPerMinute) ∧
    ∀ rs, b.requiredSignatures = some rs → ∀ r ∈ rs, r.threshold ≤ signers r.role

def ScopeAllows (scope : DataScope) (ctx : EvaluationContext) : Prop :=
  ∀ raw, ctx.action.dataClassification = some raw →
    toAsciiLowercase raw ∉ scope.deny.map toAsciiLowercase ∧
      (scope.allow.map toAsciiLowercase ≠ [] →
        toAsciiLowercase raw ∈ scope.allow.map toAsciiLowercase)

structure SdkBinding.OthersAllow (b : SdkBinding) (ctx : EvaluationContext) : Prop where
  tools : ∀ tools, b.allowedTools = some tools → ctx.action.tool ∈ tools
  budget : ∀ cap, b.maxBudgetUsd = some cap → ctx.spendTotalUsd + ctx.action.amount ≤ cap
  scope : ∀ scope, b.dataScope = some scope → ScopeAllows scope ctx
  window : ∀ w, b.timeWindow = some w → inWindow w.start w.stop ctx.nowTzHhmm = true
  delegation : ∀ d, b.delegation = some d → ctx.action.delegationDepth ≤ d.maxDepth

variable {R : Runtime} {b : SdkBinding} {ctx : EvaluationContext}

theorem evaluateChecks_slots {slots : List (String × Option Objection)} :
    evaluateChecks (slots.filterMap (fun (name, slot) ↦ slot.map (RuntimeCheck.mk name))) ctx =
      .allow ↔ ∀ s ∈ slots, ∀ objection, s.2 = some objection → objection ctx = none := by
  rw [evaluateChecks_eq_allow]
  constructor
  · rintro h ⟨name, slot⟩ hs objection rfl
    exact h ⟨name, objection⟩ (List.mem_filterMap.mpr ⟨_, hs, rfl⟩)
  · intro h k hk
    obtain ⟨⟨name, slot⟩, hs, hk⟩ := List.mem_filterMap.mp hk
    obtain ⟨objection, rfl, rfl⟩ := Option.map_eq_some_iff.mp hk
    exact h _ hs objection rfl

theorem slot_allows {σ : Type} {setting : Option σ} {check : σ → Objection} :
    (∀ objection, setting.map check = some objection → objection ctx = none) ↔
      ∀ s, setting = some s → check s ctx = none := by
  cases setting <;> simp

theorem objection_or_eq_none {o p : Option String} : o.or p = none ↔ o = none ∧ p = none := by
  cases o <;> simp

theorem scope_allows {tag : String} {deny allow : List String} {reason reason' : String} :
    (objectIf (tag ∈ deny) reason).or (objectIf (allow ≠ [] ∧ tag ∉ allow) reason') = none ↔
      tag ∉ deny ∧ (allow ≠ [] → tag ∈ allow) := by
  rw [objection_or_eq_none, objectIf_eq_none, objectIf_eq_none, not_and, not_not]

theorem scopeCheck_eq_none {E : TextEngine} {scope : DataScope} :
    scopeCheck E scope ctx = none ↔ ScopeAllows scope ctx := by
  unfold scopeCheck ScopeAllows
  cases ctx.action.dataClassification with
  | none => simp
  | some raw =>
    rw [Option.bind_some, scope_allows]
    simp only [Option.some.injEq, forall_eq']

theorem scopeLocal_eq_none {scope : DataScope}
    (hraw : ∀ raw, ctx.action.dataClassification = some raw → Ascii raw)
    (hscope : ∀ s ∈ scope.allow ++ scope.deny, Ascii s) :
    scopeLocal R scope ctx = none ↔ ScopeAllows scope ctx := by
  have hmap : ∀ l : List String, (∀ s ∈ l, Ascii s) → l.map R.lower = l.map toAsciiLowercase :=
    fun l hl ↦ List.map_congr_left (fun s hs ↦ R.lower_ascii s (hl s hs))
  unfold scopeLocal ScopeAllows
  cases hc : ctx.action.dataClassification with
  | none => simp
  | some raw =>
    rw [Option.bind_some, scope_allows, hmap _ (fun s hs ↦ hscope s (List.mem_append_left _ hs)),
      hmap _ (fun s hs ↦ hscope s (List.mem_append_right _ hs)), R.lower_ascii raw (hraw raw hc)]
    simp only [Option.some.injEq, forall_eq']

theorem inWindowLocal_eq {start stop hhmm : String} (hstart : Ascii start) (hstop : Ascii stop)
    (hhhmm : Ascii hhmm) : inWindowLocal R start stop hhmm = inWindow start stop hhmm := by
  unfold inWindowLocal inWindow
  simp only [R.le_ascii _ _ hstart hstop, R.le_ascii _ _ hstart hhhmm, R.le_ascii _ _ hhhmm hstop]

theorem findSome_objectIf_eq_none {rs : List SignatureRequirement}
    {signers : SignatureRequirement → ℕ} {reason : SignatureRequirement → String} :
    rs.findSome? (fun r ↦ objectIf (signers r < r.threshold) (reason r)) = none ↔
      ∀ r ∈ rs, r.threshold ≤ signers r := by
  simp only [List.findSome?_eq_none_iff, objectIf_eq_none, not_lt]

/-- A local evaluator allows when the checks that count nothing allow, as they
do in the core, and its own counts are met. -/
theorem evaluateLocal_eq_allow (hascii : AsciiInput b ctx) :
    evaluateLocal R b ctx = .allow ↔ b.OthersAllow ctx ∧
      b.MeetsCounts (callsLocal R ctx.nowEpoch ctx.recentCallTimestamps)
        (signersLocal ctx.action.signatures) := by
  have hscope : ∀ scope, b.dataScope = some scope →
      (scopeLocal R scope ctx = none ↔ ScopeAllows scope ctx) :=
    fun scope hs ↦ scopeLocal_eq_none hascii.classification (hascii.scope scope hs)
  have htime : ∀ w, b.timeWindow = some w →
      (timeLocal R w ctx = none ↔ inWindow w.start w.stop ctx.nowTzHhmm = true) := by
    intro w hw
    obtain ⟨hstart, hstop⟩ := hascii.window w hw
    rw [timeLocal, objectIf_eq_none, not_not, inWindowLocal_eq hstart hstop hascii.hhmm]
  rw [evaluateLocal, evaluateChecks_slots]
  simp only [localSlots, List.forall_mem_cons, slot_allows, forall₂_congr hscope,
    forall₂_congr htime, allowlistCheck, budgetLocal, projectedWithin_eq_none, rateLocal,
    signaturesLocal, findSome_objectIf_eq_none, delegationDepthCheck, objectIf_eq_none, not_le,
    not_lt, not_not]
  constructor
  · rintro ⟨htools, hbudget, hscope, hrate, htime, hsigs, hdepth, -⟩
    exact ⟨⟨htools, hbudget, hscope, htime, hdepth⟩, hrate, hsigs⟩
  · rintro ⟨⟨htools, hbudget, hscope, htime, hdepth⟩, hrate, hsigs⟩
    exact ⟨htools, hbudget, hscope, hrate, htime, hsigs, hdepth, fun _ hs ↦ absurd hs List.not_mem_nil⟩

theorem evaluate_toCore_eq_allow {L : Engine} {p : Policy} {c : CompiledPolicy}
    (hc : compile L p = .ok c) (hb : p.binding = b.toCore) (hi : p.invariants = []) :
    evaluate c ctx = .allow ↔ b.OthersAllow ctx ∧
      b.MeetsCounts (recentCalls 60 ctx.nowEpoch ctx.recentCallTimestamps)
        (distinctRoleSignatures ctx.action.signatures) := by
  have hchecks : c.checks = bindingChecks L.text b.toCore := by
    simp only [compile, hi, hb, bind_eq_ok, pure, Except.pure, Except.ok.injEq] at hc
    obtain ⟨-, -, -, -, invariants, hinv, rfl⟩ := hc
    obtain rfl : invariants = [] := by
      simpa [pure, Except.pure, eq_comm] using hinv
    exact List.append_nil _
  have htime : ∀ w, timeCheck w ctx = none ↔ inWindow w.start w.stop ctx.nowTzHhmm = true := by
    intro w
    rw [timeCheck, objectIf_eq_none, not_not]
  rw [evaluate, hchecks, bindingChecks, evaluateChecks_slots]
  simp only [slots, SdkBinding.toCore, List.forall_mem_cons, slot_allows, scopeCheck_eq_none,
    htime, allowlistCheck, budgetCheck, projectedWithin_eq_none, rateCheck, callsBelow,
    signatureCheck, findSome_objectIf_eq_none, delegationDepthCheck, objectIf_eq_none, not_le,
    not_lt, not_not]
  constructor
  · rintro ⟨hbudget, hscope, htools, hrate, htime, hsigs, hdepth, -⟩
    exact ⟨⟨htools, hbudget, hscope, htime, hdepth⟩, hrate, hsigs⟩
  · rintro ⟨⟨htools, hbudget, hscope, htime, hdepth⟩, hrate, hsigs⟩
    refine ⟨hbudget, hscope, htools, hrate, htime, hsigs, hdepth, ?_⟩
    simp

/-- Unless a check that counts nothing denies, the counts of the local evaluator
and those of the core meet the limits of the binding alike. -/
def CountsAgree (R : Runtime) (b : SdkBinding) (ctx : EvaluationContext) : Prop :=
  b.OthersAllow ctx →
    (b.MeetsCounts (callsLocal R ctx.nowEpoch ctx.recentCallTimestamps)
        (signersLocal ctx.action.signatures) ↔
      b.MeetsCounts (recentCalls 60 ctx.nowEpoch ctx.recentCallTimestamps)
        (distinctRoleSignatures ctx.action.signatures))

theorem AsciiInput.resolve (h : AsciiInput b ctx) (clock : PythonClock) :
    AsciiInput b (clock.resolve b ctx) where
  classification := h.classification
  scope := h.scope
  window := h.window
  hhmm := by
    have hfilled : ∀ now, Ascii ((b.timeWindow.map
        (fun w ↦ clock.computeNowTzHhmm now w.timezone)).getD "") := by
      intro now
      cases b.timeWindow with
      | none => simp [Ascii]
      | some w => exact clock.ascii _ _
    by_cases hh : ctx.nowTzHhmm ≠ ""
    · simpa [PythonClock.resolve, hh] using h.hhmm
    · simpa [PythonClock.resolve, hh] using hfilled _

theorem countsAgree_of_signers (hminus : R.minus ctx.nowEpoch 60 = ctx.nowEpoch - 60)
    (hlow : i64Min + 60 ≤ ctx.nowEpoch) (hhigh : ctx.nowEpoch ≤ i64Max)
    (hlen : ctx.recentCallTimestamps.length < 2 ^ 32)
    (hsigners : ∀ rs, b.requiredSignatures = some rs → ∀ r ∈ rs,
      (r.threshold ≤ signersLocal ctx.action.signatures r.role ↔
        r.threshold ≤ distinctRoleSignatures ctx.action.signatures r.role)) :
    CountsAgree R b ctx := by
  have hsub : saturatingSub ctx.nowEpoch 60 = ctx.nowEpoch - 60 := by
    simp only [i64Min, i64Max] at hlow hhigh
    simp only [saturatingSub, i64Min, i64Max]
    omega
  have hcalls : recentCalls 60 ctx.nowEpoch ctx.recentCallTimestamps =
      callsLocal R ctx.nowEpoch ctx.recentCallTimestamps := by
    rw [recentCalls, callsLocal, hsub, hminus]
    exact Nat.mod_eq_of_lt ((List.length_filter_le _ _).trans_lt hlen)
  intro _
  rw [hcalls]
  refine and_congr_right (fun _ ↦ forall₂_congr (fun rs hrs ↦ ?_))
  exact forall₂_congr (fun r hr ↦ hsigners rs hrs r hr)

section Agreement

variable {L : Engine} {p : Policy} {c : CompiledPolicy}

theorem evaluateLocal_agrees_iff (hc : compile L p = .ok c) (hb : p.binding = b.toCore)
    (hi : p.invariants = []) (hascii : AsciiInput b ctx) :
    (evaluateLocal R b ctx = .allow ↔ evaluate c ctx = .allow) ↔ CountsAgree R b ctx := by
  rw [evaluateLocal_eq_allow hascii, evaluate_toCore_eq_allow hc hb hi]
  exact and_congr_right_iff

end Agreement

section Demo

def asciiLower : LowerCase := ⟨toAsciiLowercase, fun _ _ ↦ rfl⟩

def demoClock : PythonClock where
  time := 1779364800
  computeNowTzHhmm _ _ := "12:00"
  ascii _ _ := by simp [Ascii]

def payBinding (threshold : ℕ) : SdkBinding :=
  { allowedTools := some ["sepa_payment_initiate"]
    rateLimit := some ⟨2⟩
    timeWindow := some ⟨"22:00", "06:00", "UTC"⟩
    requiredSignatures := some [⟨"cfo", threshold⟩] }

def payPolicy (threshold : ℕ) : Policy :=
  ⟨supportedVersion, "agt", (payBinding threshold).toCore, []⟩

def payContext (signatures : List String) : EvaluationContext :=
  { EvaluationContext.withDefaults
      { actionId := "a", tool := "sepa_payment_initiate", signatures := signatures, timestamp := 0 }
    with
    recentCallTimestamps := [1779364790]
    nowEpoch := 1779364800
    nowTzHhmm := "23:30" }

end Demo

end SauronId.Sdk
