import SauronId.Policy.Declared

namespace SauronId.Policy

open Lib Lib.Text

/-- A setting that is there stays there, changed as `r` says. A new one may be added. -/
def Keeps {σ : Type} (r : σ → σ → Prop) (setting setting' : Option σ) : Prop :=
  ∀ s, setting = some s → ∃ s', setting' = some s' ∧ r s s'

/-- For a list that restricts nothing while it is empty. -/
def Shrinks (allow allow' : List String) : Prop := allow ≠ [] → allow' ≠ [] ∧ allow' ⊆ allow

/-- The second binding differs from the first by entries removed from allowlists, entries added
to denylists, lower caps, higher signature thresholds and a longer cooldown. -/
structure Tightens (b b' : Binding) : Prop where
  allowedTools : Keeps (· ⊇ ·) b.allowedTools b'.allowedTools
  domainAllowlist : Keeps (· ⊇ ·) b.domainAllowlist b'.domainAllowlist
  contentTypeAllowlist : Keeps (· ⊇ ·) b.contentTypeAllowlist b'.contentTypeAllowlist
  languageAllowlist : Keeps (· ⊇ ·) b.languageAllowlist b'.languageAllowlist
  currencyAllowlist : Keeps (· ⊇ ·) b.currencyAllowlist b'.currencyAllowlist
  geoAllowCountries : Shrinks (b.geoAllowCountries.getD []) (b'.geoAllowCountries.getD [])
  geoDenyCountries : b.geoDenyCountries.getD [] ⊆ b'.geoDenyCountries.getD []
  dataScope : Keeps (fun s s' ↦ Shrinks s.allow s'.allow ∧ s.deny ⊆ s'.deny)
    b.dataScope b'.dataScope
  domainDenylist : Keeps (· ⊆ ·) b.domainDenylist b'.domainDenylist
  toolDenylist : Keeps (· ⊆ ·) b.toolDenylist b'.toolDenylist
  holidayBlackoutDates : Keeps (· ⊆ ·) b.holidayBlackoutDates b'.holidayBlackoutDates
  maxBudgetUsd : Keeps (· ≥ ·) b.maxBudgetUsd b'.maxBudgetUsd
  dailyBudgetUsd : Keeps (· ≥ ·) b.dailyBudgetUsd b'.dailyBudgetUsd
  maxSingleActionUsd : Keeps (· ≥ ·) b.maxSingleActionUsd b'.maxSingleActionUsd
  rateLimit : Keeps (fun r r' ↦ r'.requestsPerMinute ≤ r.requestsPerMinute)
    b.rateLimit b'.rateLimit
  weeklyRate : Keeps (fun r r' ↦ r'.requestsPerWeek ≤ r.requestsPerWeek) b.weeklyRate b'.weeklyRate
  maxConcurrent : Keeps (· ≥ ·) b.maxConcurrent b'.maxConcurrent
  maxPayloadBytes : Keeps (· ≥ ·) b.maxPayloadBytes b'.maxPayloadBytes
  maxRecipients : Keeps (· ≥ ·) b.maxRecipients b'.maxRecipients
  maxChainDepth : Keeps (· ≥ ·) b.maxChainDepth b'.maxChainDepth
  delegation : Keeps (fun d d' ↦ d'.maxDepth ≤ d.maxDepth) b.delegation b'.delegation
  requiredSignatures :
    Keeps (List.Forall₂ fun r r' ↦ r.role = r'.role ∧ r.threshold ≤ r'.threshold)
      b.requiredSignatures b'.requiredSignatures
  cooldownSeconds : Keeps (· ≤ ·) b.cooldownSeconds b'.cooldownSeconds
  timeWindow : b.timeWindow = b'.timeWindow
  businessHours : b.businessHours = b'.businessHours
  piiBlock : b.piiBlock = b'.piiBlock
  pinnedVersion : b.pinnedVersion = b'.pinnedVersion
  dryRun : b.dryRun = b'.dryRun

/-! ### One check -/

section Checks

variable {ctx : EvaluationContext}

theorem projectedWithin_mono {spent : EvaluationContext → ℚ} {message message' : ℚ → String}
    {cap cap' : ℚ} (h : cap ≥ cap') (hp : projectedWithin spent message' cap' ctx = none) :
    projectedWithin spent message cap ctx = none := by
  rw [projectedWithin_eq_none] at hp ⊢
  exact hp.trans h

theorem perActionCapCheck_mono {cap cap' : ℚ} (h : cap ≥ cap')
    (hp : perActionCapCheck cap' ctx = none) : perActionCapCheck cap ctx = none := by
  simp only [perActionCapCheck, objectIf_eq_none, not_lt] at hp ⊢
  exact hp.trans h

theorem callsBelow_mono {window : ℤ} {history : EvaluationContext → List ℤ}
    {message message' : ℕ → String} {limit limit' : ℕ} (h : limit' ≤ limit)
    (hp : callsBelow window history message' limit' ctx = none) :
    callsBelow window history message limit ctx = none := by
  simp only [callsBelow, objectIf_eq_none, not_le] at hp ⊢
  exact hp.trans_le h

theorem concurrencyCheck_mono {cap cap' : ℕ} (h : cap ≥ cap')
    (hp : concurrencyCheck cap' ctx = none) : concurrencyCheck cap ctx = none := by
  simp only [concurrencyCheck, objectIf_eq_none, not_le] at hp ⊢
  exact hp.trans_le h

theorem delegationDepthCheck_mono {depth depth' : ℕ} (h : depth' ≤ depth)
    (hp : delegationDepthCheck depth' ctx = none) : delegationDepthCheck depth ctx = none := by
  simp only [delegationDepthCheck, objectIf_eq_none, not_lt] at hp ⊢
  exact hp.trans h

theorem countChecks_mono {field : String} {check : ℕ → Objection}
    (hc : (field, check) ∈ countChecks) {cap cap' : ℕ} (h : cap ≥ cap')
    (hp : check cap' ctx = none) : check cap ctx = none := by
  by_contra hne
  obtain ⟨n, hn, hlt⟩ := (countChecks_isSome hc).mp (Option.isSome_iff_ne_none.mpr hne)
  have hsome : (check cap' ctx).isSome := (countChecks_isSome hc).mpr ⟨n, hn, h.trans_lt hlt⟩
  rw [hp] at hsome
  cases hsome

variable {tools tools' : List String}

theorem allowlistCheck_mono (h : tools ⊇ tools') (hp : allowlistCheck tools' ctx = none) :
    allowlistCheck tools ctx = none := by
  simp only [allowlistCheck, objectIf_eq_none, not_not] at hp ⊢
  exact h hp

theorem toolDenylistCheck_mono (h : tools ⊆ tools') (hp : toolDenylistCheck tools' ctx = none) :
    toolDenylistCheck tools ctx = none := by
  simp only [toolDenylistCheck, objectIf_eq_none] at hp ⊢
  exact fun hmem ↦ hp (h hmem)

theorem domainDenylistCheck_mono {domains domains' : List String} (h : domains ⊆ domains')
    (hp : domainDenylistCheck domains' ctx = none) : domainDenylistCheck domains ctx = none := by
  unfold domainDenylistCheck at hp ⊢
  cases htext : ctx.action.text "target_domain" with
  | none => rfl
  | some raw =>
    simp only [htext, Option.bind_some, objectIf_eq_none] at hp ⊢
    exact fun hmem ↦ hp (List.map_subset _ h hmem)

theorem declaredIn_mono {field label : String} {normal item : String → String}
    {allowed allowed' : List String} (h : allowed ⊇ allowed')
    (hp : declaredIn field label normal item allowed' ctx = none) :
    declaredIn field label normal item allowed ctx = none := by
  unfold declaredIn at hp ⊢
  cases htext : ctx.action.text field with
  | none => simp [htext] at hp
  | some raw =>
    simp only [htext, objectIf_eq_none, not_not] at hp ⊢
    exact List.map_subset _ h hp

theorem holidayBlackoutCheck_mono {dates dates' : List String} (h : dates ⊆ dates')
    (hp : holidayBlackoutCheck dates' ctx = none) : holidayBlackoutCheck dates ctx = none := by
  simp only [holidayBlackoutCheck, objectIf_eq_none] at hp ⊢
  exact fun hd ↦ hp ⟨hd.1, h hd.2⟩

theorem Shrinks.map_mem {allow allow' : List String} (h : Shrinks allow allow')
    {f : String → String} {tag : String} (hp : allow'.map f = [] ∨ tag ∈ allow'.map f) :
    allow.map f = [] ∨ tag ∈ allow.map f := by
  by_cases hempty : allow = []
  · exact .inl (List.map_eq_nil_iff.mpr hempty)
  · obtain ⟨hne, hsub⟩ := h hempty
    refine .inr (List.map_subset f hsub (hp.resolve_left ?_))
    rwa [List.map_eq_nil_iff]

theorem scopeCheck_mono {E : TextEngine} {scope scope' : DataScope}
    (h : Shrinks scope.allow scope'.allow ∧ scope.deny ⊆ scope'.deny)
    (hp : scopeCheck E scope' ctx = none) : scopeCheck E scope ctx = none := by
  rw [scopeCheck_eq_none] at hp ⊢
  intro raw hraw
  obtain ⟨hdeny, hallow⟩ := hp raw hraw
  exact ⟨fun hmem ↦ hdeny (List.map_subset _ h.2 hmem), h.1.map_mem hallow⟩

theorem geoRestrictionCheck_eq_none {allow deny : List String} :
    geoRestrictionCheck allow deny ctx = none ↔
      (∀ c, ctx.action.text "client_country" = some c →
        toAsciiUppercase c ∉ deny.map toAsciiUppercase) ∧
      (allow = [] ∨ ∃ c, ctx.action.text "client_country" = some c ∧
        toAsciiUppercase c ∈ allow.map toAsciiUppercase) := by
  unfold geoRestrictionCheck
  by_cases hallow : allow = []
  · cases ctx.action.text "client_country" <;> simp [hallow]
  · cases ctx.action.text "client_country" <;> simp [hallow]

theorem geoRestrictionCheck_mono {allow allow' deny deny' : List String}
    (hallow : Shrinks allow allow') (hdeny : deny ⊆ deny')
    (hp : geoRestrictionCheck allow' deny' ctx = none) :
    geoRestrictionCheck allow deny ctx = none := by
  rw [geoRestrictionCheck_eq_none] at hp ⊢
  refine ⟨fun c hc hmem ↦ hp.1 c hc (List.map_subset _ hdeny hmem), ?_⟩
  by_cases hempty : allow = []
  · exact .inl hempty
  · obtain ⟨hne, hsub⟩ := hallow hempty
    obtain ⟨c, hc, hmem⟩ := hp.2.resolve_left hne
    exact .inr ⟨c, hc, List.map_subset _ hsub hmem⟩

theorem signatureCheck_mono {reqs reqs' : List SignatureRequirement}
    (h : List.Forall₂ (fun r r' ↦ r.role = r'.role ∧ r.threshold ≤ r'.threshold) reqs reqs')
    (hp : signatureCheck reqs' ctx = none) : signatureCheck reqs ctx = none := by
  rw [signatureCheck_eq_none] at hp ⊢
  induction h with
  | nil => simp
  | cons hr _ ih =>
    rw [List.forall_mem_cons] at hp ⊢
    refine ⟨?_, ih hp.2⟩
    rw [hr.1]
    exact hr.2.trans hp.1

def EvaluationContext.gapSince (ctx : EvaluationContext) (last : ℤ) : ℤ :=
  saturatingSub ctx.nowEpoch last

theorem cooldownCheck_eq_none {seconds : ℕ} :
    cooldownCheck seconds ctx = none ↔
      ∀ last, ctx.lastActionAt = some last → asI64 seconds ≤ ctx.gapSince last := by
  unfold cooldownCheck
  cases ctx.lastActionAt <;> simp [EvaluationContext.gapSince]

end Checks

/-! ### The whole policy -/

def Clears (slot : Option Objection) (ctx : EvaluationContext) : Prop :=
  ∀ objection, slot = some objection → objection ctx = none

/-- A cooldown raised past `i64::MAX` turns negative in the comparison: the gap is too short for
the first policy and long enough for the second. -/
def CooldownWraps (b b' : Binding) (ctx : EvaluationContext) : Prop :=
  ∃ s s' last, b.cooldownSeconds = some s ∧ b'.cooldownSeconds = some s' ∧
    ctx.lastActionAt = some last ∧ s < 2 ^ 63 ∧ 2 ^ 63 ≤ s' ∧
    asI64 s' ≤ ctx.gapSince last ∧ ctx.gapSince last < s

section Tightening

variable {L : Engine} {E : TextEngine} {p p' : Policy} {b b' : Binding} {c c' : CompiledPolicy}
  {ctx : EvaluationContext}

theorem clears_map {σ : Type} {setting : Option σ} {check : σ → Objection} :
    Clears (setting.map check) ctx ↔ ∀ s, setting = some s → check s ctx = none := by
  cases setting <;> simp [Clears]

theorem Keeps.clears {σ : Type} {r : σ → σ → Prop} {setting setting' : Option σ}
    {check : σ → Objection} (h : Keeps r setting setting')
    (hmono : ∀ {s s'}, r s s' → check s' ctx = none → check s ctx = none)
    (hp : Clears (setting'.map check) ctx) : Clears (setting.map check) ctx := by
  rw [clears_map] at hp ⊢
  intro s hs
  obtain ⟨s', hs', hr⟩ := h s hs
  exact hmono hr (hp s' hs')

theorem clears_geo {allow deny : List String} :
    Clears (if allow ≠ [] ∨ deny ≠ [] then some (geoRestrictionCheck allow deny) else none) ctx ↔
      geoRestrictionCheck allow deny ctx = none := by
  split_ifs with h
  · simp [Clears]
  · rw [not_or, not_not, not_not] at h
    simp [Clears, geoRestrictionCheck_eq_none, h]

/-- Slot by slot, all but the cooldown: what clears the second binding clears the first. -/
theorem Tightens.slots (h : Tightens b b') (ctx : EvaluationContext) :
    List.Forall₂ (fun s s' ↦ s.1 = s'.1 ∧ (s.1 ≠ "cooldown" → Clears s'.2 ctx → Clears s.2 ctx))
      (slots E b) (slots E b') := by
  have hsame {slot : Option Objection} : Clears slot ctx → Clears slot ctx := id
  have hpayload : ("payload_bytes", payloadSizeCheck) ∈ countChecks := by simp [countChecks]
  have hrecipients : ("recipient_count", recipientCountCheck) ∈ countChecks := by
    simp [countChecks]
  have hdepth : ("chain_depth", chainDepthCheck) ∈ countChecks := by simp [countChecks]
  rw [Policy.slots, Policy.slots, ← h.timeWindow, ← h.businessHours, ← h.piiBlock,
    ← h.pinnedVersion, ← h.dryRun]
  exact .cons ⟨rfl, fun _ ↦ h.maxBudgetUsd.clears projectedWithin_mono⟩ <|
    .cons ⟨rfl, fun _ ↦ h.dataScope.clears scopeCheck_mono⟩ <|
    .cons ⟨rfl, fun _ ↦ h.allowedTools.clears allowlistCheck_mono⟩ <|
    .cons ⟨rfl, fun _ ↦ h.rateLimit.clears callsBelow_mono⟩ <|
    .cons ⟨rfl, fun _ ↦ hsame⟩ <|
    .cons ⟨rfl, fun _ ↦ h.requiredSignatures.clears signatureCheck_mono⟩ <|
    .cons ⟨rfl, fun _ ↦ h.delegation.clears delegationDepthCheck_mono⟩ <|
    .cons ⟨rfl, fun _ ↦ h.domainDenylist.clears domainDenylistCheck_mono⟩ <|
    .cons ⟨rfl, fun _ ↦ h.domainAllowlist.clears declaredIn_mono⟩ <|
    .cons ⟨rfl, fun _ ↦ h.toolDenylist.clears toolDenylistCheck_mono⟩ <|
    .cons ⟨rfl, fun _ ↦ h.dailyBudgetUsd.clears projectedWithin_mono⟩ <|
    .cons ⟨rfl, fun _ ↦ h.maxSingleActionUsd.clears perActionCapCheck_mono⟩ <|
    .cons ⟨rfl, fun _ ↦ h.weeklyRate.clears callsBelow_mono⟩ <|
    .cons ⟨rfl, fun _ ↦ h.maxConcurrent.clears concurrencyCheck_mono⟩ <|
    .cons ⟨rfl, fun hne ↦ absurd rfl hne⟩ <|
    .cons ⟨rfl, fun _ ↦ h.maxPayloadBytes.clears (countChecks_mono hpayload)⟩ <|
    .cons ⟨rfl, fun _ ↦ h.contentTypeAllowlist.clears declaredIn_mono⟩ <|
    .cons ⟨rfl, fun _ ↦ h.maxRecipients.clears (countChecks_mono hrecipients)⟩ <|
    .cons ⟨rfl, fun _ ↦ h.maxChainDepth.clears (countChecks_mono hdepth)⟩ <|
    .cons ⟨rfl, fun _ ↦ hsame⟩ <|
    .cons ⟨rfl, fun _ ↦ h.languageAllowlist.clears declaredIn_mono⟩ <|
    .cons ⟨rfl, fun _ ↦ h.currencyAllowlist.clears declaredIn_mono⟩ <|
    .cons ⟨rfl, fun _ hp ↦ clears_geo.mpr (geoRestrictionCheck_mono h.geoAllowCountries
      h.geoDenyCountries (clears_geo.mp hp))⟩ <|
    .cons ⟨rfl, fun _ ↦ hsame⟩ <|
    .cons ⟨rfl, fun _ ↦ h.holidayBlackoutDates.clears holidayBlackoutCheck_mono⟩ <|
    .cons ⟨rfl, fun _ ↦ hsame⟩ <|
    .cons ⟨rfl, fun _ ↦ hsame⟩ .nil

theorem asI64_mono_or_wraps {s s' : ℕ} (h : s ≤ s') :
    asI64 s ≤ asI64 s' ∨ s < 2 ^ 63 ∧ 2 ^ 63 ≤ s' := by
  unfold asI64
  split_ifs <;> omega

theorem cooldown_clears_iff (h : Tightens b b')
    (hp : Clears (b'.cooldownSeconds.map cooldownCheck) ctx) :
    Clears (b.cooldownSeconds.map cooldownCheck) ctx ↔ ¬ CooldownWraps b b' ctx := by
  rw [clears_map] at hp ⊢
  constructor
  · rintro hclear ⟨s, s', last, hs, -, hlast, hsmall, -, -, hgap⟩
    have hle := cooldownCheck_eq_none.mp (hclear s hs) last hlast
    rw [asI64, if_pos hsmall] at hle
    omega
  · intro hwraps s hs
    obtain ⟨s', hs', hle⟩ := h.cooldownSeconds s hs
    rw [cooldownCheck_eq_none]
    intro last hlast
    have hgap' := cooldownCheck_eq_none.mp (hp s' hs') last hlast
    rcases asI64_mono_or_wraps hle with hmono | ⟨hsmall, hlarge⟩
    · exact hmono.trans hgap'
    · by_contra hgap
      refine hwraps ⟨s, s', last, hs, hs', hlast, hsmall, hlarge, hgap', ?_⟩
      rw [asI64, if_pos hsmall] at hgap
      exact not_le.mp hgap

theorem compile_checks (hc : compile L p = .ok c) (hi : p.invariants = []) :
    c.checks = bindingChecks L.text p.binding := by
  simp only [compile, hi, bind_eq_ok, pure, Except.pure, Except.ok.injEq] at hc
  obtain ⟨-, -, -, -, invariants, hinv, rfl⟩ := hc
  obtain rfl : invariants = [] := by simpa [pure, Except.pure, eq_comm] using hinv
  exact List.append_nil _

theorem forall_checks_iff (hc : compile L p = .ok c) (hi : p.invariants = [])
    {P : String → Prop} :
    (∀ k ∈ c.checks, P k.name → k.objection ctx = none) ↔
      ∀ s ∈ slots L.text p.binding, P s.1 → Clears s.2 ctx := by
  rw [compile_checks hc hi]
  constructor
  · rintro h ⟨name, slot⟩ hs hP objection rfl
    exact h ⟨name, objection⟩ (List.mem_filterMap.mpr ⟨_, hs, rfl⟩) hP
  · intro h k hk hP
    obtain ⟨⟨name, slot⟩, hs, hk⟩ := List.mem_filterMap.mp hk
    obtain ⟨objection, rfl, rfl⟩ := Option.map_eq_some_iff.mp hk
    exact h _ hs hP objection rfl

theorem Tightens.othersPass (h : Tightens p.binding p'.binding) (hc : compile L p = .ok c)
    (hc' : compile L p' = .ok c') (hi : p.invariants = []) (hi' : p'.invariants = [])
    (hothers : c'.OthersPass ["cooldown"] ctx) : c.OthersPass ["cooldown"] ctx := by
  have hclear := (forall_checks_iff hc' hi' (P := (· ∉ ["cooldown"]))).mp hothers
  refine (forall_checks_iff hc hi (P := (· ∉ ["cooldown"]))).mpr ?_
  intro s hs hname
  obtain ⟨i, hi, rfl⟩ := List.mem_iff_getElem.mp hs
  have hlength := (h.slots (E := L.text) ctx).length_eq
  have hi' : i < (Policy.slots L.text p'.binding).length := hlength ▸ hi
  obtain ⟨hsame, hstep⟩ := (h.slots ctx).get hi hi'
  refine hstep (by simpa using hname) (hclear _ (List.getElem_mem hi') ?_)
  exact hsame ▸ hname

/-- A tightened policy denies what the first one denies, unless a wrapped cooldown lets the action
through and no other check of the second policy objects to it. -/
theorem tightened_denies_iff (h : Tightens p.binding p'.binding) (hc : compile L p = .ok c)
    (hc' : compile L p' = .ok c') (hi : p.invariants = []) (hi' : p'.invariants = [])
    (ctx : EvaluationContext) :
    (evaluate c ctx ≠ .allow → evaluate c' ctx ≠ .allow) ↔
      ¬ (CooldownWraps p.binding p'.binding ctx ∧ c'.OthersPass ["cooldown"] ctx) := by
  have hslot (b : Binding) : ("cooldown", b.cooldownSeconds.map cooldownCheck) ∈
      Policy.slots L.text b := by
    simp [Policy.slots]
  have hpass : c.Passes "cooldown" ctx ↔ Clears (p.binding.cooldownSeconds.map cooldownCheck) ctx :=
    passes_iff hc (hslot p.binding)
  have hpass' : c'.Passes "cooldown" ctx ↔
      Clears (p'.binding.cooldownSeconds.map cooldownCheck) ctx :=
    passes_iff hc' (hslot p'.binding)
  rw [not_imp_not, evaluate_eq_allow ["cooldown"], evaluate_eq_allow ["cooldown"]]
  simp only [List.mem_singleton, forall_eq, hpass, hpass']
  constructor
  · rintro hallow ⟨hwraps, hothers⟩
    have hclear' : Clears (p'.binding.cooldownSeconds.map cooldownCheck) ctx := by
      obtain ⟨s, s', last, -, hs', hlast, -, -, hgap, -⟩ := hwraps
      rw [clears_map]
      intro t ht
      obtain rfl := Option.some.inj (hs'.symm.trans ht)
      rw [cooldownCheck_eq_none]
      intro last' hlast'
      obtain rfl := Option.some.inj (hlast.symm.trans hlast')
      exact hgap
    exact (cooldown_clears_iff h hclear').mp (hallow ⟨hclear', hothers⟩).1 hwraps
  · rintro hwraps ⟨hclear', hothers⟩
    refine ⟨(cooldown_clears_iff h hclear').mpr ?_, h.othersPass hc hc' hi hi' hothers⟩
    exact fun hw ↦ hwraps ⟨hw, hothers⟩

end Tightening

def cooledPolicy (seconds : ℕ) : Policy where
  version := "1"
  agent := "crawler"
  binding := { cooldownSeconds := some seconds }
  invariants := []

def soonAfter : EvaluationContext :=
  { EvaluationContext.withDefaults { actionId := "act_2", tool := "http_get", timestamp := 1010 } with
    nowEpoch := 1010
    lastActionAt := some 1000 }

theorem cooledPolicy_tightens {s s' : ℕ} (h : s ≤ s') :
    Tightens (cooledPolicy s).binding (cooledPolicy s').binding := by
  constructor <;> simp [cooledPolicy, Keeps, Shrinks, h]

theorem tightened_denies_minute :
    evaluate (.ofBinding plainEngine (cooledPolicy 30)) soonAfter ≠ .allow ∧
      evaluate (.ofBinding plainEngine (cooledPolicy 60)) soonAfter ≠ .allow := by
  have hdenied : evaluate (.ofBinding plainEngine (cooledPolicy 30)) soonAfter ≠ .allow := by
    decide +kernel
  refine ⟨hdenied, (tightened_denies_iff (L := plainEngine)
    (cooledPolicy_tightens (by decide : 30 ≤ 60)) rfl rfl rfl rfl soonAfter).mpr ?_ hdenied⟩
  rintro ⟨⟨s, s', last, hs, hs', -, -, hlarge, -⟩, -⟩
  obtain rfl : 60 = s' := Option.some.inj hs'
  exact absurd hlarge (by decide)

/-- Half a minute becomes `2 ^ 63` seconds, and the action is allowed. -/
theorem raised_cooldown_allows :
    Tightens (cooledPolicy 30).binding (cooledPolicy (2 ^ 63)).binding ∧
      compile plainEngine (cooledPolicy 30) = .ok (.ofBinding plainEngine (cooledPolicy 30)) ∧
      compile plainEngine (cooledPolicy (2 ^ 63)) =
        .ok (.ofBinding plainEngine (cooledPolicy (2 ^ 63))) ∧
      evaluate (.ofBinding plainEngine (cooledPolicy 30)) soonAfter ≠ .allow ∧
      evaluate (.ofBinding plainEngine (cooledPolicy (2 ^ 63))) soonAfter = .allow := by
  refine ⟨cooledPolicy_tightens (by decide), rfl, rfl, ?_⟩
  decide +kernel

end SauronId.Policy
