import SauronId.Policy.Enforcement

namespace SauronId.Policy

open Lib Spend

structure Call where
  now : ℕ
  handles : Handles
  action : Action

def allowedTimes (L : Engine) (tenantId agentId : String) (calls : List Call) : List ℕ :=
  (calls.filter (fun k ↦ allows L k.handles k.now tenantId agentId k.action)).map Call.now

def countIn (times : List ℕ) (start length : ℕ) : ℕ :=
  (times.filter (fun t ↦ start ≤ t ∧ t < start + length)).length

/-- What the rate limits and the cooldown of a binding promise about the times of
the calls it allows. -/
structure WithinLimits (b : Binding) (times : List ℕ) : Prop where
  perMinute : ∀ r, b.rateLimit = some r → ∀ start, countIn times start 60 ≤ r.requestsPerMinute
  perWeek : ∀ r, b.weeklyRate = some r →
    ∀ start, countIn times start (7 * 24 * 60 * 60) ≤ r.requestsPerWeek
  apart : ∀ seconds, b.cooldownSeconds = some seconds →
    times.Pairwise (fun s t ↦ s + seconds ≤ t)

def Unlimited (b : Binding) : Prop :=
  b.rateLimit = none ∧ b.weeklyRate = none ∧ b.cooldownSeconds.getD 0 = 0

def limitChecks : List String := ["rate_limit", "weekly_rate", "cooldown"]

theorem countIn_replicate {n t length : ℕ} (h : 0 < length) :
    countIn (List.replicate n t) t length = n := by
  have hin : ∀ s ∈ List.replicate n t, decide (t ≤ s ∧ s < t + length) = true := by
    intro s hs
    obtain rfl := List.eq_of_mem_replicate hs
    simpa using h
  rw [countIn, List.filter_eq_self.mpr hin, List.length_replicate]

section

variable {L : Engine} {tenantId agentId policyId : String} {p : Policy} {c : CompiledPolicy}

theorem cooldownCheck_passes {seconds : ℕ} {ctx : EvaluationContext}
    (h : ctx.lastActionAt = none) : cooldownCheck seconds ctx = none := by
  simp [cooldownCheck, h]

theorem allows_iff_others (hu : Uploaded L p c) {k : Call}
    (hb : Bound k.handles tenantId agentId policyId c) :
    allows L k.handles k.now tenantId agentId k.action = true ↔
      c.OthersPass limitChecks
        (boundContext L k.handles k.now tenantId agentId policyId c k.action) := by
  have hvalid := validate_eq_ok.mp hu.valid
  have hrate : ("rate_limit", p.binding.rateLimit.map (fun r ↦ rateCheck r.requestsPerMinute)) ∈
      slots L.text p.binding := by
    simp [slots]
  have hweekly : ("weekly_rate",
      p.binding.weeklyRate.map (fun r ↦ weeklyRateCheck r.requestsPerWeek)) ∈
      slots L.text p.binding := by
    simp [slots]
  have hcooldown : ("cooldown", p.binding.cooldownSeconds.map cooldownCheck) ∈
      slots L.text p.binding := by
    simp [slots]
  rw [allows_iff hb, evaluate_eq_allow limitChecks, and_iff_right_iff_imp]
  intro _ name hname
  simp only [limitChecks, List.mem_cons, List.not_mem_nil, or_false] at hname
  rcases hname with rfl | rfl | rfl
  · rw [passes_setting_iff hu.compiled hrate]
    intro r hr
    exact callsBelow_of_no_history (hvalid.rateLimit r hr) rfl
  · rw [passes_setting_iff hu.compiled hweekly]
    intro r hr
    exact callsBelow_of_no_history (hvalid.weeklyRate r hr) rfl
  · rw [passes_setting_iff hu.compiled hcooldown]
    intro seconds _
    exact cooldownCheck_passes rfl

theorem allowedTimes_replicate {k : Call} {n : ℕ}
    (h : allows L k.handles k.now tenantId agentId k.action = true) :
    allowedTimes L tenantId agentId (List.replicate n k) = List.replicate n k.now := by
  simp [allowedTimes, h]

theorem allowedTimes_pairwise {calls : List Call}
    (h : calls.Pairwise (fun k l ↦ k.now ≤ l.now)) :
    (allowedTimes L tenantId agentId calls).Pairwise (fun s t ↦ s ≤ t) :=
  List.pairwise_map.mpr (h.sublist List.filter_sublist)

theorem withinLimits_of_unlimited {b : Binding} {times : List ℕ} (hb : Unlimited b)
    (ht : times.Pairwise (fun s t ↦ s ≤ t)) : WithinLimits b times where
  perMinute := by
    intro r hr
    rw [hb.1] at hr
    cases hr
  perWeek := by
    intro r hr
    rw [hb.2.1] at hr
    cases hr
  apart := by
    intro seconds hs
    obtain rfl : seconds = 0 := by simpa [hs] using hb.2.2
    exact ht

theorem withinLimits_nil (b : Binding) : WithinLimits b [] :=
  ⟨fun _ _ _ ↦ Nat.zero_le _, fun _ _ _ ↦ Nat.zero_le _, fun _ _ ↦ .nil⟩

theorem unlimited_of_repeated {b : Binding} {t : ℕ}
    (h : ∀ n, WithinLimits b (List.replicate n t)) : Unlimited b := by
  refine ⟨?_, ?_, ?_⟩
  · by_contra hne
    obtain ⟨r, hr⟩ := Option.ne_none_iff_exists'.mp hne
    have hle := (h (r.requestsPerMinute + 1)).perMinute r hr t
    rw [countIn_replicate (by decide)] at hle
    omega
  · by_contra hne
    obtain ⟨r, hr⟩ := Option.ne_none_iff_exists'.mp hne
    have hle := (h (r.requestsPerWeek + 1)).perWeek r hr t
    rw [countIn_replicate (by decide)] at hle
    omega
  · cases hs : b.cooldownSeconds with
    | none => rfl
    | some seconds =>
      have hapart := (h 2).apart seconds hs
      simpa using hapart

/-- The limits of a policy hold in every sequence of calls exactly when it sets
none, or when its other checks never let a bound call through. -/
theorem limits_hold_iff (hu : Uploaded L p c) :
    (∀ calls : List Call, calls.Pairwise (fun k l ↦ k.now ≤ l.now) →
        (∀ k ∈ calls, ∃ policyId, Bound k.handles tenantId agentId policyId c) →
        WithinLimits p.binding (allowedTimes L tenantId agentId calls)) ↔
      Unlimited p.binding ∨
      ∀ (k : Call) (policyId : String), Bound k.handles tenantId agentId policyId c →
        ¬ c.OthersPass limitChecks
          (boundContext L k.handles k.now tenantId agentId policyId c k.action) := by
  constructor
  · intro h
    by_cases hk : ∃ (k : Call) (policyId : String),
        Bound k.handles tenantId agentId policyId c ∧ c.OthersPass limitChecks
          (boundContext L k.handles k.now tenantId agentId policyId c k.action)
    · obtain ⟨k, policyId, hb, hothers⟩ := hk
      have hallow := (allows_iff_others hu hb).mpr hothers
      refine .inl (unlimited_of_repeated (t := k.now) (fun n ↦ ?_))
      rw [← allowedTimes_replicate hallow]
      apply h
      · exact List.pairwise_replicate.mpr (.inr le_rfl)
      · intro l hl
        obtain rfl := List.eq_of_mem_replicate hl
        exact ⟨policyId, hb⟩
    · refine .inr (fun k policyId hb hothers ↦ hk ⟨k, policyId, hb, hothers⟩)
  · rintro (hfree | hdenied) calls hsorted hbound
    · exact withinLimits_of_unlimited hfree (allowedTimes_pairwise hsorted)
    · have hnone : allowedTimes L tenantId agentId calls = [] := by
        rw [allowedTimes, List.map_eq_nil_iff, List.filter_eq_nil_iff]
        intro k hk hallow
        obtain ⟨policyId, hb⟩ := hbound k hk
        exact hdenied k policyId hb ((allows_iff_others hu hb).mp hallow)
      exact hnone ▸ withinLimits_nil p.binding

end

def frozenPolicy : Policy where
  version := "1"
  agent := "crawler"
  binding :=
    { rateLimit := some ⟨1⟩
      weeklyRate := some ⟨5⟩
      cooldownSeconds := some 30
      maxConcurrent := some 0 }
  invariants := []

def thawedPolicy : Policy :=
  { frozenPolicy with binding := { frozenPolicy.binding with maxConcurrent := none } }

def fetch (p : Policy) : Call where
  now := 1798459200
  handles := .solo "default" "agt_crawler" (.ofBinding plainEngine p)
  action := { actionId := "act_1", tool := "http_get", timestamp := 1798459200 }

theorem limits_hold_frozen : WithinLimits frozenPolicy.binding
    (allowedTimes plainEngine "default" "agt_crawler" (List.replicate 2 (fetch frozenPolicy))) := by
  apply (limits_hold_iff (.ofBinding (L := plainEngine) (by decide +kernel) rfl)).mpr
  · right
    intro k policyId _ hothers
    have hpass := hothers ⟨"concurrency", concurrencyCheck 0⟩ (by simp [CompiledPolicy.ofBinding,
      bindingChecks, slots, frozenPolicy]) (by decide)
    simp [concurrencyCheck, objectIf] at hpass
  · exact List.pairwise_replicate.mpr (.inr le_rfl)
  · intro k hk
    obtain rfl := List.eq_of_mem_replicate hk
    exact ⟨_, .solo (by decide) _⟩

/-- Six calls within one second, all of them allowed. -/
theorem limits_broken_at_once :
    Uploaded plainEngine thawedPolicy (.ofBinding plainEngine thawedPolicy) ∧
    Bound (fetch thawedPolicy).handles "default" "agt_crawler" "pol_crawler"
      (.ofBinding plainEngine thawedPolicy) ∧
    allowedTimes plainEngine "default" "agt_crawler" (List.replicate 6 (fetch thawedPolicy)) =
      List.replicate 6 1798459200 ∧
    ¬ WithinLimits thawedPolicy.binding (List.replicate 6 1798459200) := by
  refine ⟨.ofBinding (by decide +kernel) rfl, .solo (by decide) _, by decide +kernel, ?_⟩
  intro h
  have hminute := h.perMinute ⟨1⟩ rfl 1798459200
  rw [countIn_replicate (by decide)] at hminute
  exact absurd hminute (by decide)

end SauronId.Policy
