import Mathlib.Algebra.Order.Field.Rat
import Mathlib.Algebra.Order.Floor.Ring
import Mathlib.Data.Rat.Floor
import SauronId.Lib.Run
import SauronId.Lib.Table
import SauronId.Lib.TokenBucket

namespace SauronId.Middleware

open Lib Lib.Run

structure GlobalRateLimitConfig where
  (requestsPerSecondPerIp burst : ℕ)

def GlobalRateLimitConfig.isDisabled (cfg : GlobalRateLimitConfig) : Bool :=
  cfg.requestsPerSecondPerIp = 0 ∨ cfg.burst = 0

variable {α : Type}

structure BucketState (α : Type) where
  ip : α
  (tokens lastRefill : ℚ)

def BucketState.spend (b : BucketState α) : BucketState α := { b with tokens := b.tokens - 1 }

theorem ip_spend (b : BucketState α) : b.spend.ip = b.ip := rfl

theorem tokens_spend (b : BucketState α) : b.spend.tokens = b.tokens - 1 := rfl

theorem lastRefill_spend (b : BucketState α) : b.spend.lastRefill = b.lastRefill := rfl

abbrev Buckets (α : Type) := Table (fun b : BucketState α ↦ b.ip)

variable [DecidableEq α]

def saturatingDurationSince (now earlier : ℚ) : ℚ := max 0 (now - earlier)

def BucketState.refill (cfg : GlobalRateLimitConfig) (now : ℚ) (b : BucketState α) :
    BucketState α :=
  let elapsed := saturatingDurationSince now b.lastRefill
  { b with
    tokens := min (b.tokens + elapsed * cfg.requestsPerSecondPerIp) cfg.burst
    lastRefill := now }

/-- The entry of an address, a full one if it has none, brought up to `now`. -/
def entryAt (cfg : GlobalRateLimitConfig) (buckets : Buckets α) (ip : α) (now : ℚ) :
    BucketState α :=
  ((buckets.get ip).getD ⟨ip, cfg.burst, now⟩).refill cfg now

def tryAcquireAt (cfg : GlobalRateLimitConfig) (buckets : Buckets α) (ip : α)
    (now : ℚ) : Except ℕ Unit × Buckets α :=
  if cfg.isDisabled then (.ok (), buckets)
  else
    let entry := entryAt cfg buckets ip now
    if 1 ≤ entry.tokens then (.ok (), buckets.replace entry.spend)
    else (.error (max ⌈1 / (cfg.requestsPerSecondPerIp : ℚ)⌉₊ 1), buckets.replace entry)

def BucketState.stale (ttl now : ℚ) (b : BucketState α) : Bool :=
  ¬ saturatingDurationSince now b.lastRefill < ttl

def prune (buckets : Buckets α) (ttl now : ℚ) :
    ℕ × Buckets α :=
  let kept := buckets.deleteWhere (BucketState.stale ttl now)
  (buckets.rows.length - kept.rows.length, kept)

structure LimiterWorld (α : Type) where
  buckets : Buckets α
  /-- The accepted calls, by address and time stamp. -/
  accepted : List (α × ℚ)
  /-- The moments up to which the state of an address was brought: the time
  stamps of its calls, and the times at which its bucket was pruned. -/
  reached : List (α × ℚ)

/-- The time stamps are the callers' own: they need not come in order. -/
inductive LimiterEvent (α : Type)
  | acquire (ip : α) (now : ℚ)
  | prune (ttl now : ℚ)

def nextLimiter (cfg : GlobalRateLimitConfig) (w : LimiterWorld α) :
    LimiterEvent α → Option (LimiterWorld α)
  | .acquire ip now =>
    let (answer, buckets) := tryAcquireAt cfg w.buckets ip now
    some ⟨buckets, w.accepted ++ (if answer.isOk then [(ip, now)] else []),
      w.reached ++ [(ip, now)]⟩
  | .prune ttl now =>
    some ⟨(prune w.buckets ttl now).2, w.accepted,
      w.reached ++ ((w.buckets.rows.filter (BucketState.stale ttl now)).map (fun b ↦ (b.ip, now)))⟩

def LimiterWorld.init : LimiterWorld α := ⟨.empty, [], []⟩

def stamps (ip : α) (l : List (α × ℚ)) : List ℚ :=
  (l.filter (fun e ↦ e.1 = ip)).map Prod.snd

/-- The step condition: a call for the address is no earlier than what came
before it, and a bucket is pruned only after it had the time to fill up. -/
def Timely (cfg : GlobalRateLimitConfig) (ip : α) (w : LimiterWorld α) : LimiterEvent α → Prop
  | .acquire ip' now => ip' = ip → ∀ t ∈ stamps ip w.reached, t ≤ now
  | .prune ttl now => ∀ b ∈ w.buckets.get ip, b.stale ttl now = true →
      cfg.burst ≤ b.tokens + (now - b.lastRefill) * cfg.requestsPerSecondPerIp

instance (cfg : GlobalRateLimitConfig) (ip : α) (w : LimiterWorld α) :
    (e : LimiterEvent α) → Decidable (Timely cfg ip w e)
  | .acquire _ _ => inferInstanceAs (Decidable (_ → _))
  | .prune _ _ => inferInstanceAs (Decidable (∀ _ ∈ _, _))

/-- The calls accepted for the address fit a bucket that holds, at any moment not
before its last call, what its entry then would. -/
def LimiterInvariant (cfg : GlobalRateLimitConfig) (ip : α) (w : LimiterWorld α) : Prop :=
  ∀ now, (∀ t ∈ stamps ip w.reached, t ≤ now) →
    Metered (cfg.requestsPerSecondPerIp : ℚ) cfg.burst (stamps ip w.accepted)
      (entryAt cfg w.buckets ip now).tokens now

variable {cfg : GlobalRateLimitConfig} {ip ip' : α} {w w' : LimiterWorld α} {now t : ℚ}
  {buckets : Buckets α} {b : BucketState α}

theorem stamps_append (ip : α) (l m : List (α × ℚ)) :
    stamps ip (l ++ m) = stamps ip l ++ stamps ip m := by
  simp [stamps]

@[simp] theorem stamps_self (ip : α) (now : ℚ) : stamps ip [(ip, now)] = [now] := by
  simp [stamps]

theorem stamps_of_ne (h : ip' ≠ ip) (now : ℚ) : stamps ip [(ip', now)] = [] := by
  simp [stamps, h]

theorem entryAt_of_none (h : buckets.get ip = none) (now : ℚ) :
    (entryAt cfg buckets ip now).tokens = cfg.burst := by
  simp [entryAt, h, BucketState.refill, saturatingDurationSince]

theorem entryAt_of_some (h : buckets.get ip = some b) (now : ℚ) :
    (entryAt cfg buckets ip now).tokens =
      min (b.tokens + max 0 (now - b.lastRefill) * cfg.requestsPerSecondPerIp) cfg.burst := by
  simp [entryAt, h, BucketState.refill, saturatingDurationSince]

theorem ip_entryAt : (entryAt cfg buckets ip now).ip = ip := by
  unfold entryAt BucketState.refill
  cases h : buckets.get ip with
  | none => rfl
  | some b => exact (Table.get_eq_some.mp h).2

theorem lastRefill_entryAt : (entryAt cfg buckets ip now).lastRefill = now := rfl

theorem Metered.entryAt_replace {times : List ℚ} (hip : b.ip = ip) (hlast : b.lastRefill = now)
    (ht : now ≤ t) (h : Metered (cfg.requestsPerSecondPerIp : ℚ) cfg.burst times b.tokens now) :
    Metered (cfg.requestsPerSecondPerIp : ℚ) cfg.burst times
      (entryAt cfg (buckets.replace b) ip t).tokens t := by
  have hget : (buckets.replace b).get ip = some b := by
    rw [Table.get_replace, if_pos hip.symm]
  rw [entryAt_of_some hget, hlast, max_eq_right (sub_nonneg.mpr ht)]
  exact h.advance (Nat.cast_nonneg _) ht

theorem entryAt_of_get_eq {buckets' : Buckets α} (h : buckets'.get ip = buckets.get ip) (now : ℚ) :
    entryAt cfg buckets' ip now = entryAt cfg buckets ip now := by
  rw [entryAt, entryAt, h]

theorem tryAcquireAt_cases (hcfg : cfg.isDisabled = false) (ip : α) (now : ℚ) :
    (1 ≤ (entryAt cfg buckets ip now).tokens ∧
      tryAcquireAt cfg buckets ip now =
        (.ok (), buckets.replace (entryAt cfg buckets ip now).spend)) ∨
    ∃ retry, tryAcquireAt cfg buckets ip now =
      (.error retry, buckets.replace (entryAt cfg buckets ip now)) := by
  unfold tryAcquireAt
  rw [hcfg]
  by_cases htokens : 1 ≤ (entryAt cfg buckets ip now).tokens
  · exact .inl ⟨htokens, if_pos htokens⟩
  · exact .inr ⟨_, if_neg htokens⟩

theorem nextLimiter_acquire (cfg : GlobalRateLimitConfig) (w : LimiterWorld α) (ip : α) (now : ℚ) :
    nextLimiter cfg w (.acquire ip now) =
      some ⟨(tryAcquireAt cfg w.buckets ip now).2,
        w.accepted ++ (if (tryAcquireAt cfg w.buckets ip now).1.isOk then [(ip, now)] else []),
        w.reached ++ [(ip, now)]⟩ := rfl

theorem invariant_acquire_self (hcfg : cfg.isDisabled = false) (hw : LimiterInvariant cfg ip w)
    (hok : ∀ t ∈ stamps ip w.reached, t ≤ now)
    (h : nextLimiter cfg w (.acquire ip now) = some w') : LimiterInvariant cfg ip w' := by
  rw [nextLimiter_acquire] at h
  obtain rfl := Option.some.inj h
  have hentry := hw now hok
  intro t ht
  have htime : now ≤ t := by
    apply ht
    rw [stamps_append, stamps_self]
    exact List.mem_concat_self
  dsimp only
  rcases tryAcquireAt_cases hcfg ip now with ⟨htokens, heq⟩ | ⟨retry, heq⟩
  · have hisOk : (tryAcquireAt cfg w.buckets ip now).1.isOk = true := by
      rw [heq]
      rfl
    rw [if_pos hisOk, stamps_append, stamps_self, heq]
    have htake := hentry.take (Nat.cast_nonneg _) htokens
    rw [← tokens_spend] at htake
    exact Metered.entryAt_replace ((ip_spend _).trans ip_entryAt)
      (lastRefill_spend _) htime htake
  · have hrefused : ¬ (tryAcquireAt cfg w.buckets ip now).1.isOk = true := by
      rw [heq]
      exact Bool.false_ne_true
    rw [if_neg hrefused, List.append_nil, heq]
    exact Metered.entryAt_replace ip_entryAt lastRefill_entryAt htime hentry

theorem LimiterInvariant.congr (hw : LimiterInvariant cfg ip w)
    (hget : w'.buckets.get ip = w.buckets.get ip)
    (haccepted : stamps ip w'.accepted = stamps ip w.accepted)
    (hreached : stamps ip w'.reached = stamps ip w.reached) : LimiterInvariant cfg ip w' := by
  intro now hnow
  rw [haccepted, entryAt_of_get_eq hget]
  exact hw now (hreached ▸ hnow)

theorem invariant_acquire_other (hcfg : cfg.isDisabled = false) (hw : LimiterInvariant cfg ip w)
    (hne : ip' ≠ ip) (h : nextLimiter cfg w (.acquire ip' now) = some w') :
    LimiterInvariant cfg ip w' := by
  rw [nextLimiter_acquire] at h
  obtain rfl := Option.some.inj h
  have hget : ∀ b : BucketState α, b.ip = ip' → (w.buckets.replace b).get ip = w.buckets.get ip := by
    intro b hb
    rw [Table.get_replace, if_neg]
    rw [hb]
    exact hne.symm
  have hnone := stamps_of_ne hne now
  apply hw.congr
  · rcases tryAcquireAt_cases hcfg ip' now with ⟨-, heq⟩ | ⟨retry, heq⟩
    · rw [heq]
      exact hget _ ip_entryAt
    · rw [heq]
      exact hget _ ip_entryAt
  · dsimp only
    split_ifs
    · rw [stamps_append, hnone, List.append_nil]
    · rw [List.append_nil]
  · rw [stamps_append, hnone, List.append_nil]

theorem stamps_pruned (ttl now : ℚ) (h : ∀ b ∈ buckets.get ip, b.stale ttl now = false) :
    stamps ip ((buckets.rows.filter (BucketState.stale ttl now)).map (fun b ↦ (b.ip, now))) = [] := by
  unfold stamps
  rw [List.map_eq_nil_iff, List.filter_eq_nil_iff]
  intro e he
  obtain ⟨b, hb, rfl⟩ := List.mem_map.mp he
  obtain ⟨hrow, hstale⟩ := List.mem_filter.mp hb
  intro hip
  have hfresh := h b (Table.get_eq_some.mpr ⟨hrow, of_decide_eq_true hip⟩)
  rw [hstale] at hfresh
  cases hfresh

theorem mem_stamps_pruned {ttl : ℚ} (h : buckets.get ip = some b) (hstale : b.stale ttl now = true) :
    now ∈ stamps ip ((buckets.rows.filter (BucketState.stale ttl now)).map
      (fun b ↦ (b.ip, now))) := by
  obtain ⟨hrow, hip⟩ := Table.get_eq_some.mp h
  apply List.mem_map.mpr
  refine ⟨(b.ip, now), List.mem_filter.mpr ⟨?_, by simpa using hip⟩, rfl⟩
  exact List.mem_map.mpr ⟨b, List.mem_filter.mpr ⟨hrow, hstale⟩, rfl⟩

theorem invariant_prune {ttl : ℚ} (hw : LimiterInvariant cfg ip w)
    (hok : Timely cfg ip w (.prune ttl now))
    (h : nextLimiter cfg w (.prune ttl now) = some w') : LimiterInvariant cfg ip w' := by
  obtain rfl := Option.some.inj h
  have hget : (prune w.buckets ttl now).2.get ip =
      (w.buckets.get ip).filter (fun b ↦ !b.stale ttl now) := Table.get_deleteWhere ip
  by_cases hstale : ∃ b, w.buckets.get ip = some b ∧ b.stale ttl now = true
  · obtain ⟨b, hb, hstale⟩ := hstale
    have hfull := hok b hb hstale
    intro t ht
    dsimp only at ht ⊢
    rw [stamps_append] at ht
    have htime : now ≤ t := ht now (List.mem_append_right _ (mem_stamps_pruned hb hstale))
    have hentry := hw t (fun s hs ↦ ht s (List.mem_append_left _ hs))
    have hgone : (prune w.buckets ttl now).2.get ip = none := by
      rw [hget, hb, Option.filter_some, hstale]
      rfl
    rw [entryAt_of_none hgone]
    rw [entryAt_of_some hb, min_eq_right] at hentry
    · exact hentry
    · have helapsed : now - b.lastRefill ≤ max 0 (t - b.lastRefill) :=
        le_max_of_le_right (sub_le_sub_right htime _)
      have hflow := mul_le_mul_of_nonneg_right helapsed
        (Nat.cast_nonneg cfg.requestsPerSecondPerIp : (0 : ℚ) ≤ _)
      linarith
  · have hfresh : ∀ b ∈ w.buckets.get ip, b.stale ttl now = false := by
      intro b hb
      rw [← Bool.not_eq_true]
      exact fun hs ↦ hstale ⟨b, hb, hs⟩
    apply hw.congr
    · rw [hget]
      cases hb : w.buckets.get ip with
      | none => rfl
      | some b => rw [Option.filter_some, hfresh b hb, Bool.not_false, if_pos rfl]
    · rfl
    · rw [stamps_append, stamps_pruned ttl now hfresh, List.append_nil]

theorem invariant_nextLimiter (hcfg : cfg.isDisabled = false) (w : LimiterWorld α)
    (e : LimiterEvent α) (w' : LimiterWorld α) (hw : LimiterInvariant cfg ip w)
    (hok : Timely cfg ip w e) (h : nextLimiter cfg w e = some w') : LimiterInvariant cfg ip w' := by
  cases e with
  | acquire ip' now =>
    by_cases hip : ip' = ip
    · subst hip
      exact invariant_acquire_self hcfg hw (hok rfl) h
    · exact invariant_acquire_other hcfg hw hip h
  | prune ttl now => exact invariant_prune hw hok h

theorem exists_upper_bound (l : List ℚ) : ∃ now, ∀ t ∈ l, t ≤ now := by
  induction l with
  | nil => exact ⟨0, fun t ht ↦ absurd ht List.not_mem_nil⟩
  | cons s l ih =>
    obtain ⟨now, hnow⟩ := ih
    refine ⟨max s now, ?_⟩
    intro t ht
    rcases List.mem_cons.mp ht with rfl | ht
    · exact le_max_left _ _
    · exact (hnow t ht).trans (le_max_right _ _)

/-- In every run of an enabled limiter that meets the step condition, the calls
accepted for an address in an interval of length `d` are at most `burst + rps * d`. -/
theorem accepted_within_rate {es : List (LimiterEvent α)} (hcfg : cfg.isDisabled = false)
    (hok : Along (nextLimiter cfg) (Timely cfg ip) .init es)
    (h : run (nextLimiter cfg) .init es = some w) (a d : ℚ) (hd : 0 ≤ d) :
    countBetween a (a + d) (stamps ip w.accepted) ≤
      cfg.burst + cfg.requestsPerSecondPerIp * d := by
  have hinit : LimiterInvariant cfg ip .init := by
    intro now _
    have hnone : (LimiterWorld.init : LimiterWorld α).buckets.get ip = none := rfl
    rw [entryAt_of_none hnone]
    exact Metered.full (Nat.cast_nonneg _) (Nat.cast_nonneg _) now
  have hw := run_invariant (invariant_nextLimiter hcfg) hinit hok h
  obtain ⟨now, hnow⟩ := exists_upper_bound (stamps ip w.reached)
  have hwindow := (hw now hnow).windows a (a + d) (by linarith)
  rwa [add_sub_cancel_left] at hwindow

section Demo

def prunedAddress : List (LimiterEvent ℕ) :=
  [.acquire 7 0, .acquire 7 0, .acquire 7 (1 / 2), .acquire 7 1, .prune 300 301, .acquire 7 302]

theorem accepted_within_rate_pruned :
    ∃ w, run (nextLimiter ⟨1, 2⟩) .init prunedAddress = some w ∧
      stamps 7 w.accepted = [0, 0, 1, 302] ∧
      countBetween 0 (0 + 1) (stamps 7 w.accepted) ≤ (2 : ℕ) + (1 : ℕ) * (1 : ℚ) := by
  have hrun : (run (nextLimiter ⟨1, 2⟩) .init prunedAddress).map
      (fun w ↦ stamps 7 w.accepted) = some [0, 0, 1, 302] := by
    decide +kernel
  obtain ⟨w, hw, hstamps⟩ := Option.map_eq_some_iff.mp hrun
  refine ⟨w, hw, hstamps, ?_⟩
  exact accepted_within_rate (by decide) (by decide +kernel) hw 0 1 zero_le_one

/-- A late time stamp moves the refill time back, and the time up to the next
call is then counted a second time. -/
theorem accepted_beyond_rate :
    (run (nextLimiter ⟨1, 1⟩) .init [.acquire 7 10, .acquire 7 0, .acquire 7 10]).map
        (fun w ↦ stamps 7 w.accepted) = some [10, 10] ∧
      ¬ countBetween 10 (10 + 0) ([10, 10] : List ℚ) ≤ (1 : ℕ) + (1 : ℕ) * 0 := by
  decide +kernel

end Demo

end SauronId.Middleware
