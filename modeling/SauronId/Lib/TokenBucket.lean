import Mathlib.Algebra.Order.Field.Basic
import Mathlib.Data.List.Basic
import Mathlib.Tactic.Linarith
import Mathlib.Tactic.Ring

namespace SauronId.Lib

variable {K : Type} [Field K] [LinearOrder K] [IsStrictOrderedRing K]

def countBetween (a b : K) (times : List K) : K :=
  ((times.filter (fun t ↦ a ≤ t ∧ t ≤ b)).length : K)

def countFrom (a : K) (times : List K) : K := ((times.filter (fun t ↦ a ≤ t)).length : K)

/-- A bucket that fills at `rate` up to `cap` and held `tokens` at `last`, and the
moments at which a token was taken from it. -/
structure Metered (rate cap : K) (times : List K) (tokens last : K) : Prop where
  past : ∀ t ∈ times, t ≤ last
  capped : tokens ≤ cap
  /-- What was taken since `a` and what is left fits what could flow in. -/
  bounded : ∀ a, a ≤ last → countFrom a times + tokens ≤ cap + rate * (last - a)
  windows : ∀ a b, a ≤ b → countBetween a b times ≤ cap + rate * (b - a)

namespace Metered

variable {rate cap tokens last t : K} {times : List K}

theorem full (hrate : 0 ≤ rate) (hcap : 0 ≤ cap) (last : K) : Metered rate cap [] cap last where
  past t ht := absurd ht List.not_mem_nil
  capped := le_rfl
  bounded a ha := by
    have hflow := mul_nonneg hrate (sub_nonneg.mpr ha)
    simpa [countFrom] using hflow
  windows a b hab := by
    have hflow := mul_nonneg hrate (sub_nonneg.mpr hab)
    simpa [countBetween] using add_nonneg hcap hflow

omit [IsStrictOrderedRing K] in
theorem countFrom_eq_zero {a : K} (h : ∀ t ∈ times, t < a) : countFrom a times = 0 := by
  have hnil : times.filter (fun t ↦ a ≤ t) = [] := by
    apply List.filter_eq_nil_iff.mpr
    intro t ht
    simpa using h t ht
  simp [countFrom, hnil]

theorem countBetween_le_countFrom (a b : K) (times : List K) :
    countBetween a b times ≤ countFrom a times := by
  have hsub : (times.filter (fun t ↦ a ≤ t ∧ t ≤ b)).Sublist (times.filter (fun t ↦ a ≤ t)) := by
    apply List.monotone_filter_right
    intro t ht
    exact decide_eq_true (of_decide_eq_true ht).1
  exact Nat.cast_le.mpr hsub.length_le

theorem advance (h : Metered rate cap times tokens last) (hrate : 0 ≤ rate) (ht : last ≤ t) :
    Metered rate cap times (min (tokens + (t - last) * rate) cap) t where
  past u hu := (h.past u hu).trans ht
  capped := min_le_right _ _
  bounded a ha := by
    rcases le_or_gt a last with hal | hal
    · have hold := h.bounded a hal
      have hmin : min (tokens + (t - last) * rate) cap ≤ tokens + (t - last) * rate :=
        min_le_left _ _
      linarith
    · rw [countFrom_eq_zero (fun u hu ↦ (h.past u hu).trans_lt hal), zero_add]
      have hflow := mul_nonneg hrate (sub_nonneg.mpr ha)
      have hmin : min (tokens + (t - last) * rate) cap ≤ cap := min_le_right _ _
      linarith
  windows := h.windows

theorem take (h : Metered rate cap times tokens last) (hrate : 0 ≤ rate) (htokens : 1 ≤ tokens) :
    Metered rate cap (times ++ [last]) (tokens - 1) last where
  past u hu := by
    rcases List.mem_append.mp hu with hu | hu
    · exact h.past u hu
    · exact (List.mem_singleton.mp hu).le
  capped := by
    have hcap := h.capped
    linarith
  bounded a ha := by
    have hold := h.bounded a ha
    have hcount : countFrom a (times ++ [last]) = countFrom a times + 1 := by
      simp [countFrom, ha]
    linarith
  windows a b hab := by
    by_cases hin : a ≤ last ∧ last ≤ b
    · have hcount : countBetween a b (times ++ [last]) = countBetween a b times + 1 := by
        simp [countBetween, hin]
      have hold := h.bounded a hin.1
      have hle := countBetween_le_countFrom a b times
      have hflow : rate * (last - a) ≤ rate * (b - a) :=
        mul_le_mul_of_nonneg_left (by linarith [hin.2]) hrate
      linarith
    · have hcount : countBetween a b (times ++ [last]) = countBetween a b times := by
        simp [countBetween, hin]
      rw [hcount]
      exact h.windows a b hab

end Metered

end SauronId.Lib
