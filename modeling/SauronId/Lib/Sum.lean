import Mathlib.Algebra.BigOperators.Group.List.Basic
import Mathlib.Algebra.Order.BigOperators.Group.List
import Mathlib.Data.List.Induction

namespace SauronId.Lib

variable {α M : Type}

section Monoid

variable [AddCommMonoid M]

/-- `SELECT SUM(f) FROM l WHERE p`. -/
def sumWhere (p : α → Bool) (f : α → M) (l : List α) : M := ((l.filter p).map f).sum

variable {p q : α → Bool} {f : α → M} {l m : List α} {a : α}

@[simp] theorem sumWhere_nil : sumWhere p f [] = 0 := rfl

theorem sumWhere_cons : sumWhere p f (a :: l) = (if p a then f a else 0) + sumWhere p f l := by
  by_cases h : p a <;> simp [sumWhere, h]

theorem sumWhere_map {β : Type} {g : β → α} {m : List β} :
    sumWhere p f (m.map g) = sumWhere (fun b ↦ p (g b)) (fun b ↦ f (g b)) m := by
  simp [sumWhere, List.filter_map, Function.comp_def]

theorem sumWhere_filter : sumWhere p f (l.filter q) = sumWhere (fun a ↦ q a && p a) f l := by
  simp [sumWhere, List.filter_filter, Bool.and_comm]

theorem sumWhere_append : sumWhere p f (l ++ m) = sumWhere p f l + sumWhere p f m := by
  simp [sumWhere]

theorem sumWhere_concat : sumWhere p f (l ++ [a]) = sumWhere p f l + if p a then f a else 0 := by
  rw [sumWhere_append]
  by_cases h : p a <;> simp [sumWhere, h]

theorem sumWhere_congr (h : ∀ a ∈ l, p a = q a ∨ f a = 0) : sumWhere p f l = sumWhere q f l := by
  induction l using List.reverseRecOn with
  | nil => rfl
  | append_singleton l a ih =>
    rw [sumWhere_concat, sumWhere_concat, ih (fun b hb ↦ h b (List.mem_append_left _ hb))]
    rcases h a (by simp) with he | he
    · rw [he]
    · simp [he]

theorem sumWhere_eq_zero (h : ∀ a ∈ l, p a = true → f a = 0) : sumWhere p f l = 0 := by
  refine List.sum_eq_zero (fun x hx ↦ ?_)
  obtain ⟨a, ha, rfl⟩ := List.mem_map.mp hx
  obtain ⟨ha, hp⟩ := List.mem_filter.mp ha
  exact h a ha hp

theorem sumWhere_add (h : ∀ a ∈ l, ¬ (p a = true ∧ q a = true)) :
    sumWhere p f l + sumWhere q f l = sumWhere (fun a ↦ p a || q a) f l := by
  induction l using List.reverseRecOn with
  | nil => simp
  | append_singleton l a ih =>
    have ha := h a (by simp)
    rw [sumWhere_concat, sumWhere_concat, sumWhere_concat,
      ← ih (fun b hb ↦ h b (List.mem_append_left _ hb)), add_add_add_comm]
    cases hp : p a <;> cases hq : q a <;> simp_all

theorem sum_map_sumWhere {κ : Type} [DecidableEq κ] (key : α → κ) {keys : List κ}
    (h : keys.Nodup) :
    (keys.map (fun k ↦ sumWhere (fun a ↦ decide (key a = k) && p a) f l)).sum =
      sumWhere (fun a ↦ decide (key a ∈ keys) && p a) f l := by
  induction keys with
  | nil => exact (sumWhere_eq_zero (by simp)).symm
  | cons k keys ih =>
    obtain ⟨hk, hkeys⟩ := List.nodup_cons.mp h
    rw [List.map_cons, List.sum_cons, ih hkeys, sumWhere_add]
    · apply sumWhere_congr
      intro a ha
      left
      simp [Bool.and_or_distrib_right]
    · rintro a ha ⟨hfst, hsnd⟩
      simp only [Bool.and_eq_true, decide_eq_true_eq] at hfst hsnd
      exact hk (hfst.1 ▸ hsnd.1)

end Monoid

section Ordered

variable [AddCommMonoid M] [PartialOrder M] [IsOrderedAddMonoid M] {p : α → Bool} {f : α → M}
  {l : List α} {a : α}

theorem le_sumWhere (hpos : ∀ a ∈ l, 0 ≤ f a) (ha : a ∈ l) (hp : p a = true) :
    f a ≤ sumWhere p f l := by
  refine List.single_le_sum (fun x hx ↦ ?_) _ (List.mem_map_of_mem (List.mem_filter.mpr ⟨ha, hp⟩))
  obtain ⟨b, hb, rfl⟩ := List.mem_map.mp hx
  exact hpos b (List.mem_filter.mp hb).1

theorem sumWhere_nonneg (hpos : ∀ a ∈ l, 0 ≤ f a) : 0 ≤ sumWhere p f l := by
  refine List.sum_nonneg (fun x hx ↦ ?_)
  obtain ⟨a, ha, rfl⟩ := List.mem_map.mp hx
  exact hpos a (List.mem_filter.mp ha).1

theorem sumWhere_mono {q : α → Bool} (hpos : ∀ a ∈ l, 0 ≤ f a)
    (h : ∀ a ∈ l, p a = true → q a = true) : sumWhere p f l ≤ sumWhere q f l := by
  induction l using List.reverseRecOn with
  | nil => exact le_rfl
  | append_singleton l a ih =>
    have hle := ih (fun b hb ↦ hpos b (List.mem_append_left _ hb))
      (fun b hb ↦ h b (List.mem_append_left _ hb))
    have ha := hpos a (by simp)
    rw [sumWhere_concat, sumWhere_concat]
    apply add_le_add hle
    split_ifs with hp hq
    · exact le_rfl
    · exact absurd (h a (by simp) hp) hq
    · exact ha
    · exact le_rfl

theorem sumWhere_le_of_subset {m : List α} (hpos : ∀ a ∈ m, 0 ≤ f a)
    (hl : l.Nodup) (h : l ⊆ m) : sumWhere p f l ≤ sumWhere p f m := by
  obtain ⟨l', hperm, hsub⟩ := List.subperm_of_subset hl h
  have heq : sumWhere p f l = sumWhere p f l' := ((hperm.symm.filter p).map f).sum_eq
  rw [heq]
  refine ((hsub.filter p).map f).sum_le_sum (fun x hx ↦ ?_)
  obtain ⟨a, ha, rfl⟩ := List.mem_map.mp hx
  exact hpos a (List.mem_filter.mp ha).1

end Ordered

end SauronId.Lib
