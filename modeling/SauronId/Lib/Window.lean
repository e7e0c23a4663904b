import Mathlib.Algebra.Order.Group.Defs
import Mathlib.Data.List.Basic

namespace SauronId.Lib.Window

variable {α : Type} [AddCommGroup α] [LinearOrder α]

def within (w s : α) (times : List α) : List α := times.filter (fun t ↦ s ≤ t ∧ t < s + w)

def recent (w t : α) (times : List α) : List α := times.filter (fun u ↦ t < u + w)

/-- No interval of length `w` holds more than `m` of the moments. -/
def Limited (w : α) (m : ℕ) (times : List α) : Prop := ∀ s, (within w s times).length ≤ m

variable {w s t : α} {m : ℕ} {times : List α}

theorem limited_nil (w : α) (m : ℕ) : Limited w m [] := fun _ ↦ Nat.zero_le m

theorem within_sublist_recent [IsOrderedAddMonoid α] (ht : t < s + w) :
    (within w s times).Sublist (recent w t times) := by
  apply List.monotone_filter_right
  intro u hu
  have hsu : s ≤ u := (of_decide_eq_true hu).1
  exact decide_eq_true (ht.trans_le (add_le_add_left hsu w))

theorem Limited.concat [IsOrderedAddMonoid α] (h : Limited w m times)
    (hroom : (recent w t times).length < m) : Limited w m (times ++ [t]) := by
  intro s
  rw [within, List.filter_append, List.length_append]
  change (within w s times).length + _ ≤ m
  by_cases ht : s ≤ t ∧ t < s + w
  · have hsub : (within w s times).Sublist (recent w t times) := within_sublist_recent ht.2
    rw [List.filter_singleton, decide_eq_true ht]
    exact Nat.succ_le_of_lt (hsub.length_le.trans_lt hroom)
  · rw [List.filter_singleton, decide_eq_false ht]
    exact h s

end SauronId.Lib.Window
