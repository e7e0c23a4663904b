import Mathlib.Algebra.Order.Ring.Rat

namespace SauronId.Sdk

structure PendingSpendRecord where
  amountUsd : ℚ
  actionId : Option String
  timestamp : ℤ
  deriving DecidableEq

structure Tracker where
  totalUsd : ℚ
  calls : List ℤ
  pending : List PendingSpendRecord

def Tracker.empty : Tracker := ⟨0, [], []⟩

def lastN {α : Type} (n : ℕ) (l : List α) : List α := l.drop (l.length - n)

def Tracker.record (t : Tracker) (amountUsd : ℚ) (actionId : Option String) (now : ℤ) : Tracker where
  totalUsd := t.totalUsd + amountUsd
  calls := lastN 1024 (t.calls ++ [now])
  pending := t.pending ++ [⟨amountUsd, actionId, now⟩]

theorem suffix_lastN {α : Type} {n : ℕ} {s l : List α} (h : s <:+ l) (hn : s.length ≤ n) :
    s <:+ lastN n l := by
  obtain ⟨pre, rfl⟩ := h
  have hle : (pre ++ s).length - n ≤ pre.length := by
    rw [List.length_append]
    omega
  rw [lastN, List.drop_append_of_le_length hle]
  exact List.suffix_append _ _

end SauronId.Sdk
