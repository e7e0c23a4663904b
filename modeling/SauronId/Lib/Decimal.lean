import SauronId.Lib.Text

namespace SauronId.Lib.Text

def readDigits (n : ℕ) (digits : List Char) : ℕ :=
  digits.foldl (fun n c ↦ 10 * n + (c.toNat - '0'.toNat)) n

theorem digitsValue_eq_some {digits : List Char} {n : ℕ} :
    digitsValue digits = some n ↔
      digits ≠ [] ∧ (∀ c ∈ digits, c.isDigit = true) ∧ readDigits 0 digits = n := by
  unfold digitsValue readDigits
  split_ifs with h
  · rw [List.all_eq_true] at h
    rw [Option.some.injEq]
    exact ⟨fun heq ↦ ⟨h.1, h.2, heq⟩, fun heq ↦ heq.2.2⟩
  · rw [List.all_eq_true] at h
    exact ⟨nofun, fun heq ↦ absurd ⟨heq.1, heq.2.1⟩ h⟩

end SauronId.Lib.Text
