import Mathlib

namespace SauronId.Lib.Word

/-- A result as a wrapping operation on `i64` leaves it. -/
def wrap (x : ℤ) : ℤ := Int.bmod x (2 ^ 64)

def wrappingAbs (x : ℤ) : ℤ := wrap |x|

/-- A result as a saturating operation on `i64` leaves it. -/
def saturate (x : ℤ) : ℤ := max (-2 ^ 63) (min x (2 ^ 63 - 1))

theorem wrap_of_fits {x : ℤ} (hlow : -2 ^ 63 ≤ x) (hhigh : x < 2 ^ 63) : wrap x = x :=
  Int.bmod_eq_of_le (by omega) (by omega)

theorem wrappingAbs_of_fits {x : ℤ} (hlow : -2 ^ 63 < x) (hhigh : x < 2 ^ 63) :
    wrappingAbs (wrap x) = |x| := by
  rw [wrap_of_fits hlow.le hhigh, wrappingAbs, wrap_of_fits]
  · have := abs_nonneg x
    omega
  · exact abs_lt.mpr ⟨hlow, hhigh⟩

theorem saturate_of_fits {x : ℤ} (hlow : -2 ^ 63 ≤ x) (hhigh : x < 2 ^ 63) : saturate x = x := by
  unfold saturate
  omega

end SauronId.Lib.Word
