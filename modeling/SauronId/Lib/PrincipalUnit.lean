import Mathlib.Data.Nat.ModEq
import Mathlib.FieldTheory.Finite.Basic
import Mathlib.Tactic.Ring

namespace SauronId.Lib.PrincipalUnit

/-! Modulo `n ^ 2` the numbers congruent to `1` modulo `n` are the powers of
`n + 1`, and the exponent can be read off by one division. Raising a unit to a
multiple of the exponent of the units modulo `n` leads there. -/

variable {n u v : ℕ}

/-- The exponent of `n + 1` that gives a number congruent to `1` modulo `n`. -/
def index (n u : ℕ) : ℕ := (u % n ^ 2 - 1) / n

theorem index_congr (h : u ≡ v [MOD n ^ 2]) : index n u = index n v := by
  have hmod : u % n ^ 2 = v % n ^ 2 := h
  rw [index, index, hmod]

theorem index_lt (hn : 1 < n) (u : ℕ) : index n u < n := by
  have hpos : 0 < n ^ 2 := by positivity
  have hlt : u % n ^ 2 < n ^ 2 := Nat.mod_lt u hpos
  rw [index, Nat.div_lt_iff_lt_mul (by omega), ← pow_two]
  omega

theorem one_add_mul_lt (hn : 1 < n) {k : ℕ} (hk : k < n) : 1 + k * n < n ^ 2 := by
  have hle : (k + 1) * n ≤ n * n := Nat.mul_le_mul_right n hk
  rw [pow_two]
  rw [Nat.add_mul, Nat.one_mul] at hle
  omega

theorem one_add_mul_mod (hn : 1 < n) (k : ℕ) : (1 + k * n) % n ^ 2 = 1 + k % n * n := by
  have hk : 1 + k * n = 1 + k % n * n + n ^ 2 * (k / n) := by
    calc 1 + k * n = 1 + (k % n + n * (k / n)) * n := by rw [Nat.mod_add_div]
      _ = 1 + k % n * n + n ^ 2 * (k / n) := by ring
  rw [hk, Nat.add_mul_mod_self_left]
  exact Nat.mod_eq_of_lt (one_add_mul_lt hn (Nat.mod_lt k (by omega)))

theorem index_one_add_mul (hn : 1 < n) (k : ℕ) : index n (1 + k * n) = k % n := by
  rw [index, one_add_mul_mod hn, Nat.add_sub_cancel_left]
  exact Nat.mul_div_cancel _ (by omega)

theorem mod_sq_modEq (n u : ℕ) : u % n ^ 2 ≡ u [MOD n] :=
  (Nat.mod_modEq u (n ^ 2)).of_dvd (Dvd.intro_left (n ^ 1) (by ring))

theorem pos_of_modEq_one (hn : 1 < n) (h : u ≡ 1 [MOD n]) : 0 < u := by
  rcases Nat.eq_zero_or_pos u with rfl | hpos
  · have hzero : 0 % n = 1 % n := h
    rw [Nat.zero_mod, Nat.mod_eq_of_lt hn] at hzero
    omega
  · exact hpos

theorem modEq_one_add_index (hn : 1 < n) (h : u ≡ 1 [MOD n]) :
    u ≡ 1 + index n u * n [MOD n ^ 2] := by
  have hone : u % n ^ 2 ≡ 1 [MOD n] := (mod_sq_modEq n u).trans h
  have hpos : 0 < u % n ^ 2 := pos_of_modEq_one hn hone
  have hdvd : n ∣ u % n ^ 2 - 1 := (Nat.modEq_iff_dvd' hpos).mp hone.symm
  have heq : 1 + index n u * n = u % n ^ 2 := by
    rw [index, Nat.div_mul_cancel hdvd]
    omega
  rw [heq]
  exact (Nat.mod_modEq u (n ^ 2)).symm

theorem index_mul (hn : 1 < n) (hu : u ≡ 1 [MOD n]) (hv : v ≡ 1 [MOD n]) :
    index n (u * v) = (index n u + index n v) % n := by
  have hprod : u * v ≡ 1 + (index n u + index n v) * n [MOD n ^ 2] := by
    have hmul := (modEq_one_add_index hn hu).mul (modEq_one_add_index hn hv)
    have hring : (1 + index n u * n) * (1 + index n v * n) =
        1 + (index n u + index n v) * n + n ^ 2 * (index n u * index n v) := by ring
    rw [hring] at hmul
    exact hmul.trans (Nat.add_modulus_mul_modEq_iff.mpr rfl)
  rw [index_congr hprod, index_one_add_mul hn]

theorem index_pow (hn : 1 < n) (hu : u ≡ 1 [MOD n]) (k : ℕ) :
    index n (u ^ k) = k * index n u % n := by
  induction k with
  | zero =>
    have hone := index_one_add_mul hn 0
    simpa using hone
  | succ k ih =>
    have hk : u ^ k ≡ 1 [MOD n] := by simpa using hu.pow k
    rw [pow_succ, index_mul hn hk hu, ih, Nat.mod_add_mod, Nat.succ_mul]

theorem pow_lcm_modEq_one {p q c : ℕ} (hp : p.Prime) (hq : q.Prime) (hpq : p ≠ q)
    (hc : c.Coprime (p * q)) : c ^ (p - 1).lcm (q - 1) ≡ 1 [MOD p * q] := by
  have fermat {r : ℕ} (hr : r.Prime) (hcr : c.Coprime r) (hdvd : r - 1 ∣ (p - 1).lcm (q - 1)) :
      c ^ (p - 1).lcm (q - 1) ≡ 1 [MOD r] := by
    obtain ⟨k, hk⟩ := hdvd
    have hone : c ^ (r - 1) ≡ 1 [MOD r] := by
      rw [← Nat.totient_prime hr]
      exact Nat.ModEq.pow_totient hcr
    rw [hk, pow_mul]
    simpa using hone.pow k
  have hcop : p.Coprime q := (Nat.coprime_primes hp hq).mpr hpq
  rw [← Nat.modEq_and_modEq_iff_modEq_mul hcop]
  exact ⟨fermat hp (Nat.Coprime.coprime_mul_right_right hc) (Nat.dvd_lcm_left _ _),
    fermat hq (Nat.Coprime.coprime_mul_left_right hc) (Nat.dvd_lcm_right _ _)⟩

end SauronId.Lib.PrincipalUnit
