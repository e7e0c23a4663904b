import Mathlib.Data.List.Prime
import Mathlib.NumberTheory.LucasPrimality

namespace SauronId.Lib.Lucas

/-- `acc * a ^ e % m`, by squaring `a` once for each binary digit of `e`. -/
def powMod (m : ℕ) : (digits : ℕ) → (a e acc : ℕ) → ℕ
  | 0, _, _, acc => acc % m
  | digits + 1, a, e, acc =>
    powMod m digits (a * a % m) (e / 2) (if e % 2 = 1 then acc * a % m else acc)

theorem powMod_eq (m : ℕ) {digits a e acc : ℕ} (he : e < 2 ^ digits) :
    powMod m digits a e acc = acc * a ^ e % m := by
  induction digits generalizing a e acc with
  | zero =>
    obtain rfl : e = 0 := by simpa using he
    simp [powMod]
  | succ digits ih =>
    have hhalf : e / 2 < 2 ^ digits := by
      rw [pow_succ] at he
      omega
    have hsquare : (a * a % m) ^ (e / 2) ≡ a ^ (2 * (e / 2)) [MOD m] := by
      rw [pow_mul, sq]
      exact (Nat.mod_modEq _ _).pow _
    rw [powMod, ih hhalf]
    split_ifs with hodd
    · have hpow : a ^ e = a * a ^ (2 * (e / 2)) := by
        rw [← pow_succ']
        congr 1
        omega
      rw [hpow, ← mul_assoc]
      exact (Nat.mod_modEq _ _).mul hsquare
    · have hpow : a ^ e = a ^ (2 * (e / 2)) := by
        congr 1
        omega
      rw [hpow]
      exact hsquare.mul_left acc

def passes (p digits a : ℕ) (factors : List ℕ) : Bool :=
  1 < p ∧ p ≤ 2 ^ digits ∧ factors.prod = p - 1 ∧ powMod p digits a (p - 1) 1 = 1 ∧
    ∀ q ∈ factors, powMod p digits a ((p - 1) / q) 1 ≠ 1

theorem cast_pow_eq_one {p digits a e : ℕ} (hp : 1 < p) (he : e < 2 ^ digits) :
    (a : ZMod p) ^ e = 1 ↔ powMod p digits a e 1 = 1 := by
  rw [powMod_eq p he, one_mul, ← Nat.cast_pow, ← Nat.cast_one, ZMod.natCast_eq_natCast_iff',
    Nat.mod_eq_of_lt hp]

theorem prime_of_passes {p : ℕ} (digits a : ℕ) (factors : List ℕ) (hprime : ∀ q ∈ factors, q.Prime)
    (h : passes p digits a factors = true) : p.Prime := by
  simp only [passes, decide_eq_true_eq] at h
  obtain ⟨hp, hdigits, hprod, hone, hne⟩ := h
  have hlt : ∀ e ≤ p - 1, e < 2 ^ digits := by
    intro e he
    omega
  apply lucas_primality p (a : ZMod p)
  · exact (cast_pow_eq_one hp (hlt _ le_rfl)).mpr hone
  · intro q hq hdvd hpow
    have hmem : q ∈ factors := by
      rw [← hprod] at hdvd
      exact mem_list_primes_of_dvd_prod hq.prime (fun r hr ↦ (hprime r hr).prime) hdvd
    exact hne q hmem ((cast_pow_eq_one hp (hlt _ (Nat.div_le_self _ _))).mp hpow)

end SauronId.Lib.Lucas
