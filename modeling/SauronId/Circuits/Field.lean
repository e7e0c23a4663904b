import Mathlib.Tactic.NormNum.Prime
import SauronId.Lib.Lucas

namespace SauronId.Circuits

open Lib.Lucas

def scalarModulus : ℕ :=
  21888242871839275222246405745257275088548364400416034343698204186575808495617

/-! ### The order is prime

In each list of factors the ones that are certified above stand first. -/

theorem prime_639533339 : Nat.Prime 639533339 := by
  apply prime_of_passes 30 2 [2, 229, 853, 1637]
  · norm_num
  · decide +kernel

theorem prime_65865678001877903 : Nat.Prime 65865678001877903 := by
  apply prime_of_passes 56 5 [639533339, 2, 83, 379, 1637]
  · exact List.forall_mem_cons.mpr ⟨prime_639533339, by norm_num⟩
  · decide +kernel

theorem prime_13818364434197438864469338081 : Nat.Prime 13818364434197438864469338081 := by
  apply prime_of_passes 94 3 [65865678001877903, 2, 2, 2, 2, 2, 5, 823, 1593227]
  · exact List.forall_mem_cons.mpr ⟨prime_65865678001877903, by norm_num⟩
  · decide +kernel

theorem prime_12048837557 : Nat.Prime 12048837557 := by
  apply prime_of_passes 34 2 [2, 2, 7, 7, 661, 93001]
  · norm_num
  · decide +kernel

theorem prime_5156902474397 : Nat.Prime 5156902474397 := by
  apply prime_of_passes 43 2 [12048837557, 2, 2, 107]
  · exact List.forall_mem_cons.mpr ⟨prime_12048837557, by norm_num⟩
  · decide +kernel

theorem prime_1670836401704629 : Nat.Prime 1670836401704629 := by
  apply prime_of_passes 51 2 [5156902474397, 2, 2, 3, 3, 3, 3]
  · exact List.forall_mem_cons.mpr ⟨prime_5156902474397, by norm_num⟩
  · decide +kernel

theorem prime_405928799 : Nat.Prime 405928799 := by
  apply prime_of_passes 29 22 [2, 11, 3691, 4999]
  · norm_num
  · decide +kernel

theorem prime_scalarModulus : scalarModulus.Prime := by
  apply prime_of_passes 254 5 ([13818364434197438864469338081, 1670836401704629, 405928799, 3, 3,
    13, 29, 983, 11003, 237073] ++ List.replicate 28 2)
  · refine List.forall_mem_append.mpr ⟨?_, ?_⟩
    · exact List.forall_mem_cons.mpr ⟨prime_13818364434197438864469338081, List.forall_mem_cons.mpr
        ⟨prime_1670836401704629, List.forall_mem_cons.mpr ⟨prime_405928799, by norm_num⟩⟩⟩
    · intro q hq
      rw [List.eq_of_mem_replicate hq]
      exact Nat.prime_two
  · decide +kernel

instance : Fact scalarModulus.Prime := ⟨prime_scalarModulus⟩

abbrev Fr := ZMod scalarModulus

theorem two_pow_le_scalarModulus {n : ℕ} (hn : n ≤ 253) : 2 ^ n ≤ scalarModulus :=
  (Nat.pow_le_pow_right Nat.two_pos hn).trans (by decide)

/-! The comparisons of 32-bit and 64-bit values stay below the modulus. -/

theorem two_pow_33_le : 2 ^ (32 + 1) ≤ scalarModulus := two_pow_le_scalarModulus (by decide)

theorem two_pow_64_le : 2 ^ 64 ≤ scalarModulus := two_pow_le_scalarModulus (by decide)

theorem two_pow_65_le : 2 ^ (64 + 1) ≤ scalarModulus := two_pow_le_scalarModulus (by decide)

end SauronId.Circuits
