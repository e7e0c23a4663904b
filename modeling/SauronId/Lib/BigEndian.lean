import Mathlib.Data.Nat.Digits.Lemmas
import Mathlib.Tactic.Ring

namespace SauronId.Lib.BigEndian

def toBytesBe (n : ℕ) : List UInt8 :=
  if n = 0 then [0] else ((Nat.digits 256 n).map UInt8.ofNat).reverse

def fromBytesBe (bs : List UInt8) : ℕ := bs.foldl (fun acc b ↦ acc * 256 + b.toNat) 0

theorem fromBytesBe_reverse (bs : List UInt8) :
    fromBytesBe bs.reverse = Nat.ofDigits 256 (bs.map UInt8.toNat) := by
  rw [fromBytesBe, List.foldl_reverse, Nat.ofDigits_eq_foldr, List.foldr_map]
  congr 1
  funext b acc
  simp only [Nat.cast_id]
  omega

theorem map_toNat_ofNat {ds : List ℕ} (h : ∀ d ∈ ds, d < 256) :
    (ds.map UInt8.ofNat).map UInt8.toNat = ds := by
  rw [List.map_map]
  conv_rhs => rw [← List.map_id ds]
  apply List.map_congr_left
  intro d hd
  exact Nat.mod_eq_of_lt (h d hd)

@[simp] theorem fromBytesBe_toBytesBe (n : ℕ) : fromBytesBe (toBytesBe n) = n := by
  unfold toBytesBe
  split_ifs with hn
  · rw [hn]
    rfl
  · rw [fromBytesBe_reverse,
      map_toNat_ofNat (fun d hd ↦ Nat.digits_lt_base (by omega) hd), Nat.ofDigits_digits]

theorem toBytesBe_ne_nil (n : ℕ) : toBytesBe n ≠ [] := by
  unfold toBytesBe
  split_ifs with hn
  · simp
  · simpa [Nat.digits_ne_nil_iff_ne_zero] using hn

def be : ℕ → ℕ → List UInt8
  | 0, _ => []
  | width + 1, n => UInt8.ofNat (n / 256 ^ width) :: be width n

@[simp] theorem length_be (width n : ℕ) : (be width n).length = width := by
  induction width with
  | zero => rfl
  | succ width ih => rw [be, List.length_cons, ih]

theorem foldl_be (width n acc : ℕ) :
    (be width n).foldl (fun acc b ↦ acc * 256 + b.toNat) acc =
      acc * 256 ^ width + n % 256 ^ width := by
  induction width generalizing acc with
  | zero => simp [be, Nat.mod_one]
  | succ width ih =>
    have hbyte : (UInt8.ofNat (n / 256 ^ width)).toNat = n / 256 ^ width % 256 := rfl
    have hsplit : n % 256 ^ (width + 1) =
        n % 256 ^ width + 256 ^ width * (n / 256 ^ width % 256) := by
      rw [pow_succ, Nat.mod_mul]
    rw [be, List.foldl_cons, ih, hbyte, hsplit, pow_succ]
    ring

theorem fromBytesBe_be {width n : ℕ} (h : n < 256 ^ width) : fromBytesBe (be width n) = n := by
  rw [fromBytesBe, foldl_be, Nat.zero_mul, Nat.zero_add, Nat.mod_eq_of_lt h]

end SauronId.Lib.BigEndian
