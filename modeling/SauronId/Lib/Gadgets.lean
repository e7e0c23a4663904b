import Mathlib.Algebra.BigOperators.Fin
import Mathlib.Algebra.Field.ZMod
import Mathlib.Data.Nat.Bitwise
import Mathlib.Tactic.Ring

namespace SauronId.Lib.Gadgets

/-! The templates of circomlib that circuits are put together from. A template is the conjunction
of its constraints, and its inner signals are existential. -/

variable {p : ℕ}

def digits (p n m : ℕ) : Fin n → ZMod p := fun i ↦ if m.testBit i then 1 else 0

def fromDigits {n : ℕ} (out : Fin n → ZMod p) : ℕ := Nat.ofBits (fun i ↦ decide (out i = 1))

structure Num2Bits (n : ℕ) (x : ZMod p) (out : Fin n → ZMod p) : Prop where
  binary : ∀ i, out i * (out i - 1) = 0
  sum : ∑ i, out i * 2 ^ (i : ℕ) = x

/-- A decomposition whose digits are not looked at only bounds its input. -/
def Fits (n : ℕ) (x : ZMod p) : Prop := ∃ out, Num2Bits n x out

structure IsZero (x out : ZMod p) : Prop where
  assigned : ∃ inv, out = -x * inv + 1
  cancels : x * out = 0

def IsEqual (a b out : ZMod p) : Prop := IsZero (b - a) out

def LessThan (n : ℕ) (a b out : ZMod p) : Prop :=
  ∃ bits : Fin (n + 1) → ZMod p, Num2Bits (n + 1) (a + 2 ^ n - b) bits ∧
    out = 1 - bits (Fin.last n)

def LessEqThan (n : ℕ) (a b out : ZMod p) : Prop := LessThan n a (b + 1) out

def GreaterEqThan (n : ℕ) (a b out : ZMod p) : Prop := LessThan n b (a + 1) out

structure Swap (a b s left right : ZMod p) : Prop where
  left : left = (b - a) * s + a
  right : right = (a - b) * s + b

def RunningSum {n : ℕ} (terms : Fin n → ZMod p) (total : ZMod p) : Prop :=
  ∃ sums : Fin (n + 1) → ZMod p, sums 0 = 0 ∧ (∀ k, sums k.succ = sums k.castSucc + terms k) ∧
    total = sums (Fin.last n)

/-! ### Sums -/

variable {n : ℕ}

theorem runningSum_iff {terms : Fin n → ZMod p} {total : ZMod p} :
    RunningSum terms total ↔ total = ∑ k, terms k := by
  constructor
  · rintro ⟨sums, hzero, hstep, rfl⟩
    induction n with
    | zero => simpa using hzero
    | succ n ih =>
      have hinit : sums (Fin.last n).castSucc = ∑ k : Fin n, terms k.castSucc :=
        ih (sums ∘ Fin.castSucc) hzero (fun k ↦ hstep k.castSucc)
      rw [Fin.sum_univ_castSucc, ← hinit]
      exact hstep (Fin.last n)
  · rintro rfl
    refine ⟨fun k ↦ ∑ i : Fin k, terms (i.castLE (Nat.lt_succ_iff.mp k.isLt)),
      Fin.sum_univ_zero _, ?_, rfl⟩
    intro k
    exact Fin.sum_univ_castSucc (fun i : Fin (k + 1) ↦ terms (i.castLE _))

theorem val_sum [NeZero p] {terms : Fin n → ZMod p} (h : ∑ k, (terms k).val < p) :
    (∑ k, terms k).val = ∑ k, (terms k).val := by
  have hcast : ((∑ k, (terms k).val : ℕ) : ZMod p) = ∑ k, terms k := by
    rw [Nat.cast_sum]
    exact Finset.sum_congr rfl (fun k _ ↦ ZMod.natCast_zmod_val (terms k))
  rw [← hcast, ZMod.val_cast_of_lt h]

/-! ### Digits -/

theorem cast_ofBits (f : Fin n → Bool) :
    ((Nat.ofBits f : ℕ) : ZMod p) = ∑ i, (if f i then 1 else 0) * 2 ^ (i : ℕ) := by
  induction n with
  | zero => simp
  | succ n ih =>
    rw [Nat.ofBits_succ, Fin.sum_univ_succ]
    push_cast
    rw [ih, Finset.mul_sum]
    have htail : ∑ i, 2 * ((if (f ∘ Fin.succ) i then 1 else 0) * 2 ^ (i : ℕ) : ZMod p) =
        ∑ i : Fin n, (if f i.succ then 1 else 0) * 2 ^ ((i.succ : Fin (n + 1)) : ℕ) := by
      refine Finset.sum_congr rfl (fun i _ ↦ ?_)
      rw [Fin.val_succ, pow_succ, Function.comp_apply]
      ring
    rw [htail, add_comm]
    cases f 0 <;> simp

theorem sum_digits {n m : ℕ} (hm : m < 2 ^ n) :
    ∑ i, digits p n m i * 2 ^ (i : ℕ) = (m : ZMod p) := by
  have hcast := cast_ofBits (p := p) (fun i : Fin n ↦ m.testBit i)
  rw [Nat.ofBits_testBit, Nat.mod_eq_of_lt hm] at hcast
  exact hcast.symm

theorem fromDigits_lt (out : Fin n → ZMod p) : fromDigits out < 2 ^ n :=
  Nat.ofBits_lt_two_pow _

section Field

variable [Fact p.Prime]

theorem binary_iff {b : ZMod p} : b * (b - 1) = 0 ↔ b = 0 ∨ b = 1 := by
  rw [mul_eq_zero, sub_eq_zero]

theorem binary_iff' {b : ZMod p} : b * (1 - b) = 0 ↔ b = 0 ∨ b = 1 := by
  rw [mul_eq_zero, sub_eq_zero, eq_comm (a := 1)]

theorem digits_binary (n m : ℕ) (i : Fin n) : digits p n m i = 0 ∨ digits p n m i = 1 := by
  unfold digits
  split
  · exact .inr rfl
  · exact .inl rfl

variable {n : ℕ}

theorem digits_fromDigits {out : Fin n → ZMod p} (h : ∀ i, out i = 0 ∨ out i = 1) :
    digits p n (fromDigits out) = out := by
  funext i
  rw [digits, fromDigits, Nat.testBit_ofBits_lt _ _ i.isLt]
  rcases h i with hi | hi
  · simp [hi]
  · simp [hi]

theorem fromDigits_digits {n m : ℕ} (hm : m < 2 ^ n) : fromDigits (digits p n m) = m := by
  have hbits : (fun i : Fin n ↦ decide (digits p n m i = 1)) = fun i : Fin n ↦ m.testBit i := by
    funext i
    rw [digits]
    cases m.testBit i <;> simp
  rw [fromDigits, hbits, Nat.ofBits_testBit, Nat.mod_eq_of_lt hm]

variable {x : ZMod p}

theorem num2Bits_iff {out : Fin n → ZMod p} :
    Num2Bits n x out ↔ ∃ m : ℕ, m < 2 ^ n ∧ (m : ZMod p) = x ∧ out = digits p n m := by
  constructor
  · rintro ⟨hbinary, hsum⟩
    have hout := digits_fromDigits (fun i ↦ binary_iff.mp (hbinary i))
    refine ⟨fromDigits out, fromDigits_lt out, ?_, hout.symm⟩
    rw [← sum_digits (fromDigits_lt out), hout, hsum]
  · rintro ⟨m, hm, rfl, rfl⟩
    exact ⟨fun i ↦ binary_iff.mpr (digits_binary n m i), sum_digits hm⟩

theorem num2Bits_iff_val (hn : 2 ^ n ≤ p) {out : Fin n → ZMod p} :
    Num2Bits n x out ↔ x.val < 2 ^ n ∧ out = digits p n x.val := by
  rw [num2Bits_iff]
  constructor
  · rintro ⟨m, hm, rfl, rfl⟩
    rw [ZMod.val_cast_of_lt (hm.trans_le hn)]
    exact ⟨hm, rfl⟩
  · rintro ⟨hx, rfl⟩
    exact ⟨x.val, hx, ZMod.natCast_zmod_val x, rfl⟩

theorem fits_iff (hn : 2 ^ n ≤ p) : Fits n x ↔ x.val < 2 ^ n := by
  simp only [Fits, num2Bits_iff_val hn, exists_and_left, exists_eq, and_true]

/-! ### Comparisons -/

theorem isZero_iff {x out : ZMod p} : IsZero x out ↔ out = if x = 0 then 1 else 0 := by
  constructor
  · rintro ⟨⟨inv, hassigned⟩, hcancels⟩
    split_ifs with hx
    · rw [hassigned, hx]
      ring
    · exact (mul_eq_zero.mp hcancels).resolve_left hx
  · rintro rfl
    split_ifs with hx
    · exact ⟨⟨0, by ring⟩, by rw [hx, zero_mul]⟩
    · exact ⟨⟨x⁻¹, by rw [neg_mul, mul_inv_cancel₀ hx]; ring⟩, mul_zero x⟩

theorem isEqual_iff {a b out : ZMod p} : IsEqual a b out ↔ out = if a = b then 1 else 0 := by
  simp only [IsEqual, isZero_iff, sub_eq_zero, eq_comm (a := b)]

theorem isEqual_one {a b : ZMod p} : IsEqual a b 1 ↔ a = b := by
  rw [isEqual_iff]
  split_ifs with h
  · exact iff_of_true rfl h
  · exact iff_of_false one_ne_zero h

theorem digits_last {n m : ℕ} (hm : m < 2 ^ (n + 1)) :
    digits p (n + 1) m (Fin.last n) = if 2 ^ n ≤ m then 1 else 0 := by
  have hbit : m.testBit n = decide (2 ^ n ≤ m) := by
    rw [Nat.testBit_eq_decide_div_mod_eq, decide_eq_decide]
    have hlt : m / 2 ^ n < 2 := by
      rw [Nat.div_lt_iff_lt_mul (Nat.two_pow_pos n), ← pow_succ']
      exact hm
    rw [Nat.mod_eq_of_lt hlt, ← Nat.one_le_div_iff (Nat.two_pow_pos n)]
    omega
  rw [digits, Fin.val_last, hbit]
  simp only [decide_eq_true_eq]

variable {out : ZMod p}

theorem lessThan_iff {n a b : ℕ} (hn : 2 ^ (n + 1) ≤ p) (ha : a < 2 ^ n) (hb : b ≤ 2 ^ n) :
    LessThan n (a : ZMod p) (b : ZMod p) out ↔ out = if a < b then 1 else 0 := by
  have hdiff : (a : ZMod p) + 2 ^ n - b = ((a + 2 ^ n - b : ℕ) : ZMod p) := by
    rw [Nat.cast_sub (by omega)]
    push_cast
    ring
  have hlt : a + 2 ^ n - b < 2 ^ (n + 1) := by
    rw [pow_succ]
    omega
  have hout : (1 : ZMod p) - digits p (n + 1) (a + 2 ^ n - b) (Fin.last n) =
      if a < b then 1 else 0 := by
    rw [digits_last hlt]
    by_cases hab : a < b
    · rw [if_neg (by omega), if_pos hab, sub_zero]
    · rw [if_pos (by omega), if_neg hab, sub_self]
  simp only [LessThan, hdiff, num2Bits_iff_val hn, ZMod.val_cast_of_lt (hlt.trans_le hn)]
  constructor
  · rintro ⟨bits, ⟨-, rfl⟩, rfl⟩
    exact hout
  · rintro rfl
    exact ⟨_, ⟨hlt, rfl⟩, hout.symm⟩

variable {n : ℕ} {x y : ZMod p}

theorem lessThan_val (hn : 2 ^ (n + 1) ≤ p) (hx : x.val < 2 ^ n) (hy : y.val < 2 ^ n) :
    LessThan n x y out ↔ out = if x.val < y.val then 1 else 0 := by
  have h : LessThan n ((x.val : ℕ) : ZMod p) ((y.val : ℕ) : ZMod p) out ↔ _ :=
    lessThan_iff hn hx hy.le
  rwa [ZMod.natCast_zmod_val, ZMod.natCast_zmod_val] at h

theorem lessThan_succ_val (hn : 2 ^ (n + 1) ≤ p) (hx : x.val < 2 ^ n) (hy : y.val < 2 ^ n) :
    LessThan n x (y + 1) out ↔ out = if x.val ≤ y.val then 1 else 0 := by
  have h : LessThan n ((x.val : ℕ) : ZMod p) ((y.val + 1 : ℕ) : ZMod p) out ↔ _ :=
    lessThan_iff hn hx hy
  push_cast at h
  simpa only [ZMod.natCast_zmod_val, Nat.lt_succ_iff] using h

theorem lessThan_one (hn : 2 ^ (n + 1) ≤ p) (hx : x.val < 2 ^ n) (hy : y.val < 2 ^ n) :
    LessThan n x y 1 ↔ x.val < y.val := by
  rw [lessThan_val hn hx hy]
  split_ifs with h
  · exact iff_of_true rfl h
  · exact iff_of_false one_ne_zero h

theorem lessEqThan_one (hn : 2 ^ (n + 1) ≤ p) (hx : x.val < 2 ^ n) (hy : y.val < 2 ^ n) :
    LessEqThan n x y 1 ↔ x.val ≤ y.val := by
  rw [LessEqThan, lessThan_succ_val hn hx hy]
  split_ifs with h
  · exact iff_of_true rfl h
  · exact iff_of_false one_ne_zero h

theorem greaterEqThan_iff (hn : 2 ^ (n + 1) ≤ p) (hx : x.val < 2 ^ n) (hy : y.val < 2 ^ n) :
    GreaterEqThan n x y out ↔ out = if y.val ≤ x.val then 1 else 0 :=
  lessThan_succ_val hn hy hx

theorem greaterEqThan_one (hn : 2 ^ (n + 1) ≤ p) (hx : x.val < 2 ^ n) (hy : y.val < 2 ^ n) :
    GreaterEqThan n x y 1 ↔ y.val ≤ x.val := lessEqThan_one hn hy hx

end Field

variable {a b left right : ZMod p}

theorem swap_zero : Swap a b 0 left right ↔ left = a ∧ right = b := by
  constructor
  · rintro ⟨rfl, rfl⟩
    constructor <;> ring
  · rintro ⟨rfl, rfl⟩
    constructor <;> ring

theorem swap_one : Swap a b 1 left right ↔ left = b ∧ right = a := by
  constructor
  · rintro ⟨rfl, rfl⟩
    constructor <;> ring
  · rintro ⟨rfl, rfl⟩
    constructor <;> ring

end SauronId.Lib.Gadgets
