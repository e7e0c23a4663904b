import Mathlib.Data.Nat.ModEq
import Mathlib.Logic.Function.Basic

namespace SauronId.Lib.Cycle

variable {γ : Type} {n : ℕ} (hn : 0 < n)

def wrap (i : ℕ) : Fin n := ⟨i % n, Nat.mod_lt i hn⟩

@[simp] theorem wrap_val (i : Fin n) : wrap hn i = i := Fin.ext (Nat.mod_eq_of_lt i.isLt)

@[simp] theorem wrap_wrap_add (i k : ℕ) : wrap hn ((wrap hn i : ℕ) + k) = wrap hn (i + k) :=
  Fin.ext (Nat.mod_add_mod i n k)

theorem wrap_add_ne {s a b : ℕ} (hab : a < b) (hb : b < a + n) :
    wrap hn (s + a) ≠ wrap hn (s + b) := by
  intro he
  have hmod : s + a ≡ s + b [MOD n] := Fin.mk.inj he
  have hdvd := (Nat.modEq_iff_dvd' (by omega)).mp hmod
  have hle := Nat.le_of_dvd (by omega) hdvd
  omega

theorem exists_offset {s i : Fin n} (hi : i ≠ s) :
    ∃ offset, 1 ≤ offset ∧ offset ≤ n - 1 ∧ wrap hn (s + offset) = i := by
  have hne : (i : ℕ) ≠ s := fun he ↦ hi (Fin.ext he)
  have hin := i.isLt
  have hsn := s.isLt
  rcases Nat.lt_or_ge s i with hlt | hge
  · refine ⟨i - s, by omega, by omega, ?_⟩
    rw [Nat.add_sub_of_le hlt.le, wrap_val]
  · refine ⟨i + n - s, by omega, by omega, Fin.ext ?_⟩
    rw [Nat.add_sub_of_le (by omega)]
    exact (Nat.add_mod_right _ _).trans (Nat.mod_eq_of_lt hin)

section Fill

variable (step : Fin n → γ → γ) (s : Fin n)

def advance (c : Fin n → γ) (offset : ℕ) : Fin n → γ :=
  Function.update c (wrap hn (s + offset + 1)) (step (wrap hn (s + offset)) (c (wrap hn (s + offset))))

/-- All entries but the first after `s`, once around. -/
def fill (c : Fin n → γ) : Fin n → γ := (List.range' 1 (n - 1)).foldl (advance hn step s) c

/-- The entries up to an offset are linked, and the first one is as before. -/
def Linked (c c' : Fin n → γ) (k : ℕ) : Prop :=
  c' (wrap hn (s + 1)) = c (wrap hn (s + 1)) ∧
    ∀ offset, 1 ≤ offset → offset ≤ k →
      c' (wrap hn (s + offset + 1)) = step (wrap hn (s + offset)) (c' (wrap hn (s + offset)))

variable {hn step s} {c c' : Fin n → γ}

theorem Linked.advance {k : ℕ} (h : Linked hn step s c c' k) (hk : k + 1 < n) :
    Linked hn step s c (Cycle.advance hn step s c' (k + 1)) (k + 1) := by
  -- the entry that is written is none of those already linked
  have hkeep : ∀ offset, 1 ≤ offset → offset ≤ k + 1 →
      Cycle.advance hn step s c' (k + 1) (wrap hn (s + offset)) = c' (wrap hn (s + offset)) := by
    intro offset hlo hhi
    exact Function.update_of_ne (wrap_add_ne hn (b := k + 1 + 1) (by omega) (by omega)) _ _
  refine ⟨(hkeep 1 le_rfl (by omega)).trans h.1, ?_⟩
  intro offset hlo hhi
  rw [hkeep offset hlo hhi]
  rcases Nat.lt_or_ge offset (k + 1) with hlt | hge
  · rw [Nat.add_assoc s, hkeep (offset + 1) (by omega) (by omega)]
    exact h.2 offset hlo (by omega)
  · obtain rfl : offset = k + 1 := by omega
    exact Function.update_self _ _ _

theorem linked_foldl {k : ℕ} (hk : k < n) :
    Linked hn step s c ((List.range' 1 k).foldl (Cycle.advance hn step s) c) k := by
  induction k with
  | zero => exact ⟨rfl, fun offset hlo hhi ↦ by omega⟩
  | succ k ih =>
    rw [List.range'_1_concat, List.foldl_append, List.foldl_cons, List.foldl_nil, Nat.add_comm 1 k]
    exact (ih (by omega)).advance hk

theorem fill_next {i : Fin n} (hi : i ≠ s) :
    fill hn step s c (wrap hn (i + 1)) = step i (fill hn step s c i) := by
  obtain ⟨offset, hlo, hhi, rfl⟩ := exists_offset hn hi
  rw [wrap_wrap_add]
  exact (linked_foldl (Nat.sub_one_lt hn.ne')).2 offset hlo hhi

theorem fill_first : fill hn step s c (wrap hn (s + 1)) = c (wrap hn (s + 1)) :=
  (linked_foldl (Nat.sub_one_lt hn.ne')).1

end Fill

theorem foldl_of_steps {β : Type} {g : γ → β → γ} {l : List β} {c : ℕ → γ}
    (h : ∀ (i : ℕ) (hi : i < l.length), c (i + 1) = g (c i) (l.get ⟨i, hi⟩)) :
    l.foldl g (c 0) = c l.length := by
  induction l generalizing c with
  | nil => rfl
  | cons b l ih =>
    rw [List.foldl_cons, List.length_cons]
    have hfirst : c 1 = g (c 0) b := h 0 (Nat.zero_lt_succ _)
    rw [← hfirst]
    exact ih (c := fun i ↦ c (i + 1)) (fun i hi ↦ h (i + 1) (Nat.succ_lt_succ hi))

end SauronId.Lib.Cycle
