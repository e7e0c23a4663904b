import SauronId.Lib.Encoding

namespace SauronId.Lib.Joined

open Lib.Encoding

theorem append_sep_inj {α : Type} [DecidableEq α] {sep : α} {xs ys us vs : List α}
    (hcount : xs.count sep = ys.count sep) (h : xs ++ sep :: us = ys ++ sep :: vs) :
    xs = ys ∧ us = vs := by
  induction xs generalizing ys with
  | nil =>
    cases ys with
    | nil => exact ⟨rfl, (List.cons.inj h).2⟩
    | cons y ys =>
      obtain ⟨rfl, -⟩ := List.cons.inj h
      simp at hcount
  | cons x xs ih =>
    cases ys with
    | nil =>
      obtain ⟨rfl, -⟩ := List.cons.inj h
      simp at hcount
    | cons y ys =>
      obtain ⟨rfl, ht⟩ := List.cons.inj h
      rw [List.count_cons, List.count_cons, Nat.add_right_cancel_iff] at hcount
      obtain ⟨rfl, hv⟩ := ih hcount ht
      exact ⟨rfl, hv⟩

theorem append_sep_inj_right {α : Type} [DecidableEq α] {sep : α} {xs ys us vs : List α}
    (hus : sep ∉ us) (hvs : sep ∉ vs) (h : xs ++ sep :: us = ys ++ sep :: vs) :
    xs = ys ∧ us = vs := by
  refine append_sep_inj ?_ h
  have hcount := congrArg (List.count sep) h
  rw [List.count_append, List.count_append, List.count_cons_self, List.count_cons_self,
    List.count_eq_zero.mpr hus, List.count_eq_zero.mpr hvs] at hcount
  omega

def occurrences (sep : Char) (s : String) : ℕ := s.toList.count sep

theorem mem_toString_int {n : ℤ} {c : Char} (h : c ∈ (toString n).toList) :
    c.isDigit = true ∨ c = '-' := by
  have hnat : ∀ m : ℕ, c ∈ (Nat.repr m).toList → c.isDigit = true := by
    intro m hm
    rw [Nat.repr, String.toList_ofList] at hm
    exact Nat.isDigit_of_mem_toDigits (b := 10) (n := m) (by decide) (by decide) hm
  cases n with
  | ofNat m => exact .inl (hnat m h)
  | negSucc m =>
    replace h : c ∈ ("-" ++ Nat.repr (m + 1)).toList := h
    rw [String.toList_append] at h
    rcases List.mem_append.mp h with h | h
    · exact .inr (List.mem_singleton.mp h)
    · exact .inl (hnat _ h)

theorem mem_hexEncode {bs : List UInt8} {c : Char} (h : c ∈ (hexEncode bs).toList) :
    ∃ d < 16, c = Nat.digitChar d := by
  rw [hexEncode, String.toList_ofList] at h
  obtain ⟨b, -, hc⟩ := List.mem_flatMap.mp h
  have hb := b.toNat_lt
  rcases List.mem_cons.mp hc with rfl | hc
  · exact ⟨_, by omega, rfl⟩
  · exact ⟨_, Nat.mod_lt _ (by decide), List.mem_singleton.mp hc⟩

end SauronId.Lib.Joined
