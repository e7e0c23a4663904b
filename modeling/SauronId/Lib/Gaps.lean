import Mathlib.Order.Lattice

namespace SauronId.Lib

variable {α : Type}

def adjacent : List α → List (α × α)
  | a :: b :: rest => (a, b) :: adjacent (b :: rest)
  | _ => []

theorem mem_of_adjacent {l : List α} {q : α × α} (hq : q ∈ adjacent l) : q.1 ∈ l ∧ q.2 ∈ l := by
  fun_induction adjacent l with
  | case1 a b rest ih =>
    rcases List.mem_cons.mp hq with rfl | hq
    · simp
    · exact ⟨List.mem_cons_of_mem _ (ih hq).1, List.mem_cons_of_mem _ (ih hq).2⟩
  | case2 => cases hq

variable [LinearOrder α] {l : List α} {a x : α}

theorem not_mem_of_adjacent (hl : l.Pairwise (· < ·)) {q : α × α} (hq : q ∈ adjacent l)
    (hlo : q.1 < x) (hhi : x < q.2) : x ∉ l := by
  fun_induction adjacent l with
  | case1 a b rest ih =>
    obtain ⟨ha, hrest⟩ := List.pairwise_cons.mp hl
    have hb := (List.pairwise_cons.mp hrest).1
    intro hx
    rcases List.mem_cons.mp hq with rfl | hlater
    · -- the elements after the upper neighbour are above it
      rcases List.mem_cons.mp hx with rfl | hx
      · exact lt_irrefl x hlo
      · rcases List.mem_cons.mp hx with rfl | hx
        · exact lt_irrefl x hhi
        · exact lt_asymm hhi (hb x hx)
    · rcases List.mem_cons.mp hx with rfl | hx
      · exact lt_asymm hlo (ha q.1 (mem_of_adjacent hlater).1)
      · exact ih hrest hlater hx
  | case2 => cases hq

theorem exists_adjacent (hlo : a < x) (hhi : ∃ b ∈ l, x < b) (hx : x ∉ l) :
    ∃ q ∈ adjacent (a :: l), q.1 < x ∧ x < q.2 := by
  induction l generalizing a with
  | nil =>
    obtain ⟨b, hb, -⟩ := hhi
    cases hb
  | cons b l ih =>
    rw [List.mem_cons, not_or] at hx
    by_cases hxb : x < b
    · exact ⟨(a, b), List.mem_cons_self, hlo, hxb⟩
    · have hbx : b < x := lt_of_le_of_ne (not_lt.mp hxb) (Ne.symm hx.1)
      obtain ⟨c, hc, hxc⟩ := hhi
      have hrest : ∃ c ∈ l, x < c := by
        rcases List.mem_cons.mp hc with rfl | hc
        · exact absurd hxc hxb
        · exact ⟨c, hc, hxc⟩
      obtain ⟨q, hq, hgap⟩ := ih hbx hrest hx.2
      exact ⟨q, List.mem_cons_of_mem _ hq, hgap⟩

theorem exists_adjacent_iff (hl : (a :: l).Pairwise (· < ·)) (hlo : a < x)
    (hhi : ∃ b ∈ l, x < b) : (∃ q ∈ adjacent (a :: l), q.1 < x ∧ x < q.2) ↔ x ∉ l := by
  constructor
  · rintro ⟨q, hq, hgap⟩ hx
    exact not_mem_of_adjacent hl hq hgap.1 hgap.2 (List.mem_cons_of_mem _ hx)
  · exact exists_adjacent hlo hhi

end SauronId.Lib
