import Mathlib.Data.List.Induction
import Mathlib.Tactic.Linarith

namespace SauronId.Lib.HashChain

/-- How a chained record is read: its position, the hash it stores of the
record before it, and its own hash, which is undefined for a record that cannot
be encoded. -/
structure Links (ρ η : Type) where
  seq : ρ → ℤ
  prev : ρ → η
  hash : ρ → Option η

namespace Links

variable {ρ η γ : Type} (L : Links ρ η)

/-- The records follow one another without a gap from position `n`, the first
one storing `p` and each later one the hash of the record before it. -/
def Linked : ℤ → η → List ρ → Prop
  | _, _, [] => True
  | n, p, r :: rs => L.seq r = n ∧ L.prev r = p ∧ ∃ h, L.hash r = some h ∧ Linked (n + 1) h rs

def tip (p : η) (rs : List ρ) : Option η := (rs.getLast?.map L.hash).getD (some p)

variable {L} {n : ℤ} {p : η} {r : ρ} {rs : List ρ}

@[simp] theorem tip_nil : L.tip p [] = some p := rfl

@[simp] theorem tip_concat : L.tip p (rs ++ [r]) = L.hash r := by simp [tip]

theorem tip_cons {h : η} (hr : L.hash r = some h) : L.tip p (r :: rs) = L.tip h rs := by
  cases rs using List.reverseRecOn with
  | nil => exact hr
  | append_singleton rs s => rw [← List.cons_append, tip_concat, tip_concat]

theorem linked_concat :
    L.Linked n p (rs ++ [r]) ↔
      L.Linked n p rs ∧ L.seq r = n + rs.length ∧ L.tip p rs = some (L.prev r) ∧
        (L.hash r).isSome := by
  induction rs generalizing n p with
  | nil => simp [Linked, Option.isSome_iff_exists, @eq_comm _ p]
  | cons s rs ih =>
    simp only [List.cons_append, Linked, ih, List.length_cons, Nat.cast_add, Nat.cast_one]
    constructor
    · rintro ⟨hs, hp, h, hh, hl, hr, ht, hi⟩
      exact ⟨⟨hs, hp, h, hh, hl⟩, by linarith, (tip_cons hh).trans ht, hi⟩
    · rintro ⟨⟨hs, hp, h, hh, hl⟩, hr, ht, hi⟩
      exact ⟨hs, hp, h, hh, hl, by linarith, (tip_cons hh).symm.trans ht, hi⟩

theorem Linked.le_seq (h : L.Linked n p rs) (hr : r ∈ rs) : n ≤ L.seq r := by
  induction rs generalizing n p with
  | nil => cases hr
  | cons s rs ih =>
    obtain ⟨hs, -, q, -, hl⟩ := h
    rcases List.mem_cons.mp hr with rfl | hr
    · exact hs.ge
    · linarith [ih hl hr]

theorem Linked.seq_lt (h : L.Linked n p rs) : rs.Pairwise (fun r s ↦ L.seq r < L.seq s) := by
  induction rs generalizing n p with
  | nil => exact .nil
  | cons s rs ih =>
    obtain ⟨hs, -, q, -, hl⟩ := h
    refine List.pairwise_cons.mpr ⟨fun r hr ↦ ?_, ih hl⟩
    linarith [hl.le_seq hr]

theorem Linked.prev_eq (h : L.Linked n p rs) (hr : r ∈ rs) :
    L.prev r = p ∨ ∃ s ∈ rs, L.hash s = some (L.prev r) := by
  induction rs generalizing n p with
  | nil => cases hr
  | cons s rs ih =>
    obtain ⟨-, hp, q, hq, hl⟩ := h
    rcases List.mem_cons.mp hr with rfl | hr
    · exact .inl hp
    · rcases ih hl hr with hfirst | ⟨t, ht, hhash⟩
      · exact .inr ⟨s, List.mem_cons_self, hfirst ▸ hq⟩
      · exact .inr ⟨t, List.mem_cons_of_mem s ht, hhash⟩

/-- A chain commits to its whole history: two chains of one length that start
at the same link and end in the same hash agree record by record on everything
the hash determines. -/
theorem Linked.agree {view : ρ → γ} {xs ys : List ρ}
    (hview : ∀ r ∈ xs, ∀ s ∈ ys, ∀ h, L.hash r = some h → L.hash s = some h → view r = view s)
    (hprev : ∀ r s, view r = view s → L.prev r = L.prev s)
    (hx : L.Linked n p xs) (hy : L.Linked n p ys)
    (hlen : xs.length = ys.length) (hlast : L.tip p xs = L.tip p ys) :
    xs.map view = ys.map view := by
  induction xs using List.reverseRecOn generalizing ys with
  | nil => rw [List.length_eq_zero_iff.mp hlen.symm]
  | append_singleton xs r ih =>
    cases ys using List.reverseRecOn with
    | nil => simp at hlen
    | append_singleton ys s =>
      obtain ⟨hxs, -, hxt, hxh⟩ := linked_concat.mp hx
      obtain ⟨hys, -, hyt, -⟩ := linked_concat.mp hy
      obtain ⟨h, hr⟩ := Option.isSome_iff_exists.mp hxh
      rw [tip_concat, tip_concat] at hlast
      have hrs : view r = view s :=
        hview r (List.mem_concat_self) s (List.mem_concat_self) h hr (hlast ▸ hr)
      have htip : L.tip p xs = L.tip p ys := by rw [hxt, hyt, hprev r s hrs]
      have hmap := ih (fun a ha b hb ↦ hview a (List.mem_append_left _ ha) b
        (List.mem_append_left _ hb)) hxs hys (by simpa using hlen) htip
      rw [List.map_append, List.map_append, hmap, List.map_singleton, List.map_singleton, hrs]

end Links

end SauronId.Lib.HashChain
