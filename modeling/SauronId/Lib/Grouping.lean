import Mathlib.Data.Finset.Card
import Mathlib.Order.Defs.LinearOrder

namespace SauronId.Lib.Grouping

variable {α γ κ : Type} [DecidableEq κ]

def keep (key : α → κ) (newer : α → α → Bool) (a : α) : List α → List α
  | [] => [a]
  | b :: l => if key b = key a then (if newer a b then a else b) :: l else b :: keep key newer a l

def modify [LinearOrder γ] (g : γ) (f : List α → List α) : List (γ × List α) → List (γ × List α)
  | [] => [(g, f [])]
  | (h, l) :: m =>
    if g < h then (g, f []) :: (h, l) :: m
    else if g = h then (h, f l) :: m
    else (h, l) :: modify g f m

section Keep

variable {key : α → κ} {newer : α → α → Bool} {a b : α} {l : List α}

theorem mem_keep (h : b ∈ keep key newer a l) : b = a ∨ b ∈ l := by
  induction l with
  | nil => exact .inl (List.mem_singleton.mp h)
  | cons c l ih =>
    rw [keep] at h
    split_ifs at h with hk hn
    · rcases List.mem_cons.mp h with rfl | h
      · exact .inl rfl
      · exact .inr (List.mem_cons_of_mem c h)
    · exact .inr h
    · rcases List.mem_cons.mp h with rfl | h
      · exact .inr List.mem_cons_self
      · exact (ih h).imp_right (List.mem_cons_of_mem c)

theorem nodup_keep (h : (l.map key).Nodup) : ((keep key newer a l).map key).Nodup := by
  induction l with
  | nil => exact List.nodup_singleton _
  | cons c l ih =>
    obtain ⟨hc, hl⟩ := List.nodup_cons.mp h
    rw [keep]
    split_ifs with hk hn
    · exact List.nodup_cons.mpr ⟨hk ▸ hc, hl⟩
    · exact h
    · refine List.nodup_cons.mpr ⟨fun hmem ↦ ?_, ih hl⟩
      obtain ⟨b, hb, hbc⟩ := List.mem_map.mp hmem
      rcases mem_keep hb with rfl | hb
      · exact hk hbc.symm
      · exact hc (hbc ▸ List.mem_map_of_mem hb)

theorem map_keep {f : α → α} (hkey : ∀ b, key (f b) = key b)
    (hnewer : ∀ b c, newer (f b) (f c) = newer b c) :
    (keep key newer a l).map f = keep key newer (f a) (l.map f) := by
  induction l with
  | nil => rfl
  | cons c l ih =>
    simp only [keep, List.map_cons, hkey, hnewer, ← ih]
    split_ifs <;> rfl

end Keep

variable [LinearOrder γ] {group : α → γ} {key : α → κ} {newer : α → α → Bool}

def groups (group : α → γ) (key : α → κ) (newer : α → α → Bool) (rows : List α) :
    List (γ × List α) :=
  rows.foldl (fun m a ↦ modify (group a) (keep key newer a) m) []

structure Grouped (group : α → γ) (key : α → κ) (rows : List α) (m : List (γ × List α)) : Prop where
  ascending : m.Pairwise (fun b c ↦ b.1 < c.1)
  distinct : ∀ b ∈ m, (b.2.map key).Nodup
  sound : ∀ b ∈ m, ∀ a ∈ b.2, a ∈ rows ∧ group a = b.1

section Modify

variable {g : γ} {f : List α → List α} {m : List (γ × List α)} {b : γ × List α}

theorem mem_modify (h : b ∈ modify g f m) :
    b ∈ m ∨ b = (g, f []) ∨ ∃ l, (g, l) ∈ m ∧ b = (g, f l) := by
  induction m with
  | nil => exact .inr (.inl (List.mem_singleton.mp h))
  | cons c m ih =>
    rw [modify] at h
    split_ifs at h with hlt heq
    · rcases List.mem_cons.mp h with rfl | h
      · exact .inr (.inl rfl)
      · exact .inl h
    · subst heq
      rcases List.mem_cons.mp h with rfl | h
      · exact .inr (.inr ⟨c.2, List.mem_cons_self, rfl⟩)
      · exact .inl (List.mem_cons_of_mem c h)
    · rcases List.mem_cons.mp h with rfl | h
      · exact .inl List.mem_cons_self
      · rcases ih h with h | h | ⟨l, hl, h⟩
        · exact .inl (List.mem_cons_of_mem c h)
        · exact .inr (.inl h)
        · exact .inr (.inr ⟨l, List.mem_cons_of_mem c hl, h⟩)

theorem ascending_modify (h : m.Pairwise (fun b c ↦ b.1 < c.1)) :
    (modify g f m).Pairwise (fun b c ↦ b.1 < c.1) := by
  induction m with
  | nil => exact List.pairwise_singleton _ _
  | cons c m ih =>
    obtain ⟨hc, hm⟩ := List.pairwise_cons.mp h
    rw [modify]
    split_ifs with hlt heq
    · refine List.pairwise_cons.mpr ⟨fun b hb ↦ ?_, h⟩
      rcases List.mem_cons.mp hb with rfl | hb
      · exact hlt
      · exact hlt.trans (hc b hb)
    · exact List.pairwise_cons.mpr ⟨hc, hm⟩
    · have hgt : c.1 < g := lt_of_le_of_ne (not_lt.mp hlt) (Ne.symm heq)
      refine List.pairwise_cons.mpr ⟨fun b hb ↦ ?_, ih hm⟩
      rcases mem_modify hb with hb | rfl | ⟨l, -, rfl⟩
      · exact hc b hb
      · exact hgt
      · exact hgt

theorem map_modify {f' : List α → List α} {t : γ × List α → γ × List α} (ht : ∀ b, (t b).1 = b.1)
    (hf : ∀ l, t (g, f l) = (g, f' (t (g, l)).2)) (hnil : (t (g, [])).2 = []) :
    (modify g f m).map t = modify g f' (m.map t) := by
  have hnew : t (g, f []) = (g, f' []) := by rw [hf, hnil]
  induction m with
  | nil => simp [modify, hnew]
  | cons c m ih =>
    have hc : t c = (c.1, (t c).2) := Prod.ext (ht c) rfl
    rw [List.map_cons, hc, modify, modify]
    split_ifs with hlt heq
    · rw [List.map_cons, List.map_cons, hnew, hc]
    · subst heq
      rw [List.map_cons, hf]
    · rw [List.map_cons, ih, hc]

end Modify

variable {rows : List α} {m : List (γ × List α)}

theorem Grouped.modify {a : α} (h : Grouped group key rows m) :
    Grouped group key (rows ++ [a]) (Grouping.modify (group a) (keep key newer a) m) := by
  have hmem : ∀ b, b ∈ rows → b ∈ rows ++ [a] := fun b hb ↦ List.mem_append_left _ hb
  have ha : a ∈ rows ++ [a] := List.mem_concat_self
  constructor
  · exact ascending_modify h.ascending
  · intro b hb
    rcases mem_modify hb with hb | rfl | ⟨l, hl, rfl⟩
    · exact h.distinct b hb
    · exact nodup_keep List.nodup_nil
    · exact nodup_keep (h.distinct _ hl)
  · intro b hb c hc
    rcases mem_modify hb with hb | rfl | ⟨l, hl, rfl⟩
    · exact (h.sound b hb c hc).imp_left (hmem c)
    · obtain rfl := List.mem_singleton.mp hc
      exact ⟨ha, rfl⟩
    · rcases mem_keep hc with rfl | hc
      · exact ⟨ha, rfl⟩
      · exact (h.sound _ hl c hc).imp_left (hmem c)

theorem grouped (rows : List α) : Grouped group key rows (groups group key newer rows) := by
  induction rows using List.reverseRecOn with
  | nil => exact ⟨.nil, fun b hb ↦ absurd hb List.not_mem_nil, fun b hb ↦ absurd hb List.not_mem_nil⟩
  | append_singleton rows a ih =>
    rw [groups, List.foldl_concat]
    exact ih.modify

theorem Grouped.length_le {b : γ × List α} (h : Grouped group key rows m) (hb : b ∈ m) :
    b.2.length ≤ (((rows.filter (fun a ↦ group a = b.1)).map key).toFinset).card := by
  have hsub : (b.2.map key).toFinset ⊆
      ((rows.filter (fun a ↦ group a = b.1)).map key).toFinset := by
    intro k hk
    obtain ⟨a, ha, rfl⟩ := List.mem_map.mp (List.mem_toFinset.mp hk)
    obtain ⟨hrow, hgroup⟩ := h.sound b hb a ha
    refine List.mem_toFinset.mpr (List.mem_map_of_mem (List.mem_filter.mpr ⟨hrow, ?_⟩))
    exact decide_eq_true hgroup
  have hcard := Finset.card_le_card hsub
  rwa [List.toFinset_card_of_nodup (h.distinct b hb), List.length_map] at hcard

theorem map_groups {f : α → α} {t : γ × List α → γ × List α} (hgroup : ∀ a, group (f a) = group a)
    (ht : ∀ b, (t b).1 = b.1)
    (hf : ∀ a l, t (group a, keep key newer a l) =
      (group a, keep key newer (f a) (t (group a, l)).2))
    (hnil : ∀ g, (t (g, [])).2 = []) :
    (groups group key newer rows).map t = groups group key newer (rows.map f) := by
  induction rows using List.reverseRecOn with
  | nil => rfl
  | append_singleton rows a ih =>
    simp only [groups, List.map_append, List.map_cons, List.map_nil, List.foldl_concat] at ih ⊢
    rw [map_modify ht (hf a) (hnil _), ih, hgroup]

end SauronId.Lib.Grouping
