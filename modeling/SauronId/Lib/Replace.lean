import Mathlib.Algebra.BigOperators.Group.List.Basic
import Mathlib.Algebra.GroupWithZero.Nat
import Mathlib.Algebra.Order.Group.Nat
import Mathlib.Data.List.Infix

namespace SauronId.Lib

/-! Search and replace in a text. Letters are compared by a key, so that the search may ignore
their case. -/

def Begins {α β : Type} (key : α → β) (n : List β) (t : List α) : Prop := n <+: t.map key

def Contains {α β : Type} (key : α → β) (n : List β) (t : List α) : Prop := n <:+: t.map key

/-- Every nonempty suffix of `x` differs from `n` before either of them ends. A needle `n` does not
begin within `x` then, whatever follows. -/
def Apart {β : Type} (n x : List β) : Prop := ∀ y ∈ x.tails, y ≠ [] → ¬ y <+: n ∧ ¬ n <+: y

section Search

variable {α β : Type} {key : α → β} {n m x : List β} {s t z : List α} {a : α} {b : β}

instance [DecidableEq β] : Decidable (Begins key n t) := inferInstanceAs (Decidable (_ <+: _))

instance [DecidableEq β] : Decidable (Contains key n t) := inferInstanceAs (Decidable (_ <:+: _))

instance [DecidableEq β] : Decidable (Apart n x) := inferInstanceAs (Decidable (∀ y ∈ _, _))

@[simp] theorem begins_nil : Begins key [] t := List.nil_prefix

@[simp] theorem begins_cons : Begins key (b :: n) (a :: t) ↔ b = key a ∧ Begins key n t :=
  List.cons_prefix_cons

theorem begins_append (h : s.map key = n) : Begins key n (s ++ t) := by
  rw [Begins, List.map_append, h]
  exact List.prefix_append _ _

theorem Begins.exists_append (h : Begins key n t) : ∃ s u, s.map key = n ∧ t = s ++ u := by
  obtain ⟨v, hv⟩ := h
  obtain ⟨s, u, rfl, hs, -⟩ := List.map_eq_append_iff.mp hv.symm
  exact ⟨s, u, hs, rfl⟩

theorem contains_cons : Contains key n (a :: t) ↔ Begins key n (a :: t) ∨ Contains key n t := by
  rw [Contains, List.map_cons, List.infix_cons_iff]
  rfl

theorem Apart.tail (h : Apart n (b :: x)) : Apart n x := by
  intro y hy
  exact h y (by simp_all)

theorem Apart.not_begins (h : Apart n x) (hx : x ≠ []) (hs : s.map key = x) :
    ¬ Begins key n (s ++ t) := by
  intro hb
  obtain ⟨hxn, hnx⟩ := h x (by simp) hx
  rw [Begins, List.map_append, hs] at hb
  rcases List.prefix_or_prefix_of_prefix hb (List.prefix_append x _) with hp | hp
  · exact hnx hp
  · exact hxn hp

theorem Apart.contains (h : Apart n (s.map key)) :
    Contains key n (s ++ t) ↔ Contains key n t := by
  induction s with
  | nil => rfl
  | cons a s ih =>
    have hfirst : ¬ Begins key n (a :: (s ++ t)) := h.not_begins (s := a :: s) (by simp) rfl
    rw [List.cons_append, contains_cons, or_iff_right hfirst, ih h.tail]

theorem begins_append_iff (h : ∀ m, m <:+ n → m ≠ [] → ¬ Begins key m z) :
    Begins key n (t ++ z) ↔ Begins key n t := by
  constructor
  · intro hb
    rw [Begins, List.map_append] at hb
    rcases List.prefix_or_prefix_of_prefix hb (List.prefix_append _ _) with hp | ⟨m, rfl⟩
    · exact hp
    · by_cases hnil : m = []
      · rw [hnil, List.append_nil]
        exact List.prefix_rfl
      · rw [List.prefix_append_right_inj] at hb
        exact absurd hb (h m (List.suffix_append _ m) hnil)
  · intro hb
    rw [Begins, List.map_append]
    exact hb.trans (List.prefix_append _ _)

theorem apart_of_not_mem (h : b ∉ x) : Apart (b :: n) x := by
  intro y hy hne
  cases y with
  | nil => exact absurd rfl hne
  | cons c y =>
    have hc : c ∈ x := ((List.mem_tails _ _).mp hy).subset List.mem_cons_self
    simp only [List.cons_prefix_cons]
    refine ⟨fun hp ↦ h (hp.1 ▸ hc), fun hp ↦ h (hp.1 ▸ hc)⟩

/-- Two replacements that do not meet: neither needle begins within the other one or within the
other one's replacement, nor does the end of a needle. -/
structure Independent (key : α → β) (n n' : List β) (r r' : List α) : Prop where
  needle : Apart n n'
  needle' : Apart n' n
  text : Apart n (r'.map key)
  text' : Apart n' (r.map key)
  rest : Apart (r'.map key) n.tail
  rest' : Apart (r.map key) n'.tail

theorem Independent.symm {n' : List β} {r r' : List α} (h : Independent key n n' r r') : Independent key n' n r' r :=
  ⟨h.needle', h.needle, h.text', h.text, h.rest', h.rest⟩

end Search

section Replace

variable {α β : Type} [DecidableEq β] {key : α → β}

/-- Replaces from left to right. The next `skip` letters belong to an occurrence that has been
replaced. -/
def replaceFrom (key : α → β) (n : List β) (r : List α) : ℕ → List α → List α
  | _, [] => []
  | skip + 1, _ :: t => replaceFrom key n r skip t
  | 0, a :: t =>
    if Begins key n (a :: t) then r ++ replaceFrom key n r (n.length - 1) t
    else a :: replaceFrom key n r 0 t

def replace (key : α → β) (n : List β) (r t : List α) : List α := replaceFrom key n r 0 t

variable {n n' : List β} {r r' s t z : List α} {a : α}

theorem replaceFrom_eq_drop (k : ℕ) : replaceFrom key n r k t = replace key n r (t.drop k) := by
  induction t generalizing k with
  | nil => cases k <;> simp [replace, replaceFrom]
  | cons a t ih =>
    cases k with
    | zero => rfl
    | succ k => exact ih k

@[simp] theorem replace_nil : replace key n r [] = [] := rfl

theorem replace_keep (h : ¬ Begins key n (a :: t)) :
    replace key n r (a :: t) = a :: replace key n r t := by
  rw [replace, replaceFrom, if_neg h]
  rfl

theorem replace_hit (hn : n ≠ []) (h : s.map key = n) :
    replace key n r (s ++ t) = r ++ replace key n r t := by
  cases s with
  | nil => exact absurd h.symm hn
  | cons a s =>
    have hlength : n.length - 1 = s.length := by simp [← h]
    have hb : Begins key n (a :: (s ++ t)) := begins_append h
    rw [List.cons_append, replace, replaceFrom, if_pos hb, replaceFrom_eq_drop, hlength,
      List.drop_left]

theorem replace_induction (key : α → β) {n : List β} (hn : n ≠ []) {P : List α → Prop} (nil : P [])
    (hit : ∀ s t, s.map key = n → P t → P (s ++ t))
    (keep : ∀ a t, ¬ Begins key n (a :: t) → P t → P (a :: t)) (t : List α) : P t := by
  induction hk : t.length using Nat.strong_induction_on generalizing t with
  | _ k ih =>
    subst hk
    cases t with
    | nil => exact nil
    | cons a t =>
      by_cases hb : Begins key n (a :: t)
      · obtain ⟨s, u, hs, hsu⟩ := hb.exists_append
        have hpos : 0 < s.length := by
          rw [← List.length_map key, hs]
          exact List.length_pos_iff.mpr hn
        rw [hsu]
        refine hit s u hs (ih u.length ?_ u rfl)
        rw [hsu, List.length_append]
        omega
      · exact keep a t hb (ih t.length (by simp) t rfl)

theorem replace_append_left (h : Apart n (s.map key)) :
    replace key n r (s ++ t) = s ++ replace key n r t := by
  induction s with
  | nil => rfl
  | cons a s ih =>
    have hkeep : ¬ Begins key n (a :: (s ++ t)) := h.not_begins (s := a :: s) (by simp) rfl
    rw [List.cons_append, replace_keep hkeep, ih h.tail]
    rfl

theorem replace_of_not_contains (h : ¬ Contains key n t) : replace key n r t = t := by
  induction t with
  | nil => rfl
  | cons a t ih =>
    rw [contains_cons, not_or] at h
    rw [replace_keep h.1, ih h.2]

theorem replace_append_right (hn : n ≠ []) (hz : ∀ m, m <:+ n → m ≠ [] → ¬ Begins key m z) :
    replace key n r (t ++ z) = replace key n r t ++ replace key n r z := by
  induction t using replace_induction key hn with
  | nil => rfl
  | hit s t hs ih => rw [List.append_assoc, replace_hit hn hs, replace_hit hn hs, ih,
      List.append_assoc]
  | keep a t hk ih =>
    have hk' : ¬ Begins key n (a :: (t ++ z)) := fun hb ↦ hk ((begins_append_iff hz).mp hb)
    rw [List.cons_append, replace_keep hk', replace_keep hk, ih]
    rfl

theorem replace_append_of_last {b : β} (hb : n.getLast? = some b) (hz : b ∉ z.map key) :
    replace key n r (t ++ z) = replace key n r t ++ z := by
  obtain ⟨n₀, rfl⟩ := List.getLast?_eq_some_iff.mp hb
  have hlast {m : List β} (hm : m <:+ n₀ ++ [b]) (hne : m ≠ []) : b ∈ m := by
    obtain ⟨m₀, rfl, -⟩ := (List.suffix_concat_iff.mp hm).resolve_left hne
    simp
  have hkept : replace key (n₀ ++ [b]) r z = z := by
    apply replace_of_not_contains
    intro hc
    exact hz (hc.subset (by simp))
  have hright := replace_append_right (r := r) (t := t) (by simp : n₀ ++ [b] ≠ [])
    (fun m hm hne hbegins ↦ hz (hbegins.subset (hlast hm hne)))
  rw [hright, hkept]

/-- A reader that cannot tell the needle from its replacement reads the same text. -/
theorem foldl_replace {σ : Type} {step : σ → α → σ} (hn : n ≠ [])
    (h : ∀ s : List α, s.map key = n → ∀ q, s.foldl step q = r.foldl step q) (q : σ) (t : List α) :
    (replace key n r t).foldl step q = t.foldl step q := by
  induction t using replace_induction key hn generalizing q with
  | nil => rfl
  | hit s t hs ih => rw [replace_hit hn hs, List.foldl_append, List.foldl_append, h s hs, ih]
  | keep a t hk ih => rw [replace_keep hk, List.foldl_cons, List.foldl_cons, ih]

theorem begins_replace {m : List β} (hn : n ≠ []) (hneedle : Apart n m) (hr : Apart (r.map key) m) :
    Begins key m (replace key n r t) ↔ Begins key m t := by
  induction t using replace_induction key hn generalizing m with
  | nil => rfl
  | hit s t hs ih =>
    cases m with
    | nil => simp
    | cons b m =>
      have hmeets {u v : List α} (hu : Apart (u.map key) (b :: m)) :
          ¬ Begins key (b :: m) (u ++ v) := by
        obtain ⟨hl, hr⟩ := hu (b :: m) (by simp) (by simp)
        intro hb
        rw [Begins, List.map_append] at hb
        rcases List.prefix_or_prefix_of_prefix hb (List.prefix_append _ _) with hp | hp
        · exact hl hp
        · exact hr hp
      rw [replace_hit hn hs]
      exact iff_of_false (hmeets hr) (hmeets (hs.symm ▸ hneedle))
  | keep a t hk ih =>
    rw [replace_keep hk]
    cases m with
    | nil => simp
    | cons b m => rw [begins_cons, begins_cons, ih hneedle.tail hr.tail]

theorem Independent.keep (h : Independent key n n' r r') (hn' : n' ≠ [])
    (hk : ¬ Begins key n (a :: t)) : ¬ Begins key n (a :: replace key n' r' t) := by
  cases n with
  | nil => exact absurd begins_nil hk
  | cons b n =>
    rw [begins_cons] at hk ⊢
    rwa [begins_replace hn' h.needle'.tail h.rest]

theorem Independent.comm_hit (h : Independent key n n' r r') (hn : n ≠ []) (hs : s.map key = n)
    (ih : replace key n r (replace key n' r' t) = replace key n' r' (replace key n r t)) :
    replace key n r (replace key n' r' (s ++ t)) =
      replace key n' r' (replace key n r (s ++ t)) := by
  rw [replace_append_left (hs.symm ▸ h.needle'), replace_hit hn hs, replace_hit hn hs,
    replace_append_left h.text', ih]

/-- Independent replacements may be made in either order. -/
theorem Independent.replace_comm (h : Independent key n n' r r') (hn : n ≠ []) (hn' : n' ≠ []) :
    replace key n r (replace key n' r' t) = replace key n' r' (replace key n r t) := by
  induction hk : t.length using Nat.strong_induction_on generalizing t with
  | _ k ih =>
    subst hk
    have hshorter {s u : List α} {m : List β} (hm : m ≠ []) (hs : s.map key = m)
        (hsu : t = s ++ u) : u.length < t.length := by
      have hpos : 0 < s.length := by
        rw [← List.length_map key, hs]
        exact List.length_pos_iff.mpr hm
      rw [hsu, List.length_append]
      omega
    by_cases hb : Begins key n t
    · obtain ⟨s, u, hs, hsu⟩ := hb.exists_append
      rw [hsu]
      exact h.comm_hit hn hs (ih _ (hshorter hn hs hsu) rfl)
    by_cases hb' : Begins key n' t
    · obtain ⟨s, u, hs, hsu⟩ := hb'.exists_append
      rw [hsu]
      exact (h.symm.comm_hit hn' hs (ih _ (hshorter hn' hs hsu) rfl).symm).symm
    cases t with
    | nil => rfl
    | cons a t =>
      rw [replace_keep hb', replace_keep hb, replace_keep (h.keep hn' hb),
        replace_keep (h.symm.keep hn hb'), ih t.length (by simp) rfl]

/-! A weight of texts that every replacement lowers tells whether one was made. -/

section Weight

variable {weight : β → ℕ}

theorem sum_replace_le (hn : n ≠ []) (h : ((r.map key).map weight).sum < (n.map weight).sum)
    (t : List α) :
    (((replace key n r t).map key).map weight).sum ≤ ((t.map key).map weight).sum := by
  induction t using replace_induction key hn with
  | nil => rfl
  | hit s t hs ih =>
    simp only [replace_hit hn hs, List.map_append, List.sum_append, hs]
    omega
  | keep a t hk ih =>
    simp only [replace_keep hk, List.map_cons, List.sum_cons]
    omega

theorem sum_replace_lt (hn : n ≠ []) (h : ((r.map key).map weight).sum < (n.map weight).sum)
    (hc : Contains key n t) :
    (((replace key n r t).map key).map weight).sum < ((t.map key).map weight).sum := by
  induction t with
  | nil => exact absurd (List.infix_nil.mp hc) hn
  | cons a t ih =>
    by_cases hb : Begins key n (a :: t)
    · obtain ⟨s, u, hs, hsu⟩ := hb.exists_append
      have hle := sum_replace_le hn h u
      simp only [hsu, replace_hit hn hs, List.map_append, List.sum_append, hs]
      omega
    · have hlt := ih ((contains_cons.mp hc).resolve_left hb)
      simp only [replace_keep hb, List.map_cons, List.sum_cons]
      omega

end Weight

end Replace

end SauronId.Lib
