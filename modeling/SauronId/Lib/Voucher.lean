import Mathlib.Data.List.Perm.Subperm
import Mathlib.Data.List.Forall2
import Mathlib.Data.List.Nodup

namespace SauronId.Lib

variable {ι γ φ : Type}

/-- Vouchers were issued, some are still unused, others were each spent by one
caller, and each caller used at most one, for something that it backs. -/
structure Redeemed (backs : γ → φ → Prop) (issued unused : List γ) (spent : List (ι × γ))
    (used : List (ι × φ)) : Prop where
  drawn : (spent.map Prod.snd ++ unused).Subperm issued
  spenders : (spent.map Prod.fst).Nodup
  users : (used.map Prod.fst).Nodup
  backed : ∀ u ∈ used, ∃ g, (u.1, g) ∈ spent ∧ backs g u.2

namespace Redeemed

variable {backs : γ → φ → Prop} {issued unused unused' : List γ} {spent : List (ι × γ)}
  {used : List (ι × φ)} {i : ι} {g : γ} {f : φ}

theorem start (issued : List γ) : Redeemed backs issued issued ([] : List (ι × γ)) [] where
  drawn := List.Subperm.refl issued
  spenders := List.nodup_nil
  users := List.nodup_nil
  backed _ hu := absurd hu List.not_mem_nil

theorem issue (h : Redeemed backs issued unused spent used) (g : γ) :
    Redeemed backs (issued ++ [g]) (unused ++ [g]) spent used where
  drawn := by
    rw [← List.append_assoc]
    exact (List.subperm_append_right [g]).mpr h.drawn
  spenders := h.spenders
  users := h.users
  backed := h.backed

theorem lose (h : Redeemed backs issued unused spent used) (hs : unused'.Subperm unused) :
    Redeemed backs issued unused' spent used where
  drawn := ((List.subperm_append_left _).mpr hs).trans h.drawn
  spenders := h.spenders
  users := h.users
  backed := h.backed

theorem spend (h : Redeemed backs issued unused spent used) (hi : i ∉ spent.map Prod.fst)
    (hu : unused.Perm (g :: unused')) :
    Redeemed backs issued unused' (spent ++ [(i, g)]) used where
  drawn := by
    rw [List.map_append, List.map_singleton, List.append_assoc, List.singleton_append]
    exact (hu.symm.append_left _).subperm.trans h.drawn
  spenders := by
    rw [List.map_append, List.map_singleton]
    exact h.spenders.append (List.nodup_singleton i) (by simpa using hi)
  users := h.users
  backed u hu := by
    obtain ⟨g', hg', hb⟩ := h.backed u hu
    exact ⟨g', List.mem_append_left _ hg', hb⟩

theorem use (h : Redeemed backs issued unused spent used) (hi : i ∉ used.map Prod.fst)
    (hg : (i, g) ∈ spent) (hb : backs g f) :
    Redeemed backs issued unused spent (used ++ [(i, f)]) where
  drawn := h.drawn
  spenders := h.spenders
  users := by
    rw [List.map_append, List.map_singleton]
    exact h.users.append (List.nodup_singleton i) (by simpa using hi)
  backed u hu := by
    rcases List.mem_append.mp hu with hu | hu
    · exact h.backed u hu
    · obtain rfl := List.mem_singleton.mp hu
      exact ⟨g, hg, hb⟩

theorem exists_vouchers (h : ∀ u ∈ used, ∃ g, (u.1, g) ∈ spent ∧ backs g u.2) :
    ∃ ps : List (ι × γ), ps.map Prod.fst = used.map Prod.fst ∧ ps ⊆ spent ∧
      List.Forall₂ (fun f g ↦ backs g f) (used.map Prod.snd) (ps.map Prod.snd) := by
  induction used with
  | nil => exact ⟨[], rfl, List.nil_subset _, .nil⟩
  | cons u used ih =>
    obtain ⟨hu, hrest⟩ := List.forall_mem_cons.mp h
    obtain ⟨g, hg, hb⟩ := hu
    obtain ⟨ps, hfst, hsub, hall⟩ := ih hrest
    exact ⟨(u.1, g) :: ps, by rw [List.map_cons, List.map_cons, hfst],
      List.cons_subset.mpr ⟨hg, hsub⟩, .cons hb hall⟩

/-- Each use can be charged to a voucher of its own. -/
theorem exists_subperm (h : Redeemed backs issued unused spent used) :
    ∃ gs : List γ, gs.Subperm issued ∧
      List.Forall₂ (fun f g ↦ backs g f) (used.map Prod.snd) gs := by
  obtain ⟨ps, hfst, hsub, hall⟩ := exists_vouchers h.backed
  have hnodup : ps.Nodup := by
    have hids := h.users
    rw [← hfst] at hids
    exact hids.of_map Prod.fst
  have hspent : (ps.map Prod.snd).Subperm (spent.map Prod.snd) := by
    obtain ⟨qs, hperm, hsublist⟩ := List.subperm_of_subset hnodup hsub
    exact ⟨qs.map Prod.snd, hperm.map _, hsublist.map _⟩
  refine ⟨ps.map Prod.snd, hspent.trans (List.Subperm.trans ?_ h.drawn), hall⟩
  exact (List.sublist_append_left _ _).subperm

end Redeemed

section Redeeming

variable {κ : Type}

/-- How far a caller is: it has no voucher yet, it has spent one on a call, or it is done. -/
inductive Stage (κ : Type)
  | before
  | holding (call : κ)
  | finished

/-- Callers that spend vouchers, each for a call it is bound to, and use what they spent. -/
structure Redeeming (bound : κ → γ → Prop) (backs : γ → φ → Prop) (issued unused : List γ)
    (spent : List (ι × γ)) (used : List (ι × φ)) (stage : ι → Stage κ) : Prop where
  redeemed : Redeemed backs issued unused spent used
  spenders : ∀ s ∈ spent, stage s.1 ≠ .before
  users : ∀ u ∈ used, stage u.1 = .finished
  holding : ∀ i call, stage i = .holding call → ∃ g, (i, g) ∈ spent ∧ bound call g

namespace Redeeming

variable {bound : κ → γ → Prop} {backs : γ → φ → Prop} {issued unused unused' : List γ}
  {spent : List (ι × γ)} {used : List (ι × φ)} {stage : ι → Stage κ} {i : ι} {g : γ} {f : φ}
  {call : κ}

theorem start (issued : List γ) {stage : ι → Stage κ} (h : ∀ i, stage i = .before) :
    Redeeming bound backs issued issued [] [] stage where
  redeemed := .start issued
  spenders _ hs := absurd hs List.not_mem_nil
  users _ hu := absurd hu List.not_mem_nil
  holding i call hi := by
    rw [h i] at hi
    cases hi

theorem issue (h : Redeeming bound backs issued unused spent used stage) (g : γ) :
    Redeeming bound backs (issued ++ [g]) (unused ++ [g]) spent used stage :=
  ⟨h.redeemed.issue g, h.spenders, h.users, h.holding⟩

theorem lose (h : Redeeming bound backs issued unused spent used stage)
    (hs : unused'.Subperm unused) : Redeeming bound backs issued unused' spent used stage :=
  ⟨h.redeemed.lose hs, h.spenders, h.users, h.holding⟩

theorem not_spent (h : Redeeming bound backs issued unused spent used stage)
    (hi : stage i = .before) : i ∉ spent.map Prod.fst := by
  intro hmem
  obtain ⟨s, hs, rfl⟩ := List.mem_map.mp hmem
  exact h.spenders s hs hi

theorem not_used (h : Redeeming bound backs issued unused spent used stage)
    (hi : stage i ≠ .finished) : i ∉ used.map Prod.fst := by
  intro hmem
  obtain ⟨u, hu, rfl⟩ := List.mem_map.mp hmem
  exact hi (h.users u hu)

variable [DecidableEq ι]

theorem rest (h : Redeeming bound backs issued unused spent used stage) {x : Stage κ}
    (hbefore : x = .before → stage i = .before)
    (hholding : ∀ call, x = .holding call → stage i = .holding call)
    (hfinished : stage i = .finished → x = .finished) :
    Redeeming bound backs issued unused spent used (Function.update stage i x) where
  redeemed := h.redeemed
  spenders s hs := by
    by_cases hsi : s.1 = i
    · rw [hsi, Function.update_self]
      intro hx
      exact h.spenders s hs (hsi ▸ hbefore hx)
    · rw [Function.update_of_ne hsi]
      exact h.spenders s hs
  users u hu := by
    by_cases hui : u.1 = i
    · rw [hui, Function.update_self]
      exact hfinished (hui ▸ h.users u hu)
    · rw [Function.update_of_ne hui]
      exact h.users u hu
  holding j call hj := by
    by_cases hji : j = i
    · rw [hji, Function.update_self] at hj
      exact h.holding j call (hji ▸ hholding call hj)
    · rw [Function.update_of_ne hji] at hj
      exact h.holding j call hj

theorem spend (h : Redeeming bound backs issued unused spent used stage) (hi : stage i = .before)
    (hperm : unused.Perm (g :: unused')) (hbound : bound call g) :
    Redeeming bound backs issued unused' (spent ++ [(i, g)]) used
      (Function.update stage i (.holding call)) where
  redeemed := h.redeemed.spend (h.not_spent hi) hperm
  spenders s hs := by
    by_cases hsi : s.1 = i
    · rw [hsi, Function.update_self]
      exact fun he ↦ by cases he
    · rw [Function.update_of_ne hsi]
      rcases List.mem_append.mp hs with hs | hs
      · exact h.spenders s hs
      · rw [List.mem_singleton.mp hs] at hsi
        exact absurd rfl hsi
  users u hu := by
    have hui : u.1 ≠ i := by
      rintro rfl
      have hfin := h.users u hu
      rw [hi] at hfin
      cases hfin
    rw [Function.update_of_ne hui]
    exact h.users u hu
  holding j c hj := by
    by_cases hji : j = i
    · rw [hji, Function.update_self] at hj
      obtain rfl := Stage.holding.inj hj
      exact ⟨g, List.mem_append_right _ (List.mem_singleton.mpr (by rw [hji])), hbound⟩
    · rw [Function.update_of_ne hji] at hj
      obtain ⟨g', hg', hb⟩ := h.holding j c hj
      exact ⟨g', List.mem_append_left _ hg', hb⟩

theorem use (h : Redeeming bound backs issued unused spent used stage)
    (hi : stage i = .holding call) (hb : ∀ g, bound call g → backs g f) :
    Redeeming bound backs issued unused spent (used ++ [(i, f)])
      (Function.update stage i .finished) := by
  obtain ⟨g, hg, hbound⟩ := h.holding i call hi
  have hnew : i ∉ used.map Prod.fst := h.not_used (fun he ↦ by rw [hi] at he; cases he)
  have hrest := h.rest (i := i) (x := .finished) (fun he ↦ by cases he)
    (fun _ he ↦ by cases he) (fun _ ↦ rfl)
  refine ⟨h.redeemed.use hnew hg (hb g hbound), hrest.spenders, ?_, hrest.holding⟩
  intro u hu
  rcases List.mem_append.mp hu with hu | hu
  · exact hrest.users u hu
  · rw [List.mem_singleton.mp hu, Function.update_self]

end Redeeming

end Redeeming

section Outstanding

variable [DecidableEq γ]

/-- Items were stored and some of them handed out. An item that is still
outstanding has been stored once more than it was handed out. -/
structure Outstanding (stored handedOut : List γ) (live : γ → Prop) : Prop where
  covered : ∀ g, handedOut.count g ≤ stored.count g
  spare : ∀ g, live g → handedOut.count g < stored.count g

namespace Outstanding

variable {stored handedOut : List γ} {live live' : γ → Prop} {g : γ}

theorem start {rows : List γ} (h : ∀ g, live g → g ∈ rows) : Outstanding rows [] live where
  covered _ := Nat.zero_le _
  spare g hg := List.count_pos_iff.mpr (h g hg)

theorem mono (h : Outstanding stored handedOut live) (hlive : ∀ g, live' g → live g) :
    Outstanding stored handedOut live' where
  covered := h.covered
  spare g hg := h.spare g (hlive g hg)

theorem store (h : Outstanding stored handedOut live)
    (hlive : ∀ x, live' x → x = g ∨ live x) : Outstanding (stored ++ [g]) handedOut live' where
  covered x := Nat.le_trans (h.covered x) ((List.sublist_append_left stored [g]).count_le x)
  spare x hx := by
    rw [List.count_append]
    rcases hlive x hx with rfl | hx
    · have hle := h.covered x
      rw [List.count_singleton_self]
      omega
    · have hlt := h.spare x hx
      omega

theorem handOut (h : Outstanding stored handedOut live) (hg : live g)
    (hlive : ∀ x, live' x → x ≠ g ∧ live x) : Outstanding stored (handedOut ++ [g]) live' := by
  have hcount : ∀ x, x ≠ g → (handedOut ++ [g]).count x = handedOut.count x := by
    intro x hx
    rw [List.count_append, List.count_singleton, if_neg (by simpa using hx.symm), Nat.add_zero]
  constructor
  · intro x
    by_cases hx : x = g
    · subst hx
      rw [List.count_append, List.count_singleton_self]
      exact h.spare x hg
    · rw [hcount x hx]
      exact h.covered x
  · intro x hx
    obtain ⟨hne, hold⟩ := hlive x hx
    rw [hcount x hne]
    exact h.spare x hold

theorem subperm (h : Outstanding stored handedOut live) : handedOut.Subperm stored := by
  apply List.subperm_ext_iff.mpr
  intro g _
  exact h.covered g

end Outstanding

end Outstanding

end SauronId.Lib
