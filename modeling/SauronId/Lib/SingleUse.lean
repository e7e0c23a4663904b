import Mathlib.Data.List.Nodup
import Mathlib.Data.Set.Insert
import Mathlib.Logic.Function.Basic
import Mathlib.Logic.Relation
import SauronId.Lib.Table

namespace SauronId.Lib.SingleUse

/-- A store of single-use stamps. A stamp is a key with its expiry, a key is in
the store at most once, and expired stamps may be swept out. Each process may
wait for one stamp, which it could ask for only before the stamp expired. -/
structure Guard (π κ : Type) where
  clock : ℤ
  held : Set (κ × ℤ)
  waiting : π → Option (κ × ℤ)
  spent : List (κ × ℤ)

variable {π κ : Type} [DecidableEq π]

inductive Step (g : Guard π κ) : Guard π κ → Prop
  | stutter : Step g g
  | tick (clock : ℤ) : g.clock ≤ clock → Step g { g with clock := clock }
  | hold (s : κ × ℤ) : Step g { g with held := insert s g.held }
  | ask (i : π) (s : κ × ℤ) : g.clock ≤ s.2 →
      Step g { g with waiting := Function.update g.waiting i (some s) }
  | leave (i : π) : Step g { g with waiting := Function.update g.waiting i none }
  | sweep (now : ℤ) : now ≤ g.clock →
      (∀ s ∈ g.held, s.2 < now → ∀ j, g.waiting j ≠ some s) →
      Step g { g with held := {s ∈ g.held | now ≤ s.2} }
  | claim (i : π) (s : κ × ℤ) : g.waiting i = some s → s ∉ g.held →
      Step g { g with
        held := insert s g.held
        waiting := Function.update g.waiting i none
        spent := g.spent ++ [s] }

/-- A spent stamp is still in the store, or nobody will ever get it again. -/
def Guarded (g : Guard π κ) (s : κ × ℤ) : Prop :=
  s ∈ g.held ∨ s.2 < g.clock ∧ ∀ j, g.waiting j ≠ some s

structure Sound (g : Guard π κ) : Prop where
  nodup : g.spent.Nodup
  guarded : ∀ s ∈ g.spent, Guarded g s

theorem waiting_update {waiting : π → Option (κ × ℤ)} {s : κ × ℤ} {x : Option (κ × ℤ)}
    (hx : x ≠ some s) (h : ∀ j, waiting j ≠ some s) (i : π) :
    ∀ j, Function.update waiting i x j ≠ some s :=
  (Function.forall_update_iff waiting (fun _ y ↦ y ≠ some s)).mpr ⟨hx, fun j _ ↦ h j⟩

theorem Sound.step {g g' : Guard π κ} (hg : Sound g) (h : Step g g') : Sound g' := by
  cases h with
  | stutter => exact hg
  | tick clock hle => exact ⟨hg.nodup, fun s hs ↦ (hg.guarded s hs).imp_right (.imp_left hle.trans_lt')⟩
  | hold s => exact ⟨hg.nodup, fun r hr ↦ (hg.guarded r hr).imp_left (.inr ·)⟩
  | ask i s hle =>
    refine ⟨hg.nodup, fun r hr ↦ (hg.guarded r hr).imp_right (fun ⟨hlt, hw⟩ ↦ ⟨hlt, ?_⟩)⟩
    refine waiting_update ?_ hw i
    -- the stamp asked for has not expired, the spent one has
    rintro ⟨⟩
    exact absurd hlt (not_lt.mpr hle)
  | leave i =>
    refine ⟨hg.nodup, fun s hs ↦ (hg.guarded s hs).imp_right (fun ⟨hlt, hw⟩ ↦ ⟨hlt, ?_⟩)⟩
    exact waiting_update (Option.some_ne_none s).symm hw i
  | sweep now hle hsafe =>
    refine ⟨hg.nodup, fun s hs ↦ ?_⟩
    rcases hg.guarded s hs with hheld | hgone
    · by_cases hnow : now ≤ s.2
      · exact .inl ⟨hheld, hnow⟩
      · rw [not_le] at hnow
        exact .inr ⟨hnow.trans_le hle, hsafe s hheld hnow⟩
    · exact .inr hgone
  | claim i s hwait hfresh =>
    have hs : s ∉ g.spent := by
      intro hs
      rcases hg.guarded s hs with hheld | ⟨-, hw⟩
      · exact hfresh hheld
      · exact hw i hwait
    refine ⟨hg.nodup.append (List.nodup_singleton s) (by simpa using hs), fun r hr ↦ ?_⟩
    rcases List.mem_append.mp hr with hr | hr
    · exact (hg.guarded r hr).imp (.inr ·) (.imp_right (waiting_update (Option.some_ne_none r).symm · i))
    · exact .inl (.inl (List.mem_singleton.mp hr))

theorem Step.move {g : Guard π κ} {i : π} {o : Option (κ × ℤ)}
    (h : ∀ s, o = some s → g.waiting i = some s ∨ g.clock ≤ s.2) :
    Step g { g with waiting := Function.update g.waiting i o } := by
  cases o with
  | none => exact .leave i
  | some s =>
    rcases h s rfl with hsame | hle
    · rw [← hsame, Function.update_eq_self]
      exact .stutter
    · exact .ask i s hle

theorem Sound.steps {g g' : Guard π κ} (hg : Sound g) (h : Relation.ReflTransGen Step g g') :
    Sound g' := by
  induction h with
  | refl => exact hg
  | tail _ hstep ih => exact ih.step hstep

omit [DecidableEq π] in
theorem nodup_keys {α β γ : Type} {l : List α} {stamp : α → β} {key : α → γ}
    (hkey : ∀ a ∈ l, ∀ b ∈ l, key a = key b → stamp a = stamp b) (h : (l.map stamp).Nodup) :
    (l.map key).Nodup := by
  refine List.Nodup.map_on (fun a ha b hb he ↦ ?_) (h.of_map stamp)
  exact List.inj_on_of_nodup_map h ha hb (hkey a ha b hb he)

/-! ### Stamps in a table -/

section Stamps

variable {ρ μ : Type} {key : ρ → μ} {stamp : ρ → κ × ℤ} {t u : Table key} {r : ρ}

def stamps (stamp : ρ → κ × ℤ) (t : Table key) : Set (κ × ℤ) := {s | ∃ r ∈ t.rows, stamp r = s}

variable [DecidableEq μ]

theorem stamps_insert (h : t.insert r = some u) :
    stamps stamp u = insert (stamp r) (stamps stamp t) := by
  obtain ⟨-, hrows⟩ := Table.insert_eq_some.mp h
  ext s
  simp only [stamps, Set.mem_insert_iff, Set.mem_ofPred_eq, hrows, List.mem_append,
    List.mem_singleton]
  constructor
  · rintro ⟨r', hr | rfl, rfl⟩
    · exact .inr ⟨r', hr, rfl⟩
    · exact .inl rfl
  · rintro (rfl | ⟨r', hr, rfl⟩)
    · exact ⟨r, .inr rfl, rfl⟩
    · exact ⟨r', .inl hr, rfl⟩

theorem stamp_not_mem (hkey : ∀ r s, stamp r = stamp s → key r = key s)
    (h : t.insert r = some u) : stamp r ∉ stamps stamp t := by
  rintro ⟨s, hs, he⟩
  exact (Table.insert_eq_some.mp h).1 s hs (hkey s r he)

omit [DecidableEq μ] in
theorem stamps_deleteWhere {p : ρ → Bool} {now : ℤ}
    (hp : ∀ r, p r = true ↔ (stamp r).2 < now) (t : Table key) :
    stamps stamp (t.deleteWhere p) = {s ∈ stamps stamp t | now ≤ s.2} := by
  have hkept : ∀ r, p r = false ↔ now ≤ (stamp r).2 := by
    intro r
    rw [← not_lt, ← hp, Bool.not_eq_true]
  ext s
  simp only [stamps, Set.mem_ofPred_eq, Table.mem_deleteWhere, hkept]
  constructor
  · rintro ⟨r, ⟨hr, hnow⟩, rfl⟩
    exact ⟨⟨r, hr, rfl⟩, hnow⟩
  · rintro ⟨⟨r, hr, rfl⟩, hnow⟩
    exact ⟨r, ⟨hr, hnow⟩, rfl⟩

end Stamps

end SauronId.Lib.SingleUse
