import Mathlib.Logic.Function.Basic

namespace SauronId.Lib

/-- Threads that share a state and one lock. Each thread is in a phase of its
own program. -/
structure Locked (ι φ σ : Type) where
  shared : σ
  holder : Option ι
  phase : ι → φ

namespace Locked

variable {ι φ σ : Type}

def init (s : σ) (idle : φ) : Locked ι φ σ := ⟨s, none, fun _ ↦ idle⟩

/-- The holder is the one thread inside the critical section, and what it knows
of the shared state is true. -/
structure Guarded (inside : φ → Prop) (knows : φ → σ → Prop) (w : Locked ι φ σ) : Prop where
  inside_iff : ∀ i, inside (w.phase i) ↔ w.holder = some i
  knows : ∀ i, w.holder = some i → knows (w.phase i) w.shared

theorem guarded_init {inside : φ → Prop} {knows : φ → σ → Prop} {s : σ} {idle : φ}
    (h : ¬ inside idle) : Guarded inside knows (init s idle : Locked ι φ σ) where
  inside_iff i := by simp [init, h]
  knows i hi := by cases hi

variable [DecidableEq ι]

def move (w : Locked ι φ σ) (i : ι) (p : φ) : Locked ι φ σ :=
  { w with phase := Function.update w.phase i p }

def enter (w : Locked ι φ σ) (i : ι) (p : φ) : Option (Locked ι φ σ) :=
  match w.holder with
  | none => some ⟨w.shared, some i, Function.update w.phase i p⟩
  | some _ => none

def leave (w : Locked ι φ σ) (i : ι) (p : φ) (s : σ) : Locked ι φ σ :=
  ⟨s, none, Function.update w.phase i p⟩

def once (w : Locked ι φ σ) (i : ι) (p : φ) (s : σ) : Option (Locked ι φ σ) :=
  match w.holder with
  | none => some (w.leave i p s)
  | some _ => none

@[simp] theorem shared_move (w : Locked ι φ σ) (i : ι) (p : φ) : (w.move i p).shared = w.shared :=
  rfl

@[simp] theorem shared_leave (w : Locked ι φ σ) (i : ι) (p : φ) (s : σ) :
    (w.leave i p s).shared = s := rfl

@[simp] theorem phase_move (w : Locked ι φ σ) (i : ι) (p : φ) : (w.move i p).phase i = p := by
  simp [move]

@[simp] theorem phase_leave (w : Locked ι φ σ) (i : ι) (p : φ) (s : σ) :
    (w.leave i p s).phase i = p := by
  simp [leave]

theorem enter_eq_some {w v : Locked ι φ σ} {i : ι} {p : φ} :
    w.enter i p = some v ↔
      w.holder = none ∧ v = ⟨w.shared, some i, Function.update w.phase i p⟩ := by
  unfold enter
  cases w.holder <;> simp [eq_comm]

theorem once_eq_some {w v : Locked ι φ σ} {i : ι} {p : φ} {s : σ} :
    w.once i p s = some v ↔ w.holder = none ∧ v = w.leave i p s := by
  unfold once
  cases w.holder <;> simp [eq_comm]

namespace Guarded

variable {inside : φ → Prop} {knows : φ → σ → Prop} {w v : Locked ι φ σ} {i : ι} {p : φ} {s : σ}

theorem besides (h : Guarded inside knows w) (hi : ¬ inside (w.phase i)) (hp : ¬ inside p)
    (hk : ∀ q, inside q → knows q w.shared → knows q s) :
    Guarded inside knows ⟨s, w.holder, Function.update w.phase i p⟩ where
  inside_iff j := by
    by_cases hj : j = i
    · subst hj
      have hn : w.holder ≠ some j := fun he ↦ hi ((h.inside_iff j).mpr he)
      simp [hp, hn]
    · simpa [hj] using h.inside_iff j
  knows j hj := by
    have hin : inside (w.phase j) := (h.inside_iff j).mpr hj
    have hne : j ≠ i := fun he ↦ hi (he ▸ hin)
    simpa [hne] using hk _ hin (h.knows j hj)

theorem move (h : Guarded inside knows w) (hi : ¬ inside (w.phase i)) (hp : ¬ inside p) :
    Guarded inside knows (w.move i p) :=
  h.besides hi hp (fun _ _ hq ↦ hq)

theorem write (h : Guarded inside knows w) (hi : inside (w.phase i)) (hp : inside p)
    (hk : knows p s) : Guarded inside knows ⟨s, w.holder, Function.update w.phase i p⟩ where
  inside_iff j := by
    by_cases hj : j = i
    · subst hj
      simp [hp, (h.inside_iff j).mp hi]
    · simpa [hj] using h.inside_iff j
  knows j hj := by
    have hholder := (h.inside_iff i).mp hi
    obtain rfl : j = i := Option.some.inj (hj.symm.trans hholder)
    simpa using hk

theorem work (h : Guarded inside knows w) (hi : inside (w.phase i)) (hp : inside p)
    (hk : knows p w.shared) : Guarded inside knows (w.move i p) :=
  h.write hi hp hk

theorem enter (h : Guarded inside knows w) (hv : w.enter i p = some v) (hp : inside p)
    (hk : knows p w.shared) : Guarded inside knows v := by
  obtain ⟨hfree, rfl⟩ := enter_eq_some.mp hv
  constructor
  · intro j
    by_cases hj : j = i
    · subst hj
      simp [hp]
    · have hout : ¬ inside (w.phase j) := by
        intro hin
        rw [(h.inside_iff j).mp hin] at hfree
        cases hfree
      simp [hj, hout, Ne.symm hj]
  · intro j hj
    obtain rfl : i = j := Option.some.inj hj
    simpa using hk

theorem leave_of_others (hothers : ∀ j, j ≠ i → ¬ inside (w.phase j)) (hp : ¬ inside p) :
    Guarded inside knows (w.leave i p s) where
  inside_iff j := by
    by_cases hj : j = i
    · subst hj
      simp [Locked.leave, hp]
    · simp [Locked.leave, hj, hothers j hj]
  knows j hj := by cases hj

theorem leave (h : Guarded inside knows w) (hi : inside (w.phase i)) (hp : ¬ inside p) :
    Guarded inside knows (w.leave i p s) := by
  apply leave_of_others _ hp
  intro j hj hin
  have hholder := (h.inside_iff i).mp hi
  rw [(h.inside_iff j).mp hin] at hholder
  exact hj (Option.some.inj hholder)

theorem once (h : Guarded inside knows w) (hv : w.once i p s = some v) (hp : ¬ inside p) :
    Guarded inside knows v := by
  obtain ⟨hfree, rfl⟩ := once_eq_some.mp hv
  apply leave_of_others _ hp
  intro j _ hin
  rw [(h.inside_iff j).mp hin] at hfree
  cases hfree

end Guarded

end Locked

end SauronId.Lib
