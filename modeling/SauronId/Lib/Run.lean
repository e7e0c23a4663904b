import Mathlib.Order.Basic

namespace SauronId.Lib.Run

variable {σ ε : Type}

def run (next : σ → ε → Option σ) : σ → List ε → Option σ
  | s, [] => some s
  | s, e :: es => (next s e).bind (fun t ↦ run next t es)

/-- Every event of the execution meets `ok` in the state before it. -/
def Along (next : σ → ε → Option σ) (ok : σ → ε → Prop) : σ → List ε → Prop
  | _, [] => True
  | s, e :: es => ok s e ∧ ∀ t, next s e = some t → Along next ok t es

variable {next : σ → ε → Option σ} {ok : σ → ε → Prop}

@[simp] theorem run_nil (s : σ) : run next s [] = some s := rfl

variable {es : List ε}

theorem run_cons {s t : σ} {e : ε} :
    run next s (e :: es) = some t ↔ ∃ u, next s e = some u ∧ run next u es = some t := by
  simp only [run, Option.bind_eq_some_iff]

theorem run_append {s t : σ} {es fs : List ε} :
    run next s (es ++ fs) = some t ↔ ∃ u, run next s es = some u ∧ run next u fs = some t := by
  induction es generalizing s with
  | nil => simp
  | cons e es ih =>
    simp only [List.cons_append, run_cons, ih]
    constructor
    · rintro ⟨u, hu, v, hv, ht⟩
      exact ⟨v, ⟨u, hu, hv⟩, ht⟩
    · rintro ⟨v, ⟨u, hu, hv⟩, ht⟩
      exact ⟨u, hu, v, hv, ht⟩

instance decidableAlong [∀ s e, Decidable (ok s e)] :
    (s : σ) → (es : List ε) → Decidable (Along next ok s es)
  | _, [] => isTrue trivial
  | s, e :: es =>
    match hok : decide (ok s e), hn : next s e with
    | false, _ => isFalse (fun h ↦ of_decide_eq_false hok h.1)
    | true, none => isTrue ⟨of_decide_eq_true hok, fun t ht ↦ by rw [hn] at ht; cases ht⟩
    | true, some t =>
      match decidableAlong t es with
      | isTrue h => isTrue ⟨of_decide_eq_true hok, fun u hu ↦ by
          rw [hn] at hu
          exact Option.some.inj hu ▸ h⟩
      | isFalse h => isFalse (fun ha ↦ h (ha.2 t hn))

/-- Whether a concrete execution ends in a state with a property can be computed. -/
instance decidableEnds {o : Option σ} {P : σ → Prop} [DecidablePred P] :
    Decidable (∃ t, o = some t ∧ P t) :=
  decidable_of_iff (o.any (fun t ↦ P t) = true) (by simp [Option.any_eq_true])

/-- An invariant that every admissible step keeps holds wherever an
admissible execution ends. -/
theorem run_invariant {I : σ → Prop} (hstep : ∀ s e t, I s → ok s e → next s e = some t → I t)
    {s t : σ} (hs : I s) (hok : Along next ok s es)
    (h : run next s es = some t) : I t := by
  induction es generalizing s with
  | nil => exact Option.some.inj h ▸ hs
  | cons e es ih =>
    obtain ⟨u, hu, hr⟩ := run_cons.mp h
    exact ih (hstep s e u hs hok.1 hu) (hok.2 u hu) hr

variable {s : σ}

/-- When a step from a state of the invariant keeps it exactly if the step is
admissible, and a step that does not is seen in the state it leads to, then the
admissible executions are those that only reach good states. -/
theorem along_iff_reached {I Q : σ → Prop} (hgood : ∀ s, I s → Q s)
    (hen : ∀ s e, ∃ t, next s e = some t)
    (hstep : ∀ s e t, I s → next s e = some t → ok s e → I t)
    (hseen : ∀ s e t, I s → next s e = some t → Q t → ok s e)
    (hs : I s) :
    Along next ok s es ↔ ∀ fs t, fs <+: es → run next s fs = some t → Q t := by
  induction es generalizing s with
  | nil =>
    refine ⟨fun _ fs t hfs ht ↦ ?_, fun _ ↦ trivial⟩
    obtain rfl := List.prefix_nil.mp hfs
    exact Option.some.inj ht ▸ hgood s hs
  | cons e es ih =>
    constructor
    · rintro ⟨hok, hrest⟩ fs t hfs ht
      cases fs with
      | nil => exact Option.some.inj ht ▸ hgood s hs
      | cons f fs =>
        obtain ⟨rfl, htail⟩ := List.cons_prefix_cons.mp hfs
        obtain ⟨u, hu, ht⟩ := run_cons.mp ht
        exact (ih (hstep s f u hs hu hok)).mp (hrest u hu) fs t htail ht
    · intro h
      obtain ⟨u, hu⟩ := hen s e
      have hone : run next s [e] = some u := run_cons.mpr ⟨u, hu, rfl⟩
      have hok := hseen s e u hs hu (h [e] u (by simp) hone)
      refine ⟨hok, fun t ht ↦ (ih (hstep s e t hs ht hok)).mpr (fun fs v hfs hv ↦ ?_)⟩
      exact h (e :: fs) v (List.cons_prefix_cons.mpr ⟨rfl, hfs⟩) (run_cons.mpr ⟨t, ht, hv⟩)

theorem along_true (s : σ) (es : List ε) : Along next (fun _ _ ↦ True) s es := by
  induction es generalizing s with
  | nil => trivial
  | cons e es ih => exact ⟨trivial, fun t _ ↦ ih t⟩

theorem along_of_forall {P : ε → Prop} (h : ∀ e ∈ es, P e) :
    Along next (fun _ e ↦ P e) s es := by
  induction es generalizing s with
  | nil => trivial
  | cons e es ih =>
    obtain ⟨he, hes⟩ := List.forall_mem_cons.mp h
    exact ⟨he, fun t _ ↦ ih hes⟩

variable {ok' : σ → ε → Prop}

theorem along_mono (h : ∀ s e, ok s e → ok' s e) (hs : Along next ok s es) :
    Along next ok' s es := by
  induction es generalizing s with
  | nil => trivial
  | cons e es ih => exact ⟨h s e hs.1, fun t ht ↦ ih (hs.2 t ht)⟩

theorem along_and (h : Along next ok s es) (h' : Along next ok' s es) :
    Along next (fun s e ↦ ok s e ∧ ok' s e) s es := by
  induction es generalizing s with
  | nil => trivial
  | cons e es ih => exact ⟨⟨h.1, h'.1⟩, fun t ht ↦ ih (h.2 t ht) (h'.2 t ht)⟩

end SauronId.Lib.Run
