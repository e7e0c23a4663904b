import SauronId.Lib.Fallible

namespace SauronId.Lib.Handler

variable {ε σ α β : Type}

/-- From a state of `P` the handler ends in `Q` when it answers and in `E` when
it fails. -/
def Triple (P : σ → Prop) (x : Handler ε σ α) (Q : α → σ → Prop) (E : ε → σ → Prop) : Prop :=
  ∀ s, P s → (∀ a t, exec x s = (.ok a, t) → Q a t) ∧ ∀ e t, exec x s = (.error e, t) → E e t

namespace Triple

variable {P : σ → Prop} {x : Handler ε σ α} {f : α → Handler ε σ β} {E : ε → σ → Prop}

variable {Q : β → σ → Prop}

theorem bind {R : α → σ → Prop} (hx : Triple P x R E) (hf : ∀ a, Triple (R a) (f a) Q E) :
    Triple P (x >>= f) Q E := by
  intro s hs
  obtain ⟨hok, herr⟩ := hx s hs
  rw [exec_bind]
  rcases he : exec x s with ⟨e | a, u⟩
  · refine ⟨fun b t h ↦ by simp at h, fun e' t h ↦ ?_⟩
    obtain ⟨⟨⟩, rfl⟩ := Prod.mk.inj h
    exact herr e u he
  · exact hf a u (hok a u he)

theorem pure {Q : α → σ → Prop} {a : α} (h : ∀ s, P s → Q a s) :
    Triple P (Pure.pure a : Handler ε σ α) Q E := by
  intro s hs
  refine ⟨fun b t h' ↦ ?_, fun e t h' ↦ by cases h'⟩
  cases h'
  exact h s hs

variable {g : σ → Except ε α × σ}

theorem service {Q : α → σ → Prop} (hok : ∀ s a, P s → (g s).1 = .ok a → Q a (g s).2)
    (herr : ∀ s e, P s → (g s).1 = .error e → E e (g s).2) :
    Triple P (Handler.service g) Q E := by
  intro s hs
  simp only [exec_service]
  constructor
  · intro a t h
    have hQ := hok s a hs
    rw [h] at hQ
    exact hQ rfl
  · intro e t h
    have hE := herr s e hs
    rw [h] at hE
    exact hE rfl

theorem read_bind {g : σ → Except ε α} (herr : ∀ e s, P s → E e s)
    (hf : ∀ a, Triple (fun s ↦ P s ∧ g s = .ok a) (f a) Q E) : Triple P (query g >>= f) Q E :=
  bind (service (fun _ _ hs ha ↦ ⟨hs, ha⟩) (fun s e hs _ ↦ herr e s hs)) hf

theorem query_bind {g : σ → Except ε α} (herr : ∀ e s, P s → E e s) (hf : ∀ a, Triple P (f a) Q E) :
    Triple P (query g >>= f) Q E :=
  read_bind herr (fun a s hs ↦ hf a s hs.1)

theorem result_bind {r : Except ε α} (herr : ∀ e s, P s → E e s)
    (hf : ∀ a, r = .ok a → Triple P (f a) Q E) : Triple P (result r >>= f) Q E :=
  read_bind (g := fun _ ↦ r) herr (fun a s hs ↦ hf a hs.2 s hs.1)

theorem service_bind (herr : ∀ e s, P s → E e s) (hg : ∀ s, P s → P (g s).2)
    (hf : ∀ a, Triple P (f a) Q E) :
    Triple P (Handler.service g >>= f) Q E :=
  bind (service (fun s _ hs _ ↦ hg s hs) (fun s e hs _ ↦ herr e _ (hg s hs))) hf

theorem exec_snd {Q : σ → Prop} {s : σ} (h : Triple P x (fun _ ↦ Q) (fun _ ↦ Q)) (hs : P s) :
    Q (exec x s).2 := by
  obtain ⟨hok, herr⟩ := h s hs
  rcases he : exec x s with ⟨e | a, t⟩
  · exact herr e t he
  · exact hok a t he

end Triple

/-- The handler keeps `I`, whichever way it ends. -/
def Keeps (I : σ → Prop) (x : Handler ε σ α) : Prop := Triple I x (fun _ ↦ I) (fun _ ↦ I)

namespace Keeps

variable {I : σ → Prop} {x : Handler ε σ α} {f : α → Handler ε σ β}

theorem pure (a : α) : Keeps I (Pure.pure a : Handler ε σ α) := Triple.pure (fun _ hs ↦ hs)

theorem bind (hx : Keeps I x) (hf : ∀ a, Keeps I (f a)) : Keeps I (x >>= f) := Triple.bind hx hf

theorem query_bind {g : σ → Except ε α} (hf : ∀ a, Keeps I (f a)) : Keeps I (query g >>= f) :=
  Triple.query_bind (fun _ _ hs ↦ hs) hf

theorem result_bind {r : Except ε α} (hf : ∀ a, Keeps I (f a)) : Keeps I (result r >>= f) :=
  Triple.result_bind (fun _ _ hs ↦ hs) (fun a _ ↦ hf a)

theorem service_bind {g : σ → Except ε α × σ} (hg : ∀ s, I s → I (g s).2) (hf : ∀ a, Keeps I (f a)) :
    Keeps I (service g >>= f) :=
  Triple.service_bind (fun _ _ hs ↦ hs) hg hf

theorem exec_snd {s : σ} (h : Keeps I x) (hs : I s) : I (exec x s).2 := Triple.exec_snd h hs

end Keeps

/-- The handler answers, rather than fails, from the state. -/
def Answers (x : Handler ε σ α) (s : σ) : Prop := ∃ a t, exec x s = (.ok a, t)

section Answers

variable {f : α → Handler ε σ β} {s : σ}

theorem answers_pure (a : α) : Answers (Pure.pure a : Handler ε σ α) s := ⟨a, s, rfl⟩

theorem answers_bind {x : Handler ε σ α} :
    Answers (x >>= f) s ↔ ∃ a u, exec x s = (.ok a, u) ∧ Answers (f a) u := by
  simp only [Answers, exec_bind_eq_ok]
  constructor
  · rintro ⟨b, t, a, u, hx, hf⟩
    exact ⟨a, u, hx, b, t, hf⟩
  · rintro ⟨a, u, hx, b, t, hf⟩
    exact ⟨b, t, a, u, hx, hf⟩

theorem answers_bind_pure {x : Handler ε σ α} {g : α → β} :
    Answers (x >>= fun a ↦ Pure.pure (g a)) s ↔ Answers x s := by
  rw [answers_bind]
  constructor
  · rintro ⟨a, u, hx, -⟩
    exact ⟨a, u, hx⟩
  · rintro ⟨a, u, hx⟩
    exact ⟨a, u, hx, answers_pure _⟩

theorem answers_query_bind {g : σ → Except ε α} :
    Answers (query g >>= f) s ↔ ∃ a, g s = .ok a ∧ Answers (f a) s := by
  rw [answers_bind]
  simp

theorem answers_result_bind {r : Except ε α} :
    Answers (result r >>= f) s ↔ ∃ a, r = .ok a ∧ Answers (f a) s :=
  answers_query_bind

theorem answers_service_bind {g : σ → Except ε α × σ} :
    Answers (service g >>= f) s ↔ ∃ a, (g s).1 = .ok a ∧ Answers (f a) (g s).2 := by
  rw [answers_bind]
  constructor
  · rintro ⟨a, u, hg, hf⟩
    rw [exec_service] at hg
    exact ⟨a, by rw [hg], by rwa [hg]⟩
  · rintro ⟨a, hg, hf⟩
    exact ⟨a, (g s).2, Prod.ext hg rfl, hf⟩

end Answers

end SauronId.Lib.Handler
