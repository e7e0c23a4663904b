import SauronId.Lib.Fallible

namespace SauronId.Lib

/-- A request handler that can be interrupted: it has ended, or its next statement updates the
state and decides from it how to go on. -/
inductive Resume (σ ε α : Type)
  | done (r : Except ε α)
  | act (update : σ → σ) (resume : σ → Resume σ ε α)

namespace Resume

variable {σ ε α β : Type}

def bind : Resume σ ε α → (α → Resume σ ε β) → Resume σ ε β
  | done (.ok a), f => f a
  | done (.error e), _ => done (.error e)
  | act update resume, f => act update (fun s ↦ bind (resume s) f)

instance : Monad (Resume σ ε) where
  pure a := done (.ok a)
  bind := bind

def result (r : Except ε α) : Resume σ ε α := done r

def service (f : σ → Except ε α × σ) : Resume σ ε α :=
  act (fun s ↦ (f s).2) (fun s ↦ done (f s).1)

def query (f : σ → Except ε α) : Resume σ ε α := service (fun s ↦ (f s, s))

/-! ### Handlers that nobody interrupts -/

def complete : Resume σ ε α → σ → Except ε α × σ
  | done r, s => (r, s)
  | act update resume, s => complete (resume s) (update s)

theorem complete_bind (x : Resume σ ε α) (f : α → Resume σ ε β) (s : σ) :
    complete (x >>= f) s =
      match complete x s with
      | (.ok a, u) => complete (f a) u
      | (.error e, u) => (.error e, u) := by
  induction x generalizing s with
  | done r =>
    cases r with
    | ok a => rfl
    | error e => rfl
  | act update resume ih => exact ih s (update s)

/-- The handler does, if nobody interrupts it, what another one does in one go. -/
def Realizes (x : Resume σ ε α) (h : Handler ε σ α) : Prop :=
  ∀ s, complete x s = Handler.exec h s

theorem Realizes.result (r : Except ε α) :
    Realizes (Resume.result r : Resume σ ε α) (Handler.result r) := fun _ ↦ rfl

theorem Realizes.service (f : σ → Except ε α × σ) :
    Realizes (Resume.service f) (Handler.service f) := fun _ ↦ rfl

theorem Realizes.query (f : σ → Except ε α) :
    Realizes (Resume.query f) (Handler.query f) := fun _ ↦ rfl

theorem Realizes.pure (a : α) :
    Realizes (Pure.pure a : Resume σ ε α) (Pure.pure a) := fun _ ↦ rfl

variable {x : Resume σ ε α} {f : α → Resume σ ε β}

theorem Realizes.bind {h : Handler ε σ α} {g : α → Handler ε σ β} (hx : Realizes x h)
    (hf : ∀ a, Realizes (f a) (g a)) :
    Realizes (x >>= f) (h >>= g) := by
  intro s
  rw [complete_bind, Handler.exec_bind, hx s]
  rcases Handler.exec h s with ⟨_ | a, u⟩
  · rfl
  · exact hf a u

theorem Realizes.assoc {γ : Type} {g : β → Resume σ ε γ} {h : Handler ε σ γ}
    (hx : Realizes (x >>= fun a ↦ f a >>= g) h) :
    Realizes ((x >>= f) >>= g) h := by
  intro s
  rw [← hx s]
  simp only [complete_bind]
  rcases complete x s with ⟨_ | a, u⟩
  · rfl
  · rfl

theorem Realizes.andThen_query (f : σ → Except ε Unit) {g : σ → Except ε α}
    (hx : Realizes x (Handler.query g)) :
    Realizes (Resume.query f >>= fun _ ↦ x) (Handler.query (fun s ↦ f s >>= fun _ ↦ g s)) := by
  intro s
  have hfirst : complete (Resume.query f) s = (f s, s) := rfl
  rw [complete_bind, hfirst, Handler.exec_query]
  cases f s with
  | ok a => exact hx s
  | error e => rfl

/-! ### What every statement of a handler leaves alone -/

/-- Every statement of the handler relates the states before and after it. -/
def Keeps (R : σ → σ → Prop) : Resume σ ε α → Prop
  | done _ => True
  | act update resume => ∀ s, R s (update s) ∧ Keeps R (resume s)

variable {R : σ → σ → Prop}

theorem keeps_result (r : Except ε α) : Keeps R (result r : Resume σ ε α) := trivial

theorem keeps_pure (a : α) : Keeps R (pure a : Resume σ ε α) := trivial

theorem keeps_service {f : σ → Except ε α × σ} (h : ∀ s, R s (f s).2) : Keeps R (service f) :=
  fun s ↦ ⟨h s, trivial⟩

theorem keeps_query (hR : ∀ s, R s s) (f : σ → Except ε α) : Keeps R (query f) :=
  keeps_service hR

theorem keeps_bind (hx : Keeps R x) (hf : ∀ a, Keeps R (f a)) : Keeps R (x >>= f) := by
  induction x with
  | done r =>
    cases r with
    | ok a => exact hf a
    | error e => trivial
  | act update resume ih => exact fun s ↦ ⟨(hx s).1, ih s (hx s).2⟩

end Resume

end SauronId.Lib
