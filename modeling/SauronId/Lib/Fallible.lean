import Mathlib.Data.List.Forall2

namespace SauronId.Lib

variable {ε α β : Type}

theorem bind_eq_ok {x : Except ε α} {f : α → Except ε β} {b : β} :
    (x >>= f) = .ok b ↔ ∃ a, x = .ok a ∧ f a = .ok b := by
  cases x <;> simp [bind, Except.bind]

theorem andThen_eq_ok {x : Except ε Unit} {f : Unit → Except ε β} {b : β} :
    (x >>= f) = .ok b ↔ x = .ok () ∧ f () = .ok b := by
  cases x <;> simp [bind, Except.bind]

@[simp] theorem mapError_eq_ok {ε' : Type} {x : Except ε α} {f : ε → ε'} {a : α} :
    x.mapError f = .ok a ↔ x = .ok a := by
  cases x <;> simp [Except.mapError]

theorem elim_eq_ok {o : Option α} {e : ε} {a : α} :
    o.elim (.error e) Except.ok = .ok a ↔ o = some a := by
  cases o <;> simp

theorem guard_bind_eq_some {p : Prop} [Decidable p] {f : Unit → Option β} {b : β} :
    ((guard p : Option Unit) >>= f) = some b ↔ p ∧ f () = some b := by
  by_cases hp : p <;> simp [guard, hp]

theorem forM_eq_ok {f : α → Except ε PUnit} {l : List α} :
    l.forM f = .ok () ↔ ∀ a ∈ l, f a = .ok () := by
  induction l with
  | nil => simp [pure, Except.pure]
  | cons a l ih =>
    rw [List.forM, andThen_eq_ok, ih, List.forall_mem_cons]

theorem mapM_eq_ok {f : α → Except ε β} {l : List α} {m : List β} :
    l.mapM f = .ok m ↔ List.Forall₂ (fun a b ↦ f a = .ok b) l m := by
  induction l generalizing m with
  | nil => simp [pure, Except.pure, eq_comm]
  | cons a l ih =>
    simp only [List.mapM_cons, bind_eq_ok, ih, pure, Except.pure, Except.ok.injEq]
    constructor
    · rintro ⟨b, hb, bs, hbs, rfl⟩
      exact .cons hb hbs
    · rintro (_ | ⟨hb, hbs⟩)
      exact ⟨_, hb, _, hbs, rfl⟩

theorem exists_of_mem_right {R : α → β → Prop} {l : List α} {m : List β} (h : List.Forall₂ R l m)
    {b : β} (hb : b ∈ m) : ∃ a ∈ l, R a b := by
  induction h with
  | nil => exact absurd hb List.not_mem_nil
  | @cons a b' l m hab _ ih =>
    rcases List.mem_cons.mp hb with rfl | hb
    · exact ⟨a, List.mem_cons_self, hab⟩
    · obtain ⟨a', ha', he⟩ := ih hb
      exact ⟨a', List.mem_cons_of_mem a ha', he⟩

theorem exists_of_mem_mapM {f : α → Except ε β} {l : List α} {m : List β}
    (h : l.mapM f = .ok m) {b : β} (hb : b ∈ m) : ∃ a ∈ l, f a = .ok b :=
  exists_of_mem_right (mapM_eq_ok.mp h) hb

def ensure (holds : Prop) [Decidable holds] (error : ε) : Except ε Unit :=
  if holds then .ok () else .error error

@[simp] theorem ensure_eq_ok {holds : Prop} [Decidable holds] {error : ε} {u : Unit} :
    ensure holds error = .ok u ↔ holds := by
  unfold ensure
  split_ifs with h <;> simp [h]

def ensureSome (setting : Option α) (check : α → Except ε Unit) : Except ε Unit :=
  setting.elim (.ok ()) check

@[simp] theorem ensureSome_eq_ok {setting : Option α} {check : α → Except ε Unit} {u : Unit} :
    ensureSome setting check = .ok u ↔ ∀ a, setting = some a → check a = .ok () := by
  cases setting <;> simp [ensureSome]

/-- A request handler. It may fail, and what it did to the state before that
stays done. -/
abbrev Handler (ε σ α : Type) := ExceptT ε (StateM σ) α

namespace Handler

variable {σ : Type}

def exec (x : Handler ε σ α) (s : σ) : Except ε α × σ := x.run.run s

def result (r : Except ε α) : Handler ε σ α := ExceptT.mk (pure r)

def service (f : σ → Except ε α × σ) : Handler ε σ α := ExceptT.mk f

def query (f : σ → Except ε α) : Handler ε σ α := service (fun s ↦ (f s, s))

@[simp] theorem exec_result (r : Except ε α) (s : σ) : exec (result r) s = (r, s) := rfl

@[simp] theorem exec_service (f : σ → Except ε α × σ) (s : σ) : exec (service f) s = f s := rfl

@[simp] theorem exec_query (f : σ → Except ε α) (s : σ) : exec (query f) s = (f s, s) := rfl

@[simp] theorem exec_pure (a : α) (s : σ) : exec (pure a : Handler ε σ α) s = (.ok a, s) := rfl

theorem exec_bind (x : Handler ε σ α) (f : α → Handler ε σ β) (s : σ) :
    exec (x >>= f) s =
      match exec x s with
      | (.ok a, u) => exec (f a) u
      | (.error e, u) => (.error e, u) := by
  simp only [exec, ExceptT.run_bind, StateT.run_bind]
  rcases StateT.run (ExceptT.run x) s with ⟨_ | a, u⟩ <;> rfl

theorem exec_bind_eq_ok {x : Handler ε σ α} {f : α → Handler ε σ β} {s t : σ} {b : β} :
    exec (x >>= f) s = (.ok b, t) ↔ ∃ a u, exec x s = (.ok a, u) ∧ exec (f a) u = (.ok b, t) := by
  rw [exec_bind]
  rcases exec x s with ⟨_ | a, u⟩
  · simp
  · simp

theorem exec_result_bind_eq_ok {r : Except ε α} {f : α → Handler ε σ β} {s t : σ} {b : β} :
    exec (result r >>= f) s = (.ok b, t) ↔ ∃ a, r = .ok a ∧ exec (f a) s = (.ok b, t) := by
  rw [exec_bind_eq_ok]
  simp

theorem exec_query_bind_eq_ok {g : σ → Except ε α} {f : α → Handler ε σ β} {s t : σ} {b : β} :
    exec (query g >>= f) s = (.ok b, t) ↔ ∃ a, g s = .ok a ∧ exec (f a) s = (.ok b, t) := by
  rw [exec_bind_eq_ok]
  simp

theorem exec_service_bind_eq_ok {g : σ → Except ε α × σ} {f : α → Handler ε σ β} {s t : σ}
    {b : β} :
    exec (service g >>= f) s = (.ok b, t) ↔
      ∃ a u, g s = (.ok a, u) ∧ exec (f a) u = (.ok b, t) :=
  exec_bind_eq_ok

end Handler

end SauronId.Lib
