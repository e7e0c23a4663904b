import SauronId.Expression.Eval

namespace SauronId.Expression

open Lib
open Policy (Verdict)

variable {ν : Type}

inductive Subexpr (s : Expr ν) : Expr ν → Prop
  | refl : Subexpr s s
  | item {items e} : e ∈ items → Subexpr s e → Subexpr s (.list items)
  | left {op l r} : Subexpr s l → Subexpr s (.binary op l r)
  | right {op l r} : Subexpr s r → Subexpr s (.binary op l r)
  | operand {op e} : Subexpr s e → Subexpr s (.unary op e)
  | lhs {l r} : Subexpr s l → Subexpr s (.in_ l r)
  | rhs {l r} : Subexpr s r → Subexpr s (.in_ l r)
  | arg {name args keyword e} : (keyword, e) ∈ args → Subexpr s e → Subexpr s (.call name args)

def knownIdents : List String :=
  ["spend_total", "spend_total_usd", "now", "max_budget_usd", "tool", "action.tool", "amount_usd",
    "action.amount_usd", "data_classification", "action.data_classification", "action.signatures",
    "signatures", "delegation_depth", "action.delegation_depth", "timestamp", "action.timestamp",
    "payment_currency"]

def knownFunctions : List String :=
  ["now", "len", "count", "no_external_call_to", "transfer_requires",
    "exports_require_signatures", "tool_class", "sandbox_required"]

section Call

variable {A : Arithmetic ν} {env : EvalEnv ν} {args : Outcomes ν} {v : Value ν}

def AllOk (args : Outcomes ν) : Prop := ∀ a ∈ args, ∃ u, a.2 = .ok u

theorem requireArity_eq_ok {func : String} {want : ℕ} :
    requireArity func args want = .ok () ↔ args.length = want :=
  ensure_eq_ok

theorem argValue_eq_ok {func keyword : String} {pos : ℕ}
    (h : argValue func keyword pos args = .ok v) :
    (some keyword, .ok v) ∈ args ∨ args[pos]? = some (none, .ok v) := by
  unfold argValue at h
  split at h
  next k r hfind =>
    have hk : k = some keyword := by simpa using List.find?_some hfind
    exact .inl (hk ▸ h ▸ List.mem_of_find?_eq_some hfind)
  next =>
    split at h
    next r hpos => exact .inr (h ▸ hpos)
    next => cases h

theorem AllOk.of_argValue {func keyword : String} (hlen : args.length = 1)
    (h : argValue func keyword 0 args = .ok v) : AllOk args := by
  obtain ⟨a, rfl⟩ := List.length_eq_one_iff.mp hlen
  refine List.forall_mem_singleton.mpr ⟨v, ?_⟩
  rcases argValue_eq_ok h with hmem | hpos
  · rw [← List.mem_singleton.mp hmem]
  · rw [Option.some.inj hpos]

theorem AllOk.of_measured {func want : String} {measure : Value ν → Option ℕ}
    (h : measured A func want measure args = .ok v) : AllOk args := by
  obtain ⟨hlen, h⟩ := andThen_eq_ok.mp h
  obtain ⟨u, hu, -⟩ := bind_eq_ok.mp h
  obtain ⟨a, rfl⟩ := List.length_eq_one_iff.mp (requireArity_eq_ok.mp hlen)
  intro b hb
  exact ⟨u, List.mem_singleton.mp hb ▸ hu⟩

theorem AllOk.of_two {func first second : String} {u : Value ν} (hlen : args.length = 2)
    (hne : first ≠ second) (hfirst : argValue func first 0 args = .ok u)
    (hsecond : argValue func second 1 args = .ok v) : AllOk args := by
  obtain ⟨a, b, rfl⟩ := List.length_eq_two.mp hlen
  have hok : (a.2 = .ok u ∧ b.2 = .ok v) ∨ (a.2 = .ok v ∧ b.2 = .ok u) := by
    -- an argument with a keyword is not taken by its position, nor by another keyword
    have hkeys : ∀ x : Option String × Except EvalError (Value ν),
        (some first, .ok u) = x → (some second, .ok v) = x → False :=
      fun x h h' ↦ hne (Option.some.inj (Prod.mk.inj (h.trans h'.symm)).1)
    rcases argValue_eq_ok hfirst with hmem | hpos
    · rcases argValue_eq_ok hsecond with hmem' | hpos'
      · rcases List.mem_pair.mp hmem with ha | hb
        · rcases List.mem_pair.mp hmem' with ha' | hb'
          · exact (hkeys a ha ha').elim
          · exact .inl ⟨ha ▸ rfl, hb' ▸ rfl⟩
        · rcases List.mem_pair.mp hmem' with ha' | hb'
          · exact .inr ⟨ha' ▸ rfl, hb ▸ rfl⟩
          · exact (hkeys b hb hb').elim
      · have hb' : b = (none, .ok v) := Option.some.inj hpos'
        rcases List.mem_pair.mp hmem with ha | hb
        · exact .inl ⟨ha ▸ rfl, hb' ▸ rfl⟩
        · cases hb.trans hb'
    · have ha : a = (none, .ok u) := Option.some.inj hpos
      rcases argValue_eq_ok hsecond with hmem' | hpos'
      · rcases List.mem_pair.mp hmem' with ha' | hb'
        · cases ha'.trans ha
        · exact .inl ⟨ha ▸ rfl, hb' ▸ rfl⟩
      · have hb' : b = (none, .ok v) := Option.some.inj hpos'
        exact .inl ⟨ha ▸ rfl, hb' ▸ rfl⟩
  obtain ⟨ha, hb⟩ | ⟨ha, hb⟩ := hok
  · exact List.forall_mem_cons.mpr ⟨⟨u, ha⟩, List.forall_mem_singleton.mpr ⟨v, hb⟩⟩
  · exact List.forall_mem_cons.mpr ⟨⟨v, ha⟩, List.forall_mem_singleton.mpr ⟨u, hb⟩⟩

variable {name : String}

theorem AllOk.of_call (h : call A env name args = .ok v) : AllOk args := by
  unfold call at h
  split at h
  · obtain ⟨hlen, -⟩ := andThen_eq_ok.mp h
    obtain rfl := List.length_eq_zero_iff.mp (requireArity_eq_ok.mp hlen)
    exact fun a ha ↦ absurd ha List.not_mem_nil
  · exact .of_measured h
  · exact .of_measured h
  · obtain ⟨hlen, h⟩ := andThen_eq_ok.mp h
    obtain ⟨u, hu, -⟩ := bind_eq_ok.mp h
    exact .of_argValue (requireArity_eq_ok.mp hlen) hu
  · obtain ⟨hlen, h⟩ := andThen_eq_ok.mp h
    obtain ⟨u, hu, -⟩ := bind_eq_ok.mp h
    exact .of_argValue (requireArity_eq_ok.mp hlen) hu
  · obtain ⟨hlen, h⟩ := andThen_eq_ok.mp h
    obtain ⟨u, hu, h⟩ := bind_eq_ok.mp h
    obtain ⟨role, -, h⟩ := bind_eq_ok.mp h
    obtain ⟨w, hw, -⟩ := bind_eq_ok.mp h
    exact .of_two (requireArity_eq_ok.mp hlen) (by decide) hu hw
  · obtain ⟨hlen, h⟩ := andThen_eq_ok.mp h
    obtain ⟨u, hu, -⟩ := bind_eq_ok.mp h
    exact .of_argValue (requireArity_eq_ok.mp hlen) hu
  · obtain ⟨hlen, h⟩ := andThen_eq_ok.mp h
    obtain ⟨u, hu, -⟩ := bind_eq_ok.mp h
    exact .of_argValue (requireArity_eq_ok.mp hlen) hu
  · cases h

theorem mem_knownFunctions (h : call A env name args = .ok v) :
    name ∈ knownFunctions := by
  unfold call at h
  split at h
  case h_9 => cases h
  all_goals decide

theorem mem_knownIdents (h : resolveIdent A env name = .ok v) :
    name ∈ knownIdents := by
  unfold resolveIdent at h
  split at h
  case h_18 => cases h
  all_goals decide

end Call

section Eval

variable {A : Arithmetic ν} {env : EvalEnv ν} {e s : Expr ν} {v : Value ν}

theorem evalItems_eq_ok {items : List (Expr ν)} {out : List (Value ν)}
    (h : evalItems A env items = .ok out) : ∀ e ∈ items, ∃ u, eval A env e = .ok u := by
  induction items generalizing out with
  | nil => exact fun e he ↦ absurd he List.not_mem_nil
  | cons e items ih =>
    rw [evalItems] at h
    obtain ⟨u, hu, h⟩ := bind_eq_ok.mp h
    obtain ⟨us, hus, -⟩ := bind_eq_ok.mp h
    exact List.forall_mem_cons.mpr ⟨⟨u, hu⟩, ih hus⟩

theorem mem_evalArgs {args : List (Option String × Expr ν)} {keyword : Option String}
    (h : (keyword, e) ∈ args) : (keyword, eval A env e) ∈ evalArgs A env args := by
  induction args with
  | nil => exact absurd h List.not_mem_nil
  | cons arg args ih =>
    rw [evalArgs]
    rcases List.mem_cons.mp h with rfl | h
    · rw [evalArg]
      exact List.mem_cons_self
    · exact List.mem_cons_of_mem _ (ih h)

theorem eval_subexpr (hs : Subexpr s e) (h : eval A env e = .ok v) :
    ∃ u, eval A env s = .ok u := by
  induction hs generalizing v with
  | refl => exact ⟨v, h⟩
  | item hmem _ ih =>
    rw [eval] at h
    obtain ⟨out, hout, -⟩ := bind_eq_ok.mp h
    obtain ⟨u, hu⟩ := evalItems_eq_ok hout _ hmem
    exact ih hu
  | left _ ih =>
    rw [eval] at h
    obtain ⟨a, ha, -⟩ := bind_eq_ok.mp h
    exact ih ha
  | right _ ih =>
    rw [eval] at h
    obtain ⟨a, -, h⟩ := bind_eq_ok.mp h
    obtain ⟨b, hb, -⟩ := bind_eq_ok.mp h
    exact ih hb
  | operand _ ih =>
    rw [eval] at h
    obtain ⟨a, ha, -⟩ := bind_eq_ok.mp h
    exact ih ha
  | lhs _ ih =>
    rw [eval] at h
    obtain ⟨a, ha, -⟩ := bind_eq_ok.mp h
    exact ih ha
  | rhs _ ih =>
    rw [eval] at h
    obtain ⟨a, -, h⟩ := bind_eq_ok.mp h
    obtain ⟨b, hb, -⟩ := bind_eq_ok.mp h
    exact ih hb
  | arg hmem _ ih =>
    rw [eval] at h
    obtain ⟨u, hu⟩ := AllOk.of_call h _ (mem_evalArgs hmem)
    exact ih hu

theorem expressionVerdict_eq_allow {src : String} :
    expressionVerdict A env src e = .allow ↔ eval A env e = .ok (.bool true) := by
  unfold expressionVerdict evalPredicate
  cases h : eval A env e with
  | error err => simp [bind, Except.bind]
  | ok v =>
    cases v with
    | bool b => cases b <;> simp [bind, Except.bind]
    | _ => simp [bind, Except.bind]

/-- Evaluating a part raises no error, and the name that it may be is known. -/
structure ErrorFree (A : Arithmetic ν) (env : EvalEnv ν) (s : Expr ν) : Prop where
  value : ∀ err, eval A env s ≠ .error err
  ident : ∀ name, s = .ident name → name ∈ knownIdents
  function : ∀ name args, s = .call name args → name ∈ knownFunctions

theorem ErrorFree.of_eval (h : eval A env s = .ok v) : ErrorFree A env s where
  value err he := by
    rw [h] at he
    cases he
  ident name he := by
    subst he
    rw [eval] at h
    exact mem_knownIdents h
  function name args he := by
    subst he
    rw [eval] at h
    exact mem_knownFunctions h

end Eval

/-- Evaluation is closed under failure: a value of the whole is a value of each
part, and an expression lets an action pass only if no part of it errs. -/
theorem eval_fails_closed (A : Arithmetic ν) (env : EvalEnv ν) (e : Expr ν) :
    (∀ v, eval A env e = .ok v → ∀ s, Subexpr s e → ∃ u, eval A env s = .ok u) ∧
      ∀ src, expressionVerdict A env src e = .allow → ∀ s, Subexpr s e → ErrorFree A env s := by
  constructor
  · intro v h s hs
    exact eval_subexpr hs h
  · intro src h s hs
    obtain ⟨u, hu⟩ := eval_subexpr hs (expressionVerdict_eq_allow.mp h)
    exact .of_eval hu

def wholeNumbers : Arithmetic ℤ where
  add := (· + ·)
  sub := (· - ·)
  neg := (- ·)
  eq a b := a = b
  lt a b := a < b
  le a b := a ≤ b
  isFinite _ := true
  ofInt n := n
  ofRat q := q.floor
  display := toString

def browsing : EvalEnv ℤ where
  tool := "http_get"
  amountUsd := none
  dataClassification := none
  signatures := []
  delegationDepth := 0
  timestamp := 0
  metadata := []
  spendTotalUsd := 20
  maxBudgetUsd := some 50
  nowEpoch := 0

def withinBudgetOrReading : Expr ℤ :=
  .binary .or (.binary .lte (.ident "spend_total") (.ident "max_budget_usd"))
    (.binary .eq (.call "tool_class" [(none, .ident "tool")]) (.str "read_only"))

theorem eval_fails_closed_browsing :
    expressionVerdict wholeNumbers browsing "" withinBudgetOrReading = .allow ∧
      ErrorFree wholeNumbers browsing (.call "tool_class" [(none, .ident "tool")]) := by
  have h : expressionVerdict wholeNumbers browsing "" withinBudgetOrReading = .allow := by
    decide +kernel
  exact ⟨h, (eval_fails_closed wholeNumbers browsing withinBudgetOrReading).2 "" h _
    (.right (.left .refl))⟩

/-- An expression about a field that the action does not have lets it pass. -/
theorem absent_currency_allowed :
    expressionVerdict wholeNumbers browsing "payment_currency in ['EUR']"
        (.in_ (.ident "payment_currency") (.list [.str "EUR"])) = .allow ∧
      browsing.metadata.lookup "payment_currency" = none ∧
      browsing.metadata.lookup "currency" = none := by
  refine ⟨?_, rfl, rfl⟩
  decide +kernel

end SauronId.Expression
