import SauronId.Expression.Parser

namespace SauronId.Expression

open Lib Lib.Descent

variable {ν : Type}

/-- The levels of the grammar, from the loosest to the tightest. Products have no
operator, so that `mul_expr` is `unary`. -/
inductive Level
  | or
  | and
  | not
  | cmp
  | add
  | unary
  | primary
  deriving DecidableEq

/-- Positional arguments come before keyword arguments. -/
def PositionalFirst (args : List (Arg ν)) : Prop :=
  args.Pairwise (fun a b ↦ a.1.isSome = true → b.1.isSome = true)

mutual

/-- The documented grammar, with the tree of each derivation: `or`, `and` and
sums group to the left, and a comparison or membership test has no second one
beside it. Empty brackets are a list only if `emptyLists` says so. -/
inductive Derives (emptyLists : Bool) : Level → List (Token ν) → Expr ν → Prop
  | ofAnd {ts e} : Derives emptyLists .and ts e → Derives emptyLists .or ts e
  | or {ts us l r} : Derives emptyLists .or ts l → Derives emptyLists .and us r →
      Derives emptyLists .or (ts ++ .or :: us) (.binary .or l r)
  | ofNot {ts e} : Derives emptyLists .not ts e → Derives emptyLists .and ts e
  | and {ts us l r} : Derives emptyLists .and ts l → Derives emptyLists .not us r →
      Derives emptyLists .and (ts ++ .and :: us) (.binary .and l r)
  | ofCmp {ts e} : Derives emptyLists .cmp ts e → Derives emptyLists .not ts e
  | not {ts e} : Derives emptyLists .not ts e →
      Derives emptyLists .not (.not :: ts) (.unary .not e)
  | ofAdd {ts e} : Derives emptyLists .add ts e → Derives emptyLists .cmp ts e
  | cmp {ts us l r o} : isCmp o = true → Derives emptyLists .add ts l →
      Derives emptyLists .add us r → Derives emptyLists .cmp (ts ++ .op o :: us) (.binary o l r)
  | in_ {ts us l items} : Derives emptyLists .add ts l → Derives emptyLists .add us (.list items) →
      Derives emptyLists .cmp (ts ++ .in_ :: us) (.in_ l (.list items))
  | ofUnary {ts e} : Derives emptyLists .unary ts e → Derives emptyLists .add ts e
  | add {ts us l r o} : o = .add ∨ o = .sub → Derives emptyLists .add ts l →
      Derives emptyLists .unary us r → Derives emptyLists .add (ts ++ .op o :: us) (.binary o l r)
  | ofPrimary {ts e} : Derives emptyLists .primary ts e → Derives emptyLists .unary ts e
  | neg {ts e} : Derives emptyLists .unary ts e →
      Derives emptyLists .unary (.op .sub :: ts) (.unary .neg e)
  | num {n} : Derives emptyLists .primary [.num n] (.num n)
  | str {s} : Derives emptyLists .primary [.str s] (.str s)
  | true_ : Derives emptyLists .primary [.true_] (.bool true)
  | false_ : Derives emptyLists .primary [.false_] (.bool false)
  | group {ts e} : Derives emptyLists .or ts e →
      Derives emptyLists .primary (.lparen :: (ts ++ [.rparen])) e
  | tuple {ts items} : DerivesItems emptyLists ts items → 2 ≤ items.length →
      Derives emptyLists .primary (.lparen :: (ts ++ [.rparen])) (.list items)
  | emptyList : emptyLists = true → Derives emptyLists .primary [.lbracket, .rbracket] (.list [])
  | list {ts items} : DerivesItems emptyLists ts items →
      Derives emptyLists .primary (.lbracket :: (ts ++ [.rbracket])) (.list items)
  | ident {name} : Derives emptyLists .primary [.ident name] (.ident name)
  | callEmpty {name} :
      Derives emptyLists .primary [.ident name, .lparen, .rparen] (.call name [])
  | call {name ts args} : DerivesArgs emptyLists ts args → PositionalFirst args →
      Derives emptyLists .primary (.ident name :: .lparen :: (ts ++ [.rparen])) (.call name args)

inductive DerivesItems (emptyLists : Bool) : List (Token ν) → List (Expr ν) → Prop
  | one {ts e} : Derives emptyLists .or ts e → DerivesItems emptyLists ts [e]
  | more {ts us e items} : Derives emptyLists .or ts e → DerivesItems emptyLists us items →
      DerivesItems emptyLists (ts ++ .comma :: us) (e :: items)

inductive DerivesArg (emptyLists : Bool) : List (Token ν) → Arg ν → Prop
  | positional {ts e} : Derives emptyLists .or ts e → DerivesArg emptyLists ts (none, e)
  | kwarg {name ts e} : Derives emptyLists .or ts e →
      DerivesArg emptyLists (.ident name :: .colon :: ts) (some name, e)

inductive DerivesArgs (emptyLists : Bool) : List (Token ν) → List (Arg ν) → Prop
  | one {ts arg} : DerivesArg emptyLists ts arg → DerivesArgs emptyLists ts [arg]
  | more {ts us arg args} : DerivesArg emptyLists ts arg → DerivesArgs emptyLists us args →
      DerivesArgs emptyLists (ts ++ .comma :: us) (arg :: args)

end

def plain (toks : Tokens ν) : List (Token ν) := toks.map TokenWithPos.token

@[simp] theorem plain_nil : plain ([] : Tokens ν) = [] := rfl

@[simp] theorem plain_cons (t : TokenWithPos ν) (toks : Tokens ν) :
    plain (t :: toks) = t.token :: plain toks := rfl

@[simp] theorem plain_append (toks toks' : Tokens ν) :
    plain (toks ++ toks') = plain toks ++ plain toks' := List.map_append

section Soundness

variable {endPos : ℕ} {expr : ExprParser ν}

/-- A parser reads what the grammar derives at a level, with its tree. -/
def SoundAt (l : Level) (p : ExprParser ν) : Prop :=
  Sound p (fun toks e ↦ Derives true l (plain toks) e)

variable {want : Token ν → Bool}

theorem expect_eq_ok {what : String} {toks rest : Tokens ν}
    (h : expect endPos want what toks = .ok rest) :
    ∃ t, toks = t :: rest ∧ want t.token = true := by
  cases toks with
  | nil => cases h
  | cons t toks =>
    simp only [expect] at h
    split_ifs at h with hw
    exact ⟨t, by rw [Except.ok.inj h], hw⟩

theorem closed_eq_ok {α : Type} {p : Parser (TokenWithPos ν) (ParseError ν) α} {what : String}
    {f : α → Expr ν} {toks rest : Tokens ν} {e : Expr ν}
    (h : (do
      let (a, mid) ← p toks
      let rest ← expect endPos want what mid
      .ok (f a, rest)) = Except.ok (e, rest)) :
    ∃ a t, p toks = .ok (a, t :: rest) ∧ want t.token = true ∧ e = f a := by
  obtain ⟨⟨a, mid⟩, ha, hclose⟩ := bind_eq_ok.mp h
  obtain ⟨rest', hrest, hret⟩ := bind_eq_ok.mp hclose
  obtain ⟨rfl, rfl⟩ := Prod.mk.inj (Except.ok.inj hret)
  obtain ⟨t, rfl, ht⟩ := expect_eq_ok hrest
  exact ⟨a, t, ha, ht, rfl⟩

theorem eq_rparen {t : Token ν} (h : isRParen t = true) : t = .rparen := by
  cases t <;> first | rfl | cases h

theorem eq_rbracket {t : Token ν} (h : isRBracket t = true) : t = .rbracket := by
  cases t <;> first | rfl | cases h

variable {t : TokenWithPos ν}

theorem eq_comma (h : isComma t = true) : t.token = .comma := by
  obtain ⟨token, p⟩ := t
  cases token <;> first | rfl | cases h

theorem parseItems_sound (hexpr : SoundAt .or expr) :
    Sound (parseItems expr) (fun toks items ↦ DerivesItems true (plain toks) items) := by
  intro toks
  refine Sound.sepBy (I := fun _ toks e ↦ Derives true .or (plain toks) e)
    (J := fun _ toks items ↦ DerivesItems true (plain toks) items) (fun _ ↦ hexpr) ?_ ?_ _ _ toks
  · intro _ us e h
    exact .one h
  · intro _ us e t vs items h ht hitems
    rw [plain_append, plain_cons, eq_comma ht]
    exact .more h hitems

theorem parseArg_sound (hexpr : SoundAt .or expr) (seen : Bool) :
    Sound (parseArg endPos expr seen) (fun toks arg ↦
      DerivesArg true (plain toks) arg ∧ (seen = true → arg.1.isSome = true)) := by
  intro toks arg rest h
  unfold parseArg at h
  split at h
  next name p q toks =>
    obtain ⟨⟨v, rest'⟩, hv, hret⟩ := bind_eq_ok.mp h
    obtain ⟨rfl, rfl⟩ := Prod.mk.inj (Except.ok.inj hret)
    obtain ⟨us, rfl, hus⟩ := hexpr toks v rest' hv
    exact ⟨⟨.ident name, p⟩ :: ⟨.colon, q⟩ :: us, rfl, .kwarg hus, fun _ ↦ rfl⟩
  next =>
    split_ifs at h with hseen
    obtain ⟨⟨v, rest'⟩, hv, hret⟩ := bind_eq_ok.mp h
    obtain ⟨rfl, rfl⟩ := Prod.mk.inj (Except.ok.inj hret)
    obtain ⟨us, rfl, hus⟩ := hexpr toks v rest' hv
    exact ⟨us, rfl, .positional hus, fun hs ↦ absurd hs hseen⟩

def ArgsAfter (seen : Bool) (toks : Tokens ν) (args : List (Arg ν)) : Prop :=
  DerivesArgs true (plain toks) args ∧ PositionalFirst args ∧
    (seen = true → ∀ a ∈ args, a.1.isSome = true)

theorem argLoop_sound (hexpr : SoundAt .or expr) (n : ℕ) (seen : Bool) :
    Sound (sepBy isComma (parseArg endPos expr) (fun seen arg ↦ seen || arg.1.isSome) n seen)
      (ArgsAfter seen) := by
  refine Sound.sepBy (parseArg_sound hexpr) ?_ ?_ n seen
  · intro s us arg h
    exact ⟨.one h.1, List.pairwise_singleton _ _, fun hs a ha ↦ List.mem_singleton.mp ha ▸ h.2 hs⟩
  · intro s us arg t vs args h ht hargs
    obtain ⟨hderives, hfirst, hafter⟩ := hargs
    refine ⟨?_, ?_, ?_⟩
    · rw [plain_append, plain_cons, eq_comma ht]
      exact .more h.1 hderives
    · refine List.pairwise_cons.mpr ⟨fun b hb harg ↦ hafter ?_ b hb, hfirst⟩
      rw [harg, Bool.or_true]
    · intro hs
      refine List.forall_mem_cons.mpr ⟨h.2 hs, hafter ?_⟩
      rw [hs, Bool.true_or]

theorem ofTuple_derives {toks : List (Token ν)} {items : List (Expr ν)}
    (h : DerivesItems true toks items) :
    Derives true .primary (.lparen :: (toks ++ [.rparen])) (ofTuple items) := by
  cases h with
  | one h => exact .group h
  | @more ts us e items h hitems =>
    cases items with
    | nil => cases hitems
    | cons e' items =>
      refine .tuple (.more h hitems) ?_
      rw [List.length_cons, List.length_cons]
      omega

theorem parsePrimary_sound (hexpr : SoundAt .or expr) :
    SoundAt .primary (parsePrimary endPos expr) := by
  intro toks e rest h
  unfold parsePrimary at h
  split at h
  next => cases h
  next n p toks =>
    obtain ⟨rfl, rfl⟩ := Prod.mk.inj (Except.ok.inj h)
    exact ⟨[⟨.num n, p⟩], rfl, .num⟩
  next s p toks =>
    obtain ⟨rfl, rfl⟩ := Prod.mk.inj (Except.ok.inj h)
    exact ⟨[⟨.str s, p⟩], rfl, .str⟩
  next p toks =>
    obtain ⟨rfl, rfl⟩ := Prod.mk.inj (Except.ok.inj h)
    exact ⟨[⟨.true_, p⟩], rfl, .true_⟩
  next p toks =>
    obtain ⟨rfl, rfl⟩ := Prod.mk.inj (Except.ok.inj h)
    exact ⟨[⟨.false_, p⟩], rfl, .false_⟩
  next p toks =>
    obtain ⟨items, t, hitems, ht, rfl⟩ := closed_eq_ok h
    obtain ⟨us, rfl, hus⟩ := parseItems_sound hexpr toks items _ hitems
    refine ⟨⟨.lparen, p⟩ :: (us ++ [t]), by simp, ?_⟩
    simpa [eq_rparen ht] using ofTuple_derives hus
  next p q toks =>
    obtain ⟨rfl, rfl⟩ := Prod.mk.inj (Except.ok.inj h)
    exact ⟨[⟨.lbracket, p⟩, ⟨.rbracket, q⟩], rfl, .emptyList rfl⟩
  next p toks _ =>
    obtain ⟨items, t, hitems, ht, rfl⟩ := closed_eq_ok h
    obtain ⟨us, rfl, hus⟩ := parseItems_sound hexpr toks items _ hitems
    refine ⟨⟨.lbracket, p⟩ :: (us ++ [t]), by simp, ?_⟩
    simpa [eq_rbracket ht] using Derives.list hus
  next name p q toks =>
    obtain ⟨args, t, hargs, ht, rfl⟩ := closed_eq_ok h
    unfold parseCallArgs at hargs
    split at hargs
    next r toks =>
      obtain ⟨rfl, hmid⟩ := Prod.mk.inj (Except.ok.inj hargs)
      obtain ⟨rfl, rfl⟩ := List.cons.inj hmid
      exact ⟨[⟨.ident name, p⟩, ⟨.lparen, q⟩, ⟨.rparen, r⟩], rfl, .callEmpty⟩
    next toks _ =>
      obtain ⟨us, rfl, hus, hfirst, -⟩ := argLoop_sound hexpr _ _ _ _ _ hargs
      refine ⟨⟨.ident name, p⟩ :: ⟨.lparen, q⟩ :: (us ++ [t]), by simp, ?_⟩
      simpa [eq_rparen ht] using Derives.call hus hfirst
  next name p toks _ =>
    obtain ⟨rfl, rfl⟩ := Prod.mk.inj (Except.ok.inj h)
    exact ⟨[⟨.ident name, p⟩], rfl, .ident⟩
  next => cases h

variable {f : Expr ν → Expr ν → Expr ν}

theorem orOp_eq_some (h : orOp t = some f) :
    t.token = .or ∧ f = .binary .or := by
  unfold orOp at h
  split at h
  next ht => exact ⟨ht, (Option.some.inj h).symm⟩
  next => cases h

theorem andOp_eq_some (h : andOp t = some f) : t.token = .and ∧ f = .binary .and := by
  unfold andOp at h
  split at h
  next ht => exact ⟨ht, (Option.some.inj h).symm⟩
  next => cases h

theorem notOp_eq_some {f : Expr ν → Expr ν} (h : notOp t = some f) :
    t.token = .not ∧ f = .unary .not := by
  unfold notOp at h
  split at h
  next ht => exact ⟨ht, (Option.some.inj h).symm⟩
  next => cases h

theorem addOp_eq_some (h : addOp t = some f) :
    ∃ o, (o = .add ∨ o = .sub) ∧ t.token = .op o ∧ f = .binary o := by
  unfold addOp at h
  split at h
  next ht => exact ⟨.add, .inl rfl, ht, (Option.some.inj h).symm⟩
  next ht => exact ⟨.sub, .inr rfl, ht, (Option.some.inj h).symm⟩
  next => cases h

theorem negOp_eq_some {f : Expr ν → Expr ν} (h : negOp t = some f) :
    t.token = .op .sub ∧ f = .unary .neg := by
  unfold negOp at h
  split at h
  next ht => exact ⟨ht, (Option.some.inj h).symm⟩
  next => cases h

theorem parseUnary_sound (hexpr : SoundAt .or expr) : SoundAt .unary (parseUnary endPos expr) := by
  refine Sound.prefixed (parsePrimary_sound hexpr) (fun _ _ h ↦ .ofPrimary h) ?_
  intro t f us e hop he
  obtain ⟨ht, rfl⟩ := negOp_eq_some hop
  rw [plain_cons, ht]
  exact .neg he

theorem parseAdd_sound (hexpr : SoundAt .or expr) : SoundAt .add (parseAdd endPos expr) := by
  refine Sound.chain (parseUnary_sound hexpr) (fun _ _ h ↦ .ofUnary h) ?_
  intro us l t f vs r hl hop hr
  obtain ⟨o, ho, ht, rfl⟩ := addOp_eq_some hop
  rw [plain_append, plain_cons, ht]
  exact .add ho hl hr

theorem parseCmp_sound (hexpr : SoundAt .or expr) : SoundAt .cmp (parseCmp endPos expr) := by
  intro toks e rest h
  obtain ⟨⟨left, mid⟩, hleft, htail⟩ := bind_eq_ok.mp h
  obtain ⟨us, rfl, hus⟩ := parseAdd_sound hexpr toks left mid hleft
  simp only [parseCmpTail] at htail
  split at htail
  next o p toks =>
    split_ifs at htail with ho
    · obtain ⟨⟨right, rest'⟩, hright, hret⟩ := bind_eq_ok.mp htail
      obtain ⟨rfl, rfl⟩ := Prod.mk.inj (Except.ok.inj hret)
      obtain ⟨vs, rfl, hvs⟩ := parseAdd_sound hexpr toks right rest' hright
      refine ⟨us ++ ⟨.op o, p⟩ :: vs, by simp, ?_⟩
      simpa using Derives.cmp ho hus hvs
    · obtain ⟨rfl, rfl⟩ := Prod.mk.inj (Except.ok.inj htail)
      exact ⟨us, rfl, .ofAdd hus⟩
  next p toks =>
    obtain ⟨⟨right, rest'⟩, hright, hret⟩ := bind_eq_ok.mp htail
    split at hret
    next items hitems =>
      obtain ⟨rfl, rfl⟩ := Prod.mk.inj (Except.ok.inj hret)
      obtain ⟨vs, rfl, hvs⟩ := parseAdd_sound hexpr toks right rest' hright
      obtain rfl : right = .list items := hitems
      refine ⟨us ++ ⟨.in_, p⟩ :: vs, by simp, ?_⟩
      simpa using Derives.in_ hus hvs
    next => cases hret
  next =>
    obtain ⟨rfl, rfl⟩ := Prod.mk.inj (Except.ok.inj htail)
    exact ⟨us, rfl, .ofAdd hus⟩

theorem parseNot_sound (hexpr : SoundAt .or expr) : SoundAt .not (parseNot endPos expr) := by
  refine Sound.prefixed (parseCmp_sound hexpr) (fun _ _ h ↦ .ofCmp h) ?_
  intro t f us e hop he
  obtain ⟨ht, rfl⟩ := notOp_eq_some hop
  rw [plain_cons, ht]
  exact .not he

theorem parseAnd_sound (hexpr : SoundAt .or expr) : SoundAt .and (parseAnd endPos expr) := by
  refine Sound.chain (parseNot_sound hexpr) (fun _ _ h ↦ .ofNot h) ?_
  intro us l t f vs r hl hop hr
  obtain ⟨ht, rfl⟩ := andOp_eq_some hop
  rw [plain_append, plain_cons, ht]
  exact .and hl hr

theorem parseOr_sound (hexpr : SoundAt .or expr) : SoundAt .or (parseOr endPos expr) := by
  refine Sound.chain (parseAnd_sound hexpr) (fun _ _ h ↦ .ofAnd h) ?_
  intro us l t f vs r hl hop hr
  obtain ⟨ht, rfl⟩ := orOp_eq_some hop
  rw [plain_append, plain_cons, ht]
  exact .or hl hr

theorem parseExpr_sound (n : ℕ) : SoundAt .or (parseExpr endPos n : ExprParser ν) := by
  induction n with
  | zero =>
    intro toks e rest h
    cases h
  | succ n ih => exact parseOr_sound ih

theorem parse_sound {toks : Tokens ν} {e : Expr ν} (h : parse endPos toks = .ok e) :
    Derives true .or (plain toks) e := by
  obtain ⟨⟨e', rest⟩, he, hret⟩ := bind_eq_ok.mp h
  obtain ⟨us, rfl, hus⟩ := parseExpr_sound _ toks e' rest he
  cases rest with
  | nil =>
    rw [List.append_nil, ← Except.ok.inj hret]
    exact hus
  | cons t rest => cases hret

end Soundness

end SauronId.Expression
