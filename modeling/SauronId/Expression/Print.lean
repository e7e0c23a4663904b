import SauronId.Expression.Completeness
import Mathlib.Logic.Function.Iterate

namespace SauronId.Expression

variable {ν : Type}

def opToken : BinOp → Token ν
  | .and => .and
  | .or => .or
  | o => .op o

def opLevel : BinOp → Level
  | .or => .or
  | .and => .and
  | .add | .sub => .add
  | _ => .cmp

def leftLevel : BinOp → Level
  | .or => .or
  | .and => .and
  | _ => .add

def rightLevel : BinOp → Level
  | .or => .and
  | .and => .not
  | .add | .sub => .unary
  | _ => .add

def parenthesize (own l : Level) (ts : List (Token ν)) : List (Token ν) :=
  if own.rank ≤ l.rank then ts else .lparen :: (ts ++ [.rparen])

mutual

def print : Expr ν → Level → List (Token ν)
  | .ident name, _ => [.ident name]
  | .num value, _ => [.num value]
  | .str value, _ => [.str value]
  | .bool true, _ => [.true_]
  | .bool false, _ => [.false_]
  | .list items, _ => .lbracket :: (printItems items ++ [.rbracket])
  | .binary op a b, l =>
    parenthesize (opLevel op) l (print a (leftLevel op) ++ opToken op :: print b (rightLevel op))
  | .unary .not e, l => parenthesize .not l (.not :: print e .not)
  | .unary .neg e, l => parenthesize .unary l (.op .sub :: print e .unary)
  | .in_ a b, l => parenthesize .cmp l (print a .add ++ .in_ :: print b .add)
  | .call name args, _ => .ident name :: .lparen :: (printArgs args ++ [.rparen])

def printItems : List (Expr ν) → List (Token ν)
  | [] => []
  | e :: items => print e .or ++ printMoreItems items

def printMoreItems : List (Expr ν) → List (Token ν)
  | [] => []
  | e :: items => .comma :: (print e .or ++ printMoreItems items)

def printArg : Option String × Expr ν → List (Token ν)
  | (none, e) => print e .or
  | (some name, e) => .ident name :: .colon :: print e .or

def printArgs : List (Option String × Expr ν) → List (Token ν)
  | [] => []
  | arg :: args => printArg arg ++ printMoreArgs args

def printMoreArgs : List (Option String × Expr ν) → List (Token ν)
  | [] => []
  | arg :: args => .comma :: (printArg arg ++ printMoreArgs args)

end

section Loosen

variable {b : Bool} {ts : List (Token ν)} {e : Expr ν}

def Level.looser : Level → Level
  | .primary => .unary
  | .unary => .add
  | .add => .cmp
  | .cmp => .not
  | .not => .and
  | .and | .or => .or

theorem Level.eq_iterate_looser {l m : Level} (h : l.rank ≤ m.rank) :
    m = Level.looser^[m.rank - l.rank] l := by
  cases l <;> cases m <;> first | rfl | exact absurd h (by decide)

theorem Derives.looser {l : Level} (h : Derives b l ts e) : Derives b l.looser ts e := by
  cases l with
  | primary => exact .ofPrimary h
  | unary => exact .ofUnary h
  | add => exact .ofAdd h
  | cmp => exact .ofCmp h
  | not => exact .ofNot h
  | and => exact .ofAnd h
  | or => exact h

theorem Derives.loosen {l m : Level} (h : Derives b l ts e) (hlm : l.rank ≤ m.rank) :
    Derives b m ts e := by
  rw [Level.eq_iterate_looser hlm]
  exact Function.Iterate.rec (fun l ↦ Derives b l ts e) h (fun _ ↦ Derives.looser) _

theorem Derives.parenthesize {own : Level} (h : Derives b own ts e) (m : Level) :
    Derives b m (parenthesize own m ts) e := by
  unfold Expression.parenthesize
  split_ifs with hle
  · exact h.loosen hle
  · have hor : Derives b .or ts e := h.loosen (by cases own <;> decide)
    exact Derives.loosen (.group hor) (Nat.zero_le _)

end Loosen

theorem derives_printMoreItems {ts : List (Token ν)} {e : Expr ν} {items : List (Expr ν)}
    (h : Derives true .or ts e) (hitems : items ≠ [] → DerivesItems true (printItems items) items) :
    DerivesItems true (ts ++ printMoreItems items) (e :: items) := by
  cases items with
  | nil =>
    rw [printMoreItems, List.append_nil]
    exact .one h
  | cons e' items => 
    rw [printMoreItems]
    exact .more h (hitems (List.cons_ne_nil _ _))

theorem derives_printMoreArgs {ts : List (Token ν)} {arg : Arg ν} {args : List (Arg ν)}
    (h : DerivesArg true ts arg) (hargs : args ≠ [] → DerivesArgs true (printArgs args) args) :
    DerivesArgs true (ts ++ printMoreArgs args) (arg :: args) := by
  cases args with
  | nil =>
    rw [printMoreArgs, List.append_nil]
    exact .one h
  | cons arg' args =>
    rw [printMoreArgs]
    exact .more h (hargs (List.cons_ne_nil _ _))

theorem derives_print_cmp {o : BinOp} {a b : Expr ν} (ho : isCmp o = true)
    (ha : Derives true .add (print a .add) a) (hb : Derives true .add (print b .add) b)
    (m : Level) : Derives true m (print (.binary o a b) m) (.binary o a b) := by
  have h := (Derives.cmp ho ha hb).parenthesize m
  cases o <;> first | exact h | cases ho

theorem derives_print_add {o : BinOp} {a b : Expr ν} (ho : o = .add ∨ o = .sub)
    (ha : Derives true .add (print a .add) a) (hb : Derives true .unary (print b .unary) b)
    (m : Level) : Derives true m (print (.binary o a b) m) (.binary o a b) := by
  have h := (Derives.add ho ha hb).parenthesize m
  obtain rfl | rfl := ho
  · exact h
  · exact h

mutual

/-- A tree that some tokens have is derived from its own print, at every level. -/
theorem Derives.print {l : Level} {ts : List (Token ν)} {e : Expr ν} :
    Derives true l ts e → ∀ m, Derives true m (print e m) e
  | .ofAnd h | .ofNot h | .ofCmp h | .ofAdd h | .ofUnary h | .ofPrimary h | .group h => h.print
  | .or h h' => (Derives.or (h.print .or) (h'.print .and)).parenthesize
  | .and h h' => (Derives.and (h.print .and) (h'.print .not)).parenthesize
  | .not h => (Derives.not (h.print .not)).parenthesize
  | .cmp ho h h' => derives_print_cmp ho (h.print .add) (h'.print .add)
  | .in_ h h' => (Derives.in_ (h.print .add) (h'.print .add)).parenthesize
  | .add ho h h' => derives_print_add ho (h.print .add) (h'.print .unary)
  | .neg h => (Derives.neg (h.print .unary)).parenthesize
  | .num => fun _ ↦ Derives.num.loosen (Nat.zero_le _)
  | .str => fun _ ↦ Derives.str.loosen (Nat.zero_le _)
  | .true_ => fun _ ↦ Derives.true_.loosen (Nat.zero_le _)
  | .false_ => fun _ ↦ Derives.false_.loosen (Nat.zero_le _)
  | .tuple h _ | .list h => fun _ ↦ (Derives.list h.print).loosen (Nat.zero_le _)
  | .emptyList _ => fun _ ↦ (Derives.emptyList rfl).loosen (Nat.zero_le _)
  | .ident => fun _ ↦ Derives.ident.loosen (Nat.zero_le _)
  | .callEmpty => fun _ ↦ Derives.callEmpty.loosen (Nat.zero_le _)
  | .call h hfirst => fun _ ↦ (Derives.call h.print hfirst).loosen (Nat.zero_le _)

theorem DerivesItems.print {ts : List (Token ν)} {items : List (Expr ν)} :
    DerivesItems true ts items → DerivesItems true (printItems items) items
  | .one h => derives_printMoreItems (h.print .or) (fun hne ↦ absurd rfl hne)
  | .more h hitems => derives_printMoreItems (h.print .or) (fun _ ↦ hitems.print)

theorem DerivesArg.print {ts : List (Token ν)} {arg : Arg ν} :
    DerivesArg true ts arg → DerivesArg true (printArg arg) arg
  | .positional h => .positional (h.print .or)
  | .kwarg h => .kwarg (h.print .or)

theorem DerivesArgs.print {ts : List (Token ν)} {args : List (Arg ν)} :
    DerivesArgs true ts args → DerivesArgs true (printArgs args) args
  | .one h => derives_printMoreArgs h.print (fun hne ↦ absurd rfl hne)
  | .more h hargs => derives_printMoreArgs h.print (fun _ ↦ hargs.print)

end

/-- The parser reads the grammar, in which brackets may be empty: it accepts a
list of tokens exactly when it is derivable, with the tree of the derivation, and
it reads the print of every tree that it returns back as that tree. -/
theorem parse_reads_grammar :
    (∀ endPos (toks : Tokens ν) e,
        parse endPos toks = .ok e ↔ Derives true .or (plain toks) e) ∧
      ∀ endPos (toks : Tokens ν) e, parse endPos toks = .ok e →
        ∀ endPos' toks', plain toks' = print e .or → parse endPos' toks' = .ok e := by
  refine ⟨fun _ _ _ ↦ parse_eq_ok, ?_⟩
  intro endPos toks e h endPos' toks' hprint
  apply parse_complete
  rw [hprint]
  exact (parse_sound h).print .or

def placed (ts : List (Token ν)) : Tokens ν := ts.zipIdx.map (fun t ↦ ⟨t.1, t.2⟩)

def mixedTokens : Tokens ℕ :=
  placed [.not, .lparen, .ident "a", .op .lt, .op .sub, .num 1, .op .add, .num 2, .rparen, .and,
    .ident "b", .in_, .lparen, .str "x", .comma, .str "y", .rparen, .or, .ident "f", .lparen,
    .num 3, .comma, .ident "k", .colon, .true_, .rparen]

def mixedTree : Expr ℕ :=
  .binary .or
    (.binary .and
      (.unary .not (.binary .lt (.ident "a")
        (.binary .add (.unary .neg (.num 1)) (.num 2))))
      (.in_ (.ident "b") (.list [.str "x", .str "y"])))
    (.call "f" [(none, .num 3), (some "k", .bool true)])

theorem parse_reads_grammar_mixed :
    parse 26 mixedTokens = .ok mixedTree ∧ Derives true .or (plain mixedTokens) mixedTree ∧
      parse 30 (placed (print mixedTree .or)) = .ok mixedTree := by
  have h : parse 26 mixedTokens = .ok mixedTree := by rfl
  have hplain : plain (placed (print mixedTree .or)) = print mixedTree .or := by rfl
  exact ⟨h, (parse_reads_grammar.1 26 mixedTokens mixedTree).mp h,
    parse_reads_grammar.2 26 mixedTokens mixedTree h 30 _ hplain⟩

theorem DerivesItems.ne_nil {b : Bool} {ts : List (Token ν)} {items : List (Expr ν)}
    (h : DerivesItems b ts items) : ts ≠ [] := by
  obtain ⟨t, us, rfl, -⟩ := h.starts
  exact List.cons_ne_nil t us

theorem append_cons_ne_pair {ts us : List (Token ν)} {x y z : Token ν} (hts : ts ≠ [])
    (hus : us ≠ []) : ts ++ x :: us ≠ [y, z] := by
  intro he
  have hlen := congrArg List.length he
  have hts' := List.length_pos_iff.mpr hts
  have hus' := List.length_pos_iff.mpr hus
  simp only [List.length_append, List.length_cons, List.length_nil] at hlen
  omega

theorem Derives.ne_emptyList {l : Level} {ts : List (Token ν)} {e : Expr ν} :
    Derives false l ts e → ts ≠ [.lbracket, .rbracket]
  | .ofAnd h | .ofNot h | .ofCmp h | .ofAdd h | .ofUnary h | .ofPrimary h => h.ne_emptyList
  | .or h h' | .and h h' | .add _ h h' | .cmp _ h h' | .in_ h h' =>
    append_cons_ne_pair h.ne_nil h'.ne_nil
  | .list h => by
    intro he
    obtain ⟨-, htail⟩ := List.cons.inj he
    have hlen := congrArg List.length htail
    have hts := List.length_pos_iff.mpr h.ne_nil
    simp only [List.length_append, List.length_cons, List.length_nil] at hlen
    omega
  | .not _ | .neg _ | .num | .str | .true_ | .false_ | .group _ | .tuple _ _ | .ident
  | .callEmpty | .call _ _ => by
    intro he
    simp at he

theorem empty_brackets_accepted :
    parse 2 ([⟨.lbracket, 0⟩, ⟨.rbracket, 1⟩] : Tokens ℕ) = .ok (.list []) ∧
      ¬∃ e, Derives false .or (plain ([⟨.lbracket, 0⟩, ⟨.rbracket, 1⟩] : Tokens ℕ)) e := by
  refine ⟨rfl, ?_⟩
  rintro ⟨e, he⟩
  exact he.ne_emptyList rfl

end SauronId.Expression
