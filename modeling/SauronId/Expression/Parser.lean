import SauronId.Expression.Syntax
import SauronId.Lib.Descent

namespace SauronId.Expression

open Lib.Descent

variable {ν : Type}

abbrev Tokens (ν : Type) := List (TokenWithPos ν)

abbrev ExprParser (ν : Type) := Parser (TokenWithPos ν) (ParseError ν) (Expr ν)

abbrev Arg (ν : Type) := Option String × Expr ν

def orOp (t : TokenWithPos ν) : Option (Expr ν → Expr ν → Expr ν) :=
  match t.token with
  | .or => some (.binary .or)
  | _ => none

def andOp (t : TokenWithPos ν) : Option (Expr ν → Expr ν → Expr ν) :=
  match t.token with
  | .and => some (.binary .and)
  | _ => none

def notOp (t : TokenWithPos ν) : Option (Expr ν → Expr ν) :=
  match t.token with
  | .not => some (.unary .not)
  | _ => none

def addOp (t : TokenWithPos ν) : Option (Expr ν → Expr ν → Expr ν) :=
  match t.token with
  | .op .add => some (.binary .add)
  | .op .sub => some (.binary .sub)
  | _ => none

def negOp (t : TokenWithPos ν) : Option (Expr ν → Expr ν) :=
  match t.token with
  | .op .sub => some (.unary .neg)
  | _ => none

def isComma (t : TokenWithPos ν) : Bool :=
  match t.token with
  | .comma => true
  | _ => false

def isRParen : Token ν → Bool
  | .rparen => true
  | _ => false

def isRBracket : Token ν → Bool
  | .rbracket => true
  | _ => false

-- The end of the input is at `endPos`, and `expr` is `parse_expr`, which the
-- functions below call for what is inside parentheses and brackets.
section Levels

variable (endPos : ℕ) (expr : ExprParser ν)

def position : Tokens ν → ℕ
  | [] => endPos
  | t :: _ => t.pos

def expect (want : Token ν → Bool) (what : String) :
    Tokens ν → Except (ParseError ν) (Tokens ν)
  | [] => .error (.expected what none endPos)
  | t :: toks =>
    if want t.token = true then .ok toks else .error (.expected what (some t.token) t.pos)

def parseItems : Parser (TokenWithPos ν) (ParseError ν) (List (Expr ν)) := fun toks ↦
  sepBy isComma (fun _ : Unit ↦ expr) (fun _ _ ↦ ()) toks.length () toks

def parseArg (seenKwarg : Bool) : Parser (TokenWithPos ν) (ParseError ν) (Arg ν)
  | ⟨.ident name, _⟩ :: ⟨.colon, _⟩ :: toks => do
    let (v, rest) ← expr toks
    .ok ((some name, v), rest)
  | toks =>
    if seenKwarg = true then .error (.positionalAfterKwarg (position endPos toks))
    else do
      let (v, rest) ← expr toks
      .ok ((none, v), rest)

def parseCallArgs : Parser (TokenWithPos ν) (ParseError ν) (List (Arg ν))
  | ⟨.rparen, p⟩ :: toks => .ok ([], ⟨.rparen, p⟩ :: toks)
  | toks =>
    sepBy isComma (parseArg endPos expr) (fun seen arg ↦ seen || arg.1.isSome) toks.length false
      toks

def ofTuple : List (Expr ν) → Expr ν
  | [e] => e
  | items => .list items

def parsePrimary : ExprParser ν
  | [] => .error (.unexpectedEof endPos)
  | ⟨.num n, _⟩ :: toks => .ok (.num n, toks)
  | ⟨.str s, _⟩ :: toks => .ok (.str s, toks)
  | ⟨.true_, _⟩ :: toks => .ok (.bool true, toks)
  | ⟨.false_, _⟩ :: toks => .ok (.bool false, toks)
  | ⟨.lparen, _⟩ :: toks => do
    let (items, rest) ← parseItems expr toks
    let rest ← expect endPos isRParen "')'" rest
    .ok (ofTuple items, rest)
  | ⟨.lbracket, _⟩ :: ⟨.rbracket, _⟩ :: toks => .ok (.list [], toks)
  | ⟨.lbracket, _⟩ :: toks => do
    let (items, rest) ← parseItems expr toks
    let rest ← expect endPos isRBracket "']'" rest
    .ok (.list items, rest)
  | ⟨.ident name, _⟩ :: ⟨.lparen, _⟩ :: toks => do
    let (args, rest) ← parseCallArgs endPos expr toks
    let rest ← expect endPos isRParen "')'" rest
    .ok (.call name args, rest)
  | ⟨.ident name, _⟩ :: toks => .ok (.ident name, toks)
  | t :: _ => .error (.expected "expression" (some t.token) t.pos)

def parseUnary : ExprParser ν := prefixed negOp (parsePrimary endPos expr)

def parseAdd : ExprParser ν := chain addOp (parseUnary endPos expr)

def parseCmpTail (left : Expr ν) : ExprParser ν
  | ⟨.op o, p⟩ :: toks =>
    if isCmp o = true then do
      let (right, rest) ← parseAdd endPos expr toks
      .ok (.binary o left right, rest)
    else .ok (left, ⟨.op o, p⟩ :: toks)
  | ⟨.in_, p⟩ :: toks => do
    let (right, rest) ← parseAdd endPos expr toks
    match right with
    | .list items => .ok (.in_ left (.list items), rest)
    | _ => .error (.inRhsNotList p)
  | toks => .ok (left, toks)

def parseCmp : ExprParser ν := fun toks ↦ do
  let (left, rest) ← parseAdd endPos expr toks
  parseCmpTail endPos expr left rest

def parseNot : ExprParser ν := prefixed notOp (parseCmp endPos expr)

def parseAnd : ExprParser ν := chain andOp (parseNot endPos expr)

def parseOr : ExprParser ν := chain orOp (parseAnd endPos expr)

end Levels

/-- `parse_expr` on at most `n` tokens. With no tokens left every level comes
down to the primary at the end of the input. -/
def parseExpr (endPos : ℕ) : ℕ → ExprParser ν
  | 0 => fun _ ↦ .error (.unexpectedEof endPos)
  | n + 1 => parseOr endPos (parseExpr endPos n)

def parse (endPos : ℕ) (toks : Tokens ν) : Except (ParseError ν) (Expr ν) := do
  let (e, rest) ← parseExpr endPos toks.length toks
  match rest with
  | [] => .ok e
  | t :: _ => .error (.expected "end of input" (some t.token) t.pos)

end SauronId.Expression
