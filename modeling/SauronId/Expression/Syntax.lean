namespace SauronId.Expression

inductive BinOp
  | eq
  | neq
  | lt
  | lte
  | gt
  | gte
  | add
  | sub
  | and
  | or
  deriving DecidableEq

inductive UnaryOp
  | not
  | neg
  deriving DecidableEq

/-- The tokens of an invariant expression, over the numbers that its literals
stand for. The end of the input is the end of the list. -/
inductive Token (ν : Type)
  | ident (name : String)
  | num (value : ν)
  | str (value : String)
  | lparen
  | rparen
  | lbracket
  | rbracket
  | comma
  | colon
  | op (op : BinOp)
  | in_
  | and
  | or
  | not
  | true_
  | false_

structure TokenWithPos (ν : Type) where
  token : Token ν
  pos : Nat

/-- A parsed expression. A tuple is a list, and an argument of a call may carry
the name of a keyword. -/
inductive Expr (ν : Type)
  | ident (name : String)
  | num (value : ν)
  | str (value : String)
  | bool (value : Bool)
  | list (items : List (Expr ν))
  | binary (op : BinOp) (l r : Expr ν)
  | unary (op : UnaryOp) (e : Expr ν)
  | in_ (lhs rhs : Expr ν)
  | call (name : String) (args : List (Option String × Expr ν))

/-- Why a list of tokens is not an expression. A token that was found is kept as
it is, and is absent at the end of the input. -/
inductive ParseError (ν : Type)
  | expected (what : String) (found : Option (Token ν)) (pos : Nat)
  | unexpectedEof (pos : Nat)
  | positionalAfterKwarg (pos : Nat)
  | inRhsNotList (pos : Nat)

def isCmp : BinOp → Bool
  | .eq | .neq | .lt | .lte | .gt | .gte => true
  | _ => false

end SauronId.Expression
