import SauronId.Expression.Syntax
import SauronId.Policy.Compiler

namespace SauronId.Expression

open Lib
open Policy (distinctRoleSignatures EvaluationContext Binding Verdict)

variable {ν : Type}

/-- The floating-point numbers of the evaluator, as far as it uses them. -/
structure Arithmetic (ν : Type) where
  (add sub : ν → ν → ν)
  neg : ν → ν
  (eq lt le : ν → ν → Bool)
  isFinite : ν → Bool
  ofInt : ℤ → ν
  ofRat : ℚ → ν
  display : ν → String

/-- The value of an expression. `null` is an optional field that is absent. -/
inductive Value (ν : Type)
  | num (value : ν)
  | str (value : String)
  | bool (value : Bool)
  | list (items : List (Value ν))
  | null

def Value.tag : Value ν → String
  | .num _ => "Num"
  | .str _ => "Str"
  | .bool _ => "Bool"
  | .list _ => "List"
  | .null => "Null"

mutual

def Value.same (A : Arithmetic ν) : Value ν → Value ν → Bool
  | .num a, .num b => A.eq a b
  | .str a, .str b => a = b
  | .bool a, .bool b => a = b
  | .list as, .list bs => Value.sameList A as bs
  | .null, .null => true
  | _, _ => false

def Value.sameList (A : Arithmetic ν) : List (Value ν) → List (Value ν) → Bool
  | [], [] => true
  | a :: as, b :: bs => Value.same A a b && Value.sameList A as bs
  | _, _ => false

end

/-- The fields of the action, of the context and of the binding that an
expression can refer to. -/
structure EvalEnv (ν : Type) where
  tool : String
  amountUsd : Option ν
  dataClassification : Option String
  signatures : List String
  delegationDepth : ℕ
  timestamp : ℤ
  metadata : List (String × Json)
  spendTotalUsd : ν
  maxBudgetUsd : Option ν
  nowEpoch : ℤ

inductive EvalError
  | unknownIdent (name : String)
  | unknownFunction (name : String)
  | typeError (message : String)
  | badArgs (func message : String)
  deriving DecidableEq

def EvalError.display : EvalError → String
  | .unknownIdent n => "unknown identifier '" ++ n ++ "'"
  | .unknownFunction n => "unknown function '" ++ n ++ "'"
  | .typeError m => "type error: " ++ m
  | .badArgs func m => "bad arguments to " ++ func ++ ": " ++ m

def BinOp.debug : BinOp → String
  | .eq => "Eq"
  | .neq => "Neq"
  | .lt => "Lt"
  | .lte => "Lte"
  | .gt => "Gt"
  | .gte => "Gte"
  | .add => "Add"
  | .sub => "Sub"
  | .and => "And"
  | .or => "Or"

section Operators

variable (A : Arithmetic ν)

def eqNeq (negate : Bool) (l r : Value ν) : Except EvalError (Value ν) :=
  let answer (eq : Bool) : Except EvalError (Value ν) := .ok (.bool (if negate then !eq else eq))
  match l, r with
  | .num a, .num b => answer (A.eq a b)
  | .str a, .str b => answer (a = b)
  | .bool a, .bool b => answer (a = b)
  | .null, .null => answer true
  | l, r => .error (.typeError ("cannot compare " ++ l.tag ++ " and " ++ r.tag ++ " with ==/!="))

def twoNums (op : BinOp) (refusal : String) (l r : Value ν) : Except EvalError (ν × ν) :=
  match l, r with
  | .num a, .num b =>
    if A.isFinite a = true ∧ A.isFinite b = true then .ok (a, b)
    else .error (.typeError (op.debug ++ " on non-finite number (" ++ A.display a ++ " vs " ++
      A.display b ++ ") — refusing to " ++ refusal ++ " (fail-closed)"))
  | l, r => .error (.typeError (op.debug ++ " expects two Num, got " ++ l.tag ++ " and " ++ r.tag))

def numCmp (op : BinOp) (compare : ν → ν → Bool) (l r : Value ν) : Except EvalError (Value ν) := do
  let (a, b) ← twoNums A op "order" l r
  .ok (.bool (compare a b))

def numArith (op : BinOp) (compute : ν → ν → ν) (l r : Value ν) : Except EvalError (Value ν) := do
  let (a, b) ← twoNums A op "compute" l r
  let out := compute a b
  if A.isFinite out = true then .ok (.num out)
  else .error (.typeError (op.debug ++ " produced non-finite result (" ++ A.display out ++
    ") — refusing (fail-closed)"))

def boolBin (op : BinOp) (combine : Bool → Bool → Bool) (l r : Value ν) :
    Except EvalError (Value ν) :=
  match l, r with
  | .bool a, .bool b => .ok (.bool (combine a b))
  | l, r => .error (.typeError (op.debug ++ " expects two Bool, got " ++ l.tag ++ " and " ++ r.tag))

def applyBinary (op : BinOp) (l r : Value ν) : Except EvalError (Value ν) :=
  match op with
  | .eq => eqNeq A false l r
  | .neq => eqNeq A true l r
  | .lt => numCmp A op A.lt l r
  | .lte => numCmp A op A.le l r
  | .gt => numCmp A op (fun a b ↦ A.lt b a) l r
  | .gte => numCmp A op (fun a b ↦ A.le b a) l r
  | .add => numArith A op A.add l r
  | .sub => numArith A op A.sub l r
  | .and => boolBin op and l r
  | .or => boolBin op or l r

def applyUnary (op : UnaryOp) (v : Value ν) : Except EvalError (Value ν) :=
  match op, v with
  | .not, .bool b => .ok (.bool (!b))
  | .not, other => .error (.typeError ("`!` expects Bool, got " ++ other.tag))
  | .neg, .num n => .ok (.num (A.neg n))
  | .neg, other => .error (.typeError ("unary `-` expects Num, got " ++ other.tag))

def applyIn (v list : Value ν) : Except EvalError (Value ν) :=
  match list with
  | .list items =>
    match v with
    | .null => .ok (.bool true)
    | v => .ok (.bool (items.any (fun x ↦ Value.same A x v)))
  | other => .error (.typeError ("`in` expects List on rhs, got " ++ other.tag))

end Operators

section Environment

variable (A : Arithmetic ν) (env : EvalEnv ν)

def EvalEnv.text (name : String) : Option String := (env.metadata.lookup name).bind Json.asStr

def ofOption {α : Type} (wrap : α → Value ν) (o : Option α) : Value ν := o.elim .null wrap

def resolveIdent (name : String) : Except EvalError (Value ν) :=
  match name with
  | "spend_total" | "spend_total_usd" => .ok (.num env.spendTotalUsd)
  | "now" => .ok (.num (A.ofInt env.nowEpoch))
  | "max_budget_usd" => .ok (ofOption .num env.maxBudgetUsd)
  | "tool" | "action.tool" => .ok (.str env.tool)
  | "amount_usd" | "action.amount_usd" => .ok (ofOption .num env.amountUsd)
  | "data_classification" | "action.data_classification" =>
    .ok (ofOption .str env.dataClassification)
  | "action.signatures" | "signatures" => .ok (.list (env.signatures.map .str))
  | "delegation_depth" | "action.delegation_depth" => .ok (.num (A.ofInt env.delegationDepth))
  | "timestamp" | "action.timestamp" => .ok (.num (A.ofInt env.timestamp))
  | "payment_currency" =>
    .ok (ofOption .str (((env.metadata.lookup "payment_currency").or
      (env.metadata.lookup "currency")).bind Json.asStr))
  | _ => .error (.unknownIdent name)

/-- The arguments of a call, each with what its evaluation returns. A function
looks only at those that it asks for. -/
abbrev Outcomes (ν : Type) := List (Option String × Except EvalError (Value ν))

def argValue (func keyword : String) (pos : ℕ) (args : Outcomes ν) :
    Except EvalError (Value ν) :=
  match args.find? (fun a ↦ a.1 = some keyword) with
  | some (_, r) => r
  | none =>
    match args[pos]? with
    | some (none, r) => r
    | _ => .error (.badArgs func ("missing argument '" ++ keyword ++ "'"))

def wantStr (func : String) : Value ν → Except EvalError String
  | .str s => .ok s
  | other => .error (.badArgs func ("expected Str, got " ++ other.tag))

def wantNum (func : String) : Value ν → Except EvalError ν
  | .num n =>
    if A.isFinite n = true then .ok n else .error (.badArgs func "expected finite Num")
  | other => .error (.badArgs func ("expected Num, got " ++ other.tag))

def wantStrList (func : String) : Value ν → Except EvalError (List String)
  | .list items => items.mapM (wantStr func)
  | other => .error (.badArgs func ("expected List, got " ++ other.tag))

def requireArity (func : String) (args : Outcomes ν) (want : ℕ) : Except EvalError Unit :=
  ensure (args.length = want)
    (.badArgs func ("expected " ++ toString want ++ " args, got " ++ toString args.length))

def measured (func want : String) (measure : Value ν → Option ℕ) (args : Outcomes ν) :
    Except EvalError (Value ν) := do
  requireArity func args 1
  let v ← (args.map Prod.snd).headD (.ok .null)
  match measure v with
  | some n => .ok (.num (A.ofInt n))
  | none => .error (.badArgs func ("expected " ++ want ++ ", got " ++ v.tag))

def noExternalCallTo (args : Outcomes ν) : Except EvalError (Value ν) := do
  requireArity "no_external_call_to" args 1
  let v ← argValue "no_external_call_to" "domain" 0 args
  let domain ← wantStr "no_external_call_to" v
  .ok (.bool (env.text "target_domain" ≠ some domain))

def transferRequires (args : Outcomes ν) : Except EvalError (Value ν) := do
  requireArity "transfer_requires" args 1
  let v ← argValue "transfer_requires" "roles" 0 args
  let roles ← wantStrList "transfer_requires" v
  .ok (.bool (env.amountUsd.isNone || roles.all (fun r ↦ env.signatures.contains r)))

def exportsRequireSignatures (args : Outcomes ν) : Except EvalError (Value ν) := do
  requireArity "exports_require_signatures" args 2
  let v ← argValue "exports_require_signatures" "role" 0 args
  let role ← wantStr "exports_require_signatures" v
  let w ← argValue "exports_require_signatures" "threshold" 1 args
  let threshold ← wantNum A "exports_require_signatures" w
  ensure (A.lt threshold (A.ofInt 0) = false)
    (.badArgs "exports_require_signatures" "threshold must be >= 0")
  .ok (.bool (A.le threshold (A.ofInt (distinctRoleSignatures env.signatures role))))

def toolClass (args : Outcomes ν) : Except EvalError (Value ν) := do
  requireArity "tool_class" args 1
  -- the argument is evaluated, and not used
  let _ ← argValue "tool_class" "tool" 0 args
  .ok (.str ((env.text "tool_class").getD "unknown"))

def sandboxRequired (args : Outcomes ν) : Except EvalError (Value ν) := do
  requireArity "sandbox_required" args 1
  let v ← argValue "sandbox_required" "tool" 0 args
  let tool ← wantStr "sandbox_required" v
  .ok (.bool (env.tool ≠ tool ||
    ((env.metadata.lookup "sandbox_mode").bind Json.asBool).getD false))

def call (name : String) (args : Outcomes ν) : Except EvalError (Value ν) :=
  match name with
  | "now" => do
    requireArity "now" args 0
    .ok (.num (A.ofInt env.nowEpoch))
  | "len" => measured A "len" "Str"
      (fun | .str s => some s.length | _ => none) args
  | "count" => measured A "count" "List"
      (fun | .list items => some items.length | _ => none) args
  | "no_external_call_to" => noExternalCallTo env args
  | "transfer_requires" => transferRequires env args
  | "exports_require_signatures" => exportsRequireSignatures A env args
  | "tool_class" => toolClass env args
  | "sandbox_required" => sandboxRequired env args
  | _ => .error (.unknownFunction name)

mutual

def eval : Expr ν → Except EvalError (Value ν)
  | .num n => .ok (.num n)
  | .str s => .ok (.str s)
  | .bool b => .ok (.bool b)
  | .ident name => resolveIdent A env name
  | .list items => do
    let out ← evalItems items
    .ok (.list out)
  | .binary op l r => do
    let a ← eval l
    let b ← eval r
    applyBinary A op a b
  | .unary op e => do
    let v ← eval e
    applyUnary A op v
  | .in_ lhs rhs => do
    let v ← eval lhs
    let list ← eval rhs
    applyIn A v list
  | .call name args => call A env name (evalArgs args)

def evalItems : List (Expr ν) → Except EvalError (List (Value ν))
  | [] => .ok []
  | e :: items => do
    let v ← eval e
    let out ← evalItems items
    .ok (v :: out)

def evalArgs : List (Option String × Expr ν) → Outcomes ν
  | [] => []
  | arg :: args => evalArg arg :: evalArgs args

def evalArg : Option String × Expr ν → Option String × Except EvalError (Value ν)
  | (keyword, e) => (keyword, eval e)

end

def evalPredicate (e : Expr ν) : Except EvalError Bool := do
  let v ← eval A env e
  match v with
  | .bool b => .ok b
  | v => .error (.typeError ("predicate must be Bool, got " ++ v.tag))

def expressionVerdict (src : String) (e : Expr ν) : Verdict :=
  match evalPredicate A env e with
  | .ok true => .allow
  | .ok false => .deny "invariant_expr" ("invariant violated: " ++ src)
  | .error err =>
    .deny "invariant_expr" ("invariant evaluation error in `" ++ src ++ "`: " ++ err.display)

end Environment

def EvalEnv.ofContext (A : Arithmetic ν) (ctx : EvaluationContext) (b : Binding) : EvalEnv ν where
  tool := ctx.action.tool
  amountUsd := ctx.action.amountUsd.map A.ofRat
  dataClassification := ctx.action.dataClassification
  signatures := ctx.action.signatures
  delegationDepth := ctx.action.delegationDepth
  timestamp := ctx.action.timestamp
  metadata := ctx.action.metadata
  spendTotalUsd := A.ofRat ctx.spendTotalUsd
  maxBudgetUsd := b.maxBudgetUsd.map A.ofRat
  nowEpoch := ctx.nowEpoch

def expressions (A : Arithmetic ν) (parse : String → Except String (Expr ν)) :
    Policy.Expressions where
  Expr := Expr ν
  parse := parse
  evalPredicate e ctx b :=
    (evalPredicate A (.ofContext A ctx b) e).mapError EvalError.display

theorem expressionCheck_evaluate {A : Arithmetic ν} {parse : String → Except String (Expr ν)}
    {src : String} {e : Expr ν} {b : Binding} {ctx : EvaluationContext} :
    (Policy.expressionCheck (expressions A parse) src e b).evaluate ctx =
      expressionVerdict A (.ofContext A ctx b) src e := by
  simp only [Policy.RuntimeCheck.evaluate, Policy.expressionCheck, expressions, expressionVerdict]
  cases evalPredicate A (EvalEnv.ofContext A ctx b) e with
  | error err => rfl
  | ok answer => cases answer <;> rfl

end SauronId.Expression
