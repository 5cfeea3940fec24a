import LetWhile.Gap
import LetWhile.Number.Scientific
import LetWhile.Text.Quoted
import LetWhile.Typed.Basic

/-!
# Programs as S-expressions

A dump shows the shape of a program, one line for each of its statements. In the dump of a checked
program every expression `e` of type `T` is written as `(the T e)`.
-/

namespace LetWhile

/-- An atom, or a list of S-expressions. -/
inductive Sexpr where
  | atom (text : String)
  | list (items : List Sexpr)
deriving Repr, Inhabited

namespace Sexpr

/-- Whether an S-expression is a list. -/
def isList : Sexpr → Bool
  | .atom _ => false
  | .list _ => true

mutual

/-- The text of an S-expression. -/
def text : Sexpr → String
  | .atom text => text
  | .list items => "(" ++ " ".intercalate (texts items) ++ ")"

/-- The texts of S-expressions one by one. -/
def texts : List Sexpr → List String
  | [] => []
  | first :: rest => first.text :: texts rest

end

/-- The texts of S-expressions, a line each. -/
def lines (items : List Sexpr) : String :=
  String.join (items.map fun s => s.text ++ "\n")

/-- A double that is a number has a point, or an exponent. -/
def double (x : Binary64) : String :=
  let text := x.text
  if text.toList.any fun c => [ '.', 'e', 'I', 'n', 'N' ].contains c then text else text ++ ".0"

/-- A rational: exact when it is whole, and else rounded to a double. -/
def ratio (q : Rat) : String :=
  if q.den = 1 then toString q.num ++ ".0" else (Binary64.ofRat q).text

/-- The text of a literal. -/
def literal : Constant → String
  | .absent => "<nil>"
  | .bool b => if b then "TRUE" else "FALSE"
  | .integer n => toString n
  | .ratio q => ratio q
  | .text s => quoted s
  | .stray s => quotedBytes s.bytes
  | .int32 n => toString n.toInt
  | .double x => double x

mutual

/-- The S-expression of an expression. -/
def ofExpr : Expr → Except Gap Sexpr
  | .missing => .error .expression
  | .literal value _ => .ok (.atom (literal value))
  | .group inner _ => do
    let inner ← ofExpr inner
    return .list [.atom "group", inner]
  | .binary op left right _ => do
    let left ← ofExpr left
    let right ← ofExpr right
    return .list [.atom op, left, right]
  | .var name _ => .ok (.atom name)
  | .call name args _ => do
    let args ← ofExprs args
    return .list (.atom "call" :: .atom name :: args)

/-- The S-expressions of expressions one by one. -/
def ofExprs : List Expr → Except Gap (List Sexpr)
  | [] => .ok []
  | first :: rest => do
    let first ← ofExpr first
    let rest ← ofExprs rest
    return first :: rest

end

mutual

/-- The S-expression of a statement. -/
def ofStmt : Stmt → Except Gap Sexpr
  | .missing => .error .statement
  | .expr value _ => do
    let value ← ofExpr value
    return .list [.atom "expr", value]
  | .declare name typeName none _ => .ok (.list [.atom "let", .atom name, .atom typeName])
  | .declare name typeName (some init) _ => do
    let init ← ofExpr init
    return .list [.atom "let", .atom name, .atom typeName, init]
  | .assign name value _ => do
    let value ← ofExpr value
    return .list [.atom "set", .atom name, value]
  | .branch cond yes no _ => do
    let cond ← ofExpr cond
    let yes ← ofStmts yes
    let no ← ofStmts no
    return .list [.atom "if", cond, .list (.atom "then" :: yes), .list (.atom "else" :: no)]
  | .loop cond body _ => do
    let cond ← ofExpr cond
    let body ← ofStmts body
    return .list [.atom "while", cond, .list (.atom "do" :: body)]

/-- The S-expressions of statements one by one. -/
def ofStmts : List Stmt → Except Gap (List Sexpr)
  | [] => .ok []
  | first :: rest => do
    let first ← ofStmt first
    let rest ← ofStmts rest
    return first :: rest

end

/-- Names the type of an S-expression. -/
def the (ty : Ty) (s : Sexpr) : Sexpr :=
  .list [.atom "the", .atom ty.name, s]

mutual

/-- The S-expression of a checked expression. -/
def ofTypedExpr : Typed.Expr → Except Gap Sexpr
  | .missing => .error .expression
  | .literal ty value _ => .ok (the ty (.atom (literal value)))
  | .group ty inner _ => do
    let inner ← ofTypedExpr inner
    return the ty (.list [.atom "group", inner])
  | .binary ty op left right _ => do
    let left ← ofTypedExpr left
    let right ← ofTypedExpr right
    return the ty (.list [.atom op, left, right])
  | .var ty name _ => .ok (the ty (.atom name))
  | .call function args _ => do
    let args ← ofTypedExprs args
    return the function.result (.list (.atom "call" :: .atom function.name :: args))

/-- The S-expressions of checked expressions one by one. -/
def ofTypedExprs : List Typed.Expr → Except Gap (List Sexpr)
  | [] => .ok []
  | first :: rest => do
    let first ← ofTypedExpr first
    let rest ← ofTypedExprs rest
    return first :: rest

end

mutual

/-- The S-expression of a checked statement. -/
def ofTypedStmt : Typed.Stmt → Except Gap Sexpr
  | .missing => .error .statement
  | .expr value _ => do
    let value ← ofTypedExpr value
    return .list [.atom "expr", value]
  | .declare name ty none _ => .ok (.list [.atom "let", .atom name, .atom ty.name])
  | .declare name ty (some init) _ => do
    let init ← ofTypedExpr init
    return .list [.atom "let", .atom name, .atom ty.name, init]
  | .assign name value _ => do
    let value ← ofTypedExpr value
    return .list [.atom "set", .atom name, value]
  | .branch cond yes no _ => do
    let cond ← ofTypedExpr cond
    let yes ← ofTypedStmts yes
    let no ← ofTypedStmts no
    return .list [.atom "if", cond, .list (.atom "then" :: yes), .list (.atom "else" :: no)]
  | .loop cond body _ => do
    let cond ← ofTypedExpr cond
    let body ← ofTypedStmts body
    return .list [.atom "while", cond, .list (.atom "do" :: body)]

/-- The S-expressions of checked statements one by one. -/
def ofTypedStmts : List Typed.Stmt → Except Gap (List Sexpr)
  | [] => .ok []
  | first :: rest => do
    let first ← ofTypedStmt first
    let rest ← ofTypedStmts rest
    return first :: rest

end

/-- The wording of a gap that was met here. -/
def gapMessage (g : Gap) : String :=
  "sexpr: " ++ g.message

end Sexpr

/-- The dump of a program. -/
def Program.dump (p : Program) : Except Gap String :=
  (Sexpr.ofStmts p).map Sexpr.lines

/-- The dump of a checked program. -/
def Typed.Program.dump (p : Typed.Program) : Except Gap String :=
  (Sexpr.ofTypedStmts p).map Sexpr.lines

end LetWhile
