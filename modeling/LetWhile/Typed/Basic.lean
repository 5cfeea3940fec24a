import LetWhile.Library
import LetWhile.Program.Basic

/-!
# Checked programs as trees

The tree of a checked program has the shape of the program. Every expression carries its type,
calls carry the function that they call, and declarations carry the type that they name.
-/

namespace LetWhile.Typed

/-- An expression with its type. -/
inductive Expr where
  /-- An expression that was left out. -/
  | missing
  | literal (ty : Ty) (value : Constant) (pos : Position)
  | group (ty : Ty) (inner : Expr) (pos : Position)
  | binary (ty : Ty) (op : String) (left right : Expr) (pos : Position)
  | var (ty : Ty) (name : String) (pos : Position)
  | call (function : Function) (args : List Expr) (pos : Position)
deriving Repr, Inhabited

/-- The type of an expression; a call's is the result of its function. -/
def Expr.ty : Expr → Ty
  | .missing => .invalid
  | .literal ty _ _ => ty
  | .group ty _ _ => ty
  | .binary ty _ _ _ _ => ty
  | .var ty _ _ => ty
  | .call function _ _ => function.result

/-- The place of an expression. -/
def Expr.pos : Expr → Position
  | .missing => {}
  | .literal _ _ pos => pos
  | .group _ _ pos => pos
  | .binary _ _ _ _ pos => pos
  | .var _ _ pos => pos
  | .call _ _ pos => pos

/-- A statement with typed expressions. -/
inductive Stmt where
  /-- A statement that was left out. -/
  | missing
  | expr (value : Expr) (pos : Position)
  | declare (name : String) (ty : Ty) (init : Option Expr) (pos : Position)
  | assign (name : String) (value : Expr) (pos : Position)
  | branch (cond : Expr) (yes no : List Stmt) (pos : Position)
  | loop (cond : Expr) (body : List Stmt) (pos : Position)
deriving Repr, Inhabited

/-- A checked program is a list of statements. -/
abbrev Program := List Stmt

end LetWhile.Typed
