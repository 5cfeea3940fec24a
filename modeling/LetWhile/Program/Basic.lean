import LetWhile.Number.Binary64
import LetWhile.Position
import LetWhile.Text.Utf8

/-!
# Programs as trees

A program is a list of statements. Its literals are exact: integers of any size and rationals.
Trees and tokens can also be built by hand, so two more things can be found in a tree: a node that
was left out, and a literal that no program text denotes.
-/

namespace LetWhile

/-- The value of a literal. Program texts have Booleans, exact integers, exact rationals and texts;
checked programs have machine integers and doubles in the place of exact numbers. -/
inductive Constant where
  /-- No value at all. -/
  | absent
  | bool (b : Bool)
  | integer (n : Int)
  | ratio (q : Rat)
  | text (s : String)
  /-- A text that is not well-formed UTF-8. -/
  | stray (s : StrayText)
  | int32 (n : Int32)
  | double (x : Binary64)
deriving DecidableEq, Repr

/-- How messages name the representation of a value. -/
def Constant.kindName : Constant → String
  | .absent => "<nil>"
  | .bool _ => "bool"
  | .integer _ => "*big.Int"
  | .ratio _ => "*big.Rat"
  | .text _ => "string"
  | .stray _ => "string"
  | .int32 _ => "int32"
  | .double _ => "float64"

/-- The constant of a byte string. -/
def Constant.ofBytes (bs : List UInt8) : Constant :=
  if h : hasStray bs = true then .stray ⟨bs, h⟩ else .text (shownText bs)

/-- An expression. -/
inductive Expr where
  /-- An expression that was left out. -/
  | missing
  | literal (value : Constant) (pos : Position)
  | group (inner : Expr) (pos : Position)
  | binary (op : String) (left right : Expr) (pos : Position)
  | var (name : String) (pos : Position)
  | call (name : String) (args : List Expr) (pos : Position)
deriving Repr, Inhabited

/-- The place of an expression: an operator's for a binary one, else its first token's. -/
def Expr.pos : Expr → Position
  | .missing => {}
  | .literal _ pos => pos
  | .group _ pos => pos
  | .binary _ _ _ pos => pos
  | .var _ pos => pos
  | .call _ _ pos => pos

/-- A statement. -/
inductive Stmt where
  /-- A statement that was left out. -/
  | missing
  | expr (value : Expr) (pos : Position)
  | declare (name typeName : String) (init : Option Expr) (pos : Position)
  | assign (name : String) (value : Expr) (pos : Position)
  | branch (cond : Expr) (yes no : List Stmt) (pos : Position)
  | loop (cond : Expr) (body : List Stmt) (pos : Position)
deriving Repr, Inhabited

/-- A program is a list of statements. -/
abbrev Program := List Stmt

end LetWhile
