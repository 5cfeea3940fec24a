import LetWhile.Gap
import LetWhile.Number.Scientific
import LetWhile.Typed.Basic

/-!
# Checked programs as Java

A program becomes the body of the main method of one class. The six operators have the same
precedence in Java, so an expression needs no parentheses but those of the program. The text is
given as a list of lines, each with its line feed: a line is what is written at once.
-/

namespace LetWhile.Java

/-- The shape of the generated program. -/
structure Options where
  /-- The name of the class; when it is empty, the default is used. -/
  className : String := "Main"
  /-- The number of spaces that a level is indented by; a negative one counts as none. -/
  indent : Int := 4
deriving DecidableEq, Repr

/-- The name of the class that is written. -/
def Options.name (o : Options) : String :=
  if o.className = "" then "Main" else o.className

/-- The number of spaces of a level. -/
def Options.width (o : Options) : Nat := o.indent.toNat

/-- A character inside a string literal. -/
def escapeChar (c : Char) : List Char :=
  match c with
  | '\\' => ['\\', '\\']
  | '"' => ['\\', '"']
  | '\n' => ['\\', 'n']
  | '\r' => ['\\', 'r']
  | '\t' => ['\\', 't']
  | '\x08' => ['\\', 'b']
  | c => [c]

/-- A string literal. -/
def stringLiteral (s : String) : String :=
  String.ofList ('"' :: s.toList.flatMap escapeChar ++ ['"'])

/-- A double literal. It has a point or an exponent, as it would be an integer without. -/
def doubleLiteral (x : Binary64) : String :=
  let text := x.text
  if text.toList.any fun c => c = '.' || c = 'e' then text else text ++ ".0"

/-- A literal. The lines of a program are texts, so the stray bytes of a literal are shown by the
replacement character. -/
def literal : Constant → Except Gap String
  | .bool b => .ok (if b then "true" else "false")
  | .int32 n => .ok (toString n.toInt)
  | .double x => .ok (doubleLiteral x)
  | .text s => .ok (stringLiteral s)
  | .stray s => .ok (stringLiteral (shownText s.bytes))
  | value => .error (.literal value)

mutual

/-- An expression. -/
def expr : Typed.Expr → Except Gap String
  | .missing => .error .expression
  | .literal _ value _ => literal value
  | .group _ inner _ => do
    let inner ← expr inner
    return "(" ++ inner ++ ")"
  | .binary _ op left right _ => do
    let left ← expr left
    let right ← expr right
    return left ++ " " ++ op ++ " " ++ right
  | .var _ name _ => .ok name
  | .call function args _ => do
    let args ← exprs args
    return function.java ++ "(" ++ ", ".intercalate args ++ ")"

/-- Expressions one by one. -/
def exprs : List Typed.Expr → Except Gap (List String)
  | [] => .ok []
  | first :: rest => do
    let first ← expr first
    let rest ← exprs rest
    return first :: rest

end

/-- A line of text behind `spaces` spaces. -/
def line (spaces : Nat) (text : String) : String :=
  String.ofList (List.replicate spaces ' ') ++ text ++ "\n"

mutual

/-- The lines of a statement behind `spaces` spaces; its blocks are indented by `width` more. -/
def stmt (width spaces : Nat) : Typed.Stmt → Except Gap (List String)
  | .missing => .error .statement
  | .expr value _ => do
    let value ← expr value
    return [line spaces (value ++ ";")]
  | .declare name ty none _ => .ok [line spaces (ty.java ++ " " ++ name ++ ";")]
  | .declare name ty (some init) _ => do
    let init ← expr init
    return [line spaces (ty.java ++ " " ++ name ++ " = " ++ init ++ ";")]
  | .assign name value _ => do
    let value ← expr value
    return [line spaces (name ++ " = " ++ value ++ ";")]
  | .branch cond yes no _ => do
    let cond ← expr cond
    let yes ← stmts width (spaces + width) yes
    let no ← elseBlock width spaces no
    return line spaces ("if (" ++ cond ++ ") \x7b") :: yes ++ no ++ [line spaces "\x7d"]
  | .loop cond body _ => do
    let cond ← expr cond
    let body ← stmts width (spaces + width) body
    return line spaces ("while (" ++ cond ++ ") \x7b") :: body ++ [line spaces "\x7d"]

/-- The lines of statements. -/
def stmts (width spaces : Nat) : List Typed.Stmt → Except Gap (List String)
  | [] => .ok []
  | first :: rest => do
    let first ← stmt width spaces first
    let rest ← stmts width spaces rest
    return first ++ rest

/-- The lines of an else block; an empty one is left out. -/
def elseBlock (width spaces : Nat) : List Typed.Stmt → Except Gap (List String)
  | [] => .ok []
  | first :: rest => do
    let first ← stmt width (spaces + width) first
    let rest ← stmts width (spaces + width) rest
    return line spaces "\x7d else \x7b" :: first ++ rest

end

/-- The lines of statements without a class around them. -/
def statements (o : Options) (ss : List Typed.Stmt) : Except Gap (List String) :=
  stmts o.width 0 ss

/-- The lines of a whole program. -/
def program (o : Options) (p : Typed.Program) : Except Gap (List String) := do
  let body ← stmts o.width (2 * o.width) p
  return [line 0 ("public class " ++ o.name ++ " \x7b"), "\n",
      line o.width "public static void main(String[] args) \x7b"] ++
    body ++ [line o.width "\x7d", "\n", line 0 "\x7d"]

/-- The text of lines. -/
def text (lines : List String) : String :=
  String.join lines

end LetWhile.Java
