import LetWhile.Java.Reserved
import LetWhile.Scope.Basic
import LetWhile.Typed.Basic

/-!
# Checking programs

`Program.check` gives every expression its type or finds the first rule that the program breaks.
Variables are defined in the innermost frame of a scope, in the order in which the program declares
them. Blocks open no frame of their own: a variable declared in one stays defined behind it. A
program that is rejected leaves the scope with the variables that were declared up to there.
-/

namespace LetWhile

/-- A rule that a program breaks. -/
inductive TypeFault where
  | unknownType (name : String)
  | voidVariable (name : String)
  | reservedName (name : String)
  | scope (error : ScopeError)
  | variableMismatch (name : String) (mismatch : Mismatch)
  | argumentMismatch (index : Nat) (function : String) (mismatch : Mismatch)
  | conditionType (found : Ty)
  | integerOverflow (value : Int)
  | decimalOverflow
  | decimalUnderflow
  | unsupportedLiteral (value : Constant)
  | unknownOperator (op : String)
  | badOperand (op : String) (ty : Ty)
  | undefinedFunction (name : String)
  | wrongArity (function : String) (expected found : Nat)
  /-- The tree has a gap. -/
  | missingNode
deriving DecidableEq, Repr

/-- The wording of a broken rule. -/
def TypeFault.message : TypeFault → String
  | .unknownType name => "unknown type " ++ name
  | .voidVariable name => "variable " ++ name ++ " cannot have type VOID"
  | .reservedName name => "variable name " ++ name ++ " is reserved in Java"
  | .scope error => error.message
  | .variableMismatch name mismatch => "variable " ++ name ++ ": " ++ mismatch.message
  | .argumentMismatch index function mismatch =>
    "argument " ++ toString index ++ " of " ++ function ++ ": " ++ mismatch.message
  | .conditionType found => "condition must be BOOLEAN, found " ++ found.name
  | .integerOverflow value => "integer literal " ++ toString value ++ " overflows INTEGER"
  | .decimalOverflow => "decimal literal overflows DECIMAL"
  | .decimalUnderflow => "decimal literal underflows DECIMAL"
  | .unsupportedLiteral value => "unsupported literal value " ++ value.kindName
  | .unknownOperator op => "unknown operator " ++ op
  | .badOperand op ty => "operator " ++ op ++ " cannot be applied to " ++ ty.name
  | .undefinedFunction name => "function " ++ name ++ " is not defined"
  | .wrongArity function expected found =>
    "function " ++ function ++ " expects " ++ toString expected ++ " argument(s), found " ++
      toString found
  | .missingNode => "a part of the program is missing"

/-- A broken rule and the place where it was broken. -/
structure TypeError where
  pos : Position
  fault : TypeFault
deriving DecidableEq, Repr

namespace TypeError

/-- The wording of an error, without its place. -/
def detail (e : TypeError) : String :=
  e.fault.message

/-- The wording of an error. A place in no line is not named. -/
def message (e : TypeError) : String :=
  if e.pos.line = 0 then e.detail else e.pos.label ++ e.detail

end TypeError

namespace Check

/-- Breaks a rule at a place. -/
def reject {α : Type} (pos : Position) (fault : TypeFault) : Except TypeError α :=
  .error { pos, fault }

/-- The value and the type of a literal. Integers must fit in 32 bits. Decimals are rounded to
doubles; one that is too large to round to a finite double, or too small to round to a normal one,
is refused. -/
def literal (pos : Position) (value : Constant) : Except TypeError Typed.Expr :=
  match value with
  | .bool b => .ok (.literal .boolean (.bool b) pos)
  | .text s => .ok (.literal .string (.text s) pos)
  | .stray s => .ok (.literal .string (.stray s) pos)
  | .integer n =>
    if -0x80000000 ≤ n ∧ n < 0x80000000 then .ok (.literal .integer (.int32 (Int32.ofInt n)) pos)
    else reject pos (.integerOverflow n)
  | .ratio q =>
    let x := Binary64.ofRat q
    if x.isInfinite then reject pos .decimalOverflow
    else if q ≠ 0 ∧ x.code < Binary64.binade then reject pos .decimalUnderflow
    else .ok (.literal .decimal (.double x) pos)
  | value => reject pos (.unsupportedLiteral value)

/-- The type of an operator applied to operands of two types. Everything can be compared. A text
can be joined with anything that has a value, and numbers can be calculated with. -/
def binaryType (op : String) (left right : Ty) : Except TypeFault Ty :=
  if op = "==" ∨ op = "!=" then .ok .boolean
  else if op ≠ "+" ∧ op ≠ "-" ∧ op ≠ "*" ∧ op ≠ "/" then .error (.unknownOperator op)
  else if left = .boolean ∨ left = .void then .error (.badOperand op left)
  else if right = .boolean ∨ right = .void then .error (.badOperand op right)
  else if left = .string ∨ right = .string then
    if op = "+" then .ok .string else .error (.badOperand op .string)
  else if !left.isNumeric then .error (.badOperand op left)
  else if !right.isNumeric then .error (.badOperand op right)
  else if left = .decimal ∨ right = .decimal then .ok .decimal
  else .ok .integer

mutual

/-- Gives an expression its type. -/
def expr (lib : Library) (scope : Scope) : Expr → Except TypeError Typed.Expr
  | .missing => reject {} .missingNode
  | .literal value pos => literal pos value
  | .group inner pos => do
    let inner ← expr lib scope inner
    return .group inner.ty inner pos
  | .binary op left right pos => do
    let left ← expr lib scope left
    let right ← expr lib scope right
    match binaryType op left.ty right.ty with
    | .ok ty => return .binary ty op left right pos
    | .error fault => reject pos fault
  | .var name pos =>
    match scope.lookup name with
    | .ok ty => .ok (.var ty name pos)
    | .error e => reject pos (.scope e)
  | .call name args pos =>
    match lib.find? name with
    | none => reject pos (.undefinedFunction name)
    | some f =>
      if args.length = f.arity then do
        let args ← arguments lib scope name 1 args f.params
        return .call f args pos
      else reject pos (.wrongArity name f.arity args.length)

/-- Gives the arguments of a call of `function` their types, the first of which has the number
`index`, and compares them with the types of the parameters. -/
def arguments (lib : Library) (scope : Scope) (function : String) (index : Nat) :
    List Expr → List Ty → Except TypeError (List Typed.Expr)
  | [], _ => .ok []
  | _ :: _, [] => .ok []
  | arg :: args, param :: params => do
    let first ← expr lib scope arg
    match first.ty.mismatch? param with
    | some m => reject arg.pos (.argumentMismatch index function m)
    | none =>
      let rest ← arguments lib scope function (index + 1) args params
      return first :: rest

end

/-- Gives a condition its type, which must be Boolean. -/
def condition (lib : Library) (scope : Scope) (cond : Expr) : Except TypeError Typed.Expr := do
  let checked ← expr lib scope cond
  if checked.ty = .boolean then return checked
  else reject cond.pos (.conditionType checked.ty)

/-- Checks the initial value of a variable, if it has one, against the type of the variable. -/
def initial (lib : Library) (scope : Scope) (name : String) (ty : Ty) (pos : Position) :
    Option Expr → Except TypeError (Option Typed.Expr)
  | none => .ok none
  | some init => do
    let checked ← expr lib scope init
    match checked.ty.mismatch? ty with
    | some m => reject pos (.variableMismatch name m)
    | none => return some checked

/-- Checks a declaration and defines its variable. The initial value is checked first, so it cannot
use the variable. -/
def declaration (lib : Library) (scope : Scope) (name typeName : String) (init : Option Expr)
    (pos : Position) : Except TypeError (Typed.Stmt × Scope) :=
  match Ty.ofName? typeName with
  | none => reject pos (.unknownType typeName)
  | some ty =>
    if ty = .void then reject pos (.voidVariable name)
    else if Java.isReserved name then reject pos (.reservedName name)
    else do
      let init ← initial lib scope name ty pos init
      match scope.define name ty with
      | .ok scope => return (.declare name ty init pos, scope)
      | .error e => reject pos (.scope e)

/-- Checks an assignment. -/
def assignment (lib : Library) (scope : Scope) (name : String) (value : Expr) (pos : Position) :
    Except TypeError Typed.Stmt :=
  match scope.lookup name with
  | .error e => reject pos (.scope e)
  | .ok ty => do
    let checked ← expr lib scope value
    match checked.ty.mismatch? ty with
    | some m => reject pos (.variableMismatch name m)
    | none => return .assign name checked pos

mutual

/-- Checks a statement. The second component is the scope behind it, or where checking stopped. -/
def stmt (lib : Library) (scope : Scope) : Stmt → Except TypeError Typed.Stmt × Scope
  | .missing => (reject {} .missingNode, scope)
  | .expr value pos =>
    match expr lib scope value with
    | .error e => (.error e, scope)
    | .ok value => (.ok (.expr value pos), scope)
  | .declare name typeName init pos =>
    match declaration lib scope name typeName init pos with
    | .error e => (.error e, scope)
    | .ok (s, scope) => (.ok s, scope)
  | .assign name value pos => (assignment lib scope name value pos, scope)
  | .branch cond yes no pos =>
    match condition lib scope cond with
    | .error e => (.error e, scope)
    | .ok cond =>
      match block lib scope yes with
      | (.error e, scope) => (.error e, scope)
      | (.ok yes, scope) =>
        match block lib scope no with
        | (.error e, scope) => (.error e, scope)
        | (.ok no, scope) => (.ok (.branch cond yes no pos), scope)
  | .loop cond body pos =>
    match condition lib scope cond with
    | .error e => (.error e, scope)
    | .ok cond =>
      match block lib scope body with
      | (.error e, scope) => (.error e, scope)
      | (.ok body, scope) => (.ok (.loop cond body pos), scope)

/-- Checks statements one after the other. -/
def block (lib : Library) (scope : Scope) :
    List Stmt → Except TypeError (List Typed.Stmt) × Scope
  | [] => (.ok [], scope)
  | first :: rest =>
    match stmt lib scope first with
    | (.error e, scope) => (.error e, scope)
    | (.ok first, scope) =>
      match block lib scope rest with
      | (.error e, scope) => (.error e, scope)
      | (.ok rest, scope) => (.ok (first :: rest), scope)

end

end Check

/-- Checks a program, and gives the scope behind it or where checking stopped. -/
def Program.check (lib : Library) (scope : Scope) (program : Program) :
    Except TypeError Typed.Program × Scope :=
  Check.block lib scope program

end LetWhile
