import LetWhile.Java.Printer
import LetWhile.Output
import LetWhile.Panic

/-!
# Writing Java

`Java.program` and `Java.statements` say which lines a program has. A pen writes them: it walks over
the tree, counts the open blocks, and hands each line to its sink at once. It keeps the first error
that a write returned, and writes nothing more after it; the walk goes on, as nothing else asks for
the error before the end.

The spaces in front of a line are built in memory before the line is written. A row of them that no
memory can hold makes the pen break off. That is taken to begin where addresses end; a machine with
less memory gives up earlier, in ways that are not described here.
-/

namespace LetWhile.Java

/-- The length of the longest row of spaces that can be built. -/
def longestRow : Nat := 0x1000000000000

/-- Builds a row of spaces. -/
def row (spaces : Nat) : Except Panic String :=
  if spaces ≤ longestRow then .ok (String.ofList (List.replicate spaces ' '))
  else .error (.row spaces)

/-- A printer at work: where it writes to, the number of spaces of a level, and the number of open
blocks. -/
structure Pen extends Writer where
  width : Nat
  depth : Nat := 0
deriving DecidableEq, Repr

/-- A part of a pen's work. What was written before it breaks off stays written. -/
abbrev Work := ExceptT Panic (StateM Pen)

/-- Writes a text as it is. -/
def put (text : String) : Work Unit :=
  modify fun pen => { pen with toWriter := pen.toWriter.write text }

/-- Writes an empty line. -/
def putBlank : Work Unit := put "\n"

/-- Writes a line behind the spaces of the open blocks. Behind an error not even the spaces are
built. -/
def putLine (text : String) : Work Unit := do
  let pen ← get
  if pen.failure.isNone then
    let spaces ← row (pen.depth * pen.width)
    put (spaces ++ text ++ "\n")

/-- Goes one level deeper. -/
def openBlock : Work Unit :=
  modify fun pen => { pen with depth := pen.depth + 1 }

/-- Comes back from a level. -/
def closeBlock : Work Unit :=
  modify fun pen => { pen with depth := pen.depth - 1 }

/-- Works inside of one block more. -/
def inBlock (work : Work Unit) : Work Unit := do
  openBlock
  work
  closeBlock

/-- The text of an expression; a gap in it makes the pen break off. -/
def textOf (e : Typed.Expr) : Work String :=
  match expr e with
  | .ok text => pure text
  | .error g => throw (.gap g)

mutual

/-- Writes a statement. -/
def putStmt : Typed.Stmt → Work Unit
  | .missing => throw (.gap .statement)
  | .expr value _ => do
    let value ← textOf value
    putLine (value ++ ";")
  | .declare name ty none _ => putLine (ty.java ++ " " ++ name ++ ";")
  | .declare name ty (some init) _ => do
    let init ← textOf init
    putLine (ty.java ++ " " ++ name ++ " = " ++ init ++ ";")
  | .assign name value _ => do
    let value ← textOf value
    putLine (name ++ " = " ++ value ++ ";")
  | .branch cond yes no _ => do
    let cond ← textOf cond
    putLine ("if (" ++ cond ++ ") \x7b")
    inBlock (putStmts yes)
    putElse no
    putLine "\x7d"
  | .loop cond body _ => do
    let cond ← textOf cond
    putLine ("while (" ++ cond ++ ") \x7b")
    inBlock (putStmts body)
    putLine "\x7d"

/-- Writes statements one after the other. -/
def putStmts : List Typed.Stmt → Work Unit
  | [] => pure ()
  | first :: rest => do
    putStmt first
    putStmts rest

/-- Writes an else block, unless it is empty. -/
def putElse : List Typed.Stmt → Work Unit
  | [] => pure ()
  | first :: rest => do
    putLine "\x7d else \x7b"
    inBlock do
      putStmt first
      putStmts rest

end

/-- Writes a class with a main method around statements. -/
def putClass (name : String) (p : Typed.Program) : Work Unit := do
  putLine ("public class " ++ name ++ " \x7b")
  putBlank
  inBlock do
    putLine "public static void main(String[] args) \x7b"
    inBlock (putStmts p)
    putLine "\x7d"
  putBlank
  putLine "\x7d"

/-- Does a work with a new pen, which builds the spaces of one level at once. The result is the
error that the pen kept, if it kept one. -/
def Work.into (work : Work Unit) (o : Options) (sink : Sink) :
    Except Panic (Option WriteError) × Sink :=
  match row o.width with
  | .error p => (.error p, sink)
  | .ok _ =>
    match work { sink, width := o.width } with
    | (.error p, pen) => (.error p, pen.sink)
    | (.ok (), pen) => (.ok pen.failure, pen.sink)

/-- Writes a program. -/
def generate (o : Options) (p : Typed.Program) (sink : Sink) :
    Except Panic (Option WriteError) × Sink :=
  (putClass o.name p).into o sink

/-- Writes statements without a class around them. -/
def generateStatements (o : Options) (ss : List Typed.Stmt) (sink : Sink) :
    Except Panic (Option WriteError) × Sink :=
  (putStmts ss).into o sink

end LetWhile.Java
