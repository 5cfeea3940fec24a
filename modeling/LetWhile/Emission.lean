import LetWhile.Compilation
import LetWhile.Sexpr
import LetWhile.Table

/-!
# What a compilation shows

A user asks for one of four views of a program: its tokens as a table, its tree or its checked tree
as S-expressions, or its Java text. A compilation need not run further than the view asks for.
-/

namespace LetWhile

/-- A view of a program. -/
inductive View where
  | tokens
  | ast
  | typed
  | java
deriving DecidableEq, Repr

namespace View

/-- The view with a name. -/
def ofName? : String → Option View
  | "tokens" => some .tokens
  | "ast" => some .ast
  | "typed" => some .typed
  | "java" => some .java
  | _ => none

/-- The wording of the refusal of a name that is no view's. -/
def unknownMessage (name : String) : String :=
  "unknown --emit value " ++ quoted name ++ " (want tokens, ast, typed or java)"

/-- The last stage that a view needs. -/
def stage : View → Stage
  | .tokens => .lex
  | .ast => .parse
  | .typed => .analyze
  | .java => .generate

end View

/-- The row of a token in the table of tokens. -/
def Token.row (t : Token) : List String :=
  [t.kind.name.toUpper, t.text, toString t.pos.line ++ ":" ++ toString t.pos.column]

/-- The table of tokens, line by line. -/
def Token.table (ts : List Token) : List String :=
  Table.lines ["KIND", "TEXT", "POSITION"] (ts.map Token.row)

namespace Compilation

/-- The text of a view, cut into what is written at once. -/
def chunks (c : Compilation) : View → Except Gap (List String)
  | .tokens => .ok (Token.table c.tokens)
  | .ast => do
    let text ← (c.program.getD []).dump
    return [text]
  | .typed => do
    let text ← (c.typed.getD []).dump
    return [text]
  | .java => .ok [c.output]

/-- Writes a text at once, if it can be shown at all, and returns the error of the write. -/
def emitText (text : Except Gap String) (sink : Sink) : Except Gap (Option WriteError) × Sink :=
  match text with
  | .error g => (.error g, sink)
  | .ok text =>
    let (failure, sink) := sink.write text
    (.ok failure, sink)

/-- Writes a view to a sink. The table of tokens takes several writes, and the first error of them
is kept and returned; every other view is written at once. -/
def emit (c : Compilation) (view : View) (sink : Sink) : Except Gap (Option WriteError) × Sink :=
  match view with
  | .tokens =>
    let w := ({ sink } : Writer).writeAll (Token.table c.tokens)
    (.ok w.failure, w.sink)
  | .ast => emitText (c.program.getD []).dump sink
  | .typed => emitText (c.typed.getD []).dump sink
  | .java => emitText (.ok c.output) sink

end Compilation

end LetWhile
