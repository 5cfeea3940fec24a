import LetWhile.Compilation

/-!
# Sessions

A session compiles a program piece by piece. A piece is checked behind all pieces accepted before
it, so it can use their variables. A piece that is rejected leaves no trace.
-/

namespace LetWhile

/-- The statements accepted so far. -/
structure Session where
  options : CompileOptions
  history : Program := []
deriving Repr

namespace Session

/-- The number of statements accepted so far. -/
def length (s : Session) : Nat := s.history.length

/-- Compiles one more piece; its Java statements are the first component. -/
def add (s : Session) (source : List UInt8) : Except CompileError String × Session :=
  match Program.parse source with
  | .error e => (.error e, s)
  | .ok piece =>
    let all := s.history ++ piece
    match all.checkAlone s.options.library with
    | .error e => (.error e, s)
    | .ok typed =>
      match javaText (Java.statements s.options.java (typed.drop s.history.length)) with
      | .error e => (.error e, s)
      | .ok java => (.ok java, { s with history := all })

/-- The Java text of all pieces as one program. -/
def program (s : Session) : Except CompileError String := do
  let typed ← s.history.checkAlone s.options.library
  javaText (Java.program s.options.java typed)

/-- Forgets all pieces. -/
def reset (s : Session) : Session := { s with history := [] }

end Session

end LetWhile
