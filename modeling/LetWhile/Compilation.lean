import LetWhile.Input
import LetWhile.Java.Pen
import LetWhile.Program.Parser
import LetWhile.Token.Lexer
import LetWhile.Typed.Check

/-!
# Compiling a program

A compilation runs through four stages: tokens, program, checked program, Java text. It can stop
after any of them. The first error of any stage is its result.

The last stage is there twice. `Compilation.compile` has the pen write the Java text into memory,
and breaks off where the pen does. `Compilation.run` leaves memory aside and takes the lines that
the text has. The two agree as long as no row of spaces is too long for memory.
-/

namespace LetWhile

/-- The stages of a compilation. -/
inductive Stage where
  | lex
  | parse
  | analyze
  | generate
deriving DecidableEq, Repr

/-- What a compilation depends on besides the program text. -/
structure CompileOptions where
  java : Java.Options := {}
  library : Library := .standard
  stopAfter : Stage := .generate
deriving DecidableEq, Repr

/-- Why a compilation failed. -/
inductive CompileError where
  | lex (error : LexError)
  | parse (error : ParseError)
  | type (error : TypeError)
  /-- A stage broke off. -/
  | panic (p : Panic)
  /-- The Java text could not be written. -/
  | write (error : WriteError)
  /-- The program text could not be read. -/
  | read (message : String)
deriving DecidableEq, Repr

namespace CompileError

/-- The wording of an error. -/
def message : CompileError → String
  | .lex e => e.message
  | .parse e => e.message
  | .type e => e.message
  | .panic p => p.message
  | .write e => e.message
  | .read m => m

/-- Whether more text could mend the error. -/
def incomplete : CompileError → Bool
  | .lex e => e.incomplete
  | .parse e => e.incomplete
  | _ => false

/-- The error of a compilation whose tokens make no program. -/
def ofParse : ParseFailure → CompileError
  | .refused e => .parse e
  | .panicked text => .panic (.missingQuotes text)

end CompileError

/-- The results of the stages of a compilation, as far as it ran. -/
structure Compilation where
  tokens : List Token
  program : Option Program := none
  typed : Option Typed.Program := none
  output : String := ""
deriving Repr

/-- Reads a program from its text. -/
def Program.parse (source : List UInt8) : Except CompileError Program :=
  match Token.lex source with
  | .error e => .error (.lex e)
  | .ok tokens =>
    match Program.ofTokens tokens with
    | .error e => .error (.ofParse e)
    | .ok program => .ok program

/-- Reads a program from an input. -/
def Program.read (input : Input) : Except CompileError Program :=
  match input.contents with
  | .error e => .error (.read e)
  | .ok source => Program.parse source

/-- Checks a program on its own, with nothing defined before it. -/
def Program.checkAlone (lib : Library) (program : Program) :
    Except CompileError Typed.Program :=
  match (program.check lib .empty).1 with
  | .error e => .error (.type e)
  | .ok typed => .ok typed

/-- The text that lines make up. -/
def javaText (lines : Except Gap (List String)) : Except CompileError String :=
  match lines with
  | .error g => .error (.panic (.gap g))
  | .ok lines => .ok (Java.text lines)

/-- The text that a pen writes into memory. -/
def writtenText : Except Panic (Option WriteError) × Sink → Except CompileError String
  | (.error p, _) => .error (.panic p)
  | (.ok (some e), _) => .error (.write e)
  | (.ok none, sink) => .ok (shownText sink.written)

namespace Compilation

/-- Compiles a program text, where `print` makes the Java text of a checked program. -/
def runWith (print : Typed.Program → Except CompileError String) (o : CompileOptions)
    (source : List UInt8) : Except CompileError Compilation :=
  match Token.lex source with
  | .error e => .error (.lex e)
  | .ok tokens =>
    if o.stopAfter = .lex then .ok { tokens }
    else
      match Program.ofTokens tokens with
      | .error e => .error (.ofParse e)
      | .ok program =>
        if o.stopAfter = .parse then .ok { tokens, program := some program }
        else do
          let typed ← program.checkAlone o.library
          if o.stopAfter = .analyze then
            return { tokens, program := some program, typed := some typed }
          else
            let output ← print typed
            return { tokens, program := some program, typed := some typed, output }

/-- Compiles a program text, with room for every row of spaces. -/
def run (o : CompileOptions) (source : List UInt8) : Except CompileError Compilation :=
  runWith (fun typed => javaText (Java.program o.java typed)) o source

/-- Compiles a program text in memory. -/
def compile (o : CompileOptions) (source : List UInt8) : Except CompileError Compilation :=
  runWith (fun typed => writtenText (Java.generate o.java typed {})) o source

/-- Compiles the program text of an input. -/
def ofInput (o : CompileOptions) (input : Input) : Except CompileError Compilation :=
  match input.contents with
  | .error e => .error (.read ("read source: " ++ e))
  | .ok source => run o source

/-- The text of a program file without a first line that starts with `#!`. The end of that line
stays, so that the lines behind it keep their numbers. -/
def withoutShebang (source : List UInt8) : List UInt8 :=
  match source with
  | 0x23 :: 0x21 :: _ => source.dropWhile (· ≠ 0x0A)
  | _ => source

/-- Compiles the content of a program file. -/
def ofFile (o : CompileOptions) (content : Except String (List UInt8)) :
    Except CompileError Compilation :=
  match content with
  | .error e => .error (.read e)
  | .ok source => run o (withoutShebang source)

end Compilation

end LetWhile
