import LetWhile.Session
import LetWhile.Text.Blank
import LetWhile.Text.Lines

/-!
# Dialogues

A dialogue feeds a session line by line. Lines that do not make a piece of a program yet wait for
more of them. Two commands are known where no lines wait: `:program` shows the program so far, and
`:reset` forgets it.

A dialogue answers on two channels. What it answered is a list of events, oldest first.
-/

namespace LetWhile

/-- Where something is shown. -/
inductive Channel where
  | out
  | err
deriving DecidableEq, Repr

/-- A text shown on a channel. -/
structure Event where
  channel : Channel
  text : String
deriving DecidableEq, Repr

/-- An error as a user sees it, with the name of the tool in red if colour is on. It is assumed that
colour is the sequence for bold red in front of the name and the one for plain text behind it,
whatever terminal shows them. -/
def errorReport (color : Bool) (message : String) : String :=
  let tool := if color then "\x1b[31;1mplc:\x1b[0m" else "plc:"
  tool ++ " " ++ message ++ "\n"

/-- Whether a character is white space. -/
def Glyph.isBlank : Glyph → Bool
  | .char c => LetWhile.isBlank c
  | .stray _ => false

/-- The characters of a byte string between its first and last that is not white space. -/
def trimmedGlyphs (bs : List UInt8) : List Glyph :=
  (((Glyph.decode bs).dropWhile Glyph.isBlank).reverse.dropWhile Glyph.isBlank).reverse

/-- Whether a byte string is white space only. -/
def isBlankText (bs : List UInt8) : Bool :=
  (trimmedGlyphs bs).isEmpty

/-- A line that is no program text. -/
inductive Command where
  | program
  | reset
deriving DecidableEq, Repr

/-- The command that a line gives. -/
def Command.ofLine? (line : List UInt8) : Option Command :=
  let text := trimmedGlyphs line
  if text = ":program".toList.map Glyph.char then some .program
  else if text = ":reset".toList.map Glyph.char then some .reset
  else none

/-- A session, and the lines that wait for more. -/
structure Dialogue where
  session : Session
  pending : List UInt8 := []
  color : Bool := false
deriving Repr

namespace Dialogue

/-- Shows the result of a command or a piece. -/
def report (d : Dialogue) : Except CompileError String → Event
  | .ok text => { channel := .out, text }
  | .error e => { channel := .err, text := errorReport d.color e.message }

/-- Runs a command. -/
def command (d : Dialogue) : Command → List Event × Dialogue
  | .program => ([d.report d.session.program], d)
  | .reset => ([], { d with session := d.session.reset })

/-- What became of a line. -/
inductive Outcome where
  /-- It gave a command. -/
  | command
  /-- Nothing but white space was waiting. -/
  | blank
  /-- It waits for more lines. -/
  | waiting
  /-- The lines that were waiting were accepted or rejected as a piece. -/
  | piece (source : List UInt8)
deriving DecidableEq, Repr

/-- Takes one line, which ends the input if `last` is set. Then nothing can wait any longer. -/
def feed (d : Dialogue) (line : List UInt8) (last : Bool) : Outcome × List Event × Dialogue :=
  match (if d.pending.isEmpty then Command.ofLine? line else none) with
  | some c =>
    let (events, d) := d.command c
    (.command, events, d)
  | none =>
    let source := d.pending ++ line
    if isBlankText source then (.blank, [], { d with pending := [] })
    else
      match d.session.add source with
      | (.ok java, session) =>
        (.piece source, [d.report (.ok java)], { d with session, pending := [] })
      | (.error e, session) =>
        if e.incomplete && !last then (.waiting, [], { d with pending := source })
        else (.piece source, [d.report (.error e)], { d with session, pending := [] })

/-- Takes lines, the last of which ends the input unless `failure` is its error. -/
def feedAll (d : Dialogue) (failure : Option String) : List (List UInt8) → List Event × Dialogue
  | [] => ([], d)
  | [line] =>
    match failure with
    | some e => ([{ channel := .err, text := "read error: " ++ e ++ "\n" }], d)
    | none =>
      let (_, events, d) := d.feed line true
      (events, d)
  | line :: next :: rest =>
    let (_, events, d) := d.feed line false
    let (more, d) := d.feedAll failure (next :: rest)
    (events ++ more, d)

/-- Holds a dialogue over a whole input. -/
def run (d : Dialogue) (input : Input) : List Event × Dialogue :=
  d.feedAll input.failure (cutLines 0x0A input.bytes)

end Dialogue

end LetWhile
