import LetWhile.CommandLine.Options
import LetWhile.Conversation
import LetWhile.Emission
import LetWhile.Settings.Load

/-!
# What a command does

A script is what a command does, step by step, with the answers of its surroundings left open.
`Script.ofArguments` writes the script of a command; `Script.run` plays it against files and an
input that are given, so what a command does is a function of them.
-/

namespace LetWhile

/-- The steps of a command. -/
inductive Script where
  | exit (code : Nat)
  /-- Shows a text. -/
  | tell (event : Event) (next : Script)
  /-- Reads a file. -/
  | load (path : String) (next : Except FileError (List UInt8) → Script)
  /-- Writes a file. -/
  | save (path : String) (content : List UInt8) (next : Option FileError → Script)
  /-- Reads all of the input. -/
  | input (next : Input → Script)
  /-- Holds a conversation and ends. -/
  | converse (settings : Settings) (color : Bool)

/-- Where a command is given. -/
structure Console where
  /-- Whether the input comes from a terminal. -/
  terminal : Bool := false
  /-- Whether errors are shown in colour if nothing is said against it. -/
  color : Bool := false
deriving DecidableEq, Repr

namespace Script

/-- Reports an error and ends. -/
def fail (color : Bool) (message : String) : Script :=
  .tell { channel := .err, text := errorReport color message } (.exit 1)

/-- Writes a text to a file, or shows it if no file is named, and ends. -/
def deliver (color : Bool) (path : Option String) (text : String) : Script :=
  match path with
  | none => .tell { channel := .out, text } (.exit 0)
  | some path =>
    .save path (utf8Bytes text) fun
      | some e => fail color e.message
      | none => .exit 0

/-- Loads the settings and goes on with them. -/
def withSettings (path : String) (next : Settings → Script) : Script :=
  if path = "" then next {}
  else
    .load path fun content =>
      match Settings.ofFile path content with
      | .error e => fail false e.message
      | .ok settings => next settings

/-- Shows a view of a compilation. -/
def emit (color : Bool) (output : String) (view : View) :
    Except CompileError Compilation → Script
  | .error e => fail color e.message
  | .ok c =>
    match c.chunks view with
    | .error g => fail color (Sexpr.gapMessage g)
    | .ok chunks => deliver color (if output = "" then none else some output) (String.join chunks)

/-- Compiles a file or the input, or holds a dialogue. -/
def compile (console : Console) (i : Invocation) (settings : Settings) : Script :=
  let color := console.color && settings.color && !i.noColor
  match View.ofName? i.emit with
  | none => fail color (View.unknownMessage i.emit)
  | some view =>
    let path := i.arguments.headD ""
    let options : CompileOptions := { java := settings.java }
    if path = "" && console.terminal then .converse settings color
    else if path = "" && i.repl then
      .input fun input =>
        let d : Dialogue := { session := { options }, color }
        (d.run input).1.foldr .tell (.exit 0)
    else
      let options := { options with stopAfter := view.stage }
      if path = "" || path = "-" then
        .input fun input => emit color i.output view (Compilation.ofInput options input)
      else
        .load path fun content =>
          emit color i.output view (Compilation.ofFile options (content.mapError FileError.message))

/-- Writes the settings as text. -/
def dumpSettings (path : Option String) (settings : Settings) : Script :=
  deliver false path settings.dump

/-- The script of a command. -/
def ofArguments (console : Console) (arguments : List String) : Script :=
  match Invocation.ofArguments arguments with
  | .error e => fail false e.message
  | .ok i =>
    if i.arguments.head? = some "dumpconfig" then
      match Invocation.subcommandArguments (i.arguments.drop 1) with
      | .error e => fail false e.message
      | .ok rest => withSettings i.config (dumpSettings rest.head?)
    else withSettings i.config (compile console i)

/-- What a script is played against. -/
structure World where
  files : Files := {}
  input : Input := { bytes := [] }
  home : String := ""
deriving Repr

/-- How a script ended. -/
structure Ending where
  exit : Nat
  events : List Event
  files : Files
deriving Repr

/-- Adds something that was shown before all else. -/
def Ending.after (event : Event) (e : Ending) : Ending :=
  { e with events := event :: e.events }

/-- Plays a script. -/
def run (w : World) : Script → Ending
  | .exit code => { exit := code, events := [], files := w.files }
  | .tell event next => (next.run w).after event
  | .load path next =>
    if w.files.device? path = some .input then
      (next (.ok w.input.bytes)).run { w with input := { bytes := [] } }
    else (next (w.files.load path)).run w
  | .save path content next =>
    match w.files.device? path with
    | some .output => ((next none).run w).after { channel := .out, text := shownText content }
    | some .errors => ((next none).run w).after { channel := .err, text := shownText content }
    | _ =>
      match w.files.save path content with
      | .error e => (next (some e)).run w
      | .ok files => (next none).run { w with files }
  | .input next => (next w.input).run { w with input := { bytes := [] } }
  | .converse settings color =>
    let (events, files) := Conversation.hold settings color w.home w.input.bytes w.files
    { exit := 0, events, files }

/-- All that was shown on a channel. -/
def Ending.shown (e : Ending) (channel : Channel) : String :=
  String.join ((e.events.filter (·.channel = channel)).map Event.text)

end Script

end LetWhile
