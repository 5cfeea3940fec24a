import LetWhile.Dialogue
import LetWhile.Files
import LetWhile.History
import LetWhile.Settings.Basic
import LetWhile.Text.Printable

/-!
# Conversations

A conversation is a dialogue with a user who is shown a prompt before each line and whose lines are
remembered.
-/

namespace LetWhile

/-- A dialogue, the settings that it is held with, and what the user entered. -/
structure Conversation where
  settings : Settings
  dialogue : Dialogue
  history : History := {}
deriving Repr

namespace Conversation

/-- A conversation in which nothing was said yet. -/
def start (settings : Settings) (color : Bool) (history : History) : Conversation where
  settings := settings
  dialogue := { session := { options := { java := settings.java } }, color }
  history := history

/-- What is shown before the next line. -/
def prompt (c : Conversation) : String :=
  if c.dialogue.pending.isEmpty then c.settings.prompt else c.settings.continuation

/-- The complaint about a prompt that cannot be shown. -/
def promptFault? (c : Conversation) : Option Event :=
  if c.prompt.toList.any isOther then
    some { channel := .err, text := "read error: invalid prompt\n" }
  else none

/-- A byte string without white space at its ends. -/
def trimmedBytes (bs : List UInt8) : List UInt8 :=
  (trimmedGlyphs bs).flatMap Glyph.bytes

/-- Remembers a line or a piece. -/
def remember (c : Conversation) (entry : List UInt8) : Conversation :=
  { c with history := c.history.add (trimmedBytes entry) }

/-- Takes a line, given without its end. Commands and finished pieces are remembered. -/
def take (c : Conversation) (line : List UInt8) : List Event × Conversation :=
  let (outcome, events, dialogue) := c.dialogue.feed (line ++ [0x0A]) false
  let c := { c with dialogue }
  match outcome with
  | .command => (events, c.remember line)
  | .piece source => (events, c.remember source)
  | .blank => (events, c)
  | .waiting => (events, c)

/-- Takes lines until there are no more of them or a prompt cannot be shown. -/
def run (c : Conversation) (lines : List (List UInt8)) : List Event × Conversation :=
  match c.promptFault? with
  | some complaint => ([complaint], c)
  | none =>
    let shown : Event := { channel := .out, text := c.prompt }
    match lines with
    | [] => ([shown, { channel := .out, text := "\n" }], c)
    | line :: rest =>
      let (events, c) := c.take line
      let (more, c) := c.run rest
      (shown :: events ++ more, c)
termination_by lines.length

/-- The lines of an input, without their ends. `line` is the part of a line that was read already,
in reverse order, and `size` its length. A line that fills the buffer ends there, but a carriage
return is kept for the next one. -/
def linesFrom (line : List UInt8) (size : Nat) : List UInt8 → List (List UInt8)
  | [] => if size = 0 then [] else [line.reverse]
  | b :: bs =>
    if b = 0x0A then History.withoutEnd line.reverse :: linesFrom [] 0 bs
    else if size + 1 < History.lineLimit then linesFrom (b :: line) (size + 1) bs
    else if b = 0x0D then line.reverse :: linesFrom [b] 1 bs
    else (b :: line).reverse :: linesFrom [] 0 bs

/-- The lines of an input. -/
def lines (input : List UInt8) : List (List UInt8) := linesFrom [] 0 input

/-- Holds a conversation over a whole input. The history is read before and written after it, as far
as its file can be used. -/
def hold (settings : Settings) (color : Bool) (home : String) (input : List UInt8) (files : Files) :
    List Event × Files :=
  let path := settings.historyPath home
  if path = "" then (((start settings color {}).run (lines input)).1, files)
  else
    let history := match files.load path with
      | .ok content => History.ofBytes content
      | .error _ => {}
    let (events, c) := (start settings color history).run (lines input)
    (events, (files.save path c.history.toBytes).toOption.getD files)

end Conversation

end LetWhile
