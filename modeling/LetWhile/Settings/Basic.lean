import LetWhile.Java.Printer
import LetWhile.Java.Reserved
import LetWhile.Path
import LetWhile.Text.Quoted

/-!
# Settings

What a user can set: colour in messages, the shape of the generated Java, and the prompts and the
history of the dialogue. `Settings.dump` writes settings in the form in which they are read.
-/

namespace LetWhile

/-- The settings of a user. -/
structure Settings where
  color : Bool := true
  /-- The name of the generated class. -/
  className : String := "Main"
  /-- The number of spaces that a level of Java is indented by. -/
  indent : Int := 4
  /-- What is shown where a piece of a program can start. -/
  prompt : String := "plc> "
  /-- What is shown where a piece goes on. -/
  continuation : String := ".... "
  /-- The file with the lines of earlier dialogues; none when it is empty. -/
  history : String := "~/.plc_history"
deriving DecidableEq, Repr

/-- Why settings would lead to text that is no Java. -/
inductive InvalidSettings where
  | className (name : String)
  | negativeIndent (indent : Int)
deriving DecidableEq, Repr

/-- The wording of a refusal of settings. -/
def InvalidSettings.message : InvalidSettings → String
  | .className name => "generator.class_name " ++ quoted name ++ " is not a Java identifier"
  | .negativeIndent indent => "generator.indent must not be negative, got " ++ toString indent

namespace Settings

/-- The words that cannot name a class although they are no keywords. -/
def restrictedNames : List String := ["var", "yield", "record", "permits", "sealed"]

/-- Whether a character can start the name of a class. -/
def startsName (c : Char) : Bool := c.isAlpha || c = '_' || c = '$'

/-- Whether a class can have this name. -/
def isClassName (name : String) : Bool :=
  match name.toList with
  | [] => false
  | c :: cs =>
    startsName c && cs.all (fun d => startsName d || d.isDigit) && !Java.isReserved name &&
      !restrictedNames.contains name

/-- The first thing that is wrong with settings. -/
def invalid? (s : Settings) : Option InvalidSettings :=
  if !isClassName s.className then some (.className s.className)
  else if s.indent < 0 then some (.negativeIndent s.indent)
  else none

/-- The shape of the generated Java. -/
def java (s : Settings) : Java.Options where
  className := s.className
  indent := s.indent

/-- The history file, with a tilde at the front replaced by the home directory. It is empty when
there is no history file, or no home directory to find it in. -/
def historyPath (s : Settings) (home : String) : String :=
  if s.history = "~" ∨ s.history.toList.take 2 = ['~', '/'] then
    if home = "" then ""
    else Path.join home (String.ofList (s.history.toList.drop 1))
  else s.history

/-- Settings as text. -/
def dump (s : Settings) : String :=
  "color = " ++ (if s.color then "true" else "false") ++ "\n\n" ++
    "[generator]\n" ++
    "class_name = " ++ quoted s.className ++ "\n" ++
    "indent = " ++ toString s.indent ++ "\n\n" ++
    "[repl]\n" ++
    "prompt = " ++ quoted s.prompt ++ "\n" ++
    "continuation = " ++ quoted s.continuation ++ "\n" ++
    "history = " ++ quoted s.history ++ "\n"

end Settings

end LetWhile
