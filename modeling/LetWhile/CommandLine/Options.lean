import LetWhile.Text.Quoted

/-!
# The options of the command line

Options come first, with one dash or two. The value of an option stands behind an equals sign or is
the next argument; a switch needs none. The first argument that is no option ends them, and so do
two dashes alone.
-/

namespace LetWhile

/-- What the arguments of a command ask for. -/
structure Invocation where
  /-- The name of the view to show. -/
  emit : String := "java"
  /-- The file to write to; the output channel if it is empty. -/
  output : String := ""
  /-- The file with the settings; the defaults if it is empty. -/
  config : String := ""
  noColor : Bool := false
  /-- Whether a dialogue is asked for. -/
  repl : Bool := false
  /-- The names by which the file to write to was given. -/
  outputNames : List String := []
  /-- What stands behind the options. -/
  arguments : List String := []
deriving DecidableEq, Repr

/-- Why arguments make no sense. -/
inductive UsageError where
  | malformed (argument : String)
  | undefined (name : String)
  | missingValue (name : String)
  | notBoolean (name value : String)
  /-- The file to write to was given by its long and its short name. -/
  | twoForms
deriving DecidableEq, Repr

/-- The wording of an error. -/
def UsageError.message : UsageError → String
  | .malformed argument => "bad flag syntax: " ++ argument
  | .undefined name => "flag provided but not defined: -" ++ name
  | .missingValue name => "flag needs an argument: -" ++ name
  | .notBoolean name value =>
    "invalid boolean value " ++ quoted value ++ " for -" ++ name ++ ": parse error"
  | .twoForms => "Cannot use two forms of the same flag: o output"

/-- One argument by its form. -/
inductive Argument where
  | plain
  /-- Two dashes alone. -/
  | endOfOptions
  | option (name : String) (value : Option String)
  | malformed
deriving DecidableEq, Repr

/-- The form of an argument. -/
def Argument.ofText (text : String) : Argument :=
  let ofName (cs : List Char) : Argument :=
    let name := cs.takeWhile (· ≠ '=')
    if name.isEmpty || name.head? = some '-' then .malformed
    else
      match cs.drop name.length with
      | [] => .option (String.ofList name) none
      | _ :: value => .option (String.ofList name) (some (String.ofList value))
  match text.toList with
  | ['-'] => .plain
  | ['-', '-'] => .endOfOptions
  | '-' :: '-' :: cs => ofName cs
  | '-' :: cs => ofName cs
  | _ => .plain

namespace Invocation

/-- The truth value that a text stands for. -/
def boolean? (text : String) : Option Bool :=
  if ["1", "t", "T", "true", "TRUE", "True"].contains text then some true
  else if ["0", "f", "F", "false", "FALSE", "False"].contains text then some false
  else none

/-- Sets a switch. -/
def setSwitch (i : Invocation) (name : String) (on : Bool) : Option Invocation :=
  match name with
  | "no-color" => some { i with noColor := on }
  | "repl" => some { i with repl := on }
  | _ => none

/-- Sets an option that has a value. -/
def setValue (i : Invocation) (name value : String) : Option Invocation :=
  match name with
  | "emit" => some { i with emit := value }
  | "output" => some { i with output := value, outputNames := "output" :: i.outputNames }
  | "o" => some { i with output := value, outputNames := "o" :: i.outputNames }
  | "config" => some { i with config := value }
  | _ => none

/-- Takes arguments one by one. -/
def takeAll (i : Invocation) : List String → Except UsageError Invocation
  | [] => .ok i
  | text :: rest =>
    match Argument.ofText text with
    | .plain => .ok { i with arguments := text :: rest }
    | .endOfOptions => .ok { i with arguments := rest }
    | .malformed => .error (.malformed text)
    | .option name value =>
      match i.setSwitch name true with
      | some switched =>
        match value with
        | none => switched.takeAll rest
        | some v =>
          match boolean? v with
          | some on => ((i.setSwitch name on).getD i).takeAll rest
          | none => .error (.notBoolean name v)
      | none =>
        match i.setValue name "" with
        | none => .error (.undefined name)
        | some _ =>
          match value, rest with
          | some v, rest => ((i.setValue name v).getD i).takeAll rest
          | none, v :: rest => ((i.setValue name v).getD i).takeAll rest
          | none, [] => .error (.missingValue name)

/-- Reads the arguments of a command. -/
def ofArguments (arguments : List String) : Except UsageError Invocation := do
  let i ← ({} : Invocation).takeAll arguments
  if i.outputNames.contains "o" && i.outputNames.contains "output" then throw .twoForms
  return i

/-- The arguments of a subcommand, which has no options of its own. -/
def subcommandArguments (arguments : List String) : Except UsageError (List String) :=
  let options := (arguments.takeWhile (· ≠ "--")).filter fun text => Argument.ofText text ≠ .plain
  match options.map Argument.ofText with
  | .option name _ :: _ => .error (.undefined name)
  | _ :: _ => .error (.malformed (options.headD ""))
  | [] => .ok (if arguments.head? = some "--" then arguments.drop 1 else arguments)

end Invocation

end LetWhile
