import LetWhile.Files
import LetWhile.Input
import LetWhile.Number.Numeral
import LetWhile.Settings.Basic
import LetWhile.Text.Utf8
import LetWhile.Toml.Document
import LetWhile.Toml.Limits

/-!
# Loading settings

Settings are read from a TOML document. What it does not mention keeps its default, and what it
mentions must be known. Except for the table `repl`, names are compared without regard to case and
underscores.
-/

namespace LetWhile

/-- Where a setting belongs: a group of settings and a name in it. -/
structure SettingPlace where
  group : String
  name : String
deriving DecidableEq, Repr

/-- Why an entry of a document is no setting. -/
inductive SettingFault where
  | undefined (key group : String)
  /-- The value has the wrong type; some types would have needed a list of values. -/
  | mismatch (place : SettingPlace) (found wanted : String) (needsList : Bool)
  /-- A table stands where a value was wanted. -/
  | tableForValue (wanted : String)
  /-- A whole number that does not fit in 64 bits. -/
  | outOfRange (place : SettingPlace) (text : String)
  /-- A float that no double comes near. -/
  | tooLarge (place : SettingPlace) (text : String)
  /-- A date or a time that there is not. -/
  | noTime (place : SettingPlace) (text : String) (fault : Toml.TimeFault)
deriving DecidableEq, Repr

/-- A place as it is named in front of a complaint. -/
def SettingPlace.label (p : SettingPlace) : String :=
  "(" ++ p.group ++ "." ++ p.name ++ ") "

/-- The wording of a fault. -/
def SettingFault.message : SettingFault → String
  | .undefined key group => "field '" ++ key ++ "' is not defined in " ++ group
  | .mismatch place found wanted needsList =>
    place.label ++ "cannot unmarshal TOML " ++ found ++ " into " ++ wanted ++
      (if needsList then " (need slice)" else "")
  | .tableForValue wanted =>
    "cannot unmarshal TOML table into " ++ wanted ++ " (need struct or map)"
  | .outOfRange place text => place.label ++ "value " ++ text ++ " is out of range for int"
  | .tooLarge place text =>
    place.label ++ "strconv.ParseFloat: parsing " ++ quoted text ++ ": value out of range"
  | .noTime place text fault =>
    place.label ++ "parsing time " ++ quoted text ++ ": " ++ fault.message

/-- Why settings could not be loaded. -/
inductive LoadError where
  /-- The text does not have the shape of a document. -/
  | malformed
  /-- An entry of the document makes no sense, for a reason that has a line. -/
  | document (error : Toml.Error)
  | setting (line : Nat) (fault : SettingFault)
  | invalid (reason : InvalidSettings)
  /-- The text could not be read. -/
  | read (message : String)
  /-- An error that has a line, in a file. -/
  | inFile (path : String) (error : LoadError)
deriving DecidableEq, Repr

namespace LoadError

/-- The wording of an error. -/
def message : LoadError → String
  | .malformed => "invalid TOML syntax"
  | .document e => "line " ++ toString e.line ++ ": " ++ e.fault.message
  | .setting line fault => "line " ++ toString line ++ ": " ++ fault.message
  | .invalid reason => reason.message
  | .read m => m
  | .inFile path e => path ++ ", " ++ e.message

/-- Whether an error has a line. -/
def hasLine : LoadError → Bool
  | .malformed => true
  | .document _ => true
  | .setting _ _ => true
  | _ => false

end LoadError

namespace Settings

open Toml (Entry Value Fields)

/-- The name of the type of a value. -/
def typeName : Value → String
  | .integer _ => "integer"
  | .float _ => "float"
  | .string _ => "string"
  | .boolean _ => "boolean"
  | .datetime _ => "datetime"
  | .array _ => "array"

/-- What is wrong with a value where one of type `wanted` belongs. A float or a time that stands for
nothing is complained about before its type is. -/
def valueFault (place : SettingPlace) (wanted : String) (v : Value) : SettingFault :=
  let mismatch := .mismatch place (typeName v) wanted (typeName v = "array")
  match v with
  | .float text => if Toml.isTooLarge text then .tooLarge place text else mismatch
  | .datetime text =>
    match Toml.timeFault? text with
    | some fault => .noTime place text fault
    | none => mismatch
  | _ => mismatch

/-- Refuses an entry where a value of type `wanted` belongs. -/
def refuse {α : Type} (place : SettingPlace) (wanted : String) : Entry → Except LoadError α
  | .value v line => .error (.setting line (valueFault place wanted v))
  | .table line _ _ => .error (.setting line (.tableForValue wanted))
  | .tables line _ => .error (.setting line (.mismatch place "array table" wanted true))

/-- Reads a truth value. -/
def truth (place : SettingPlace) : Entry → Except LoadError Bool
  | .value (.boolean b) _ => .ok b
  | e => refuse place "bool" e

/-- Reads a text. -/
def text (place : SettingPlace) : Entry → Except LoadError String
  | .value (.string s) _ => .ok s
  | e => refuse place "string" e

/-- Reads a whole number of 64 bits. -/
def whole (place : SettingPlace) : Entry → Except LoadError Int
  | .value (.integer digits) line =>
    let n := (Numeral.integer? digits).getD 0
    if -0x8000000000000000 ≤ n ∧ n < 0x8000000000000000 then .ok n
    else .error (.setting line (.outOfRange place digits))
  | e => refuse place "int" e

/-- The line of an entry. -/
def entryLine : Entry → Nat
  | .value _ line => line
  | .table line _ _ => line
  | .tables line _ => line

/-- Refuses a name that no setting has. -/
def unknown {α : Type} (group key : String) (e : Entry) : Except LoadError α :=
  .error (.setting (entryLine e) (.undefined key group))

/-- A letter in lower case. Besides the capital letters of ASCII, two capital letters outside it
have a lower case inside it. -/
def lower (c : Char) : Char :=
  if c = '\u0130' then 'i' else if c = '\u212a' then 'k' else c.toLower

/-- The form in which names are compared. -/
def normalKey (key : String) : String :=
  String.ofList ((key.toList.filter (· ≠ '_')).map lower)

/-- Sets one setting of the generated Java. -/
def setJava (s : Settings) (key : String) (e : Entry) : Except LoadError Settings :=
  let group := "config.GeneratorConfig"
  match normalKey key with
  | "classname" => return { s with className := ← text ⟨group, "ClassName"⟩ e }
  | "indent" => return { s with indent := ← whole ⟨group, "Indent"⟩ e }
  | _ => unknown group key e

/-- Sets one setting of the dialogue. -/
def setDialogue (s : Settings) (key : String) (e : Entry) : Except LoadError Settings :=
  let group := "config.REPLConfig"
  match normalKey key with
  | "prompt" => return { s with prompt := ← text ⟨group, "Prompt"⟩ e }
  | "continuation" => return { s with continuation := ← text ⟨group, "Continuation"⟩ e }
  | "history" => return { s with history := ← text ⟨group, "History"⟩ e }
  | _ => unknown group key e

/-- Sets the settings of a table one by one. -/
def setAll (set : Settings → String → Entry → Except LoadError Settings) (s : Settings) :
    Fields → Except LoadError Settings
  | [] => .ok s
  | (key, e) :: rest => do
    let s ← set s key e
    setAll set s rest

/-- Sets the settings of a group, which must be a table. -/
def setGroup (set : Settings → String → Entry → Except LoadError Settings) (s : Settings)
    (place : SettingPlace) (wanted : String) : Entry → Except LoadError Settings
  | .table _ _ fields => setAll set s fields
  | e => refuse place wanted e

/-- Sets one setting or one group. -/
def setTop (s : Settings) (key : String) (e : Entry) : Except LoadError Settings :=
  let group := "config.Config"
  if key = "repl" then setGroup setDialogue s ⟨group, "REPL"⟩ "config.REPLConfig" e
  else
    match normalKey key with
    | "color" => return { s with color := ← truth ⟨group, "Color"⟩ e }
    | "generator" => setGroup setJava s ⟨group, "Generator"⟩ "config.GeneratorConfig" e
    | _ => unknown group key e

/-- Loads settings from a text. -/
def ofText (t : String) : Except LoadError Settings :=
  match Toml.read t with
  | .error .malformed => .error .malformed
  | .error (.fault e) => .error (.document e)
  | .ok fields => do
    let s ← setAll setTop {} fields
    match s.invalid? with
    | some reason => .error (.invalid reason)
    | none => return s

/-- Loads settings from an input. -/
def ofInput (input : Input) : Except LoadError Settings :=
  match input.contents with
  | .error e => .error (.read e)
  | .ok bytes => ofText (shownText bytes)

/-- Loads settings from the content of a file. An error that has a line names the file. -/
def ofFile (path : String) (content : Except FileError (List UInt8)) : Except LoadError Settings :=
  match content with
  | .error e =>
    match e with
    | .opening _ _ => .error (.read ("load config: " ++ e.message))
    | .reading _ _ => .error (.read e.message)
  | .ok bytes =>
    match ofText (shownText bytes) with
    | .error e => .error (if e.hasLine then .inFile path e else e)
    | .ok s => .ok s

end Settings

end LetWhile
