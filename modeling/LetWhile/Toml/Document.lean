import LetWhile.Toml.Parser

/-!
# TOML documents

The headers and pairs of a document make up a table, whose entries are values, tables and arrays of
tables. A name stands for one thing only. A table that another header mentioned on the way to one
of its parts can still get a header of its own. An array that holds a table is an array of tables.

Which names are in conflict, and the lines that are named then, are assumed to be those of the
reader that settings are loaded with.
-/

namespace LetWhile.Toml

/-- A value that is no table. -/
inductive Value where
  /-- The digits with their sign, without underscores. -/
  | integer (text : String)
  | float (text : String)
  | string (text : String)
  | boolean (value : Bool)
  | datetime (text : String)
  | array (items : List Value)
deriving Repr, Inhabited

/-- An entry of a table. -/
inductive Entry where
  | value (value : Value) (line : Nat)
  /-- A table; it is `stated` if it has a header of its own. -/
  | table (line : Nat) (stated : Bool) (fields : List (String × Entry))
  /-- An array of tables, with the line of the first. -/
  | tables (line : Nat) (items : List (List (String × Entry)))
deriving Repr, Inhabited

/-- The entries of a table, in the order in which they were first named. -/
abbrev Fields := List (String × Entry)

/-- What a name that is taken already stands for. -/
inductive Taken where
  | value (line : Nat)
  | table (line : Nat)
  | tables (line : Nat)
deriving DecidableEq, Repr

/-- Why a document with the right shape makes no table. -/
inductive Fault where
  /-- An escape that denotes nothing. -/
  | invalidText
  /-- The name of a pair is taken. -/
  | keyTaken (name : String) (holder : Taken)
  /-- A name on the way to a table is a value's. -/
  | pathTaken (name : String) (line : Nat)
  /-- The name of a table is taken. It is given as it was written, with the names in front of it. -/
  | tableTaken (written : String) (holder : Taken)
  /-- The name of an array of tables is taken. -/
  | tablesTaken (written : String) (holder : Taken)
deriving DecidableEq, Repr

/-- The wording of the thing that a name stands for already. -/
def Taken.describe : Taken → String
  | .value line => "line " ++ toString line
  | .table line => "table in line " ++ toString line
  | .tables line => "array table in line " ++ toString line

/-- The wording of a fault. The line of a pair whose name is repeated is given in hexadecimal, with
a letter behind it. A pair whose name is an array's of tables is not foreseen. -/
def Fault.message : Fault → String
  | .invalidText => "invalid syntax"
  | .keyTaken name (.value line) =>
    "key \x60" ++ name ++ "' is in conflict with line " ++
      String.ofList (Nat.toDigits 16 line) ++ "d"
  | .keyTaken name (.tables _) =>
    "BUG: key \x60" ++ name ++ "' is in conflict but it's unknown type \x60[]*ast.Table'"
  | .keyTaken name holder => "key \x60" ++ name ++ "' is in conflict with " ++ holder.describe
  | .pathTaken name line =>
    "key \x60" ++ name ++ "' is in conflict with line " ++ toString line
  | .tableTaken written holder =>
    "table \x60" ++ written ++ "' is in conflict with " ++ holder.describe
  | .tablesTaken written holder =>
    "array table \x60" ++ written ++ "' is in conflict with " ++ holder.describe

/-- A fault and its line. -/
structure Error where
  line : Nat
  fault : Fault
deriving DecidableEq, Repr

namespace Fields

/-- Replaces the entry with a name, or adds one. -/
def set (fields : Fields) (name : String) (entry : Entry) : Fields :=
  if fields.any fun f => f.1 = name then
    fields.map fun f => if f.1 = name then (name, entry) else f
  else fields ++ [(name, entry)]

/-- Changes the table at the end of a path. Tables on the path that are missing are added; of an
array of tables the last one is meant. -/
def within (line : Nat) : List String → (Fields → Except Fault Fields) → Fields →
    Except Fault Fields
  | [], f, fields => f fields
  | name :: path, f, fields =>
    match fields.lookup name with
    | none => do
      let inner ← within line path f []
      return fields.set name (.table line false inner)
    | some (.table l stated inner) => do
      let inner ← within line path f inner
      return fields.set name (.table l stated inner)
    | some (.tables l items) => do
      let inner ← within line path f (items.getLast?.getD [])
      return fields.set name (.tables l (items.dropLast ++ [inner]))
    | some (.value _ l) => .error (.pathTaken name l)

/-- Adds a table. -/
def addTable (name written : String) (line : Nat) (stated : Bool) (fields : Fields) :
    Except Fault Fields :=
  match fields.lookup name with
  | none => .ok (fields.set name (.table line stated []))
  | some (.table l wasStated inner) =>
    if wasStated then .error (.tableTaken written (.table l))
    else .ok (fields.set name (.table line stated inner))
  | some (.tables l _) => .error (.tableTaken written (.tables l))
  | some (.value _ l) => .error (.tableTaken written (.value l))

/-- Adds one more table to an array of tables. -/
def addTables (name written : String) (line : Nat) (fields : Fields) : Except Fault Fields :=
  match fields.lookup name with
  | none => .ok (fields.set name (.tables line [[]]))
  | some (.tables l items) => .ok (fields.set name (.tables l (items ++ [[]])))
  | some (.table l _ _) => .error (.tablesTaken written (.table l))
  | some (.value _ l) => .error (.tablesTaken written (.value l))

/-- Adds a value. -/
def addValue (name : String) (line : Nat) (value : Value) (fields : Fields) :
    Except Fault Fields :=
  match fields.lookup name with
  | none => .ok (fields.set name (.value value line))
  | some (.value _ l) => .error (.keyTaken name (.value l))
  | some (.table l _ _) => .error (.keyTaken name (.table l))
  | some (.tables l _) => .error (.keyTaken name (.tables l))

end Fields

/-- Puts a line to a fault. -/
def atLine {α : Type} (line : Nat) (r : Except Fault α) : Except Error α :=
  match r with
  | .ok a => .ok a
  | .error fault => .error { line, fault }

/-- The name that a key denotes. -/
def keyName (key : Key) (line : Nat) : Except Error String :=
  match key.decode? with
  | some name => .ok name
  | none => .error { line, fault := .invalidText }

/-- What reading the items of an array leads to: the table that is built, the values of the items,
and whether a table was among them. -/
structure ItemsRead where
  fields : Fields
  values : List Value := []
  sawTable : Bool := false

mutual

/-- Adds a pair to the table at the end of a path. A table inside an array is one more table of an
array of tables. -/
def addPair (path : List String) (inArray : Bool) (fields : Fields) : Pair → Except Error Fields
  | .mk key keyLine value line => do
    let name ← keyName key keyLine
    let read ← addRaw path name inArray fields value
    match read.values with
    | v :: _ =>
      if read.sawTable then return read.fields
      else atLine line (read.fields.within line path (Fields.addValue name line v))
    | [] => return read.fields

/-- Adds pairs one after the other. -/
def addPairs (path : List String) (inArray : Bool) (fields : Fields) :
    List Pair → Except Error Fields
  | [] => .ok fields
  | first :: rest => do
    let fields ← addPair path inArray fields first
    addPairs path inArray fields rest

/-- Reads the value of a name. A table is added at once; every other value is the only one in
`values`. -/
def addRaw (path : List String) (name : String) (inArray : Bool) (fields : Fields) :
    Raw → Except Error ItemsRead
  | .datetime text => .ok { fields, values := [.datetime (String.ofList text)] }
  | .float text => .ok { fields, values := [.float (String.ofList (text.filter (· ≠ '_')))] }
  | .integer text => .ok { fields, values := [.integer (String.ofList (text.filter (· ≠ '_')))] }
  | .boolean b => .ok { fields, values := [.boolean b] }
  | .string text line =>
    match text.decode? with
    | some s => .ok { fields, values := [.string s] }
    | none => .error { line, fault := .invalidText }
  | .array items => do
    let read ← addItems path name fields items
    return { read with values := [.array read.values] }
  | .table line pairs => do
    let fields ← atLine line (fields.within line path
      (if inArray then Fields.addTables name name line else Fields.addTable name name line false))
    let fields ← addPairs (path ++ [name]) inArray fields pairs
    return { fields, sawTable := true }

/-- Reads the items of an array. -/
def addItems (path : List String) (name : String) (fields : Fields) :
    List Raw → Except Error ItemsRead
  | [] => .ok { fields }
  | first :: rest => do
    let one ← addRaw path name true fields first
    let more ← addItems path name one.fields rest
    return { fields := more.fields, values := one.values ++ more.values,
             sawTable := one.sawTable || more.sawTable }

end

/-- The names that keys denote. -/
def keyNames (line : Nat) : List Key → Except Error (List String)
  | [] => .ok []
  | first :: rest => do
    let first ← keyName first line
    let rest ← keyNames line rest
    return first :: rest

/-- Adds headers and pairs; pairs belong to the table at the end of `path`. -/
def addItem (path : List String) (fields : Fields) : List Item → Except Error Fields
  | [] => .ok fields
  | .pair p :: rest => do
    let fields ← addPair path false fields p
    addItem path fields rest
  | .header keys text isArray line :: rest => do
    let names ← keyNames line keys
    let last := names.getLast?.getD ""
    let written := String.ofList text
    let fields ← atLine line (fields.within line names.dropLast
      (if isArray then Fields.addTables last written line
        else Fields.addTable last written line true))
    addItem names fields rest

/-- Why a text is no TOML document. -/
inductive ReadError where
  /-- It does not have the shape of one. -/
  | malformed
  | fault (error : Error)
deriving DecidableEq, Repr

/-- The table that a text stands for. -/
def read (text : String) : Except ReadError Fields :=
  match items text with
  | none => .error .malformed
  | some items =>
    match addItem [] [] items with
    | .ok fields => .ok fields
    | .error e => .error (.fault e)

end LetWhile.Toml
