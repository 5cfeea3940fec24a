/-!
# Types

The language has six types, and a seventh value stands where a type name could not be resolved.
There are no composite types, so types are compared as they are.
-/

namespace LetWhile

/-- A type of the language. -/
inductive Ty where
  /-- What a name that is no type's resolves to. -/
  | invalid
  | boolean
  | integer
  | decimal
  | string
  | void
  | any
deriving DecidableEq, Repr, Inhabited

namespace Ty

/-- The types that a program can name. -/
def all : List Ty := [.boolean, .integer, .decimal, .string, .void, .any]

/-- The name of a type in programs and messages. -/
def name : Ty → String
  | .invalid => "INVALID"
  | .boolean => "BOOLEAN"
  | .integer => "INTEGER"
  | .decimal => "DECIMAL"
  | .string => "STRING"
  | .void => "VOID"
  | .any => "ANY"

/-- The spelling of a type in Java. -/
def java : Ty → String
  | .invalid => ""
  | .boolean => "boolean"
  | .integer => "int"
  | .decimal => "double"
  | .string => "String"
  | .void => "void"
  | .any => "Object"

/-- The type with a name. -/
def ofName? (name : String) : Option Ty :=
  all.find? fun t => t.name = name

/-- The type with a number: the invalid one is 0, and the others follow in the order of `all`. -/
def ofNumber (n : Int) : Ty :=
  if n ≤ 0 then .invalid else all.getD (n.toNat - 1) .invalid

/-- Whether values of a type can be calculated with. -/
def isNumeric (t : Ty) : Bool :=
  t = .integer || t = .decimal

/-- Whether a value of type `source` can be stored where `target` is declared: the same type, an
integer as a decimal, and everything but nothing at all as any. -/
def assignable (source target : Ty) : Bool :=
  source ≠ .invalid && target ≠ .invalid &&
    (source = target || (source = .integer && target = .decimal) ||
      (target = .any && source ≠ .void))

end Ty

/-- A value of one type met where another was declared. -/
structure Mismatch where
  source : Ty
  target : Ty
deriving DecidableEq, Repr

/-- The wording of a mismatch. -/
def Mismatch.message (m : Mismatch) : String :=
  "cannot assign " ++ m.source.name ++ " to " ++ m.target.name

/-- The mismatch between two types, if there is one. -/
def Ty.mismatch? (source target : Ty) : Option Mismatch :=
  if source.assignable target then none else some { source, target }

end LetWhile
