import LetWhile.Ty

/-!
# Functions that programs can call

A library is a list of functions. Of several with one name the last one counts.
-/

namespace LetWhile

/-- A function: its name, how it is called in Java, the types of its parameters and of its
result. -/
structure Function where
  name : String
  java : String
  params : List Ty
  result : Ty
deriving DecidableEq, Repr, Inhabited

/-- The number of parameters. -/
def Function.arity (f : Function) : Nat := f.params.length

/-- The functions that a program can call. -/
structure Library where
  functions : List Function
deriving DecidableEq, Repr

namespace Library

/-- The library of every program: `PRINT` shows a value of any type. -/
def standard : Library where
  functions :=
    [{ name := "PRINT", java := "System.out.println", params := [.any], result := .void }]

/-- The function with a name. -/
def find? (lib : Library) (name : String) : Option Function :=
  lib.functions.reverse.find? fun f => f.name = name

/-- The names of the functions, in increasing order. -/
def names (lib : Library) : List String :=
  ((lib.functions.map Function.name).mergeSort fun a b => a ≤ b).eraseDups

end Library

end LetWhile
