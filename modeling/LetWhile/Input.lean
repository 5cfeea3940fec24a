/-!
# Inputs

An input is read from its start to its end. It ends either properly or with an error.
-/

namespace LetWhile

/-- The bytes of an input, and the error that it ends with, if it does not end properly. -/
structure Input where
  bytes : List UInt8
  failure : Option String := none
deriving DecidableEq, Repr

/-- All of an input, if it ends properly. -/
def Input.contents (i : Input) : Except String (List UInt8) :=
  match i.failure with
  | none => .ok i.bytes
  | some e => .error e

end LetWhile
