/-!
# Hexadecimal digits

Characters can be written by their code points, in hexadecimal digits of either case.
-/

namespace LetWhile

/-- Whether a character is a hexadecimal digit. -/
def isHex (c : Char) : Bool :=
  c.isDigit || ('a' ≤ c && c ≤ 'f') || ('A' ≤ c && c ≤ 'F')

/-- The number that hexadecimal digits denote. -/
def hexValue (ds : List Char) : Nat :=
  ds.foldl (fun n c =>
    16 * n + (if c.isDigit then c.toNat - 48 else if 'a' ≤ c then c.toNat - 87 else c.toNat - 55)) 0

/-- The character with a code point. -/
def codePoint? (n : Nat) : Option Char :=
  if h : n.isValidChar then some (Char.ofNatAux n h) else none

end LetWhile
