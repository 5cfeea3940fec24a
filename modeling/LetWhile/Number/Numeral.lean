/-!
# Numerals

The texts of integer tokens and the numbers that they denote. An integer numeral is an optional sign
and at least one digit.
-/

namespace LetWhile

namespace Numeral

/-- The number that a digit stands for. -/
def digit? (c : Char) : Option Nat :=
  if '0' ≤ c && c ≤ '9' then some (c.toNat - '0'.toNat) else none

/-- The number that the digits `cs` denote behind the digits of `acc`. -/
def natural? : (acc : Nat) → List Char → Option Nat
  | acc, [] => some acc
  | acc, c :: cs => (digit? c).bind fun d => natural? (10 * acc + d) cs

/-- Splits a sign off a numeral. A numeral without one is positive. -/
def sign : List Char → Int × List Char
  | '+' :: cs => (1, cs)
  | '-' :: cs => (-1, cs)
  | cs => (1, cs)

/-- The number that an integer numeral denotes. -/
def integer? (text : String) : Option Int :=
  let (s, cs) := sign text.toList
  if cs.isEmpty then none else (natural? 0 cs).map fun n => s * n

end Numeral

end LetWhile
