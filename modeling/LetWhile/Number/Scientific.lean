import LetWhile.Number.Shortest

/-!
# Doubles as text

A double is written with the digits of its shortest decimal. The exponent is written out when the
first digit stands left of the sixth place before the point or right of the fourth behind it, with
a sign and at least two digits; otherwise the number is written plainly, with zeros filled in.
-/

namespace LetWhile

namespace Scientific

/-- The least exponent of the first digit that is written plainly. -/
def minPlain : Int := -4

/-- The least exponent of the first digit that is too large to be written plainly. -/
def endPlain : Int := 6

/-- The digits of a natural number. -/
def digits (n : Nat) : List Char := Nat.toDigits 10 n

/-- An exponent with its sign and at least two digits. -/
def exponent (e : Int) : List Char :=
  let ds := digits e.natAbs
  'e' :: (if e < 0 then '-' else '+') :: (if ds.length < 2 then '0' :: ds else ds)

/-- A fraction with its point; nothing when there are no digits in it. -/
def fraction (ds : List Char) : List Char :=
  if ds.isEmpty then [] else '.' :: ds

/-- A decimal with its exponent written out. -/
def withExponent (ds : List Char) (e : Int) : List Char :=
  ds.take 1 ++ fraction (ds.drop 1) ++ exponent e

/-- A decimal whose first digit stands at `10 ^ e`, written plainly. -/
def plain (ds : List Char) (e : Int) : List Char :=
  if 0 ≤ e then
    let whole := e.toNat + 1
    ds.take whole ++ List.replicate (whole - ds.length) '0' ++ fraction (ds.drop whole)
  else '0' :: '.' :: List.replicate ((-e).toNat - 1) '0' ++ ds

/-- A decimal as text. -/
def decimal (d : Decimal) : List Char :=
  let ds := digits d.digits
  let e := d.exponent + ds.length - 1
  if e < minPlain ∨ endPlain ≤ e then withExponent ds e else plain ds e

end Scientific

/-- A double as text. -/
def Binary64.text (x : Binary64) : String :=
  if x.isNaN then "NaN"
  else if x.isInfinite then (if x.negative then "-Inf" else "+Inf")
  else
    String.ofList
      ((if x.negative then ['-'] else []) ++ Scientific.decimal (Shortest.decimal x.code))

end LetWhile
