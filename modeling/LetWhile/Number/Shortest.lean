import LetWhile.Number.Binary64

/-!
# The shortest decimal of a double

Of all decimals that round to a given double, `Shortest.decimal` finds one with the fewest digits,
and of those the one nearest to the double. On the grid of multiples of a power of ten only the two
neighbours of the double matter, so the search tries one grid after the other, from coarse to fine.
-/

namespace LetWhile

/-- The number `digits * 10 ^ exponent`. -/
structure Decimal where
  digits : Nat
  exponent : Int
deriving DecidableEq, Repr

namespace Decimal

/-- The number ten raised to an integer power. -/
def tenPow (e : Int) : Rat :=
  if 0 ≤ e then (Nat.pow 10 e.toNat : Rat) else 1 / (Nat.pow 10 (-e).toNat : Rat)

/-- The number that a decimal stands for. -/
def toRat (d : Decimal) : Rat :=
  (d.digits : Rat) * tenPow d.exponent

/-- The same number without zeros at the end of its digits. -/
def normalize (d : Decimal) : Decimal :=
  if _h : d.digits ≠ 0 ∧ d.digits % 10 = 0 then
    normalize { digits := d.digits / 10, exponent := d.exponent + 1 }
  else d
termination_by d.digits
decreasing_by exact Nat.div_lt_self (Nat.pos_of_ne_zero _h.1) (by omega)

end Decimal

namespace Shortest

/-- The numbers that round to a double. Its ends belong to it when the significand is even. -/
structure Interval where
  low : Rat
  high : Rat
  closed : Bool

/-- Whether a number lies in an interval. -/
def Interval.contains (i : Interval) (q : Rat) : Bool :=
  if i.closed then i.low ≤ q && q ≤ i.high else i.low < q && q < i.high

/-- The numbers that round to a finite code. Below a power of two the doubles are twice as
dense. -/
def interval (code : Nat) : Interval :=
  let m := Binary64.significand code
  let e := Binary64.exponent code
  let quarter := Binary64.twoPow (e - 2)
  let below : Nat := if m = Binary64.binade ∧ Binary64.minExponent < e then 1 else 2
  { low := ((4 * m - below : Nat) : Rat) * quarter
    high := ((4 * m + 2 : Nat) : Rat) * quarter
    closed := m % 2 = 0 }

/-- The exponent of the first digit of a positive number. -/
def leadingExponent (q : Rat) : Int :=
  if 1 ≤ q then ((Nat.toDigits 10 q.floor.toNat).length : Int) - 1
  else -((Nat.toDigits 10 (q⁻¹.ceil.toNat - 1)).length : Int)

/-- The multiple of `10 ^ e` in the interval that is nearest to `q`, if there is one. Halfway
between two of them the even one is taken. -/
def onGrid? (i : Interval) (q : Rat) (e : Int) : Option Decimal :=
  let k := (q / Decimal.tenPow e).floor.toNat
  let below : Decimal := { digits := k, exponent := e }
  let above : Decimal := { digits := k + 1, exponent := e }
  match i.contains below.toRat, i.contains above.toRat with
  | true, true =>
    let toBelow := q - below.toRat
    let toAbove := above.toRat - q
    if toBelow < toAbove then some below
    else if toAbove < toBelow then some above
    else if k % 2 = 0 then some below else some above
  | true, false => some below
  | false, true => some above
  | false, false => none

/-- Tries the grids from `10 ^ e` downwards, at most `count` of them. -/
def search (i : Interval) (q : Rat) : (count : Nat) → (e : Int) → Option Decimal
  | 0, _ => none
  | count + 1, e =>
    match onGrid? i q e with
    | some d => some d
    | none => search i q count (e - 1)

/-- The shortest decimal that rounds to a finite code. Seventeen digits are always enough. -/
def decimal (code : Nat) : Decimal :=
  if code = 0 then { digits := 0, exponent := 0 }
  else
    let q := Binary64.magnitude code
    let d := search (interval code) q 17 (leadingExponent q)
    (d.getD { digits := 0, exponent := 0 }).normalize

end Shortest

end LetWhile
