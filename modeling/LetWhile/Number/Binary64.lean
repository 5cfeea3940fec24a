/-!
# Double-precision numbers

A double is 64 bits: a sign, an exponent of 11 bits and a fraction of 52 bits. Everything here is
exact arithmetic on those bits. The 63 bits behind the sign, read as one number, are called the
code of a double: codes are ordered as the magnitudes that they stand for, and the code above all
finite ones is infinity.

`Binary64.ofRat` rounds a rational to the nearest double, and halfway between two of them to the
one whose code is even.
-/

namespace LetWhile

/-- A double-precision number, given by its bits. -/
structure Binary64 where
  bits : UInt64
deriving DecidableEq, Repr, Inhabited

namespace Binary64

/-- The number of codes that share an exponent. -/
def binade : Nat := 0x10000000000000

/-- The code of infinity. -/
def infinityCode : Nat := 2047 * binade

/-- The least exponent of the last place. -/
def minExponent : Int := -1074

/-- The value of the sign bit. -/
def signBit : Nat := 0x8000000000000000

/-- The bits behind the sign. -/
def code (x : Binary64) : Nat := x.bits.toNat % signBit

/-- Whether the sign bit is set. -/
def negative (x : Binary64) : Bool := signBit ≤ x.bits.toNat

/-- The double with a sign and a code. -/
def ofCode (negative : Bool) (code : Nat) : Binary64 :=
  ⟨UInt64.ofNat ((if negative then signBit else 0) + code)⟩

/-- Whether a double is an infinity. -/
def isInfinite (x : Binary64) : Bool := x.code = infinityCode

/-- Whether a double stands for no number at all. -/
def isNaN (x : Binary64) : Bool := infinityCode < x.code

/-- The significand of a finite code: its magnitude in units of the last place. -/
def significand (code : Nat) : Nat :=
  if code < binade then code else binade + code % binade

/-- The exponent of the last place of a finite code. -/
def exponent (code : Nat) : Int :=
  if code < binade then minExponent else minExponent + (code / binade - 1 : Nat)

/-- The number two raised to an integer power. -/
def twoPow (e : Int) : Rat :=
  if 0 ≤ e then (Nat.pow 2 e.toNat : Rat) else 1 / (Nat.pow 2 (-e).toNat : Rat)

/-- The number that a finite code stands for. -/
def magnitude (code : Nat) : Rat :=
  (significand code : Rat) * twoPow (exponent code)

/-- The number that a finite double stands for. -/
def toRat (x : Binary64) : Rat :=
  if x.negative then -magnitude x.code else magnitude x.code

/-- The quotient of two naturals rounded to the nearest natural, a half to the even one. -/
def roundDiv (num den : Nat) : Nat :=
  let q := num / den
  let r := num % den
  if 2 * r < den then q
  else if den < 2 * r then q + 1
  else if q % 2 = 0 then q else q + 1

/-- The greatest `e` with `2 ^ e ≤ num / den`. -/
def floorLog2 (num den : Nat) : Int :=
  let e : Int := (Nat.log2 num : Int) - Nat.log2 den
  if den * Nat.pow 2 e.toNat ≤ num * Nat.pow 2 (-e).toNat then e else e - 1

/-- The code nearest to the magnitude `num / den`. -/
def roundCode (num den : Nat) : Nat :=
  if num = 0 then 0
  else
    let e := max minExponent (floorLog2 num den - 52)
    let units := roundDiv (num * Nat.pow 2 (-e).toNat) (den * Nat.pow 2 e.toNat)
    min infinityCode ((e - minExponent).toNat * binade + units)

/-- The double nearest to a rational. The rational zero gives the zero without a sign. -/
def ofRat (q : Rat) : Binary64 :=
  ofCode (q.num < 0) (roundCode q.num.natAbs q.den)

end Binary64

end LetWhile
