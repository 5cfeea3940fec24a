import LetWhile.Number.Numeral

/-!
# Notations for rationals

A decimal token of a source text has a sign, digits, a point and digits. A token that was put
together by other means can be more: a quotient of two integers, a number with an exponent to the
base ten or two, a number in base 2, 8 or 16 with a prefix that says so. Digits may be divided by
single underscores.

All of these denote exact rationals, and it is assumed that every number of digits can be read. Only
where an exponent is written, it can ask for powers beyond all reason, and then the text denotes
nothing.
-/

namespace LetWhile.Notation

/-- The number that a digit stands for, in bases up to 36. -/
def digit? (c : Char) : Option Nat :=
  if '0' ≤ c && c ≤ '9' then some (c.toNat - '0'.toNat)
  else if 'a' ≤ c && c ≤ 'z' then some (c.toNat - 'a'.toNat + 10)
  else if 'A' ≤ c && c ≤ 'Z' then some (c.toNat - 'A'.toNat + 10)
  else none

/-- What the character before the next one was. -/
inductive Last where
  | digit
  | underscore
  | other
deriving DecidableEq, Repr

/-- Digits that were read so far. -/
structure Digits where
  value : Nat := 0
  count : Nat := 0
  /-- The number of digits behind the point, once there was one. -/
  fraction : Option Nat := none
  last : Last := .other
  /-- Whether an underscore stood where none may stand. -/
  misplaced : Bool := false
deriving DecidableEq, Repr

namespace Digits

/-- Reads digits, underscores and, if `point` is set, one point. -/
def read (base : Nat) (point : Bool) (d : Digits) : List Char → Digits × List Char
  | [] => (d, [])
  | c :: cs =>
    if c = '.' && point && d.fraction.isNone then
      read base point
        { d with
          fraction := some 0, last := .other, misplaced := d.misplaced || d.last = .underscore }
        cs
    else if c = '_' then
      read base point { d with last := .underscore, misplaced := d.misplaced || d.last ≠ .digit } cs
    else
      match digit? c with
      | some n =>
        if n < base then
          read base point
            { d with
              value := base * d.value + n
              count := d.count + 1
              fraction := d.fraction.map (· + 1)
              last := .digit }
            cs
        else (d, c :: cs)
      | none => (d, c :: cs)

/-- Whether every underscore stands between digits. -/
def isTidy (d : Digits) : Bool := !d.misplaced && d.last ≠ .underscore

end Digits

/-- The digits of a number, their base, and what follows them. Where no point may stand, a leading
zero stands for base 8. -/
def digits? (point : Bool) (cs : List Char) : Option (Digits × Nat × List Char) :=
  let zero : Digits := { last := .digit }
  let finish (needed : Bool) (base : Nat) (start : Digits) (cs : List Char) :
      Option (Digits × Nat × List Char) :=
    let (d, rest) := start.read base point cs
    if d.isTidy && (!needed || 0 < d.count) then some (d, base, rest) else none
  match cs with
  | '0' :: c :: rest =>
    if c = 'b' || c = 'B' then finish true 2 zero rest
    else if c = 'o' || c = 'O' then finish true 8 zero rest
    else if c = 'x' || c = 'X' then finish true 16 zero rest
    else if point then finish true 10 { zero with count := 1 } (c :: rest)
    else finish false 8 zero (c :: rest)
  | _ => finish true 10 {} cs

/-- The exponent that is written at the front of a text, with its base, and what follows it. -/
def exponent? (cs : List Char) : Option (Option (Int × Nat) × List Char) :=
  match cs with
  | [] => some (none, [])
  | c :: rest =>
    if ['e', 'E', 'p', 'P'].contains c then
      let (sign, rest) := Numeral.sign rest
      let (d, rest) := ({} : Digits).read 10 false rest
      let e := sign * d.value
      if d.isTidy && 0 < d.count && -0x8000000000000000 ≤ e && e < 0x8000000000000000 then
        some (some (e, if c = 'e' || c = 'E' then 10 else 2), rest)
      else none
    else some (none, c :: rest)

/-- Whether powers of five and of two are beyond all reason. -/
def isExcessive (fives twos : Int) : Bool :=
  1000000 < fives.natAbs || 10000000 < twos.natAbs

/-- The number `n * 5 ^ fives * 2 ^ twos`. -/
def scaled (n : Int) (fives twos : Int) : Rat :=
  let up := Nat.pow 5 fives.toNat * Nat.pow 2 twos.toNat
  let down := Nat.pow 5 (-fives).toNat * Nat.pow 2 (-twos).toNat
  mkRat (n * up) down

/-- A number with an optional point and an optional exponent. -/
def pointed? (cs : List Char) : Option Rat := do
  let (sign, cs) := Numeral.sign cs
  let (d, base, rest) ← digits? true cs
  let (written, rest) ← exponent? rest
  if !rest.isEmpty then none
  else if d.value = 0 then some 0
  else
    let (e, ebase) := written.getD (0, 10)
    let places : Int := -(d.fraction.getD 0 : Nat)
    let fives := (if base = 10 then places else 0) + (if ebase = 10 then e else 0)
    let bits : Int := if base = 16 then 4 else if base = 8 then 3 else 1
    let twos := bits * places + e
    if written.isSome && isExcessive fives twos then none
    else some (scaled (sign * d.value) fives twos)

/-- An integer without a sign, and nothing behind it. -/
def whole? (cs : List Char) : Option Nat := do
  let (d, _, rest) ← digits? false cs
  if rest.isEmpty then some d.value else none

/-- A quotient of two integers. -/
def quotient? (num den : List Char) : Option Rat := do
  let (sign, num) := Numeral.sign num
  let n ← whole? num
  let d ← whole? den
  if d = 0 then none else some (mkRat (sign * n) d)

/-- The number that the text of a decimal token denotes in any of these notations. -/
def decimal? (text : String) : Option Rat :=
  let cs := text.toList
  if cs.contains '/' then
    quotient? (cs.takeWhile (· ≠ '/')) ((cs.dropWhile (· ≠ '/')).drop 1)
  else pointed? cs

end LetWhile.Notation
