import LetWhile.Number.Numeral
import LetWhile.Number.Shortest

/-!
# Numbers and times that stand for nothing

A float or a time can have the right shape and still stand for nothing: a number that is too large
for a double, a month or an hour that no clock shows, a day that its month does not have.
-/

namespace LetWhile.Toml

/-- A float that was taken apart: its digits without the point, and the power of ten that they are
multiplied with. -/
def decimalParts (text : String) : List Char × Int :=
  let cs := (Numeral.sign text.toList).2
  let isMark (c : Char) : Bool := c = 'e' || c = 'E'
  let mantissa := cs.takeWhile fun c => !isMark c
  let exponent := (Numeral.integer? (String.ofList (cs.drop (mantissa.length + 1)))).getD 0
  let whole := mantissa.takeWhile (· ≠ '.')
  let fraction := mantissa.drop (whole.length + 1)
  ((whole ++ fraction).dropWhile (· = '0'), exponent - fraction.length)

/-- Whether a float is too large for a double. Only where the number of places in front of the point
does not settle it are the digits looked at. -/
def isTooLarge (text : String) : Bool :=
  let (digits, exponent) := decimalParts text
  let places := digits.length + exponent
  if digits.isEmpty || places ≤ 308 then false
  else if 309 < places then true
  else
    let number : Decimal := { digits := (Numeral.natural? 0 digits).getD 0, exponent }
    (Binary64.ofRat number.toRat).isInfinite

/-- What is wrong with a date or a time. -/
inductive TimeFault where
  | month
  | day
  | hour
  | minute
  | second
  /-- What follows the time of the day cannot be used. -/
  | extra (text : String)
deriving DecidableEq, Repr

/-- The wording of a fault. -/
def TimeFault.message : TimeFault → String
  | .month => "month out of range"
  | .day => "day out of range"
  | .hour => "hour out of range"
  | .minute => "minute out of range"
  | .second => "second out of range"
  | .extra text => "extra text: \"" ++ text ++ "\""

/-- The number that `count` digits behind the first `start` characters denote. -/
def numberAt (start count : Nat) (cs : List Char) : Nat :=
  (Numeral.natural? 0 ((cs.drop start).take count)).getD 0

/-- Whether a year has a day more than others. -/
def isLeapYear (year : Nat) : Bool :=
  year % 4 = 0 && (year % 100 ≠ 0 || year % 400 = 0)

/-- The number of days of a month. -/
def daysIn (year month : Nat) : Nat :=
  if month = 2 then (if isLeapYear year then 29 else 28)
  else if [4, 6, 9, 11].contains month then 30
  else 31

/-- What is wrong with the month of a date. -/
def monthFault? (date : List Char) : Option TimeFault :=
  let month := numberAt 5 2 date
  if 1 ≤ month && month ≤ 12 then none else some .month

/-- What is wrong with the day of a date. -/
def dayFault? (date : List Char) : Option TimeFault :=
  let day := numberAt 8 2 date
  if 1 ≤ day && day ≤ daysIn (numberAt 0 4 date) (numberAt 5 2 date) then none else some .day

/-- What is wrong with a time of the day. -/
def clockFault? (clock : List Char) : Option TimeFault :=
  if 24 ≤ numberAt 0 2 clock then some .hour
  else if 60 ≤ numberAt 3 2 clock then some .minute
  else if 60 ≤ numberAt 6 2 clock then some .second
  else none

/-- Whether a distance from universal time is at most 24 hours and 60 minutes. -/
def isOffset (offset : List Char) : Bool :=
  offset = ['Z'] || (numberAt 1 2 offset ≤ 24 && numberAt 4 2 offset ≤ 60)

/-- What is wrong with a date, a time, or both. A distance from universal time is looked at only if
all else is right; if anything is wrong with it or with the day, it is what is complained about. -/
def timeFault? (text : String) : Option TimeFault :=
  let cs := text.toList
  if !cs.contains ':' then monthFault? cs <|> dayFault? cs
  else if !cs.contains '-' then clockFault? cs
  else
    let clock := cs.drop 11
    let offset := (clock.drop 8).dropWhile fun c => c = '.' || c.isDigit
    monthFault? cs <|> clockFault? clock <|>
      if offset.isEmpty then dayFault? cs
      else if isOffset offset && (dayFault? cs).isNone then none
      else some (.extra (String.ofList offset))

end LetWhile.Toml
