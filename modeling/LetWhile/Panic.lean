import LetWhile.Gap

/-!
# Breaking off

A stage that cannot go on returns an error. Where it does not come to that, it breaks off, and
nothing is returned at all. Three things can make it: a token that no text has, a tree that cannot
be printed, and a row of spaces that is longer than memory.
-/

namespace LetWhile

/-- What a stage breaks off at. -/
inductive Panic where
  /-- A string token has no room for its two quotes. -/
  | missingQuotes (text : String)
  /-- The Java printer met a gap in a tree. -/
  | gap (g : Gap)
  /-- A row of so many spaces cannot be built. -/
  | row (spaces : Nat)
deriving DecidableEq, Repr

/-- What is shown when a stage breaks off. A row whose length is no machine integer is refused
before memory is asked for it. -/
def Panic.message : Panic → String
  | .missingQuotes text =>
    "runtime error: slice bounds out of range " ++ if text = "" then "[:-1]" else "[1:0]"
  | .gap g => "generator: " ++ g.message
  | .row spaces =>
    if spaces < 0x8000000000000000 then "runtime error: makeslice: len out of range"
    else "strings: Repeat output length overflow"

end LetWhile
