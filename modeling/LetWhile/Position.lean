/-!
# Places in a source text

A position is a byte offset from 0 together with a line and a column from 1. Columns count
characters. Tokens can also be supplied from outside with any numbers in these fields, so the
fields are integers and only the positions that `Position.advance` computes are known to be places
in a text.
-/

namespace LetWhile

/-- A place in a source text. -/
structure Position where
  offset : Int := 0
  line : Int := 0
  column : Int := 0
deriving DecidableEq, Repr, Inhabited

namespace Position

/-- The first place of every text. -/
def start : Position := ⟨0, 1, 1⟩

/-- The place behind the character `c`. A line feed ends its line. -/
def step (p : Position) (c : Char) : Position :=
  if c = '\n' then ⟨p.offset + c.utf8Size, p.line + 1, 1⟩
  else ⟨p.offset + c.utf8Size, p.line, p.column + 1⟩

/-- The place behind a run of characters. -/
def advance (p : Position) (cs : List Char) : Position :=
  cs.foldl step p

@[simp]
theorem advance_nil (p : Position) : p.advance [] = p := rfl

@[simp]
theorem advance_cons (p : Position) (c : Char) (cs : List Char) :
    p.advance (c :: cs) = (p.step c).advance cs := rfl

theorem advance_append (p : Position) (cs ds : List Char) :
    p.advance (cs ++ ds) = (p.advance cs).advance ds := by
  simp [advance]

/-- How a message names a place: `input:line:column: `. -/
def label (p : Position) : String :=
  "input:" ++ toString p.line ++ ":" ++ toString p.column ++ ": "

end Position

end LetWhile
