import LetWhile.Text.Blank
import LetWhile.Text.Width

/-!
# Tables

A table has a header and rows of cells. Columns are as wide as their widest line, headers stand in
the middle of their column, numbers at its right end and all else at its left end. A cell of
several lines makes its row that many lines high.

This is the layout of a table writer that is taken as it comes. Two things are assumed of it: that
its tables are these texts, and that it goes on with its writes whether or not one of them fails.
Where one write ends and the next begins is not assumed, as nothing depends on it: with a writer
that keeps its first error, only the whole text counts (`Writer.writeAll_limited`).
-/

namespace LetWhile.Table

/-- The lines of a cell. -/
def cellLines (cell : String) : List (List Char) :=
  cell.toList.splitOn '\n'

/-- The spaces that fill a text up to a width. -/
def fill (width : Nat) (cs : List Char) : List Char :=
  List.replicate (width - displayWidth cs) ' '

/-- A text in the middle of a width; an odd space goes to its right. -/
def centred (width : Nat) (cs : List Char) : List Char :=
  let gap := fill width cs
  let left := gap.length / 2
  gap.take left ++ cs ++ gap.drop left

/-- Whether groups of three digits, each behind a comma, make up a text. -/
def commaGroups : List Char → Bool
  | [] => true
  | ',' :: a :: b :: c :: rest => a.isDigit && b.isDigit && c.isDigit && commaGroups rest
  | _ => false

/-- Whether a text is a fraction with its point, or empty. -/
def isFraction : List Char → Bool
  | [] => true
  | '.' :: ds => !ds.isEmpty && ds.all Char.isDigit
  | _ => false

/-- Whether a text is a number: digits, which commas may divide into groups of three, with an
optional minus sign and an optional fraction. -/
def isNumber (cs : List Char) : Bool :=
  let cs := match cs with
    | '-' :: rest => rest
    | _ => cs
  let whole := cs.takeWhile (· ≠ '.')
  let digits := whole.takeWhile Char.isDigit
  let groups := whole.drop digits.length
  !digits.isEmpty && isFraction (cs.drop whole.length) &&
    (groups.isEmpty || (digits.length ≤ 3 && commaGroups groups))

/-- A line of a cell, filled up to the width of its column. -/
def padded (width : Nat) (cs : List Char) : List Char :=
  if isNumber (trimmed (String.ofList cs)).toList then fill width cs ++ cs
  else cs ++ fill width cs

/-- The widths of the columns. -/
def widths (header : List String) (rows : List (List String)) : List Nat :=
  header.mapIdx fun i title =>
    let cells := title :: rows.map fun row => row.getD i ""
    (cells.flatMap cellLines).foldl (fun w l => max w (displayWidth l)) 0

/-- The line with the titles. -/
def headerLine (header : List String) (widths : List Nat) : String :=
  let cells := List.zipWith (fun title w => [' '] ++ centred w title.toList ++ [' ']) header widths
  String.ofList ([' '] ++ ['|'].intercalate cells ++ [' ', '\n'])

/-- The line below the titles. -/
def ruleLine (widths : List Nat) : String :=
  let cells := widths.map fun w => List.replicate (w + 2) '-'
  String.ofList (['-'] ++ ['+'].intercalate cells ++ ['-', '\n'])

/-- The line `i` of a row; a cell that has no such line is blank there. -/
def rowLine (widths : List Nat) (cells : List (List (List Char))) (i : Nat) : String :=
  let cells := List.zipWith (fun lines w => [' '] ++ padded w (lines.getD i [' ', ' ']) ++ [' '])
    cells widths
  String.ofList ([' '] ++ ['|'].intercalate cells ++ [' ', '\n'])

/-- The lines of a row. -/
def rowLines (widths : List Nat) (row : List String) : List String :=
  let cells := row.map cellLines
  let height := cells.foldl (fun h lines => max h lines.length) 0
  (List.range height).map (rowLine widths cells)

/-- The lines of a table. -/
def lines (header : List String) (rows : List (List String)) : List String :=
  let ws := widths header rows
  headerLine header ws :: ruleLine ws :: rows.flatMap (rowLines ws)

end LetWhile.Table
