import LetWhile.Text.Ranges

/-!
# White space

The characters with the property White_Space of Unicode 17, and the text between the first and
the last character that is not one of them.
-/

namespace LetWhile

/-- The white space outside ASCII. -/
def blankRanges : List (Nat × Nat) :=
  [(0x85, 0x85), (0xA0, 0xA0), (0x1680, 0x1680), (0x2000, 0x200A), (0x2028, 0x2029),
    (0x202F, 0x202F), (0x205F, 0x205F), (0x3000, 0x3000)]

/-- Whether `c` is white space. -/
def isBlank (c : Char) : Bool :=
  if c.toNat < 0x80 then c.toNat = 0x20 || (9 ≤ c.toNat && c.toNat ≤ 13)
  else inRanges blankRanges c.toNat

/-- The text without the white space at its two ends. -/
def trimmed (s : String) : String :=
  String.ofList (((s.toList.dropWhile isBlank).reverse.dropWhile isBlank).reverse)

end LetWhile
