import LetWhile.Text.Printable
import LetWhile.Text.Utf8

/-!
# Quoted text

Messages, dumps and the settings file show a text between double quotes. The quote and the
backslash are escaped, seven control characters have a short name, every other character that is
not printable is written by its code point, and the rest stands as it is. A byte string that is not
well-formed UTF-8 can be shown as well: a stray byte is written by its value.
-/

namespace LetWhile

namespace Quoted

/-- The lowercase hexadecimal digits of `n`, at least `width` of them. -/
def hex (width n : Nat) : List Char :=
  let ds := Nat.toDigits 16 n
  List.replicate (width - ds.length) '0' ++ ds

/-- A character as it stands between double quotes. -/
def char (c : Char) : List Char :=
  match c with
  | '"' => ['\\', '"']
  | '\\' => ['\\', '\\']
  | '\x07' => ['\\', 'a']
  | '\x08' => ['\\', 'b']
  | '\x0c' => ['\\', 'f']
  | '\n' => ['\\', 'n']
  | '\r' => ['\\', 'r']
  | '\t' => ['\\', 't']
  | '\x0b' => ['\\', 'v']
  | _ =>
    if isPrintable c then [c]
    else if c.toNat < 0x80 then '\\' :: 'x' :: hex 2 c.toNat
    else if c.toNat < 0x10000 then '\\' :: 'u' :: hex 4 c.toNat
    else '\\' :: 'U' :: hex 8 c.toNat

/-- A unit of a byte string as it stands between double quotes. -/
def glyph : Glyph → List Char
  | .char c => char c
  | .stray b => '\\' :: 'x' :: hex 2 b.toNat

end Quoted

/-- A text between double quotes. -/
def quoted (s : String) : String :=
  String.ofList ('"' :: s.toList.flatMap Quoted.char ++ ['"'])

/-- A byte string between double quotes. -/
def quotedBytes (bs : List UInt8) : String :=
  String.ofList ('"' :: (Glyph.decode bs).flatMap Quoted.glyph ++ ['"'])

end LetWhile
