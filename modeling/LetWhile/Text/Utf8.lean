/-!
# Byte strings read as UTF-8

A source file is a list of bytes and nothing says that it is well-formed UTF-8. `Glyph.decode`
reads it from the left: where the bytes start a well-formed sequence, the whole sequence is one
character, and where they do not, the first byte stands alone as a stray byte. Nothing is lost, so
every later stage can tell where in the file it stands.
-/

namespace LetWhile

/-- One unit of a decoded byte string: a character, or a byte that starts no well-formed
sequence. -/
inductive Glyph where
  | char (c : Char)
  | stray (b : UInt8)
deriving DecidableEq, Repr

namespace Glyph

/-- The bytes that a unit was read from. -/
def bytes : Glyph → List UInt8
  | .char c => String.utf8EncodeChar c
  | .stray b => [b]

/-- Reads `count` continuation bytes, six bits each, behind the bits `acc` read before them. -/
def continuation? : (count : Nat) → (acc : Nat) → List UInt8 → Option Nat
  | 0, acc, _ => some acc
  | _ + 1, _, [] => none
  | count + 1, acc, b :: bs =>
    if b.toNat / 64 = 2 then continuation? count (acc * 64 + b.toNat % 64) bs else none

/-- The character whose code point is `code`, when its shortest encoding takes `size` bytes. This
refuses surrogates, code points that are too large, and encodings longer than need be. -/
def ofCode? (code size : Nat) : Option Char :=
  if h : code.isValidChar then
    let c := Char.ofNatAux code h
    if c.utf8Size = size then some c else none
  else none

/-- The character that a byte string starts with, if it starts with a well-formed sequence. -/
def leading? : List UInt8 → Option Char
  | [] => none
  | b :: rest =>
    let n := b.toNat
    if n < 0x80 then ofCode? n 1
    else if n < 0xC0 then none
    else if n < 0xE0 then (continuation? 1 (n % 32) rest).bind (ofCode? · 2)
    else if n < 0xF0 then (continuation? 2 (n % 16) rest).bind (ofCode? · 3)
    else if n < 0xF8 then (continuation? 3 (n % 8) rest).bind (ofCode? · 4)
    else none

/-- Reads a byte string from the left, each well-formed sequence as its character and each other
byte by itself. -/
def decode : List UInt8 → List Glyph
  | [] => []
  | b :: rest =>
    match leading? (b :: rest) with
    | some c => .char c :: decode (rest.drop (c.utf8Size - 1))
    | none => .stray b :: decode rest
termination_by bs => bs.length
decreasing_by
  all_goals simp only [List.length_drop, List.length_cons]; omega

/-- The character shown for a unit: a stray byte is shown as the replacement character. -/
def shown : Glyph → Char
  | .char c => c
  | .stray _ => '�'

/-- Whether a unit is a stray byte. -/
def isStray : Glyph → Bool
  | .char _ => false
  | .stray _ => true

end Glyph

/-- The bytes of a text. -/
def utf8Bytes (s : String) : List UInt8 :=
  s.toUTF8.toList

/-- A byte string as text, each stray byte replaced by the replacement character. -/
def shownText (bs : List UInt8) : String :=
  String.ofList ((Glyph.decode bs).map Glyph.shown)

/-- Whether a byte string has stray bytes, which makes it the encoding of no text. -/
def hasStray (bs : List UInt8) : Bool :=
  (Glyph.decode bs).any Glyph.isStray

/-- A byte string that is the encoding of no text. -/
structure StrayText where
  bytes : List UInt8
  isStray : hasStray bytes = true
deriving DecidableEq, Repr

end LetWhile
