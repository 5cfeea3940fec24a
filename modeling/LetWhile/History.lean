import LetWhile.Text.Utf8

/-!
# Histories

A history holds what a user entered, oldest first, and forgets the oldest entries when it grows too
long. In a file every entry is followed by a line feed; an entry of several lines comes back as
several entries.
-/

namespace LetWhile

/-- What a user entered, oldest first. -/
structure History where
  entries : List (List UInt8) := []
deriving DecidableEq, Repr

namespace History

/-- The largest number of entries. -/
def capacity : Nat := 1000

/-- The largest number of bytes that are read as one line. -/
def lineLimit : Nat := 4096

/-- Adds an entry and forgets the oldest one if there are too many. -/
def push (h : History) (entry : List UInt8) : History :=
  let entries := h.entries ++ [entry]
  { entries := entries.drop (entries.length - capacity) }

/-- Adds an entry unless it repeats the last one. -/
def add (h : History) (entry : List UInt8) : History :=
  if h.entries.getLast? = some entry then h else h.push entry

/-- Whether a byte string is well-formed UTF-8. -/
def isText (line : List UInt8) : Bool :=
  (Glyph.decode line).all fun
    | .char _ => true
    | .stray _ => false

/-- A line that ends with a line feed, without it and without a carriage return in front of it. -/
def withoutEnd (line : List UInt8) : List UInt8 :=
  if line.getLast? = some 0x0D then line.dropLast else line

/-- Adds the lines of a file, up to the first one that is too long or no text. `line` is the part of
a line that was read already, in reverse order, and `size` its length. -/
def readFrom (h : History) (line : List UInt8) (size : Nat) : List UInt8 → History
  | [] =>
    if size = 0 || !isText line.reverse then h else h.push line.reverse
  | b :: bs =>
    if b = 0x0A then
      let entry := withoutEnd line.reverse
      if isText entry then (h.push entry).readFrom [] 0 bs else h
    else if size + 1 < lineLimit then h.readFrom (b :: line) (size + 1) bs
    else h

/-- The history in a file. -/
def ofBytes (content : List UInt8) : History :=
  ({} : History).readFrom [] 0 content

/-- A history as the content of a file. -/
def toBytes (h : History) : List UInt8 :=
  h.entries.flatMap (· ++ [0x0A])

end History

end LetWhile
