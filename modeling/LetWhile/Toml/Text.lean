import LetWhile.Text.Hex

/-!
# Texts in TOML

A text stands between quotes in one of four ways. Between double quotes escapes are replaced,
between single quotes nothing is. Each of the two has a form with three quotes for texts of several
lines, from which line breaks at the start are dropped; in the one with double quotes a backslash
at the end of a line also drops all white space up to the next character.

Where a text ends is settled without looking at what its escapes denote, so an escape can have the
right shape and still denote nothing.
-/

namespace LetWhile.Toml

/-- Whether a character ends a line. -/
def isBreak (c : Char) : Bool := c = '\n' || c = '\r'

/-- Whether a character is a space or a tab. -/
def isGap (c : Char) : Bool := c = ' ' || c = '\t'

/-- What stands in front of `rest`, the end of `cs`. -/
def consumed (cs rest : List Char) : List Char :=
  cs.take (cs.length - rest.length)

/-- The number of characters of the escape behind a backslash; zero when there is none. -/
def escapeLength : List Char → Nat
  | [] => 0
  | c :: cs =>
    if ['b', 't', 'n', 'f', 'r', '"', '/', '\\'].contains c then 1
    else if c = 'u' && 4 ≤ cs.length && (cs.take 4).all isHex then 5
    else if c = 'U' && 8 ≤ cs.length && (cs.take 8).all isHex then 9
    else 0

/-- What follows the characters of a text between double quotes; the first `skip` characters belong
to an escape that was found before. -/
def afterBasic : (skip : Nat) → List Char → List Char
  | _, [] => []
  | skip + 1, _ :: cs => afterBasic skip cs
  | 0, c :: cs =>
    if c = '\\' then
      match escapeLength cs with
      | 0 => c :: cs
      | length + 1 => afterBasic (length + 1) cs
    else if c < ' ' || c = '"' then c :: cs
    else afterBasic 0 cs

/-- How the next character of a text of several lines is read. -/
inductive Mode where
  | plain
  /-- It belongs to an escape that goes on for so many characters. -/
  | escape (length : Nat)
  /-- White space is dropped behind a backslash at the end of a line. -/
  | gap
deriving DecidableEq, Repr

/-- The characters of a text between triple double quotes, without what is dropped behind
backslashes, and what follows them. -/
def multiline : Mode → List Char → List Char × List Char
  | _, [] => ([], [])
  | .escape (length + 1), c :: cs =>
    let (body, rest) := multiline (if length = 0 then .plain else .escape length) cs
    (c :: body, rest)
  | mode, c :: cs =>
    if mode = .gap && (isGap c || isBreak c) then multiline .gap cs
    else if c = '\\' then
      match escapeLength cs with
      | 0 =>
        match cs with
        | d :: _ => if isBreak d then multiline .gap cs else ([], c :: cs)
        | [] => ([], c :: cs)
      | length + 1 =>
        let (body, rest) := multiline (.escape (length + 1)) cs
        (c :: body, rest)
    else if isBreak c || !(c < ' ' || c = '"') then
      let (body, rest) := multiline .plain cs
      (c :: body, rest)
    else ([], c :: cs)

/-- What follows a text between triple single quotes, from behind the first three on. -/
def afterLiteralLines? : List Char → Option (List Char × List Char)
  | '\'' :: '\'' :: '\'' :: rest => some ([], rest)
  | c :: cs =>
    if c = '\t' || isBreak c || !(c < ' ') then
      (afterLiteralLines? cs).map fun (body, rest) => (c :: body, rest)
    else none
  | [] => none

/-- Replaces the escapes of a text, if each of them denotes a character. -/
def unescape? : List Char → Option (List Char)
  | [] => some []
  | '\\' :: 'u' :: a :: b :: c :: d :: cs => do
    let x ← codePoint? (hexValue [a, b, c, d])
    let rest ← unescape? cs
    return x :: rest
  | '\\' :: 'U' :: a :: b :: c :: d :: e :: f :: g :: h :: cs => do
    let x ← codePoint? (hexValue [a, b, c, d, e, f, g, h])
    let rest ← unescape? cs
    return x :: rest
  | '\\' :: c :: cs => do
    let x ← match c with
      | 'b' => some '\x08'
      | 't' => some '\t'
      | 'n' => some '\n'
      | 'f' => some '\x0c'
      | 'r' => some '\r'
      | '"' => some '"'
      | '\\' => some '\\'
      | _ => none
    let rest ← unescape? cs
    return x :: rest
  | c :: cs => (unescape? cs).map (c :: ·)

/-- A text as it was written. -/
inductive Literal where
  /-- Escapes are to be replaced. -/
  | basic (body : List Char)
  /-- The text stands as it is. -/
  | exact (body : List Char)
deriving DecidableEq, Repr

/-- The text that a literal denotes, if its escapes denote anything. -/
def Literal.decode? : Literal → Option String
  | .basic body => (unescape? body).map String.ofList
  | .exact body => some (String.ofList body)

/-- Reads a text in one of the four ways. -/
def literal? (cs : List Char) : Option (Literal × List Char) :=
  let lines : Option (Literal × List Char) := match cs with
    | '\'' :: '\'' :: '\'' :: inside =>
      (afterLiteralLines? inside).map fun (body, rest) => (.exact (body.dropWhile isBreak), rest)
    | '"' :: '"' :: '"' :: inside =>
      match multiline .plain inside with
      | (body, '"' :: '"' :: '"' :: rest) => some (.basic (body.dropWhile isBreak), rest)
      | _ => none
    | _ => none
  match lines with
  | some r => some r
  | none =>
    match cs with
    | '\'' :: inside =>
      let body := inside.takeWhile fun c => c = '\t' || !(c < ' ' || c = '\'')
      match inside.drop body.length with
      | '\'' :: rest => some (.exact body, rest)
      | _ => none
    | '"' :: inside =>
      match afterBasic 0 inside with
      | '"' :: rest => some (.basic (consumed inside ('"' :: rest)), rest)
      | _ => none
    | _ => none

end LetWhile.Toml
