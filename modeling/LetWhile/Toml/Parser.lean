import LetWhile.Toml.Number
import LetWhile.Toml.Text

/-!
# The shape of a TOML document

A document is read as a list of headers and pairs, before anything is known about their meaning.
The lines of a table may follow its header and each other without a line break, those before the
first header may not. What stands where is noted by line, from 1; each carriage return and each
line feed counts as one line.

TOML has more than one dialect. This is the one of the reader that settings are loaded with, and it
is assumed that this reader accepts the texts of this grammar and no others. What is shown about
loading settings, and about loading what was saved, rests on that.

Every choice is settled by the first alternative that fits. The functions that call each other
have a bound on the depth of their calls as first argument. Every two calls stand for an opening and
a closing bracket, or for a value and the comma behind it, so the length of the text is enough.
-/

namespace LetWhile.Toml

/-- A key as it was written: plain, or between double quotes. -/
inductive Key where
  | bare (text : List Char)
  | quoted (body : List Char)
deriving DecidableEq, Repr

/-- The name that a key denotes, if its escapes denote anything. -/
def Key.decode? : Key → Option String
  | .bare text => some (String.ofList text)
  | .quoted body => (unescape? body).map String.ofList

mutual

/-- A value as it was written. -/
inductive Raw where
  | datetime (text : List Char)
  | float (text : List Char)
  | integer (text : List Char)
  | string (text : Literal) (line : Nat)
  | boolean (value : Bool)
  | array (items : List Raw)
  | table (line : Nat) (pairs : List Pair)

/-- A key with its value: the line of the key, and the line where the value ends. -/
inductive Pair where
  | mk (key : Key) (keyLine : Nat) (value : Raw) (line : Nat)

end

/-- A part of a document. -/
inductive Item where
  /-- The header of a table, or of one more table of an array, with its keys as they were
  written. -/
  | header (keys : List Key) (text : List Char) (isArray : Bool) (line : Nat)
  | pair (pair : Pair)

/-- The line of the place in front of `rest`, in a text of `breaks` line breaks. -/
def lineAt (breaks : Nat) (rest : List Char) : Nat :=
  breaks - rest.countP isBreak + 1

/-- What follows spaces and tabs. -/
def skipGaps (cs : List Char) : List Char := cs.dropWhile isGap

/-- What follows white space and line breaks. -/
def skipSpace (cs : List Char) : List Char := cs.dropWhile fun c => isGap c || isBreak c

/-- What follows an optional comment. -/
def skipComment : List Char → List Char
  | '#' :: cs => cs.dropWhile fun c => c = '\t' || !(c < ' ')
  | cs => cs

/-- Whether a character can stand in a key without quotes. -/
def isBareKey (c : Char) : Bool :=
  c.isAlphanum || c = '-' || c = '_'

/-- Reads a key. -/
def key? (cs : List Char) : Option (Key × List Char) :=
  let text := cs.takeWhile isBareKey
  if !text.isEmpty then some (.bare text, cs.drop text.length)
  else
    match cs with
    | '"' :: inside =>
      match afterBasic 0 inside with
      | '"' :: rest => some (.quoted (consumed inside ('"' :: rest)), rest)
      | _ => none
    | _ => none

/-- Reads keys with points between them. -/
def keys? : (steps : Nat) → List Char → Option (List Key × List Char)
  | 0, _ => none
  | steps + 1, cs => do
    let (first, rest) ← key? cs
    match skipGaps rest with
    | '.' :: more =>
      match keys? steps (skipGaps more) with
      | some (others, rest) => some (first :: others, rest)
      | none => some ([first], rest)
    | _ => some ([first], rest)

/-- Reads the keys of a header: what they are, how they were written, and what follows the white
space behind them. -/
def headerKeys? (cs : List Char) : Option (List Key × List Char × List Char) := do
  let cs := skipGaps cs
  let (ks, rest) ← keys? (cs.length + 1) cs
  return (ks, consumed cs rest, skipGaps rest)

/-- Reads the header of a table. -/
def header? (breaks : Nat) (cs : List Char) : Option (Item × List Char) :=
  let line := lineAt breaks cs
  let single : Option (Item × List Char) := do
    let inside ← afterChar? '[' cs
    let (ks, text, rest) ← headerKeys? inside
    let rest ← afterChar? ']' rest
    return (.header ks text false line, rest)
  match single with
  | some r => some r
  | none => do
    let inside ← afterChar? '[' cs
    let inside ← afterChar? '[' inside
    let (ks, text, rest) ← headerKeys? inside
    let rest ← afterChar? ']' rest
    let rest ← afterChar? ']' rest
    return (.header ks text true line, rest)

/-- Reads a truth value. -/
def boolean? : List Char → Option (Bool × List Char)
  | 't' :: 'r' :: 'u' :: 'e' :: rest => some (true, rest)
  | 'f' :: 'a' :: 'l' :: 's' :: 'e' :: rest => some (false, rest)
  | _ => none

/-- Reads a value that holds no other values. -/
def scalar? (breaks : Nat) (cs : List Char) : Option (Raw × List Char) :=
  match afterDatetime? cs with
  | some rest => some (.datetime (consumed cs rest), rest)
  | none =>
    match afterFloat? cs with
    | some rest => some (.float (consumed cs rest), rest)
    | none =>
      match afterInteger? cs with
      | some rest => some (.integer (consumed cs rest), rest)
      | none =>
        match literal? cs with
        | some (text, rest) => some (.string text (lineAt breaks rest), rest)
        | none => (boolean? cs).map fun (b, rest) => (.boolean b, rest)

mutual

/-- Reads a value. -/
def value? (breaks : Nat) : (steps : Nat) → List Char → Option (Raw × List Char)
  | 0, _ => none
  | steps + 1, cs =>
    match scalar? breaks cs with
    | some r => some r
    | none =>
      match cs with
      | '[' :: inside =>
        let inside := skipSpace inside
        let (items, rest) := (items? breaks steps inside).getD ([], inside)
        (afterChar? ']' (skipSpace rest)).map fun rest => (.array items, rest)
      | '{' :: inside =>
        let (pairs, rest) := inlinePairs breaks steps (skipGaps inside)
        (afterChar? '\x7d' (skipGaps rest)).map fun rest =>
          (.table (lineAt breaks inside) pairs, rest)
      | _ => none

/-- Reads values with commas between them; a comma may also stand behind the last one. -/
def items? (breaks : Nat) : (steps : Nat) → List Char → Option (List Raw × List Char)
  | 0, _ => none
  | steps + 1, cs => do
    let (first, rest) ← value? breaks steps cs
    let others := match skipSpace (skipComment (skipSpace rest)) with
      | ',' :: more => items? breaks steps (skipSpace (skipComment (skipSpace more)))
      | _ => none
    match others with
    | some (others, rest) => some (first :: others, rest)
    | none =>
      let rest := skipSpace rest
      let rest := (afterChar? ',' rest).getD rest
      some ([first], skipComment (skipSpace rest))

/-- Reads pairs with optional commas between them. -/
def inlinePairs (breaks : Nat) : (steps : Nat) → List Char → List Pair × List Char
  | 0, cs => ([], cs)
  | steps + 1, cs =>
    match pair? breaks steps cs with
    | none => ([], cs)
    | some (first, rest) =>
      let rest := match skipGaps rest with
        | ',' :: more => skipGaps more
        | _ => rest
      let (others, rest) := inlinePairs breaks steps rest
      (first :: others, rest)

/-- Reads a key, an equals sign and a value. -/
def pair? (breaks : Nat) : (steps : Nat) → List Char → Option (Pair × List Char)
  | 0, _ => none
  | steps + 1, cs => do
    let (key, rest) ← key? cs
    let keyLine := lineAt breaks rest
    let rest ← afterChar? '=' (skipGaps rest)
    let (value, rest) ← value? breaks steps (skipGaps rest)
    return (.mk key keyLine value (lineAt breaks rest), rest)

end

/-- Reads a pair that is no part of another one. -/
def topPair? (breaks : Nat) (cs : List Char) : Option (Pair × List Char) :=
  pair? breaks (cs.length + 1) cs

/-- Reads the pairs behind a header. -/
def tablePairs (breaks : Nat) : (steps : Nat) → List Char → List Item × List Char
  | 0, cs => ([], cs)
  | steps + 1, cs =>
    match topPair? breaks (skipSpace cs) with
    | none => ([], cs)
    | some (first, rest) =>
      let (others, rest) := tablePairs breaks steps (skipComment (skipGaps rest))
      (.pair first :: others, rest)

/-- Reads a header with the pairs behind it, a single pair, or nothing, and a comment. -/
def expression (breaks : Nat) (cs : List Char) : List Item × List Char :=
  let cs := skipGaps cs
  match header? breaks cs with
  | some (header, rest) =>
    let (pairs, rest) := tablePairs breaks rest.length (skipComment (skipGaps rest))
    (header :: pairs, rest)
  | none =>
    match topPair? breaks cs with
    | some (pair, rest) => ([.pair pair], skipComment (skipGaps rest))
    | none => ([], skipComment cs)

/-- Reads expressions with line breaks between them. -/
def expressions? (breaks : Nat) : (steps : Nat) → List Char → Option (List Item)
  | 0, _ => none
  | steps + 1, cs =>
    let (first, rest) := expression breaks cs
    match rest with
    | [] => some first
    | c :: _ =>
      if isBreak c then
        (expressions? breaks steps (rest.dropWhile isBreak)).map (first ++ ·)
      else none

/-- The headers and pairs of a document, if it has the shape of one. -/
def items (text : String) : Option (List Item) :=
  let cs := text.toList
  expressions? (cs.countP isBreak) (cs.length + 1) cs

end LetWhile.Toml
