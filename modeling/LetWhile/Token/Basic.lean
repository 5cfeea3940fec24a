import LetWhile.Position
import LetWhile.Text.Utf8

/-!
# Tokens

A token is a stretch of source text with its kind and the place where it starts. Keywords are
identifiers like any other here; the grammar tells them apart from names.
-/

namespace LetWhile

/-- What sort of token a stretch of text is. The last one is for tokens that come from elsewhere
and belong to no sort. -/
inductive Kind where
  | identifier
  | integer
  | decimal
  | string
  | operator
  | unknown
deriving DecidableEq, Repr, Inhabited

/-- The name of a kind in messages. -/
def Kind.name : Kind → String
  | .identifier => "identifier"
  | .integer => "integer"
  | .decimal => "decimal"
  | .string => "string"
  | .operator => "operator"
  | .unknown => "unknown"

/-- A stretch of source text. -/
structure Token where
  kind : Kind
  text : String
  pos : Position
deriving DecidableEq, Repr

namespace Token

/-- Whether a token is the operator written `op`. -/
def isOperator (t : Token) (op : String) : Bool :=
  t.kind = .operator && t.text = op

/-- Whether a token is the identifier written `word`. -/
def isWord (t : Token) (word : String) : Bool :=
  t.kind = .identifier && t.text = word

/-- The nine words that cannot be names. -/
def keywords : List String :=
  ["LET", "IF", "THEN", "ELSE", "END", "WHILE", "DO", "TRUE", "FALSE"]

/-- Whether a token is an identifier that is no keyword. -/
def isName (t : Token) : Bool :=
  t.kind = .identifier && !keywords.contains t.text

/-- The place behind a token's text. -/
def endPos (t : Token) : Position :=
  t.pos.advance t.text.toList

end Token

/-- The place behind the last of the tokens; the first place of all when there is none. -/
def endOf (ts : List Token) : Position :=
  match ts.getLast? with
  | some t => t.endPos
  | none => .start

end LetWhile
