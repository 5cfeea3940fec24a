import LetWhile.Text.Letter
import LetWhile.Token.Basic
import LetWhile.Token.Escape

/-!
# From bytes to tokens

`Token.lex` cuts a byte string into tokens, each as long as it can be. Between tokens stand spaces,
tabs, carriage returns and line feeds only.

A run of the ten symbolic characters is one operator, except that a sign with a digit behind it
always starts a number: `a+-1` is `a`, `+`, `-1`, and `1-2` is `1`, `-2`. Any other character that
starts no name, number or string is an operator by itself.
-/

namespace LetWhile

/-- Why a text cannot be cut into tokens. -/
inductive LexFault where
  /-- A byte that is part of no character. -/
  | invalidEncoding
  /-- The text ends inside a string literal. -/
  | unterminatedString
  /-- A backslash in a string literal followed by a character that makes no escape. -/
  | unknownEscape (c : Char)
deriving DecidableEq, Repr

/-- A fault and the place where it was found. -/
structure LexError where
  pos : Position
  fault : LexFault
deriving DecidableEq, Repr

namespace LexError

/-- The wording of an error, without its place. -/
def detail (e : LexError) : String :=
  match e.fault with
  | .invalidEncoding => "invalid UTF-8 encoding at byte " ++ toString e.pos.offset
  | .unterminatedString => "unterminated string literal"
  | .unknownEscape c => "unknown escape sequence \\" ++ String.singleton c

/-- The wording of an error. -/
def message (e : LexError) : String :=
  e.pos.label ++ e.detail

/-- Whether more text could mend the error. -/
def incomplete (e : LexError) : Bool :=
  e.fault = .unterminatedString

end LexError

namespace Lexer

/-- The four characters that may stand between tokens. -/
def isSpace (c : Char) : Bool :=
  c = ' ' || c = '\t' || c = '\r' || c = '\n'

/-- The ten decimal digits. -/
def isDigit (c : Char) : Bool :=
  '0' ≤ c && c ≤ '9'

/-- The two signs of numbers. -/
def isSign (c : Char) : Bool :=
  c = '+' || c = '-'

/-- The ten characters that join to operators. -/
def isSymbolic (c : Char) : Bool :=
  ['+', '-', '*', '/', ':', '!', '?', '<', '>', '='].contains c

/-- The characters of a name behind its first. -/
def isNamePart (c : Char) : Bool :=
  isLetter c || isDigit c || c = '_'

/-- Whether the next unit is a digit. -/
def digitAhead : List Glyph → Bool
  | .char c :: _ => isDigit c
  | _ => false

/-- Whether `c`, with `ahead` behind it, goes on with an operator. -/
def continuesOperator (c : Char) (ahead : List Glyph) : Bool :=
  isSymbolic c && !(isSign c && digitAhead ahead)

/-- The longest run of characters at the front that each satisfy `p`, which also sees what stands
behind the character. -/
def takeRun (p : Char → List Glyph → Bool) : List Glyph → List Char
  | .char c :: gs => if p c gs then c :: takeRun p gs else []
  | _ => []

/-- What `takeRun` leaves. -/
def dropRun (p : Char → List Glyph → Bool) : List Glyph → List Glyph
  | .char c :: gs => if p c gs then dropRun p gs else .char c :: gs
  | gs => gs

theorem length_dropRun_le (p : Char → List Glyph → Bool) (gs : List Glyph) :
    (dropRun p gs).length ≤ gs.length := by
  fun_induction dropRun p gs with
  | case1 c gs _ ih => simp only [List.length_cons]; omega
  | case2 => exact Nat.le_refl _
  | case3 => exact Nat.le_refl _

/-- A token without its place, and the units behind it. -/
structure Lexeme where
  kind : Kind
  text : List Char
  rest : List Glyph
deriving DecidableEq, Repr

/-- A number whose sign or first digit is `first`. It has a fraction only if a digit stands behind
the point. -/
def number (first : Char) (gs : List Glyph) : Lexeme :=
  let whole := first :: takeRun (fun c _ => isDigit c) gs
  let rest := dropRun (fun c _ => isDigit c) gs
  match rest with
  | .char '.' :: more =>
    if digitAhead more then
      { kind := .decimal
        text := whole ++ '.' :: takeRun (fun c _ => isDigit c) more
        rest := dropRun (fun c _ => isDigit c) more }
    else { kind := .integer, text := whole, rest }
  | _ => { kind := .integer, text := whole, rest }

/-- What becomes of the inside of a string literal. -/
inductive StringBody where
  /-- The characters up to and with the closing quote, and the units behind it. -/
  | closed (text : List Char) (rest : List Glyph)
  /-- A fault, and the characters in front of its place. -/
  | broken (before : List Char) (fault : LexFault)
deriving DecidableEq, Repr

/-- Puts characters in front of those of a string body. -/
def StringBody.prepend (cs : List Char) : StringBody → StringBody
  | .closed text rest => .closed (cs ++ text) rest
  | .broken before fault => .broken (cs ++ before) fault

/-- Reads a string literal behind its opening quote. -/
def stringBody : List Glyph → StringBody
  | [] => .broken [] .unterminatedString
  | .stray _ :: _ => .broken [] .invalidEncoding
  | [.char '\\'] => .broken [] .unterminatedString
  | .char '\\' :: .stray _ :: _ => .broken ['\\'] .invalidEncoding
  | .char '\\' :: .char e :: gs =>
    if (escaped? e).isSome then (stringBody gs).prepend ['\\', e]
    else .broken [] (.unknownEscape e)
  | .char c :: gs => if c = '"' then .closed ['"'] gs else (stringBody gs).prepend [c]

/-- The token that starts with the character `c` at the place `pos`. A text that ends inside a
string literal is reported where the literal starts, every other fault where it stands. -/
def lexeme (pos : Position) (c : Char) (gs : List Glyph) : Except LexError Lexeme :=
  if isSign c && digitAhead gs then .ok (number c gs)
  else if isSymbolic c then
    .ok { kind := .operator
          text := c :: takeRun continuesOperator gs
          rest := dropRun continuesOperator gs }
  else if isLetter c then
    .ok { kind := .identifier
          text := c :: takeRun (fun d _ => isNamePart d) gs
          rest := dropRun (fun d _ => isNamePart d) gs }
  else if isDigit c then .ok (number c gs)
  else if c = '"' then
    match stringBody gs with
    | .closed text rest => .ok { kind := .string, text := '"' :: text, rest }
    | .broken _ .unterminatedString => .error { pos, fault := .unterminatedString }
    | .broken before fault => .error { pos := pos.advance ('"' :: before), fault }
  else .ok { kind := .operator, text := [c], rest := gs }

theorem length_rest_number_le (first : Char) (gs : List Glyph) :
    (number first gs).rest.length ≤ gs.length := by
  have h := length_dropRun_le (fun c _ => isDigit c) gs
  simp only [number]
  split
  · next more hm =>
    have hm' := length_dropRun_le (fun c _ => isDigit c) more
    rw [hm, List.length_cons] at h
    split
    · simp only; omega
    · simpa only [hm, List.length_cons] using h
  · exact h

theorem length_stringBody_le {gs : List Glyph} {text : List Char} {rest : List Glyph}
    (h : stringBody gs = .closed text rest) : rest.length ≤ gs.length := by
  induction gs using stringBody.induct generalizing text rest with
  | case5 e gs he ih =>
    simp only [stringBody, he] at h
    cases hb : stringBody gs with
    | closed t r =>
      simp only [hb, StringBody.prepend, if_true, StringBody.closed.injEq] at h
      have := ih hb
      simp only [List.length_cons]
      rw [← h.2]; omega
    | broken b f => simp [hb, StringBody.prepend] at h
  | case7 gs => simp_all [stringBody]
  | case8 c gs h1 h2 h3 hc ih =>
    rw [stringBody] at h
    · cases hb : stringBody gs with
      | closed t r =>
        simp only [hb, hc, StringBody.prepend, if_false, StringBody.closed.injEq] at h
        have := ih hb
        simp only [List.length_cons]
        rw [← h.2]; omega
      | broken b f => simp [hb, hc, StringBody.prepend] at h
    all_goals assumption
  | _ => simp_all [stringBody]

theorem length_rest_lexeme_le {pos : Position} {c : Char} {gs : List Glyph} {l : Lexeme}
    (h : lexeme pos c gs = .ok l) : l.rest.length ≤ gs.length := by
  unfold lexeme at h
  split at h
  · cases h; exact length_rest_number_le c gs
  split at h
  · cases h; exact length_dropRun_le _ gs
  split at h
  · cases h; exact length_dropRun_le _ gs
  split at h
  · cases h; exact length_rest_number_le c gs
  split at h
  · split at h
    · next hb => cases h; exact length_stringBody_le hb
    · cases h
    · cases h
  · cases h; exact Nat.le_refl _

/-- The tokens of the units `gs`, the first of which stands at `pos`. -/
def tokens (pos : Position) (gs : List Glyph) : Except LexError (List Token) :=
  let pos := pos.advance (takeRun (fun c _ => isSpace c) gs)
  match _hs : dropRun (fun c _ => isSpace c) gs with
  | [] => .ok []
  | .stray _ :: _ => .error { pos, fault := .invalidEncoding }
  | .char c :: rest =>
    match _hl : lexeme pos c rest with
    | .error e => .error e
    | .ok l =>
      match tokens (pos.advance l.text) l.rest with
      | .error e => .error e
      | .ok ts => .ok ({ kind := l.kind, text := String.ofList l.text, pos } :: ts)
termination_by gs.length
decreasing_by
  have hs := length_dropRun_le (fun c _ => isSpace c) gs
  have hl := length_rest_lexeme_le _hl
  simp only [_hs, List.length_cons] at hs
  omega

end Lexer

/-- Cuts a byte string into tokens. -/
def Token.lex (source : List UInt8) : Except LexError (List Token) :=
  Lexer.tokens .start (Glyph.decode source)

end LetWhile
