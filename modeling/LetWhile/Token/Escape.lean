import LetWhile.Text.Utf8

/-!
# Escapes in string literals

Inside a string literal a backslash and one more character stand for a character. There are seven
such pairs. A literal loses its first and its last byte, whatever they are. In a source text these
are its quotes, but a token that was put together by other means can have a character of several
bytes there, and what is left of it is not well-formed UTF-8.
-/

namespace LetWhile

/-- The character that a backslash and `c` stand for. -/
def escaped? (c : Char) : Option Char :=
  match c with
  | '"' => some '"'
  | '\'' => some '\''
  | '\\' => some '\\'
  | 'r' => some '\r'
  | 'n' => some '\n'
  | 't' => some '\t'
  | 'b' => some '\x08'
  | _ => none

/-- Replaces each escape by what it stands for. A pair that is no escape stands for the null
character, and a backslash at the very end for nothing; no literal of a source text has either. -/
def unescape : List Char → List Char
  | [] => []
  | ['\\'] => []
  | '\\' :: c :: cs => (escaped? c).getD '\x00' :: unescape cs
  | c :: cs => c :: unescape cs

/-- The byte string that a string literal denotes: what stands between its first and its last byte,
with the escapes replaced. Where there is no backslash, there is nothing to replace, and the bytes
stay as they are; else stray bytes are replaced too, by the replacement character. -/
def literalText (literal : String) : List UInt8 :=
  let body := ((utf8Bytes literal).drop 1).dropLast
  if body.contains 0x5C then
    utf8Bytes (String.ofList (unescape ((Glyph.decode body).map Glyph.shown)))
  else body

theorem unescape_cons {c : Char} (hc : c ≠ '\\') (cs : List Char) :
    unescape (c :: cs) = c :: unescape cs := by
  rw [unescape]
  all_goals intros; contradiction

/-- Where there is no backslash, every character stands for itself. -/
theorem unescape_eq_self {cs : List Char} (h : '\\' ∉ cs) : unescape cs = cs := by
  induction cs with
  | nil => rfl
  | cons c cs ih =>
      have hc : c ≠ '\\' := fun hc => h (hc ▸ List.mem_cons_self)
      rw [unescape_cons hc, ih fun hcs => h (List.mem_cons_of_mem c hcs)]

end LetWhile
