import LetWhile.Proofs.Literals
import LetWhile.Text.Hex

/-!
# String literals in Java

A string literal is written so that Java finds the same text in it that the program had. Java goes
over a literal twice. The first pass knows nothing of literals: it replaces Unicode escapes all over
a source text, wherever a backslash that is not itself preceded by an odd number of backslashes has
a `u` behind it. The second pass finds the end of the literal and replaces the other escapes. What
makes the two work together is that every character is written with an even number of backslashes in
front of whatever follows it. So the first pass finds nothing to replace, and the second pass takes
no quote for the last one but the last.

The written text is a literal of the language it was compiled from, too. Its lexer and its decoder
have tables of their own, and they find the same text once more.
-/

namespace LetWhile.Java

/-! ## How Java reads a string literal -/

/-- Where the first pass stands. -/
inductive Pass where
  /-- Outside an escape, behind so many backslashes. -/
  | text (backslashes : Nat)
  /-- In an escape, behind the backslash and perhaps some `u`. -/
  | marks
  /-- In an escape, behind the given digits. -/
  | digits (ds : List Char)
deriving DecidableEq, Repr

/-- The first pass. A backslash with an even number of backslashes in front of it and a `u` behind
it starts an escape, and then any number of `u` and four hexadecimal digits have to follow. They
stand for the character with that code point; digits that stand for half of a character only are
refused here. -/
def translate? : Pass → List Char → Option (List Char)
  | .text _, [] => some []
  | .marks, [] => none
  | .digits _, [] => none
  | .text n, c :: cs =>
    if c ≠ '\\' then (translate? (.text 0) cs).map (c :: ·)
    else if n % 2 = 0 ∧ cs.head? = some 'u' then translate? .marks cs
    else (translate? (.text (n + 1)) cs).map (c :: ·)
  | .marks, c :: cs =>
    if c = 'u' then translate? .marks cs
    else if isHex c then translate? (.digits [c]) cs
    else none
  | .digits ds, c :: cs =>
    if !isHex c then none
    else if ds.length < 3 then translate? (.digits (ds ++ [c])) cs
    else
      (codePoint? (hexValue (ds ++ [c]))).bind fun d =>
        (translate? (.text 0) cs).map (d :: ·)

/-- The character that a backslash and `e` stand for in the second pass. Java has more escapes, but
these six are the ones that are written. -/
def escapeValue? (e : Char) : Option Char :=
  match e with
  | '\\' => some '\\'
  | '"' => some '"'
  | 'n' => some '\n'
  | 'r' => some '\r'
  | 't' => some '\t'
  | 'b' => some '\x08'
  | _ => none

/-- The second pass, from behind the opening quote. A literal ends on the line where it starts, and
nothing may stand behind its closing quote. -/
def bodyValue? : List Char → Option (List Char)
  | [] => none
  | ['"'] => some []
  | '\\' :: e :: cs => (escapeValue? e).bind fun c => (bodyValue? cs).map (c :: ·)
  | c :: cs =>
    if c = '"' ∨ c = '\\' ∨ c = '\n' ∨ c = '\r' then none else (bodyValue? cs).map (c :: ·)

/-- The text that a string literal denotes in Java. -/
def literalValue? (literal : List Char) : Option (List Char) :=
  match translate? (.text 0) literal with
  | some ('"' :: cs) => bodyValue? cs
  | _ => none

/-- The number of backslashes at the end of a text. -/
def trailing (cs : List Char) : Nat := (cs.reverse.takeWhile (· = '\\')).length

/-! ## One character -/

/-- A character that is written as an escape is written with one that Java knows, and it is none
that the first pass replaces. Every other character is written as itself, and Java takes it so. -/
theorem escapeChar_java (c : Char) :
    (∃ e, escapeChar c = ['\\', e] ∧ escapeValue? e = some c ∧ e ≠ 'u' ∧ e ≠ '\n' ∧ e ≠ '\r') ∨
      (escapeChar c = [c] ∧ c ≠ '"' ∧ c ≠ '\\' ∧ c ≠ '\n' ∧ c ≠ '\r') := by
  unfold escapeChar
  split
  · exact .inl ⟨_, rfl, rfl, by decide, by decide, by decide⟩
  · exact .inl ⟨_, rfl, rfl, by decide, by decide, by decide⟩
  · exact .inl ⟨_, rfl, rfl, by decide, by decide, by decide⟩
  · exact .inl ⟨_, rfl, rfl, by decide, by decide, by decide⟩
  · exact .inl ⟨_, rfl, rfl, by decide, by decide, by decide⟩
  · exact .inl ⟨_, rfl, rfl, by decide, by decide, by decide⟩
  · next hback hquote hfeed hreturn _ _ => exact .inr ⟨rfl, hquote, hback, hfeed, hreturn⟩

theorem trailing_snoc (cs : List Char) (c : Char) :
    trailing (cs ++ [c]) = if c = '\\' then trailing cs + 1 else 0 := by
  unfold trailing
  rw [List.reverse_concat, List.takeWhile_cons]
  by_cases hc : c = '\\'
  · simp [hc]
  · simp [hc]

/-- Behind a written character the number of backslashes is even if it was in front of it. -/
theorem trailing_escapeChar {before : List Char} (h : trailing before % 2 = 0) (c : Char) :
    trailing (before ++ escapeChar c) % 2 = 0 := by
  rcases escapeChar_java c with ⟨e, he, -⟩ | ⟨he, -, hback, -⟩
  · have happend : before ++ ['\\', e] = before ++ ['\\'] ++ [e] := by simp
    rw [he, happend, trailing_snoc, trailing_snoc]
    split
    · simp; omega
    · rfl
  · rw [he, trailing_snoc, if_neg hback]

/-! ## All characters -/

/-- **The first pass replaces nothing.** -/
theorem translate?_written (cs : List Char) (n : Nat) (hn : n % 2 = 0) :
    translate? (.text n) (cs.flatMap escapeChar ++ ['"']) =
      some (cs.flatMap escapeChar ++ ['"']) := by
  -- `n` is even in front of each character, as each of them leaves it even
  induction cs generalizing n with
  | nil => simp [translate?]
  | cons c cs ih =>
      rw [List.flatMap_cons, List.append_assoc]
      rcases escapeChar_java c with ⟨e, he, -, hu, -⟩ | ⟨he, -, hback, -⟩
      · rw [he, List.cons_append, List.cons_append, List.nil_append]
        have hnext : ¬ (n % 2 = 0 ∧ (e :: (cs.flatMap escapeChar ++ ['"'])).head? = some 'u') := by
          rintro ⟨-, hhead⟩
          exact hu (Option.some.inj hhead)
        have hodd : ¬ ((n + 1) % 2 = 0 ∧
            (cs.flatMap escapeChar ++ ['"']).head? = some 'u') := by
          omega
        rw [translate?, if_neg (by decide), if_neg hnext, translate?, if_neg hodd]
        by_cases hback : e = '\\'
        · rw [if_neg (by simp [hback]), ih (n + 1 + 1) (by omega)]
          rfl
        · rw [if_pos hback, ih 0 rfl]
          rfl
      · rw [he, List.cons_append, List.nil_append, translate?, if_pos hback, ih 0 rfl]
        rfl

/-- A backslash is written twice. Had it been written once, what follows it would have been taken
for an escape. -/
example : translate? (.text 0) ['\\', '\\', 'u', '0', '0', '4', '1'] =
      some ['\\', '\\', 'u', '0', '0', '4', '1'] ∧
    translate? (.text 0) ['\\', 'u', '0', '0', '4', '1'] = some ['A'] := by
  decide

/-- **The second pass finds the text.** -/
theorem bodyValue?_written (cs : List Char) :
    bodyValue? (cs.flatMap escapeChar ++ ['"']) = some cs := by
  induction cs with
  | nil => rfl
  | cons c cs ih =>
      rw [List.flatMap_cons, List.append_assoc]
      rcases escapeChar_java c with ⟨e, he, hvalue, -⟩ | ⟨he, hquote, hback, hfeed, hreturn⟩
      · rw [he, List.cons_append, List.cons_append, List.nil_append, bodyValue?, hvalue,
          Option.bind_some, ih]
        rfl
      · have hplain : ¬ (c = '"' ∨ c = '\\' ∨ c = '\n' ∨ c = '\r') := by
          simp [hquote, hback, hfeed, hreturn]
        rw [he, List.cons_append, List.nil_append, bodyValue?, if_neg hplain, ih]
        · rfl
        · intro h
          exact absurd h hquote
        · intro _ _ h
          exact absurd h hback

/-- Every quote inside has an odd number of backslashes in front of it, and the last one has not. -/
theorem trailing_written (cs : List Char) {before : List Char} (hbefore : trailing before % 2 = 0)
    {front back : List Char} (h : cs.flatMap escapeChar ++ ['"'] = front ++ '"' :: back) :
    trailing (before ++ front) % 2 = 0 ↔ back = [] := by
  induction cs generalizing before front with
  | nil =>
      cases front with
      | nil =>
          cases h
          simpa using hbefore
      | cons d front => simp at h
  | cons c cs ih =>
      have hnext := trailing_escapeChar hbefore c
      rw [List.flatMap_cons, List.append_assoc] at h
      rcases escapeChar_java c with ⟨e, he, -⟩ | ⟨he, hquote, -⟩
      · rw [he] at h hnext
        rcases front with _ | ⟨d, _ | ⟨d', front⟩⟩
        · cases h
        · -- the quote is the one that the backslash escapes
          cases h
          have hodd : trailing (before ++ ['\\']) % 2 ≠ 0 := by
            rw [trailing_snoc, if_pos rfl]
            omega
          simpa using hodd
        · simp only [List.cons_append, List.nil_append, List.cons.injEq] at h
          obtain ⟨rfl, rfl, h⟩ := h
          have hrest := ih hnext h
          rwa [List.append_assoc] at hrest
      · rw [he] at h hnext
        rcases front with _ | ⟨d, front⟩
        · exact absurd (List.cons.inj h).1 hquote
        · simp only [List.cons_append, List.nil_append, List.cons.injEq] at h
          obtain ⟨rfl, h⟩ := h
          have hrest := ih hnext h
          rwa [List.append_assoc] at hrest

theorem feed_notMem_escapeChar (c : Char) : '\n' ∉ escapeChar c ∧ '\r' ∉ escapeChar c := by
  rcases escapeChar_java c with ⟨e, he, -, -, hfeed, hreturn⟩ | ⟨he, -, -, hfeed, hreturn⟩
  · rw [he]
    simp [hfeed.symm, hreturn.symm]
  · rw [he]
    simp [hfeed.symm, hreturn.symm]

/-! ## The literal of a text -/

/-- **A literal stands on one line.** -/
theorem feed_notMem_stringLiteral (v : String) :
    '\n' ∉ (stringLiteral v).toList ∧ '\r' ∉ (stringLiteral v).toList := by
  have hchars : ∀ d ∈ (stringLiteral v).toList, d = '"' ∨ ∃ c, d ∈ escapeChar c := by
    intro d hd
    rw [toList_stringLiteral, List.mem_cons, List.mem_append, List.mem_flatMap,
      List.mem_singleton] at hd
    rcases hd with hd | ⟨c, -, hd⟩ | hd
    · exact .inl hd
    · exact .inr ⟨c, hd⟩
    · exact .inl hd
  constructor
  · intro h
    rcases hchars _ h with h | ⟨c, hc⟩
    · cases h
    · exact (feed_notMem_escapeChar c).1 hc
  · intro h
    rcases hchars _ h with h | ⟨c, hc⟩
    · cases h
    · exact (feed_notMem_escapeChar c).2 hc

/-- **The quotes that no backslash escapes are the first and the last character.** -/
theorem trailing_stringLiteral {v : String} {front back : List Char}
    (h : (stringLiteral v).toList = front ++ '"' :: back) :
    trailing front % 2 = 0 ↔ front = [] ∨ back = [] := by
  rw [toList_stringLiteral] at h
  cases front with
  | nil => simp [trailing]
  | cons d front =>
      rw [List.cons_append, List.cons.injEq] at h
      obtain ⟨rfl, h⟩ := h
      -- the opening quote is no backslash, so the count starts anew behind it
      have hquote : trailing ['"'] % 2 = 0 := rfl
      have hodd := trailing_written v.toList hquote h
      simpa using hodd

/-- **A literal means its text to Java.** -/
theorem literalValue?_stringLiteral (v : String) :
    literalValue? (stringLiteral v).toList = some v.toList := by
  rw [toList_stringLiteral, literalValue?, translate?, if_pos (by decide),
    translate?_written v.toList 0 rfl]
  exact bodyValue?_written v.toList

end LetWhile.Java

namespace LetWhile

open Lexer

/-- **A written text is one token, from its first character on.** -/
theorem lex_stringLiteral (v : String) :
    Token.lex (utf8Bytes (Java.stringLiteral v)) =
      .ok [{ kind := .string, text := Java.stringLiteral v, pos := .start }] := by
  rw [Token.lex, Glyph.decode_utf8Bytes, toList_stringLiteral, List.map_cons,
    tokens_char (by decide), lexeme_stringLiteral, ok_bind, tokens_nil, String.ofList_toList]
  rfl

/-- **The string literal of a text denotes the text.** It stands on one line, its quotes are the
first and the last character and those behind an odd number of backslashes, and it means the text
both to Java and to the language itself, which reads it as one token. -/
theorem stringLiteral_denotes (v : String) :
    ∃ literal : String,
      (∀ ty pos, Java.expr (.literal ty (.text v) pos) = .ok literal) ∧
      (∃ body, literal.toList = '"' :: body ++ ['"']) ∧
      '\n' ∉ literal.toList ∧ '\r' ∉ literal.toList ∧
      (∀ front back, literal.toList = front ++ '"' :: back →
        (Java.trailing front % 2 = 0 ↔ front = [] ∨ back = [])) ∧
      Java.literalValue? literal.toList = some v.toList ∧
      Token.lex (utf8Bytes literal) =
        .ok [{ kind := .string, text := literal, pos := .start }] ∧
      literalText literal = utf8Bytes v := by
  obtain ⟨hfeed, hreturn⟩ := Java.feed_notMem_stringLiteral v
  refine ⟨Java.stringLiteral v, fun ty pos => ?_, ⟨_, toList_stringLiteral v⟩, hfeed, hreturn, ?_,
    Java.literalValue?_stringLiteral v, lex_stringLiteral v, literalText_stringLiteral v⟩
  · rw [Java.expr, Java.literal]
  · intro front back h
    exact Java.trailing_stringLiteral h

end LetWhile
