import LetWhile.Java.Printer
import LetWhile.Number.Numeral
import LetWhile.Proofs.Spelling

/-!
# Literals that are written and read again

The printer writes an integer in decimal with a minus in front of it if it is negative, and a text
between quotes with escapes for six characters. Both are tokens of the language: they are lexed as
one token each, and the token denotes the integer or the text again.
-/

namespace LetWhile

open Lexer

/-! ## Integers -/

theorem toList_toString (n : Int) :
    (toString n).toList = (if n < 0 then ['-'] else []) ++ Nat.toDigits 10 n.natAbs := by
  cases n with
  | ofNat m =>
      rw [if_neg (by simp)]
      exact Nat.toList_repr
  | negSucc m =>
      rw [if_pos (Int.negSucc_lt_zero m)]
      show ("-" ++ (m + 1).repr).toList = _
      rw [String.toList_append, Nat.toList_repr]
      rfl

theorem isDigit_of_mem_toDigits {n : Nat} {c : Char} (h : c ∈ Nat.toDigits 10 n) :
    isDigit c = true :=
  Nat.isDigit_of_mem_toDigits (by decide) (by decide) h

/-- A digit starts a number and nothing else. -/
theorem digit_starts {c : Char} (h : isDigit c = true) :
    isSpace c = false ∧ isSign c = false ∧ isSymbolic c = false ∧ isLetter c = false := by
  have hrange : 48 ≤ c.toNat ∧ c.toNat ≤ 57 := Char.isDigit_iff_toNat.mp h
  have hc : c = Char.ofNat (48 + (c.toNat - 48)) := by
    rw [show 48 + (c.toNat - 48) = c.toNat by omega, Char.ofNat_toNat]
  have hall : ∀ k < 10, isSpace (Char.ofNat (48 + k)) = false ∧
      isSign (Char.ofNat (48 + k)) = false ∧ isSymbolic (Char.ofNat (48 + k)) = false ∧
      isLetter (Char.ofNat (48 + k)) = false := by decide
  rw [hc]
  exact hall _ (by omega)

theorem takeRun_all {p : Char → Bool} {cs : List Char} (h : ∀ c ∈ cs, p c = true) :
    takeRun (fun c _ => p c) (cs.map Glyph.char) = cs := by
  induction cs with
  | nil => rfl
  | cons c cs ih =>
      obtain ⟨hc, hcs⟩ := List.forall_mem_cons.mp h
      rw [List.map_cons, takeRun, if_pos hc, ih hcs]

/-- A character in front of digits only makes a number with all of them. -/
theorem number_all {cs : List Char} (h : ∀ c ∈ cs, isDigit c = true) (first : Char) :
    number first (cs.map Glyph.char) = { kind := .integer, text := first :: cs, rest := [] } := by
  have hdigits := number_digits first (cs.map Glyph.char)
  rwa [takeRun_all h] at hdigits

/-- Digits are a number. -/
theorem spells_digits {cs : List Char} (hne : cs ≠ []) (h : ∀ c ∈ cs, isDigit c = true) :
    Spells cs [{ kind := .integer, text := String.ofList cs, pos := {} }] := by
  cases cs with
  | nil => exact absurd rfl hne
  | cons d ds =>
      obtain ⟨hd, hds⟩ := List.forall_mem_cons.mp h
      obtain ⟨hspace, hsign, hsymbolic, hletter⟩ := digit_starts hd
      have hlexeme : lexeme .start d (ds.map Glyph.char) =
          .ok { kind := .integer, text := d :: ds, rest := [] } := by
        rw [lexeme, hsign, hsymbolic, hletter, hd]
        exact congrArg Except.ok (number_all hds d)
      exact spells_lexeme hspace hlexeme

/-- A minus and digits are a number. -/
theorem spells_negative {cs : List Char} (hne : cs ≠ []) (h : ∀ c ∈ cs, isDigit c = true) :
    Spells ('-' :: cs) [{ kind := .integer, text := String.ofList ('-' :: cs), pos := {} }] := by
  have hahead : digitAhead (cs.map Glyph.char) = true := by
    cases cs with
    | nil => exact absurd rfl hne
    | cons d ds => exact (List.forall_mem_cons.mp h).1
  have hlexeme : lexeme .start '-' (cs.map Glyph.char) =
      .ok { kind := .integer, text := '-' :: cs, rest := [] } := by
    rw [lexeme, hahead]
    exact congrArg Except.ok (number_all h '-')
  exact spells_lexeme (by decide) hlexeme

/-- **A written integer is one token.** -/
theorem spells_integer (n : Int) :
    Spells (toString n).toList [{ kind := .integer, text := toString n, pos := {} }] := by
  have hdigits : ∀ c ∈ Nat.toDigits 10 n.natAbs, isDigit c = true :=
    fun c hc => isDigit_of_mem_toDigits hc
  rw [← String.ofList_toList (s := toString n), toList_toString, String.toList_ofList]
  split
  · exact spells_negative Nat.toDigits_ne_nil hdigits
  · exact spells_digits Nat.toDigits_ne_nil hdigits

theorem natural?_of_digits {cs : List Char} (h : ∀ c ∈ cs, isDigit c = true) (acc : Nat) :
    Numeral.natural? acc cs = some (Nat.ofDigitChars 10 cs acc) := by
  induction cs generalizing acc with
  | nil => rfl
  | cons c cs ih =>
      obtain ⟨hc, hcs⟩ := List.forall_mem_cons.mp h
      have hdigit : Numeral.digit? c = some (c.toNat - '0'.toNat) := if_pos hc
      rw [Numeral.natural?, hdigit, Option.bind_some, ih hcs, Nat.ofDigitChars_cons]

theorem sign_of_digits {cs : List Char} (h : ∀ c ∈ cs, isDigit c = true) :
    Numeral.sign cs = (1, cs) := by
  unfold Numeral.sign
  split
  · cases (List.forall_mem_cons.mp h).1
  · cases (List.forall_mem_cons.mp h).1
  · rfl

/-- **A written integer denotes the integer.** -/
theorem integer?_toString (n : Int) : Numeral.integer? (toString n) = some n := by
  have hdigits : ∀ c ∈ Nat.toDigits 10 n.natAbs, isDigit c = true :=
    fun c hc => isDigit_of_mem_toDigits hc
  have hvalue : Numeral.natural? 0 (Nat.toDigits 10 n.natAbs) = some n.natAbs := by
    rw [natural?_of_digits hdigits, Nat.ofDigitChars_ten_toDigits]
  have hne : (Nat.toDigits 10 n.natAbs).isEmpty = false :=
    List.isEmpty_eq_false_iff.mpr Nat.toDigits_ne_nil
  by_cases hn : n < 0
  · have hsign : Numeral.sign (['-'] ++ Nat.toDigits 10 n.natAbs) =
        (-1, Nat.toDigits 10 n.natAbs) := rfl
    rw [Numeral.integer?, toList_toString, if_pos hn, hsign]
    dsimp only
    rw [hne, hvalue, if_neg Bool.false_ne_true]
    show some (-1 * (n.natAbs : Int)) = some n
    congr 1
    omega
  · rw [Numeral.integer?, toList_toString, if_neg hn, List.nil_append, sign_of_digits hdigits]
    dsimp only
    rw [hne, hvalue, if_neg Bool.false_ne_true]
    show some (1 * (n.natAbs : Int)) = some n
    congr 1
    omega

/-! ## Texts -/

/-- A character that is written as an escape stands behind a backslash; every other character is
written as itself, and it is no backslash and no quote. -/
theorem escapeChar_cases (c : Char) :
    (∃ e, Java.escapeChar c = ['\\', e] ∧ escaped? e = some c) ∨
      (Java.escapeChar c = [c] ∧ c ≠ '\\' ∧ c ≠ '"') := by
  unfold Java.escapeChar
  split
  · exact .inl ⟨_, rfl, rfl⟩
  · exact .inl ⟨_, rfl, rfl⟩
  · exact .inl ⟨_, rfl, rfl⟩
  · exact .inl ⟨_, rfl, rfl⟩
  · exact .inl ⟨_, rfl, rfl⟩
  · exact .inl ⟨_, rfl, rfl⟩
  · next hback hquote _ _ _ _ => exact .inr ⟨rfl, hback, hquote⟩

theorem unescape_escape (cs : List Char) : unescape (cs.flatMap Java.escapeChar) = cs := by
  induction cs with
  | nil => rfl
  | cons c cs ih =>
      rw [List.flatMap_cons]
      rcases escapeChar_cases c with ⟨e, he, hc⟩ | ⟨he, hback, -⟩
      · rw [he, List.cons_append, List.cons_append, List.nil_append, unescape, hc, ih]
        rfl
      · rw [he, List.cons_append, List.nil_append, unescape_cons hback, ih]

theorem quotation_escape (cs : List Char) :
    Quotation ((cs.flatMap Java.escapeChar ++ ['"']).map Glyph.char)
      (cs.flatMap Java.escapeChar ++ ['"']) [] := by
  induction cs with
  | nil => exact .close
  | cons c cs ih =>
      rw [List.flatMap_cons]
      rcases escapeChar_cases c with ⟨e, he, hc⟩ | ⟨he, hback, hquote⟩
      · rw [he]
        exact .escape (by rw [hc]; rfl) ih
      · rw [he]
        exact .plain hback hquote ih

theorem toList_stringLiteral (s : String) :
    (Java.stringLiteral s).toList = '"' :: (s.toList.flatMap Java.escapeChar ++ ['"']) :=
  String.toList_ofList

theorem lexeme_stringLiteral (pos : Position) (s : String) :
    lexeme pos '"' ((s.toList.flatMap Java.escapeChar ++ ['"']).map Glyph.char) =
      .ok { kind := .string, text := (Java.stringLiteral s).toList, rest := [] } := by
  rw [toList_stringLiteral, lexeme, (quotation_escape s.toList).stringBody_eq]
  rfl

/-- **A written text is one token.** -/
theorem spells_stringLiteral (s : String) :
    Spells (Java.stringLiteral s).toList
      [{ kind := .string, text := Java.stringLiteral s, pos := {} }] := by
  have hspells := spells_lexeme (by decide) (lexeme_stringLiteral .start s)
  rwa [String.ofList_toList] at hspells

/-- The constant of a byte string is a text, if stray bytes are allowed in one. -/
theorem Constant.ofBytes_cases (bs : List UInt8) :
    (∃ s, Constant.ofBytes bs = .text s) ∨ ∃ s, Constant.ofBytes bs = .stray s := by
  unfold Constant.ofBytes
  split
  · exact .inr ⟨_, rfl⟩
  · exact .inl ⟨_, rfl⟩

/-- The constant of the bytes of a text is the text. -/
theorem Constant.ofBytes_utf8Bytes (s : String) : Constant.ofBytes (utf8Bytes s) = .text s := by
  rw [Constant.ofBytes, dif_neg (by rw [Glyph.hasStray_utf8Bytes]; exact Bool.false_ne_true),
    Glyph.shownText_utf8Bytes]

/-- What stands between two quotes is found by taking off a byte at each end. -/
theorem bytes_between_quotes {text : String} {body : List Char}
    (htext : text.toList = '"' :: body ++ ['"']) :
    ((utf8Bytes text).drop 1).dropLast = utf8Bytes (String.ofList body) := by
  have hquote : String.utf8EncodeChar '"' = [0x22] := by decide
  rw [Glyph.utf8Bytes_eq, Glyph.utf8Bytes_eq, htext, String.toList_ofList, List.cons_append,
    List.flatMap_cons, List.flatMap_append, List.flatMap_singleton, hquote]
  exact List.dropLast_concat

/-- **What a string literal denotes**: the characters between its quotes, with the escapes
replaced. -/
theorem literalText_quoted {text : String} {body : List Char}
    (htext : text.toList = '"' :: body ++ ['"']) :
    literalText text = utf8Bytes (String.ofList (unescape body)) := by
  unfold literalText
  dsimp only
  rw [bytes_between_quotes htext]
  split
  · have hshown : (Glyph.decode (utf8Bytes (String.ofList body))).map Glyph.shown = body := by
      rw [Glyph.decode_utf8Bytes, String.toList_ofList, List.map_map]
      exact List.map_id body
    rw [hshown]
  · next hplain =>
    -- a backslash in the text would be seen among its bytes
    have hback : '\\' ∉ body := by
      intro hmem
      refine hplain (List.contains_iff_mem.mpr ?_)
      rw [Glyph.utf8Bytes_eq, String.toList_ofList]
      exact List.mem_flatMap.mpr ⟨'\\', hmem, by decide⟩
    rw [unescape_eq_self hback]

/-- The constant of a string literal is a text. -/
theorem Constant.ofBytes_literalText {text : String} {body : List Char}
    (htext : text.toList = '"' :: body ++ ['"']) :
    Constant.ofBytes (literalText text) = .text (String.ofList (unescape body)) := by
  rw [literalText_quoted htext, Constant.ofBytes_utf8Bytes]

/-- **A written text denotes the text.** -/
theorem literalText_stringLiteral (s : String) :
    literalText (Java.stringLiteral s) = utf8Bytes s := by
  rw [literalText_quoted (toList_stringLiteral s), unescape_escape, String.ofList_toList]

/-- Two quotes take two bytes. -/
theorem two_le_quoted (body : List Char) :
    2 ≤ (String.ofList ('"' :: body ++ ['"'])).utf8ByteSize := by
  have hquote : (String.ofList ['"']).utf8ByteSize = 1 := rfl
  have hsplit : String.ofList ('"' :: body ++ ['"']) =
      String.ofList ['"'] ++ String.ofList body ++ String.ofList ['"'] := by
    rw [← String.ofList_append, ← String.ofList_append]
    rfl
  rw [hsplit, String.utf8ByteSize_append, String.utf8ByteSize_append, hquote]
  omega

theorem two_le_of_quoted {text : String} {body : List Char}
    (htext : text.toList = '"' :: body ++ ['"']) : ¬ text.utf8ByteSize < 2 := by
  have htwo := two_le_quoted body
  rw [← htext, String.ofList_toList] at htwo
  omega

/-- A written text has its two quotes. -/
theorem two_le_stringLiteral (s : String) : 2 ≤ (Java.stringLiteral s).utf8ByteSize :=
  two_le_quoted _

end LetWhile
