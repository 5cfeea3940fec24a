import LetWhile.Proofs.Shapes
import LetWhile.Proofs.TruePlaces

/-!
# Faults that more text mends

A fault in a text is called incomplete if the text ends inside a string literal. These are the ones
that more text can mend: a quote closes the literal, or two quotes if the text ends with a
backslash, which takes the first of them for itself. Every other fault is final. What the lexer
found in front of it, it finds again when more text follows, and so it comes to the same fault.

The second part needs some care, as the lexer does look beyond the end of a token. But it looks no
further than two units, and where a fault follows it has seen them. The one token that can end on
less is an integer in front of a point that is the last character, and no fault follows there.

Bytes are another matter. A text that ends inside a character has a stray byte there, and more bytes
may complete the character. An ASCII byte never does, so behind such a text only what starts with
one leaves the fault as it is.
-/

namespace LetWhile.Lexer

/-! ## Tokens in front of more text -/

theorem Ahead.append {p : Char → Bool} {gs : List Glyph} (h : Ahead p gs) (k : List Glyph) :
    Ahead p (gs ++ k) := by
  obtain ⟨c, more, rfl, hc⟩ := h
  exact ⟨c, more ++ k, rfl, hc⟩

theorem Ahead.of_append {p : Char → Bool} {gs k : List Glyph} (hne : gs ≠ [])
    (h : Ahead p (gs ++ k)) : Ahead p gs := by
  obtain ⟨c, more, hgs, hc⟩ := h
  cases gs with
  | nil => exact absurd rfl hne
  | cons g gs =>
      cases hgs
      exact ⟨c, gs, rfl, hc⟩

/-- **The end of a token is seen in what stands behind it**, and more text behind that does not
change it. -/
theorem Shape.append {kind : Kind} {text : List Char} {rest : List Glyph}
    (h : Shape kind text rest) (hne : rest ≠ []) (hpoint : rest ≠ [.char '.']) (k : List Glyph) :
    Shape kind text (rest ++ k) := by
  cases h with
  | identifier hletter hall hstops =>
      exact .identifier hletter hall fun h => hstops (h.of_append hne)
  | integer hwhole hdigit hfraction =>
      refine .integer hwhole (fun h => hdigit (h.of_append hne)) ?_
      rintro ⟨more, hmore, hahead⟩
      cases rest with
      | nil => exact hne rfl
      | cons g gs =>
          cases hmore
          -- the point is not the last character, so what follows it was seen
          have hgs : gs ≠ [] := fun hnil => hpoint (by rw [hnil])
          exact hfraction ⟨gs, rfl, hahead.of_append hgs⟩
  | decimal hwhole hds hdigit => exact .decimal hwhole hds fun h => hdigit (h.of_append hne)
  | string hbody => exact .string hbody
  | symbols hsome hall hsign hstops =>
      refine .symbols hsome hall (fun front c back hcs hc hahead => ?_) fun c more hmore hc => ?_
      · have hbehind : back.map Glyph.char ++ rest ≠ [] := List.append_ne_nil_of_right_ne_nil _ hne
        rw [← List.append_assoc] at hahead
        exact hsign front c back hcs hc (hahead.of_append hbehind)
      · cases rest with
        | nil => exact absurd rfl hne
        | cons g gs =>
            cases hmore
            obtain ⟨hcsign, hahead⟩ := hstops c gs rfl hc
            exact ⟨hcsign, hahead.append k⟩
  | mark hspace hsymbolic hletter hdigit hquote =>
      exact .mark hspace hsymbolic hletter hdigit hquote

theorem lexeme_before {pos : Position} {c : Char} {gs : List Glyph} {l : Lexeme}
    (hspace : isSpace c = false) (h : lexeme pos c gs = .ok l) (hne : l.rest ≠ [])
    (hpoint : l.rest ≠ [.char '.']) (k : List Glyph) :
    lexeme pos c (gs ++ k) = .ok (l.before k) := by
  have hsplit := lexeme_split h
  obtain ⟨d, ds, htext, -, hlexeme⟩ := ((lexeme_shape hspace h).append hne hpoint k).lexeme_eq
  rw [htext, List.map_cons, List.cons_append] at hsplit
  obtain ⟨hd, hds⟩ := List.cons.inj hsplit
  cases hd
  have hmore := hlexeme pos
  rwa [← List.append_assoc, hds] at hmore

/-- **A token in front of a fault is the same whatever follows the fault.** -/
theorem lexeme_before_fault {pos pos' : Position} {c : Char} {gs : List Glyph} {l : Lexeme}
    {e : LexError} (hspace : isSpace c = false) (h : lexeme pos c gs = .ok l)
    (he : tokens pos' l.rest = .error e) (k : List Glyph) :
    lexeme pos c (gs ++ k) = .ok (l.before k) := by
  refine lexeme_before hspace h (fun hrest => ?_) (fun hrest => ?_) k
  · rw [hrest, tokens_nil] at he
    cases he
  · -- a point alone is a token
    have hpoint : lexeme pos' '.' [] = .ok { kind := .operator, text := ['.'], rest := [] } := rfl
    rw [hrest, tokens_char (by decide), hpoint, ok_bind, tokens_nil] at he
    cases he

/-! ## Final faults -/

theorem stringBody_broken_append {gs : List Glyph} {before : List Char} {fault : LexFault}
    (h : stringBody gs = .broken before fault) (hfinal : fault ≠ .unterminatedString)
    (k : List Glyph) : stringBody (gs ++ k) = .broken before fault := by
  induction gs using stringBody_induction generalizing before with
  | ended => rw [stringBody] at h; cases h; exact absurd rfl hfinal
  | stray b gs => rw [stringBody] at h; cases h; rfl
  | endedEscape => rw [stringBody] at h; cases h; exact absurd rfl hfinal
  | strayEscape b gs => rw [stringBody] at h; cases h; rfl
  | unknown e gs he =>
      rw [stringBody, he] at h
      rw [List.cons_append, List.cons_append, stringBody, he]
      exact h
  | escape e gs he ih =>
      rw [stringBody, if_pos he] at h
      obtain ⟨more, hmore, rfl⟩ := prepend_eq_broken.mp h
      rw [List.cons_append, List.cons_append, stringBody, if_pos he, ih hmore]
      rfl
  | quote gs => rw [stringBody_quote] at h; cases h
  | plain c gs hback hquote ih =>
      rw [stringBody_plain hback hquote] at h
      obtain ⟨more, hmore, rfl⟩ := prepend_eq_broken.mp h
      rw [List.cons_append, stringBody_plain hback hquote, ih hmore]
      rfl

/-- **A final fault stays what it is**, and where it is. -/
theorem tokens_error_append {pos : Position} {gs : List Glyph} {e : LexError}
    (h : tokens pos gs = .error e) (hfinal : e.fault ≠ .unterminatedString) (k : List Glyph) :
    tokens pos (gs ++ k) = .error e := by
  induction pos, gs using lexing_induction with
  | nil pos => rw [tokens_nil] at h; cases h
  | stray pos b gs =>
      rw [tokens_stray] at h
      rw [List.cons_append, tokens_stray, h]
  | space pos c gs hc ih =>
      rw [tokens_space hc] at h
      rw [List.cons_append, tokens_space hc]
      exact ih h
  | broken pos c gs e' hc hl =>
      rw [tokens_char hc, hl] at h
      cases h
      obtain ⟨hquote, before, hbody, hpos⟩ := lexeme_eq_error.mp hl
      have hmore : lexeme pos c (gs ++ k) = .error e :=
        lexeme_eq_error.mpr ⟨hquote, before, stringBody_broken_append hbody hfinal k, hpos⟩
      rw [List.cons_append, tokens_char hc, hmore]
      rfl
  | token pos c gs l hc hl ih =>
      rw [tokens_char hc, hl, ok_bind, bind_eq_error] at h
      rcases h with h | ⟨us, -, h⟩
      · rw [List.cons_append, tokens_char hc, lexeme_before_fault hc hl h, ok_bind]
        show tokens (pos.advance l.text) (l.rest ++ k) >>= _ = _
        rw [ih h]
        rfl
      · cases h

/-! ## Incomplete texts -/

/-- What closes a string literal: a quote, or two if a backslash takes the first of them. -/
def closings : List (List Glyph) := [[.char '"'], [.char '"', .char '"']]

theorem stringBody_mended {gs : List Glyph} {before : List Char}
    (h : stringBody gs = .broken before .unterminatedString) :
    ∃ k ∈ closings, ∃ text, stringBody (gs ++ k) = .closed text [] := by
  induction gs using stringBody_induction generalizing before with
  | ended => exact ⟨[.char '"'], by decide, ['"'], stringBody_quote []⟩
  | endedEscape =>
      refine ⟨[.char '"', .char '"'], by decide, ['\\', '"', '"'], ?_⟩
      exact (Quotation.escape rfl .close).stringBody_eq
  | unknown e gs he => rw [stringBody, he] at h; cases h
  | escape e gs he ih =>
      rw [stringBody, if_pos he] at h
      obtain ⟨more, hmore, -⟩ := prepend_eq_broken.mp h
      obtain ⟨k, hk, text, htext⟩ := ih hmore
      refine ⟨k, hk, '\\' :: e :: text, ?_⟩
      exact (Quotation.escape he (.of_stringBody htext)).stringBody_eq
  | quote gs => rw [stringBody_quote] at h; cases h
  | plain c gs hback hquote ih =>
      rw [stringBody_plain hback hquote] at h
      obtain ⟨more, hmore, -⟩ := prepend_eq_broken.mp h
      obtain ⟨k, hk, text, htext⟩ := ih hmore
      refine ⟨k, hk, c :: text, ?_⟩
      exact (Quotation.plain hback hquote (.of_stringBody htext)).stringBody_eq
  | _ => rw [stringBody] at h; cases h

/-- **An incomplete text can be completed.** -/
theorem tokens_mended {pos : Position} {gs : List Glyph} {e : LexError}
    (h : tokens pos gs = .error e) (hopen : e.fault = .unterminatedString) :
    ∃ k ∈ closings, ∃ ts, tokens pos (gs ++ k) = .ok ts := by
  induction pos, gs using lexing_induction with
  | nil pos => rw [tokens_nil] at h; cases h
  | stray pos b gs => rw [tokens_stray] at h; cases h; cases hopen
  | space pos c gs hc ih =>
      rw [tokens_space hc] at h
      obtain ⟨k, hk, ts, hts⟩ := ih h
      exact ⟨k, hk, ts, by rw [List.cons_append, tokens_space hc, hts]⟩
  | broken pos c gs e' hc hl =>
      rw [tokens_char hc, hl] at h
      cases h
      obtain ⟨rfl, before, hbody, -⟩ := lexeme_eq_error.mp hl
      rw [hopen] at hbody
      obtain ⟨k, hk, text, htext⟩ := stringBody_mended hbody
      have hmore : lexeme pos '"' (gs ++ k) =
          .ok { kind := .string, text := '"' :: text, rest := [] } := by
        rw [lexeme, htext]
        rfl
      refine ⟨k, hk, [{ kind := .string, text := String.ofList ('"' :: text), pos }], ?_⟩
      rw [List.cons_append, tokens_char hc, hmore, ok_bind, tokens_nil]
      rfl
  | token pos c gs l hc hl ih =>
      rw [tokens_char hc, hl, ok_bind, bind_eq_error] at h
      rcases h with h | ⟨us, -, h⟩
      · obtain ⟨k, hk, ts, hts⟩ := ih h
        refine ⟨k, hk, { kind := l.kind, text := String.ofList l.text, pos } :: ts, ?_⟩
        rw [List.cons_append, tokens_char hc, lexeme_before_fault hc hl h, ok_bind]
        show tokens (pos.advance l.text) (l.rest ++ k) >>= _ = _
        rw [hts]
        rfl
      · cases h

end LetWhile.Lexer

namespace LetWhile

open Lexer

/-! ## All texts -/

theorem LexError.incomplete_iff {e : LexError} :
    e.incomplete = true ↔ e.fault = .unterminatedString :=
  decide_eq_true_iff

theorem Token.lex_mended {source : List UInt8} {e : LexError} (h : Token.lex source = .error e)
    (hopen : e.fault = .unterminatedString) :
    (∃ ts, Token.lex (source ++ [0x22]) = .ok ts) ∨
      ∃ ts, Token.lex (source ++ [0x22, 0x22]) = .ok ts := by
  have hquote (bs : List UInt8) : Glyph.decode (0x22 :: bs) = .char '"' :: Glyph.decode bs :=
    Glyph.decode_ascii (by decide) (by decide) bs
  obtain ⟨k, hk, ts, hts⟩ := tokens_mended h hopen
  simp only [closings, List.mem_cons, List.not_mem_nil, or_false] at hk
  rcases hk with rfl | rfl
  · refine .inl ⟨ts, ?_⟩
    rw [Token.lex, Glyph.decode_append_ascii (by decide), hquote, Glyph.decode]
    exact hts
  · refine .inr ⟨ts, ?_⟩
    rw [Token.lex, Glyph.decode_append_ascii (by decide), hquote, hquote, Glyph.decode]
    exact hts

/-- A final fault stays what it is where the text is read by itself. -/
theorem Token.lex_error_append {source more : List UInt8} {e : LexError}
    (h : Token.lex source = .error e) (hfinal : e.fault ≠ .unterminatedString)
    (hread : Glyph.decode (source ++ more) = Glyph.decode source ++ Glyph.decode more) :
    Token.lex (source ++ more) = .error e := by
  rw [Token.lex, hread]
  exact tokens_error_append h hfinal (Glyph.decode more)

theorem Glyph.decode_utf8Bytes_append (text : String) (more : List UInt8) :
    decode (utf8Bytes text ++ more) = decode (utf8Bytes text) ++ decode more := by
  refine decode_append (fun g hg => ?_) more
  rw [decode_utf8Bytes] at hg
  obtain ⟨c, -, rfl⟩ := List.mem_map.mp hg
  trivial

/--
**Faults are classified rightly.** A fault that is called incomplete is mended by one quote or by
two. Any other fault is there, at the same place, whatever follows the text, as long as that starts
with an ASCII byte; and if the text has no stray bytes, whatever follows it at all.
-/
theorem lex_error_classified {source : List UInt8} {e : LexError}
    (h : Token.lex source = .error e) :
    (e.incomplete = true →
      (∃ ts, Token.lex (source ++ [0x22]) = .ok ts) ∨
        ∃ ts, Token.lex (source ++ [0x22, 0x22]) = .ok ts) ∧
    (e.incomplete = false →
      (∀ more : List UInt8, (∀ b, more.head? = some b → b.toNat < 0x80) →
        Token.lex (source ++ more) = .error e) ∧
      ((∃ text : String, source = utf8Bytes text) →
        ∀ more, Token.lex (source ++ more) = .error e)) := by
  constructor
  · intro he
    exact Token.lex_mended h (LexError.incomplete_iff.mp he)
  · intro he
    have hfinal : e.fault ≠ .unterminatedString := by
      intro hfault
      rw [LexError.incomplete_iff.mpr hfault] at he
      cases he
    constructor
    · intro more hmore
      cases more with
      | nil => rw [List.append_nil, h]
      | cons b more =>
          exact Token.lex_error_append h hfinal
            (Glyph.decode_append_ascii (hmore b rfl) source more)
    · rintro ⟨text, rfl⟩ more
      exact Token.lex_error_append h hfinal (Glyph.decode_utf8Bytes_append text more)

theorem lex_error_classified_each :
    Token.lex [0x2B, 0x22, 0x5C] = .error ⟨⟨1, 1, 2⟩, .unterminatedString⟩ ∧
    ((∃ ts, Token.lex [0x2B, 0x22, 0x5C, 0x22] = .ok ts) ∨
      ∃ ts, Token.lex [0x2B, 0x22, 0x5C, 0x22, 0x22] = .ok ts) ∧
    Token.lex [0x31, 0xC3] = .error ⟨⟨1, 1, 2⟩, .invalidEncoding⟩ ∧
    Token.lex [0x31, 0xC3, 0x2E] = .error ⟨⟨1, 1, 2⟩, .invalidEncoding⟩ ∧
    Token.lex [0x22, 0x5C, 0x71] = .error ⟨⟨1, 1, 2⟩, .unknownEscape 'q'⟩ ∧
    ∀ more, Token.lex ([0x22, 0x5C, 0x71] ++ more) = .error ⟨⟨1, 1, 2⟩, .unknownEscape 'q'⟩ := by
  have hopen : Token.lex [0x2B, 0x22, 0x5C] = .error ⟨⟨1, 1, 2⟩, .unterminatedString⟩ := by
    with_unfolding_all rfl
  have hstray : Token.lex [0x31, 0xC3] = .error ⟨⟨1, 1, 2⟩, .invalidEncoding⟩ := by
    with_unfolding_all rfl
  have hescape : Token.lex [0x22, 0x5C, 0x71] = .error ⟨⟨1, 1, 2⟩, .unknownEscape 'q'⟩ := by
    with_unfolding_all rfl
  have htext : [0x22, 0x5C, 0x71] = utf8Bytes "\"\\q" := by
    rw [Glyph.utf8Bytes_eq]
    decide
  have hpoint : ∀ b : UInt8, [(0x2E : UInt8)].head? = some b → b.toNat < 0x80 := by
    intro b hb
    cases hb
    decide
  exact ⟨hopen, (lex_error_classified hopen).1 rfl, hstray,
    ((lex_error_classified hstray).2 rfl).1 [0x2E] hpoint, hescape,
    ((lex_error_classified hescape).2 rfl).2 ⟨_, htext⟩⟩

end LetWhile
