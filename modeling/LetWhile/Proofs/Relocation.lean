import LetWhile.Proofs.Spelling
import LetWhile.Proofs.Tiling

/-!
# Texts behind white space

A text can be cut at white space. What stands behind it is lexed as if it were a text of its own:
it has the same tokens there, or the same fault, and only the places are others. They are not
arbitrary others. Each is the place behind the same bytes of the text, with everything in front of
the text counted in.

Nothing needs to be known of the places themselves for this. The lexer comes by one place after the
other, each of them reached from the one where it started by the characters in between. So a map
that takes every place reached from one start to the place reached from another start takes the
tokens found from the one to those found from the other.
-/

namespace LetWhile.Lexer

/-! ## Starting at another place -/

section Carries

variable {f : Position → Position} {pos pos' : Position} {c : Char} {gs : List Glyph}

/-- Whatever the lexer comes by in `gs` when it starts at `pos` is taken to what it comes by when it
starts at `pos'`. -/
def Carries (f : Position → Position) (pos pos' : Position) (gs : List Glyph) : Prop :=
  ∀ before rest, gs = before.map Glyph.char ++ rest → f (pos.advance before) = pos'.advance before

theorem Carries.here (h : Carries f pos pos' gs) : f pos = pos' :=
  h [] gs rfl

theorem Carries.behind (cs : List Char) (h : Carries f pos pos' (cs.map Glyph.char ++ gs)) :
    Carries f (pos.advance cs) (pos'.advance cs) gs := by
  intro before rest hgs
  rw [← Position.advance_append, ← Position.advance_append]
  refine h (cs ++ before) rest ?_
  rw [hgs, List.map_append, List.append_assoc]

/-- The tokens at other places, or the error at another place. -/
def relocated (f : Position → Position) :
    Except LexError (List Token) → Except LexError (List Token)
  | .ok ts => .ok (ts.map fun t => { t with pos := f t.pos })
  | .error e => .error { e with pos := f e.pos }

theorem relocated_cons (x : Except LexError (List Token)) (t : Token) :
    relocated f (x >>= fun ts => .ok (t :: ts)) =
      relocated f x >>= fun ts => .ok ({ t with pos := f t.pos } :: ts) := by
  cases x <;> rfl

theorem lexeme_error_relocated {e : LexError} (h : Carries f pos pos' (.char c :: gs))
    (he : lexeme pos c gs = .error e) :
    lexeme pos' c gs = .error { e with pos := f e.pos } := by
  obtain ⟨rfl, before, hb, hpos⟩ := lexeme_eq_error.mp he
  refine lexeme_eq_error.mpr ⟨rfl, before, hb, ?_⟩
  obtain ⟨rest, rfl⟩ := stringBody_broken hb
  dsimp only
  rw [hpos]
  split
  · exact h.here
  · exact h ('"' :: before) rest rfl

/-- **The lexer finds the same from another start**, at the places that belong to that start. -/
theorem tokens_relocated (h : Carries f pos pos' gs) :
    tokens pos' gs = relocated f (tokens pos gs) := by
  induction pos, gs using lexing_induction generalizing pos' with
  | nil pos => rw [tokens_nil, tokens_nil]; rfl
  | stray pos b gs => rw [tokens_stray, tokens_stray, relocated, h.here]
  | space pos c gs hc ih =>
      rw [tokens_space hc, tokens_space hc]
      exact ih (Carries.behind [c] h)
  | broken pos c gs e hc hl =>
      rw [tokens_char hc, tokens_char hc, hl, lexeme_error_relocated h hl]
      rfl
  | token pos c gs l hc hl ih =>
      have hrest : Carries f (pos.advance l.text) (pos'.advance l.text) l.rest := by
        rw [← lexeme_split hl] at h
        exact h.behind l.text
      rw [tokens_char hc, tokens_char hc, hl, lexeme_ok_moved hl, ok_bind, ok_bind,
        ih hrest, relocated_cons, h.here]

end Carries

end LetWhile.Lexer

namespace LetWhile

open Lexer

/-! ## Starting behind another text -/

/-- What has tokens is the text of some characters. -/
theorem Token.exists_chars_of_lex {source : List UInt8} {ts : List Token}
    (h : Token.lex source = .ok ts) :
    ∃ cs : List Char, Glyph.decode source = cs.map Glyph.char ∧
      source = cs.flatMap String.utf8EncodeChar := by
  have hchars : Glyph.decode source = ((Glyph.decode source).map Glyph.shown).map Glyph.char := by
    rw [List.map_map]
    refine (List.map_id _).symm.trans (List.map_congr_left fun g hg => ?_)
    cases g with
    | char c => rfl
    | stray b => exact (isChar_of_tokens h _ hg).elim
  refine ⟨_, hchars, ?_⟩
  conv_lhs => rw [← Glyph.bytes_decode source, hchars, List.flatMap_map]
  rfl

/-- Behind other characters the bytes in front of a place are those of these characters, and those
that were in front of it before. -/
theorem carries_behind (cs : List Char) (v : List UInt8) :
    Carries (fun place => .after (cs.flatMap String.utf8EncodeChar ++ v.take place.offset.toNat))
      .start (Position.start.advance cs) (Glyph.decode v) := by
  intro before rest hv
  obtain ⟨more, rfl, -⟩ := Glyph.exists_of_decode before hv
  have hoffset : (Position.start.advance before).offset.toNat =
      (before.flatMap String.utf8EncodeChar).length := by
    rw [Position.advance_start]
    exact Int.toNat_natCast _
  dsimp only
  rw [hoffset, List.take_left, ← List.flatMap_append, ← Position.advance_start,
    Position.advance_append]

theorem encode_spaceByte {w : UInt8} {c : Char} {v : List UInt8} (hc : isSpace c = true)
    (h : Glyph.decode (w :: v) = .char c :: Glyph.decode v) : String.utf8EncodeChar c = [w] := by
  obtain ⟨more, hbytes, -⟩ := Glyph.exists_of_decode [c] h
  obtain ⟨b, -, hb⟩ := encode_of_isSpace hc
  rw [List.flatMap_singleton, hb] at hbytes
  rw [hb, (List.cons.inj hbytes).1]

/-- A text that has tokens, a space and anything else are lexed one by one. -/
theorem lex_append_space {u : List UInt8} {ts : List Token} (hu : Token.lex u = .ok ts)
    {w : UInt8} (hw : w ∈ spaceBytes) (v : List UInt8) :
    Token.lex (u ++ w :: v) =
      relocated (fun place => .after (u ++ w :: v.take place.offset.toNat)) (Token.lex v) >>=
        fun us => .ok (ts ++ us) := by
  obtain ⟨cs, hdecode, hbytes⟩ := Token.exists_chars_of_lex hu
  obtain ⟨c, hc, hspace⟩ := decode_spaceByte hw v
  have hplace : (behind .start (Glyph.decode u)).step c = Position.start.advance (cs ++ [c]) := by
    have hshown : (Glyph.decode u).map Glyph.shown = cs := by
      rw [hdecode, List.map_map]
      exact List.map_id cs
    rw [behind, hshown, Position.advance_append]
    rfl
  have hfront : (cs ++ [c]).flatMap String.utf8EncodeChar = u ++ [w] := by
    rw [List.flatMap_append, List.flatMap_singleton, encode_spaceByte hc hspace, ← hbytes]
  have hcarries := carries_behind (cs ++ [c]) v
  simp only [hfront, List.append_assoc, List.singleton_append] at hcarries
  rw [Token.lex, Glyph.decode_append (isChar_of_tokens hu), hspace,
    tokens_append (separates_of_isSpace hc) hu, tokens_space hc, hplace, tokens_relocated hcarries]
  rfl

/-- Behind other bytes the offset of a fault has their number added to it. -/
theorem LexError.offset_behind {v : List UInt8} {e : LexError} (h : Token.lex v = .error e)
    (front : List UInt8) :
    (Position.after (front ++ v.take e.pos.offset.toNat)).offset = front.length + e.pos.offset := by
  -- the fault stands in the text, so that so many bytes are there to be taken
  obtain ⟨n, hn, hpos⟩ := LexError.pos_trueIn h
  have hbefore : e.pos.offset = n := by
    rw [hpos]
    show ((v.take n).length : Int) = n
    rw [List.length_take, Nat.min_eq_left hn]
  show ((front ++ v.take e.pos.offset.toNat).length : Int) = _
  rw [hbefore, Int.toNat_natCast, List.length_append, List.length_take, Nat.min_eq_left hn]
  omega

/--
**Lexing is compositional at white space.** Let a text have tokens, and let a space and any other
text stand behind it. If the other text has tokens, then the whole has the tokens of both, those of
the second one at the places where they stand now. If the other text has a fault, then the whole has
the same fault at the place where it stands now, and says the same about it; only the offset of a
stray byte, which is part of what is said, counts from the start of the whole.
-/
theorem lex_compositional {u : List UInt8} {ts : List Token} (hu : Token.lex u = .ok ts)
    {w : UInt8} (hw : w ∈ spaceBytes) (v : List UInt8) :
    (∀ us, Token.lex v = .ok us →
      Token.lex (u ++ w :: v) =
        .ok (ts ++ us.map fun t => { t with pos := .after (u ++ w :: v.take t.first) })) ∧
    ∀ e, Token.lex v = .error e →
      ∃ e', Token.lex (u ++ w :: v) = .error e' ∧
        e'.pos = .after (u ++ w :: v.take e.pos.offset.toNat) ∧
        e'.fault = e.fault ∧ e'.incomplete = e.incomplete ∧
        (e.fault ≠ .invalidEncoding → e'.detail = e.detail) ∧
        (e.fault = .invalidEncoding →
          e.detail = "invalid UTF-8 encoding at byte " ++ toString e.pos.offset ∧
          e'.detail = "invalid UTF-8 encoding at byte " ++
            toString (u.length + 1 + e.pos.offset)) := by
  have hwhole := lex_append_space hu hw v
  constructor
  · intro us hus
    rw [hwhole, hus]
    rfl
  · intro e he
    obtain ⟨pos, fault⟩ := e
    have hoffset := LexError.offset_behind he (u ++ [w])
    rw [List.append_assoc, List.singleton_append, List.length_append, List.length_singleton,
      Int.natCast_add, Int.natCast_one] at hoffset
    refine ⟨{ pos := .after (u ++ w :: v.take pos.offset.toNat), fault }, ?_, rfl, rfl, rfl, ?_, ?_⟩
    · rw [hwhole, he]
      rfl
    · intro hfault
      cases fault with
      | invalidEncoding => exact absurd rfl hfault
      | unterminatedString => rfl
      | unknownEscape d => rfl
    · rintro rfl
      refine ⟨rfl, ?_⟩
      rw [LexError.detail, hoffset]

/-- A name and a string literal on two lines. -/
def nameAndText : List UInt8 := [0x61, 0x0A, 0x22, 0xC3, 0xA9, 0x22]

theorem lex_compositional_nameAndText :
    Token.lex nameAndText = .ok [⟨.identifier, "a", ⟨0, 1, 1⟩⟩, ⟨.string, "\"é\"", ⟨2, 2, 1⟩⟩] ∧
    Token.lex [0x20, 0x2B] = .ok [⟨.operator, "+", ⟨1, 1, 2⟩⟩] ∧
    Token.lex (nameAndText ++ 0x09 :: [0x20, 0x2B]) =
      .ok [⟨.identifier, "a", ⟨0, 1, 1⟩⟩, ⟨.string, "\"é\"", ⟨2, 2, 1⟩⟩,
        ⟨.operator, "+", ⟨8, 2, 6⟩⟩] ∧
    Token.lex [0x31, 0xFF] = .error ⟨⟨1, 1, 2⟩, .invalidEncoding⟩ ∧
    ∃ e, Token.lex (nameAndText ++ 0x09 :: [0x31, 0xFF]) = .error e ∧ e.pos = ⟨8, 2, 6⟩ ∧
      e.fault = .invalidEncoding ∧ e.detail = "invalid UTF-8 encoding at byte 8" := by
  have htwo : Token.lex nameAndText =
      .ok [⟨.identifier, "a", ⟨0, 1, 1⟩⟩, ⟨.string, "\"é\"", ⟨2, 2, 1⟩⟩] := by
    with_unfolding_all rfl
  have hplus : Token.lex [0x20, 0x2B] = .ok [⟨.operator, "+", ⟨1, 1, 2⟩⟩] := by
    with_unfolding_all rfl
  have hstray : Token.lex [0x31, 0xFF] = .error ⟨⟨1, 1, 2⟩, .invalidEncoding⟩ := by
    with_unfolding_all rfl
  have htab : (0x09 : UInt8) ∈ spaceBytes := by decide
  have hbehind (b : UInt8) (hb : b ∈ [0x20, 0x31]) :
      Position.after (nameAndText ++ [0x09, b]) = ⟨8, 2, 6⟩ := by
    simp only [List.mem_cons, List.not_mem_nil, or_false] at hb
    rcases hb with rfl | rfl
    · with_unfolding_all rfl
    · with_unfolding_all rfl
  refine ⟨htwo, hplus, ?_, hstray, ?_⟩
  · have hwhole := (lex_compositional htwo htab [0x20, 0x2B]).1 _ hplus
    rw [hwhole, ← hbehind 0x20 (by decide)]
    rfl
  · obtain ⟨e, he, hpos, hfault, -, -, hdetail⟩ :=
      (lex_compositional htwo htab [0x31, 0xFF]).2 _ hstray
    exact ⟨e, he, hpos.trans (hbehind 0x31 (by decide)), hfault, (hdetail rfl).2⟩

end LetWhile
