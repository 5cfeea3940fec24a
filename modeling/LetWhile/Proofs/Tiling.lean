import LetWhile.Proofs.Shapes
import LetWhile.Proofs.TruePlaces

/-!
# The tokens of a text tile it

`Tiles` says of a list of tokens that it is the right one for a text, without saying how to find it.
Each token stands where it says it stands, one behind the other, each has the shape of its kind, and
every byte that belongs to no token is a space. Nothing in it goes along the text: its conditions
are on one token, on two tokens, and on one byte.

The lexer returns a list of tokens exactly if the list tiles the text. To compare the two, what is
left of the text is cut down from the front, and the tokens with it. The number `n` in `Tiles`
counts the bytes that are cut off; for a whole text it is zero.
-/

namespace LetWhile

open Lexer

/-! ## Bytes and characters -/

namespace Glyph

theorem decode_encode_append_all (cs : List Char) (bs : List UInt8) :
    decode (cs.flatMap String.utf8EncodeChar ++ bs) = cs.map Glyph.char ++ decode bs := by
  induction cs with
  | nil => rfl
  | cons c cs ih =>
      rw [List.flatMap_cons, List.append_assoc, decode_encode_append, ih, List.map_cons,
        List.cons_append]

/-- Bytes that are read as characters are the bytes of these characters. -/
theorem exists_of_decode {bs : List UInt8} (cs : List Char) {rest : List Glyph}
    (h : decode bs = cs.map Glyph.char ++ rest) :
    ∃ more, bs = cs.flatMap String.utf8EncodeChar ++ more ∧ decode more = rest := by
  have hbytes : bs = cs.flatMap String.utf8EncodeChar ++ rest.flatMap Glyph.bytes := by
    rw [← bytes_decode bs, h, List.flatMap_append, List.flatMap_map]
    rfl
  refine ⟨rest.flatMap Glyph.bytes, hbytes, ?_⟩
  rw [hbytes, decode_encode_append_all] at h
  exact List.append_cancel_left h

/-- What stands in front of characters and behind them, in a text that is read as these characters
behind its first `n` bytes. -/
theorem cut_of_decode {source : List UInt8} {n : Nat} (cs : List Char) {rest : List Glyph}
    (h : decode (source.drop n) = cs.map Glyph.char ++ rest) :
    source.take (n + (cs.flatMap String.utf8EncodeChar).length) =
        source.take n ++ cs.flatMap String.utf8EncodeChar ∧
      decode (source.drop (n + (cs.flatMap String.utf8EncodeChar).length)) = rest := by
  obtain ⟨more, hdrop, hmore⟩ := exists_of_decode cs h
  constructor
  · rw [List.take_add, hdrop, List.take_left]
  · rw [← List.drop_drop, hdrop, List.drop_left, hmore]

/-- Where nothing is read any more, the text has ended. -/
theorem length_le_of_decode {source : List UInt8} {n : Nat} (h : decode (source.drop n) = []) :
    source.length ≤ n := by
  have hbytes := bytes_decode (source.drop n)
  rw [h] at hbytes
  exact List.drop_eq_nil_iff.mp hbytes.symm

end Glyph

/-- The bytes that may stand between tokens: space, tab, carriage return and line feed. -/
def spaceBytes : List UInt8 := [0x20, 0x09, 0x0D, 0x0A]

theorem encode_of_isSpace {c : Char} (h : isSpace c = true) :
    ∃ b ∈ spaceBytes, String.utf8EncodeChar c = [b] := by
  unfold isSpace at h
  simp only [Bool.or_eq_true_iff, decide_eq_true_eq] at h
  rcases h with ((rfl | rfl) | rfl) | rfl
  · exact ⟨0x20, by decide, rfl⟩
  · exact ⟨0x09, by decide, rfl⟩
  · exact ⟨0x0D, by decide, rfl⟩
  · exact ⟨0x0A, by decide, rfl⟩

theorem decode_spaceByte {b : UInt8} (h : b ∈ spaceBytes) (bs : List UInt8) :
    ∃ c, isSpace c = true ∧ Glyph.decode (b :: bs) = .char c :: Glyph.decode bs := by
  simp only [spaceBytes, List.mem_cons, List.not_mem_nil, or_false] at h
  rcases h with rfl | rfl | rfl | rfl
  · exact ⟨' ', rfl, Glyph.decode_ascii (by decide) (by decide) bs⟩
  · exact ⟨'\t', rfl, Glyph.decode_ascii (by decide) (by decide) bs⟩
  · exact ⟨'\r', rfl, Glyph.decode_ascii (by decide) (by decide) bs⟩
  · exact ⟨'\n', rfl, Glyph.decode_ascii (by decide) (by decide) bs⟩

/-! ## Tilings -/

/-- The offset of the first byte of a token. -/
def Token.first (t : Token) : Nat := t.pos.offset.toNat

/-- The offset behind the last byte of a token. -/
def Token.stop (t : Token) : Nat := t.first + (utf8Bytes t.text).length

/-- The tokens are those of what stands behind the first `n` bytes of the text. -/
structure Tiles (source : List UInt8) (n : Nat) (ts : List Token) : Prop where
  /-- No token starts before the cut. -/
  starts : ∀ t ∈ ts, n ≤ t.first
  /-- No token starts before an earlier one has ended. -/
  inOrder : ts.Pairwise fun t u => t.stop ≤ u.first
  /-- The text of a token is what stands at its place. -/
  texts : ∀ t ∈ ts, source.extract t.first t.stop = utf8Bytes t.text
  /-- The line and the column of a token are those of its offset. -/
  places : ∀ t ∈ ts, t.pos = Position.after (source.take t.first)
  /-- A byte that belongs to no token is a space. -/
  gaps : ∀ (i : Nat) (b : UInt8), n ≤ i → source[i]? = some b →
    (∀ t ∈ ts, ¬ (t.first ≤ i ∧ i < t.stop)) → b ∈ spaceBytes
  /-- A token looks like its kind, and is as long as it can be. -/
  shapes : ∀ t ∈ ts, Shape t.kind t.text.toList (Glyph.decode (source.drop t.stop))

namespace Tiles

variable {source : List UInt8} {n : Nat} {ts us : List Token} {t : Token}

/-- A token is read where it stands, with what stands behind it. -/
theorem decode_first (h : Tiles source n ts) (ht : t ∈ ts) :
    Glyph.decode (source.drop t.first) =
      t.text.toList.map Glyph.char ++ Glyph.decode (source.drop t.stop) := by
  have htext : (source.drop t.first).take (utf8Bytes t.text).length = utf8Bytes t.text := by
    have hextract := h.texts t ht
    rwa [List.extract_eq_take_drop, Token.stop, Nat.add_sub_cancel_left] at hextract
  have hsplit : source.drop t.first = utf8Bytes t.text ++ source.drop t.stop := by
    calc source.drop t.first
        = (source.drop t.first).take (utf8Bytes t.text).length ++
            (source.drop t.first).drop (utf8Bytes t.text).length := (List.take_append_drop _ _).symm
      _ = utf8Bytes t.text ++ source.drop t.stop := by rw [htext, List.drop_drop, Token.stop]
  rw [hsplit, Glyph.utf8Bytes_eq, Glyph.decode_encode_append_all]

/-- A token has a first character, and it is no space. -/
theorem exists_head (h : Tiles source n ts) (ht : t ∈ ts) :
    ∃ c cs, t.text.toList = c :: cs ∧ isSpace c = false := by
  obtain ⟨c, cs, htext, hspace, -⟩ := (h.shapes t ht).lexeme_eq
  exact ⟨c, cs, htext, hspace⟩

theorem first_lt_stop (h : Tiles source n ts) (ht : t ∈ ts) : t.first < t.stop := by
  obtain ⟨c, cs, htext, -⟩ := h.exists_head ht
  have hpos := c.utf8Size_pos
  rw [Token.stop, Glyph.utf8Bytes_eq, htext, List.flatMap_cons, List.length_append,
    String.length_utf8EncodeChar]
  omega

/-- At the end of a text there are no more tokens. -/
theorem eq_nil (h : Tiles source n ts) (hn : Glyph.decode (source.drop n) = []) : ts = [] := by
  have hlength : source.length ≤ n := Glyph.length_le_of_decode hn
  refine List.eq_nil_iff_forall_not_mem.mpr fun t ht => ?_
  obtain ⟨c, cs, htext, -⟩ := h.exists_head ht
  have hdecode := h.decode_first ht
  rw [List.drop_eq_nil_of_le (Nat.le_trans hlength (h.starts t ht)), htext] at hdecode
  rw [Glyph.decode] at hdecode
  cases hdecode

theorem nil (hn : source.length ≤ n) : Tiles source n [] := by
  refine ⟨by simp, List.Pairwise.nil, by simp, by simp, fun i b hi hb _ => ?_, by simp⟩
  rw [List.getElem?_eq_none (Nat.le_trans hn hi)] at hb
  cases hb

/-- **What stands at the cut** is a space or the first token. -/
theorem at_cut (h : Tiles source n ts) {b : UInt8} (hb : source[n]? = some b) :
    b ∈ spaceBytes ∨ ∃ t us, ts = t :: us ∧ t.first = n := by
  by_cases hcovered : ∃ t ∈ ts, t.first ≤ n ∧ n < t.stop
  · right
    obtain ⟨t, ht, hfirst, hstop⟩ := hcovered
    have hstart : t.first = n := Nat.le_antisymm hfirst (h.starts t ht)
    cases ts with
    | nil => cases ht
    | cons u us =>
        refine ⟨u, us, rfl, ?_⟩
        rcases List.mem_cons.mp ht with rfl | hmem
        · exact hstart
        · -- a token in front of it would have ended before the cut
          have hend : u.stop ≤ t.first := (List.pairwise_cons.mp h.inOrder).1 t hmem
          have hbegin := h.starts u (List.mem_cons_self ..)
          have hlt := h.first_lt_stop (List.mem_cons_self ..)
          omega
  · left
    exact h.gaps n b (Nat.le_refl n) hb fun t ht hin => hcovered ⟨t, ht, hin⟩

/-- No tiling starts at a stray byte. -/
theorem not_stray (h : Tiles source n ts) {b : UInt8} {gs : List Glyph}
    (hn : Glyph.decode (source.drop n) = .stray b :: gs) : False := by
  cases hdrop : source.drop n with
  | nil => rw [hdrop, Glyph.decode] at hn; cases hn
  | cons d bs =>
      have hd : source[n]? = some d := by
        rw [← List.head?_drop, hdrop]
        rfl
      rcases h.at_cut hd with hspace | ⟨t, us, rfl, rfl⟩
      · obtain ⟨c, -, hdecode⟩ := decode_spaceByte hspace bs
        rw [hdrop, hdecode] at hn
        cases hn
      · obtain ⟨c, cs, htext, -⟩ := h.exists_head (List.mem_cons_self ..)
        rw [h.decode_first (List.mem_cons_self ..), htext] at hn
        cases hn

/-- A space at the cut can be cut off. -/
theorem space_iff {c : Char} {gs : List Glyph} (hspace : isSpace c = true)
    (hn : Glyph.decode (source.drop n) = .char c :: gs) :
    Tiles source n ts ↔ Tiles source (n + 1) ts := by
  obtain ⟨b, hb, hencode⟩ := encode_of_isSpace hspace
  constructor
  · intro h
    refine ⟨fun t ht => ?_, h.inOrder, h.texts, h.places,
      fun i b hi => h.gaps i b (Nat.le_of_succ_le hi), h.shapes⟩
    have hle := h.starts t ht
    by_cases hfirst : t.first = n
    · -- the token would start with the space
      obtain ⟨d, ds, htext, hd⟩ := h.exists_head ht
      have hdecode := h.decode_first ht
      rw [hfirst, hn, htext] at hdecode
      have hc : c = d := Glyph.char.inj (List.cons.inj hdecode).1
      rw [← hc, hspace] at hd
      cases hd
    · omega
  · intro h
    refine ⟨fun t ht => Nat.le_of_succ_le (h.starts t ht), h.inOrder, h.texts, h.places,
      fun i b' hi hb' hgap => ?_, h.shapes⟩
    by_cases hin : i = n
    · subst hin
      obtain ⟨more, hdrop, -⟩ := Glyph.exists_of_decode [c] hn
      rw [← List.head?_drop, hdrop, List.flatMap_singleton, hencode] at hb'
      cases hb'
      exact hb
    · exact h.gaps i b' (by omega) hb' hgap

/-- **The first token of a tiling is the one that the lexer takes**, and the others tile what it
leaves. -/
theorem exists_lexeme (h : Tiles source n ts) {c : Char} {gs : List Glyph}
    (hspace : isSpace c = false) (hn : Glyph.decode (source.drop n) = .char c :: gs) :
    ∃ t us, ts = t :: us ∧ t.pos = Position.after (source.take n) ∧
      t.stop = n + (utf8Bytes t.text).length ∧ Tiles source t.stop us ∧
      ∀ pos, lexeme pos c gs = .ok
        { kind := t.kind, text := t.text.toList, rest := Glyph.decode (source.drop t.stop) } := by
  obtain ⟨b, hb⟩ : ∃ b, source[n]? = some b := by
    cases hdrop : source.drop n with
    | nil => rw [hdrop, Glyph.decode] at hn; cases hn
    | cons b bs => exact ⟨b, by rw [← List.head?_drop, hdrop]; rfl⟩
  rcases h.at_cut hb with hbyte | ⟨t, us, rfl, rfl⟩
  · -- the character would be a space
    obtain ⟨d, hd, hdecode⟩ := decode_spaceByte hbyte (source.drop (n + 1))
    rw [List.drop_eq_getElem?_toList_append, hb] at hn
    change Glyph.decode (b :: source.drop (n + 1)) = _ at hn
    rw [hdecode] at hn
    cases hn
    rw [hspace] at hd
    cases hd
  · have ht : t ∈ t :: us := List.mem_cons_self ..
    have htail {u : Token} (hu : u ∈ us) : u ∈ t :: us := List.mem_cons_of_mem t hu
    obtain ⟨hlater, horder⟩ := List.pairwise_cons.mp h.inOrder
    refine ⟨t, us, rfl, h.places t ht, rfl, ?_, ?_⟩
    · refine ⟨hlater, horder, fun u hu => h.texts u (htail hu), fun u hu => h.places u (htail hu),
        fun i d hi hd hgap => ?_, fun u hu => h.shapes u (htail hu)⟩
      have hlt := h.first_lt_stop ht
      refine h.gaps i d (by omega) hd (List.forall_mem_cons.mpr ⟨?_, hgap⟩)
      omega
    · obtain ⟨d, ds, htext, -, hlexeme⟩ := (h.shapes t ht).lexeme_eq
      rw [h.decode_first ht, htext] at hn
      cases hn
      exact hlexeme

/-- A token in front of a tiling makes a tiling. -/
theorem cons (h : Tiles source t.stop us)
    (htext : source.extract t.first t.stop = utf8Bytes t.text)
    (hplace : t.pos = Position.after (source.take t.first))
    (hshape : Shape t.kind t.text.toList (Glyph.decode (source.drop t.stop))) :
    Tiles source t.first (t :: us) := by
  have hle : t.first ≤ t.stop := Nat.le_add_right _ _
  refine ⟨?_, ?_, ?_, ?_, fun i b hi hb hgap => ?_, ?_⟩
  · exact List.forall_mem_cons.mpr ⟨Nat.le_refl _, fun u hu => Nat.le_trans hle (h.starts u hu)⟩
  · exact List.pairwise_cons.mpr ⟨h.starts, h.inOrder⟩
  · exact List.forall_mem_cons.mpr ⟨htext, h.texts⟩
  · exact List.forall_mem_cons.mpr ⟨hplace, h.places⟩
  · obtain ⟨hnot, hgap⟩ := List.forall_mem_cons.mp hgap
    exact h.gaps i b (by omega) hb hgap
  · exact List.forall_mem_cons.mpr ⟨hshape, h.shapes⟩

/-- **A token at the cut can be cut off**, together with its text. -/
theorem token_iff {pos : Position} {c : Char} {gs : List Glyph} {l : Lexeme}
    (hspace : isSpace c = false) (hn : Glyph.decode (source.drop n) = .char c :: gs)
    (hpos : pos = Position.after (source.take n)) (hl : lexeme pos c gs = .ok l) :
    Tiles source n ts ↔ ∃ us, ts = { kind := l.kind, text := String.ofList l.text, pos } :: us ∧
      Tiles source (n + (l.text.flatMap String.utf8EncodeChar).length) us := by
  constructor
  · intro h
    obtain ⟨t, us, rfl, hplace, hstop, htail, hlexeme⟩ := h.exists_lexeme hspace hn
    rw [hlexeme] at hl
    cases hl
    refine ⟨us, ?_, ?_⟩
    · rw [String.ofList_toList, hpos, ← hplace]
    · rw [hstop, Glyph.utf8Bytes_eq] at htail
      exact htail
  · rintro ⟨us, rfl, htail⟩
    obtain ⟨t, ht⟩ : ∃ t : Token, t = { kind := l.kind, text := String.ofList l.text, pos } :=
      ⟨_, rfl⟩
    have hbytes : utf8Bytes t.text = l.text.flatMap String.utf8EncodeChar := by
      rw [ht, Glyph.utf8Bytes_eq, String.toList_ofList]
    have hlt : n < source.length := by
      refine Nat.lt_of_not_le fun hle => ?_
      rw [List.drop_eq_nil_of_le hle, Glyph.decode] at hn
      cases hn
    have hfirst : t.first = n := by
      rw [ht, Token.first, hpos]
      show (((source.take n).length : Int)).toNat = n
      rw [Int.toNat_natCast, List.length_take, Nat.min_eq_left (Nat.le_of_lt hlt)]
    -- the text of the token stands at the cut, and what it leaves behind it
    obtain ⟨more, hdrop, hmore⟩ :=
      Glyph.exists_of_decode l.text (hn.trans (lexeme_split hl).symm)
    have hafter : source.drop t.stop = more := by
      rw [Token.stop, hfirst, hbytes, ← List.drop_drop, hdrop, List.drop_left]
    have htext : source.extract t.first t.stop = utf8Bytes t.text := by
      rw [List.extract_eq_take_drop, Token.stop, Nat.add_sub_cancel_left, hfirst, hdrop, hbytes,
        List.take_left]
    have hshape : Shape t.kind t.text.toList (Glyph.decode (source.drop t.stop)) := by
      rw [hafter, hmore, ht, String.toList_ofList]
      exact lexeme_shape hspace hl
    rw [← hbytes, ← hfirst] at htail
    rw [← ht, ← hfirst]
    exact htail.cons htext (by rw [hfirst, ht, hpos]) hshape

end Tiles

/-! ## The lexer and tilings -/

/-- **What the lexer finds behind the characters `before`**, which are the first `n` bytes, are the
tokens that tile it. -/
theorem tokens_eq_ok_iff_tiles {source : List UInt8} (pos : Position) (gs : List Glyph) :
    ∀ (n : Nat) (before : List Char) (ts : List Token),
      source.take n = before.flatMap String.utf8EncodeChar →
      pos = Position.start.advance before → gs = Glyph.decode (source.drop n) →
      (tokens pos gs = .ok ts ↔ Tiles source n ts) := by
  induction pos, gs using lexing_induction with
  | nil pos =>
      intro n before ts htake hpos hgs
      rw [tokens_nil]
      constructor
      · intro h
        cases h
        exact Tiles.nil (Glyph.length_le_of_decode hgs.symm)
      · intro h
        rw [h.eq_nil hgs.symm]
  | stray pos b gs =>
      intro n before ts htake hpos hgs
      rw [tokens_stray]
      exact ⟨fun h => absurd h nofun, fun h => (h.not_stray hgs.symm).elim⟩
  | space pos c gs hc ih =>
      intro n before ts htake hpos hgs
      obtain ⟨htake', hdrop'⟩ := Glyph.cut_of_decode [c] hgs.symm
      have hone : ([c].flatMap String.utf8EncodeChar).length = 1 := by
        obtain ⟨b, -, hencode⟩ := encode_of_isSpace hc
        rw [List.flatMap_singleton, hencode, List.length_singleton]
      rw [hone] at htake' hdrop'
      rw [tokens_space hc, Tiles.space_iff hc hgs.symm]
      refine ih (n + 1) (before ++ [c]) ts ?_ ?_ hdrop'.symm
      · rw [htake', htake, List.flatMap_append]
      · rw [hpos, Position.advance_append]
        rfl
  | broken pos c gs e hc hl =>
      intro n before ts htake hpos hgs
      rw [tokens_char hc, hl]
      refine ⟨fun h => absurd h nofun, fun h => ?_⟩
      obtain ⟨t, us, -, -, -, -, hlexeme⟩ := h.exists_lexeme hc hgs.symm
      rw [hlexeme] at hl
      cases hl
  | token pos c gs l hc hl ih =>
      intro n before ts htake hpos hgs
      obtain ⟨htake', hdrop'⟩ :=
        Glyph.cut_of_decode l.text (hgs.symm.trans (lexeme_split hl).symm)
      have hplace : pos = Position.after (source.take n) := by
        rw [htake, ← Position.advance_start, hpos]
      have hrest (us : List Token) : tokens (pos.advance l.text) l.rest = .ok us ↔
          Tiles source (n + (l.text.flatMap String.utf8EncodeChar).length) us := by
        refine ih _ (before ++ l.text) us ?_ ?_ hdrop'.symm
        · rw [htake', htake, List.flatMap_append]
        · rw [hpos, Position.advance_append]
      rw [tokens_char hc, hl, ok_bind, bind_eq_ok, Tiles.token_iff hc hgs.symm hplace hl]
      constructor
      · rintro ⟨us, hus, h⟩
        exact ⟨us, (Except.ok.inj h).symm, (hrest us).mp hus⟩
      · rintro ⟨us, rfl, hus⟩
        exact ⟨us, (hrest us).mpr hus, rfl⟩

/--
**The lexer returns the tokens that tile the text.** Each token stands where it says, in order, and
has the shape of its kind; between the tokens stand spaces only. The lexer returns such tokens, and
it returns every list of such tokens: so a text has at most one.
-/
theorem lex_eq_ok_iff_tiles (source : List UInt8) (ts : List Token) :
    Token.lex source = .ok ts ↔ Tiles source 0 ts :=
  tokens_eq_ok_iff_tiles .start (Glyph.decode source) 0 [] ts rfl rfl rfl

end LetWhile
