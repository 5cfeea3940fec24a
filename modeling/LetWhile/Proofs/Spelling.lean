import LetWhile.Proofs.Lexing

/-!
# Texts that spell tokens

`Spells cs ts` says that the text `cs` has the tokens `ts`, apart from their places. Texts that
spell tokens can be put together to longer ones. A text goes in front of another one when that one
starts with a character that separates, and white space and a mark that is a token by itself go in
front of any text.

What such texts are put together from are the tokens themselves. A token that the lexer found
somewhere is spelled by its own text: the lexer looked at more than that text to see where it ends,
and it finds the same end when nothing stands behind it.
-/

namespace LetWhile.Lexer

open Glyph

/-! ## A token by itself -/

theorem isSymbolic_of_isSign {c : Char} (h : isSign c = true) : isSymbolic c = true := by
  unfold isSign at h
  rcases Bool.or_eq_true_iff.mp h with h | h
  · rw [of_decide_eq_true h]; rfl
  · rw [of_decide_eq_true h]; rfl

theorem digitAhead_of_takeRun {p : Char → List Glyph → Bool} {gs : List Glyph}
    (h : digitAhead ((takeRun p gs).map Glyph.char) = true) : digitAhead gs = true := by
  rcases gs with _ | ⟨c | b, gs⟩
  · exact h
  · rw [takeRun] at h
    split at h
    · exact h
    · cases h
  · exact h

theorem digitAhead_takeRun_digits {gs : List Glyph} (h : digitAhead gs = true) (k : List Glyph) :
    digitAhead ((takeRun (fun c _ => isDigit c) gs).map Glyph.char ++ k) = true := by
  rcases gs with _ | ⟨c | b, gs⟩
  · cases h
  · have hc : isDigit c = true := h
    rw [takeRun, if_pos hc]
    exact hc
  · cases h

/-- What lets a character go on with a run does so too when the run is all that there is. -/
def SeesRunOnly (p : Char → List Glyph → Bool) : Prop :=
  ∀ c gs, p c gs = true → p c ((takeRun p gs).map Glyph.char) = true

theorem seesRunOnly_of_char (p : Char → Bool) : SeesRunOnly fun c _ => p c :=
  fun _ _ h => h

theorem seesRunOnly_continuesOperator : SeesRunOnly continuesOperator := by
  intro c gs h
  rw [continuesOperator] at h ⊢
  obtain ⟨hsymbolic, hsigned⟩ := Bool.and_eq_true_iff.mp h
  rw [hsymbolic, Bool.true_and]
  -- a digit at the front of the run is a digit at the front of what there was
  cases hahead : digitAhead ((takeRun continuesOperator gs).map Glyph.char) with
  | false => rw [Bool.and_false]; rfl
  | true => rw [digitAhead_of_takeRun hahead] at hsigned; exact hsigned

theorem SeesRunOnly.takeRun_takeRun {p : Char → List Glyph → Bool} (hp : SeesRunOnly p)
    (gs : List Glyph) : takeRun p ((takeRun p gs).map Glyph.char) = takeRun p gs := by
  induction gs with
  | nil => rfl
  | cons g gs ih =>
      cases g with
      | stray b => rfl
      | char c =>
          rw [takeRun]
          split
          · next hc => rw [List.map_cons, takeRun, if_pos (hp c gs hc), ih]
          · rfl

theorem SeesRunOnly.dropRun_takeRun {p : Char → List Glyph → Bool} (hp : SeesRunOnly p)
    (gs : List Glyph) : dropRun p ((takeRun p gs).map Glyph.char) = [] := by
  induction gs with
  | nil => rfl
  | cons g gs ih =>
      cases g with
      | stray b => rfl
      | char c =>
          rw [takeRun]
          split
          · next hc => rw [List.map_cons, dropRun, if_pos (hp c gs hc), ih]
          · rfl

theorem stopsAt_point : StopsAt (fun c _ => isDigit c) '.' :=
  ⟨fun _ => rfl, fun _ _ _ => rfl⟩

/-- A number without a point in it is read from its digits alone. -/
theorem number_digits (first : Char) (gs : List Glyph) :
    number first ((takeRun (fun c _ => isDigit c) gs).map Glyph.char) =
      { kind := .integer, text := first :: takeRun (fun c _ => isDigit c) gs, rest := [] } := by
  have hdigits := seesRunOnly_of_char isDigit
  have hdrop := hdigits.dropRun_takeRun gs
  have hnone : ∀ more, dropRun (fun c _ => isDigit c)
      ((takeRun (fun c _ => isDigit c) gs).map Glyph.char) ≠ .char '.' :: more := by
    intro more hmore
    rw [hdrop] at hmore
    cases hmore
  rw [number_of_no_point hnone, hdigits.takeRun_takeRun, hdrop]

/-- A number is read from its own text, and its first character is followed by a digit there if it
was before. -/
theorem number_alone (first : Char) (gs : List Glyph) :
    ∃ cs, (number first gs).text = first :: cs ∧
      number first (cs.map Glyph.char) = { number first gs with rest := [] } ∧
      (digitAhead gs = true → digitAhead (cs.map Glyph.char) = true) := by
  have hdigits := seesRunOnly_of_char isDigit
  have hwhole (hfirst : digitAhead gs = true) :
      digitAhead ((takeRun (fun c _ => isDigit c) gs).map Glyph.char) = true := by
    simpa using digitAhead_takeRun_digits hfirst []
  by_cases hpoint : ∃ more, dropRun (fun c _ => isDigit c) gs = .char '.' :: more
  · obtain ⟨more, hmore⟩ := hpoint
    rw [number_of_point hmore]
    split
    · next hahead =>
      refine ⟨takeRun (fun c _ => isDigit c) gs ++ '.' :: takeRun (fun c _ => isDigit c) more, rfl,
        ?_, ?_⟩
      · -- the digits in front of the point, the point, and the fraction
        have htake := stopsAt_point.takeRun_append
          ((takeRun (fun c _ => isDigit c) gs).map Glyph.char)
          ((takeRun (fun c _ => isDigit c) more).map Glyph.char)
        have hdrop := stopsAt_point.dropRun_append
          ((takeRun (fun c _ => isDigit c) gs).map Glyph.char)
          ((takeRun (fun c _ => isDigit c) more).map Glyph.char)
        have hfraction :
            digitAhead ((takeRun (fun c _ => isDigit c) more).map Glyph.char) = true := by
          simpa using digitAhead_takeRun_digits hahead []
        rw [hdigits.dropRun_takeRun, List.nil_append] at hdrop
        rw [List.map_append, List.map_cons, number_of_point hdrop, if_pos hfraction, htake,
          hdigits.takeRun_takeRun, hdigits.takeRun_takeRun, hdigits.dropRun_takeRun]
      · intro hfirst
        rw [List.map_append]
        exact digitAhead_takeRun_digits hfirst _
    · exact ⟨_, rfl, number_digits first gs, hwhole⟩
  · rw [number_of_no_point (not_exists.mp hpoint)]
    exact ⟨_, rfl, number_digits first gs, hwhole⟩

theorem Quotation.alone {gs : List Glyph} {text : List Char} {rest : List Glyph}
    (h : Quotation gs text rest) : Quotation (text.map Glyph.char) text [] := by
  induction h with
  | close => exact .close
  | escape he _ ih => exact .escape he ih
  | plain hc hq _ ih => exact .plain hc hq ih

/-- **A token is read from its own text.** -/
theorem lexeme_alone {pos : Position} {c : Char} {gs : List Glyph} {l : Lexeme}
    (h : lexeme pos c gs = .ok l) :
    ∃ cs, l.text = c :: cs ∧
      ∀ pos', lexeme pos' c (cs.map Glyph.char) = .ok { l with rest := [] } := by
  -- a character that joins to no operator is no sign, whatever stands behind it
  have hunsigned (hc : ¬isSymbolic c = true) (ks : List Glyph) :
      ¬(isSign c && digitAhead ks) = true :=
    fun hsign => hc (isSymbolic_of_isSign (Bool.and_eq_true_iff.mp hsign).1)
  unfold lexeme at h
  split at h
  · next h₁ =>
    cases h
    obtain ⟨cs, htext, hnumber, hahead⟩ := number_alone c gs
    obtain ⟨hsign, hdigit⟩ := Bool.and_eq_true_iff.mp h₁
    refine ⟨cs, htext, fun pos' => ?_⟩
    rw [lexeme, if_pos (by rw [hsign, hahead hdigit]; rfl), hnumber]
  next h₁ =>
  split at h
  · next h₂ =>
    cases h
    refine ⟨_, rfl, fun pos' => ?_⟩
    have h₁' :
        ¬(isSign c && digitAhead ((takeRun continuesOperator gs).map Glyph.char)) = true := by
      intro hsigned
      obtain ⟨hsign, hdigit⟩ := Bool.and_eq_true_iff.mp hsigned
      exact h₁ (by rw [hsign, digitAhead_of_takeRun hdigit]; rfl)
    rw [lexeme, if_neg h₁', if_pos h₂, seesRunOnly_continuesOperator.takeRun_takeRun,
      seesRunOnly_continuesOperator.dropRun_takeRun]
  next h₂ =>
  split at h
  · next h₃ =>
    cases h
    have hname := seesRunOnly_of_char isNamePart
    refine ⟨_, rfl, fun pos' => ?_⟩
    rw [lexeme, if_neg (hunsigned h₂ _), if_neg h₂, if_pos h₃, hname.takeRun_takeRun,
      hname.dropRun_takeRun]
  next h₃ =>
  split at h
  · next h₄ =>
    cases h
    obtain ⟨cs, htext, hnumber, -⟩ := number_alone c gs
    refine ⟨cs, htext, fun pos' => ?_⟩
    rw [lexeme, if_neg (hunsigned h₂ _), if_neg h₂, if_neg h₃, if_pos h₄, hnumber]
  next h₄ =>
  split at h
  · next h₅ =>
    split at h
    · next hb =>
      cases h
      subst h₅
      refine ⟨_, rfl, fun pos' => ?_⟩
      rw [lexeme, if_neg (hunsigned h₂ _), if_neg h₂, if_neg h₃, if_neg h₄, if_pos rfl,
        (Quotation.of_stringBody hb).alone.stringBody_eq]
    · cases h
    · cases h
  · next h₅ =>
    cases h
    refine ⟨[], rfl, fun pos' => ?_⟩
    rw [lexeme, if_neg (hunsigned h₂ _), if_neg h₂, if_neg h₃, if_neg h₄, if_neg h₅]
    rfl

/-! ## Putting texts together -/

/-- The text `cs` has the tokens `ts`, apart from their places. -/
def Spells (cs : List Char) (ts : List Token) : Prop :=
  unplacedTokens (tokens .start (cs.map Glyph.char)) = .ok ts

theorem spells_nil_iff {ts : List Token} : Spells [] ts ↔ ts = [] := by
  rw [Spells, List.map_nil, tokens_nil]
  constructor
  · intro h; cases h; rfl
  · rintro rfl; rfl

theorem Spells.space {c : Char} (hc : isSpace c = true) {cs : List Char} {ts : List Token}
    (h : Spells cs ts) : Spells (c :: cs) ts := by
  rw [Spells, List.map_cons, tokens_space hc, tokens_moved _ .start]
  exact h

theorem Spells.spaces {gap : List Char} (hgap : ∀ c ∈ gap, isSpace c = true) {cs : List Char}
    {ts : List Token} (h : Spells cs ts) : Spells (gap ++ cs) ts := by
  induction gap with
  | nil => exact h
  | cons c gap ih =>
      obtain ⟨hc, hgap⟩ := List.forall_mem_cons.mp hgap
      exact (ih hgap).space hc

/-- A text that spells tokens goes in front of one that starts with a separating character. -/
theorem Spells.append {d : Char} (hd : Separates d) {cs ds : List Char} {ts us : List Token}
    (h : Spells cs ts) (h' : Spells (d :: ds) us) : Spells (cs ++ d :: ds) (ts ++ us) := by
  obtain ⟨ts', hts, rfl⟩ := unplacedTokens_eq_ok.mp h
  -- the second text has the same tokens where the first one ends
  rw [Spells, List.map_cons, tokens_moved _ (behind .start (cs.map Glyph.char))] at h'
  obtain ⟨us', hus, rfl⟩ := unplacedTokens_eq_ok.mp h'
  rw [Spells, List.map_append, List.map_cons, tokens_append hd hts, hus, ok_bind,
    unplacedTokens_eq_ok]
  exact ⟨_, rfl, List.map_append⟩

/-- A character that is a token by itself goes in front of any text. -/
theorem Spells.mark {c : Char} (hspace : isSpace c = false)
    (hc : ∀ gs, lexeme .start c gs = .ok { kind := .operator, text := [c], rest := gs })
    {cs : List Char} {ts : List Token} (h : Spells cs ts) :
    Spells (c :: cs) ({ kind := .operator, text := String.ofList [c], pos := {} } :: ts) := by
  rw [Spells, tokens_moved _ (Position.start.advance [c])] at h
  obtain ⟨ts', hts, rfl⟩ := unplacedTokens_eq_ok.mp h
  rw [Spells, List.map_cons, tokens_char hspace, hc, ok_bind, hts, ok_bind, unplacedTokens_eq_ok]
  exact ⟨_, rfl, rfl⟩

/-- A token that was found somewhere is spelled by its text. -/
theorem spells_lexeme {pos : Position} {c : Char} {gs : List Glyph} {l : Lexeme}
    (hspace : isSpace c = false) (h : lexeme pos c gs = .ok l) :
    Spells l.text [{ kind := l.kind, text := String.ofList l.text, pos := {} }] := by
  obtain ⟨cs, htext, halone⟩ := lexeme_alone h
  rw [Spells, htext, List.map_cons, tokens_char hspace, halone, ok_bind, tokens_nil, ok_bind,
    ← htext]
  rfl

/-- **Every token of a text is spelled by its own text.** -/
theorem spells_of_mem_tokens {pos : Position} {gs : List Glyph} {ts : List Token}
    (h : tokens pos gs = .ok ts) : ∀ t ∈ ts, Spells t.text.toList [t.unplaced] := by
  induction pos, gs using lexing_induction generalizing ts with
  | nil pos => rw [tokens_nil] at h; cases h; simp
  | stray pos b gs => rw [tokens_stray] at h; cases h
  | space pos c gs hc ih => rw [tokens_space hc] at h; exact ih h
  | broken pos c gs e hc hl => rw [tokens_char hc, hl] at h; cases h
  | token pos c gs l hc hl ih =>
      rw [tokens_char hc, hl, ok_bind, bind_eq_ok] at h
      obtain ⟨us, hus, h⟩ := h
      cases h
      intro t ht
      rcases List.mem_cons.mp ht with rfl | ht
      · have hspells := spells_lexeme hc hl
        rw [String.toList_ofList]
        exact hspells
      · exact ih hus t ht

/-! ## Characters that separate -/

theorem separates_of_isSpace {c : Char} (h : isSpace c = true) : Separates c := by
  unfold isSpace at h
  simp only [Bool.or_eq_true_iff, decide_eq_true_eq] at h
  rcases h with ((rfl | rfl) | rfl) | rfl
  all_goals exact ⟨by decide, by decide, by decide⟩

/-- White space of any length goes between texts, but there has to be some if both are there. -/
theorem Spells.gap {gap cs ds : List Char} {ts us : List Token} (h : Spells cs ts)
    (hgap : ∀ c ∈ gap, isSpace c = true) (hne : ds ≠ [] → gap ≠ []) (h' : Spells ds us) :
    Spells (cs ++ gap ++ ds) (ts ++ us) := by
  cases gap with
  | nil =>
      cases ds with
      | cons d ds => exact absurd rfl (hne (List.cons_ne_nil d ds))
      | nil =>
          rw [spells_nil_iff.mp h', List.append_nil, List.append_nil, List.append_nil]
          exact h
  | cons d gap =>
      have hd := separates_of_isSpace (hgap d List.mem_cons_self)
      rw [List.append_assoc]
      exact h.append hd (h'.spaces hgap)

end LetWhile.Lexer

namespace LetWhile

open Lexer

/-- The bytes of a text have the tokens that the text spells. -/
theorem lex_of_spells {s : String} {ts : List Token} (h : Spells s.toList ts) :
    ∃ us, Token.lex (utf8Bytes s) = .ok us ∧ us.map Token.unplaced = ts := by
  rw [Token.lex, Glyph.decode_utf8Bytes]
  exact unplacedTokens_eq_ok.mp h

end LetWhile
