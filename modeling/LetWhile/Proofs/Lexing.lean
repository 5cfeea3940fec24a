import LetWhile.Proofs.Decoding
import LetWhile.Proofs.Places
import LetWhile.Token.Lexer

/-!
# Lexing piece by piece

The lexer looks at what stands behind a token to see where the token ends, so a text cannot be cut
anywhere: `1` and `.5` lex otherwise than `1.5`. It can be cut in front of a character that goes on
with no token, such as a semicolon or a space. In front of such a character a text has the tokens
that it has alone, and the lexer goes on behind them as if it started there.

The definition skips all spaces in front of a token at once. The equations below skip them one by
one, and everything here is proved from these equations.
-/

namespace LetWhile.Lexer

open Glyph

/-! ## Runs -/

theorem takeRun_append_dropRun (p : Char → List Glyph → Bool) (gs : List Glyph) :
    (takeRun p gs).map Glyph.char ++ dropRun p gs = gs := by
  fun_induction dropRun p gs with
  | case1 c gs hp ih => rw [takeRun, if_pos hp, List.map_cons, List.cons_append, ih]
  | case2 c gs hp => rw [takeRun, if_neg hp]; rfl
  | case3 gs h =>
      cases gs with
      | nil => rfl
      | cons g gs =>
          cases g with
          | char c => exact absurd rfl (h c gs)
          | stray b => rfl

/-- A character in front of which every token ends: it goes on with no name, number or operator. -/
structure Separates (d : Char) : Prop where
  noName : isNamePart d = false
  noOperator : isSymbolic d = false
  noPoint : d ≠ '.'

theorem Separates.noDigit {d : Char} (h : Separates d) : isDigit d = false := by
  have hname := h.noName
  unfold isNamePart at hname
  simp only [Bool.or_eq_false_iff] at hname
  exact hname.1.2

theorem separates_semicolon : Separates ';' := ⟨by decide, by decide, by decide⟩

theorem Separates.digitAhead_append {d : Char} (h : Separates d) (gs k : List Glyph) :
    digitAhead (gs ++ .char d :: k) = digitAhead gs := by
  cases gs with
  | nil => exact h.noDigit
  | cons g gs => cases g <;> rfl

/-- What a run depends on does not reach beyond the character `d`. -/
structure StopsAt (p : Char → List Glyph → Bool) (d : Char) : Prop where
  stops : ∀ gs, p d gs = false
  blind : ∀ c gs k, p c (gs ++ .char d :: k) = p c gs

theorem StopsAt.takeRun_append {p : Char → List Glyph → Bool} {d : Char} (h : StopsAt p d)
    (gs k : List Glyph) : takeRun p (gs ++ .char d :: k) = takeRun p gs := by
  induction gs with
  | nil =>
      rw [List.nil_append, takeRun, h.stops]
      rfl
  | cons g gs ih =>
      cases g with
      | stray b => rfl
      | char c => rw [List.cons_append, takeRun, takeRun, h.blind, ih]

theorem StopsAt.dropRun_append {p : Char → List Glyph → Bool} {d : Char} (h : StopsAt p d)
    (gs k : List Glyph) : dropRun p (gs ++ .char d :: k) = dropRun p gs ++ .char d :: k := by
  induction gs with
  | nil =>
      rw [List.nil_append, dropRun, h.stops]
      rfl
  | cons g gs ih =>
      cases g with
      | stray b => rfl
      | char c =>
          rw [List.cons_append, dropRun, dropRun, h.blind, ih]
          split <;> rfl

theorem Separates.stopsAt_digit {d : Char} (h : Separates d) :
    StopsAt (fun c _ => isDigit c) d :=
  ⟨fun _ => h.noDigit, fun _ _ _ => rfl⟩

theorem Separates.stopsAt_namePart {d : Char} (h : Separates d) :
    StopsAt (fun c _ => isNamePart c) d :=
  ⟨fun _ => h.noName, fun _ _ _ => rfl⟩

theorem Separates.stopsAt_operator {d : Char} (h : Separates d) : StopsAt continuesOperator d := by
  refine ⟨fun gs => ?_, fun c gs k => ?_⟩
  · rw [continuesOperator, h.noOperator]; rfl
  · rw [continuesOperator, continuesOperator, h.digitAhead_append]

/-! ## One token -/

/-- A token with more units behind what it leaves. -/
def Lexeme.before (l : Lexeme) (k : List Glyph) : Lexeme := { l with rest := l.rest ++ k }

theorem number_of_point {first : Char} {gs more : List Glyph}
    (h : dropRun (fun c _ => isDigit c) gs = .char '.' :: more) :
    number first gs =
      if digitAhead more then
        { kind := .decimal
          text := first :: takeRun (fun c _ => isDigit c) gs ++
            '.' :: takeRun (fun c _ => isDigit c) more
          rest := dropRun (fun c _ => isDigit c) more }
      else
        { kind := .integer
          text := first :: takeRun (fun c _ => isDigit c) gs
          rest := .char '.' :: more } := by
  unfold number
  dsimp only
  rw [h]
  split
  · next hmore => cases hmore; rfl
  · next hne => exact absurd rfl (hne more)

theorem number_of_no_point {first : Char} {gs : List Glyph}
    (h : ∀ more, dropRun (fun c _ => isDigit c) gs ≠ .char '.' :: more) :
    number first gs =
      { kind := .integer
        text := first :: takeRun (fun c _ => isDigit c) gs
        rest := dropRun (fun c _ => isDigit c) gs } := by
  unfold number
  dsimp only
  split
  · next more hmore => exact absurd hmore (h more)
  · rfl

theorem number_split (first : Char) (gs : List Glyph) :
    (number first gs).text.map Glyph.char ++ (number first gs).rest = .char first :: gs := by
  have hrun := takeRun_append_dropRun (fun c _ => isDigit c) gs
  by_cases hpoint : ∃ more, dropRun (fun c _ => isDigit c) gs = .char '.' :: more
  · obtain ⟨more, hmore⟩ := hpoint
    have hfraction := takeRun_append_dropRun (fun c _ => isDigit c) more
    rw [hmore] at hrun
    rw [number_of_point hmore]
    split
    · simp only [List.map_append, List.map_cons, List.cons_append, List.append_assoc, hfraction,
        hrun]
    · simp only [List.map_cons, List.cons_append, hrun]
  · rw [number_of_no_point (not_exists.mp hpoint)]
    simp only [List.map_cons, List.cons_append, hrun]

theorem number_append {d : Char} (h : Separates d) (first : Char) (gs k : List Glyph) :
    number first (gs ++ .char d :: k) = (number first gs).before (.char d :: k) := by
  have htake := h.stopsAt_digit.takeRun_append gs k
  have hdrop := h.stopsAt_digit.dropRun_append gs k
  by_cases hpoint : ∃ more, dropRun (fun c _ => isDigit c) gs = .char '.' :: more
  · obtain ⟨more, hmore⟩ := hpoint
    -- the fraction, if there is one, ends in front of `d` too
    rw [hmore, List.cons_append] at hdrop
    rw [number_of_point hmore, number_of_point hdrop, htake, h.digitAhead_append,
      h.stopsAt_digit.takeRun_append, h.stopsAt_digit.dropRun_append]
    split <;> rfl
  · have hnone :
        ∀ more, dropRun (fun c _ => isDigit c) (gs ++ .char d :: k) ≠ .char '.' :: more := by
      -- the point would stand in `gs` or be `d` itself
      intro more hmore
      rw [hdrop] at hmore
      cases hrest : dropRun (fun c _ => isDigit c) gs with
      | nil => rw [hrest] at hmore; cases hmore; exact h.noPoint rfl
      | cons g rest => rw [hrest] at hmore; cases hmore; exact hpoint ⟨rest, hrest⟩
    rw [number_of_no_point hnone, number_of_no_point (not_exists.mp hpoint), htake, hdrop]
    rfl

theorem stringBody_quote (gs : List Glyph) :
    stringBody (.char '"' :: gs) = .closed ['"'] gs := by
  rw [stringBody, if_pos rfl]
  all_goals intros; contradiction

theorem stringBody_plain {c : Char} (hc : c ≠ '\\') (hq : c ≠ '"') (gs : List Glyph) :
    stringBody (.char c :: gs) = (stringBody gs).prepend [c] := by
  rw [stringBody, if_neg hq]
  all_goals intros; contradiction

/-- **Induction along the inside of a string literal.** It goes on behind an escape and behind a
character that stands for itself, and everything else ends it. -/
theorem stringBody_induction {P : List Glyph → Prop} (ended : P [])
    (stray : ∀ b gs, P (.stray b :: gs)) (endedEscape : P [.char '\\'])
    (strayEscape : ∀ b gs, P (.char '\\' :: .stray b :: gs))
    (unknown : ∀ e gs, (escaped? e).isSome = false → P (.char '\\' :: .char e :: gs))
    (escape : ∀ e gs, (escaped? e).isSome = true → P gs → P (.char '\\' :: .char e :: gs))
    (quote : ∀ gs, P (.char '"' :: gs))
    (plain : ∀ c gs, c ≠ '\\' → c ≠ '"' → P gs → P (.char c :: gs)) (gs : List Glyph) : P gs := by
  induction gs using stringBody.induct with
  | case1 => exact ended
  | case2 b gs => exact stray b gs
  | case3 => exact endedEscape
  | case4 b gs => exact strayEscape b gs
  | case5 e gs he ih => exact escape e gs he ih
  | case6 e gs he => exact unknown e gs (Bool.eq_false_iff.mpr he)
  | case7 gs => exact quote gs
  | case8 c gs h₁ h₂ h₃ hc ih =>
      -- whatever follows it, the character is no backslash
      have hback : c ≠ '\\' := by
        intro hback
        rcases gs with _ | ⟨_ | b, gs⟩
        · exact h₁ rfl hback
        · exact h₃ _ _ rfl hback
        · exact h₂ _ _ rfl hback
      exact plain c gs hback hc ih

theorem prepend_eq_closed {cs text : List Char} {rest : List Glyph} {b : StringBody} :
    b.prepend cs = .closed text rest ↔ ∃ more, b = .closed more rest ∧ text = cs ++ more := by
  cases b with
  | closed t r =>
      constructor
      · intro h; cases h; exact ⟨t, rfl, rfl⟩
      · rintro ⟨more, h, rfl⟩; cases h; rfl
  | broken b f => simp [StringBody.prepend]

/-- The inside of a string literal with its closing quote: a backslash stands in front of a
character that makes an escape with it, and every other character but the quote for itself. -/
inductive Quotation : List Glyph → List Char → List Glyph → Prop where
  | close {rest : List Glyph} : Quotation (.char '"' :: rest) ['"'] rest
  | escape {e : Char} {gs rest : List Glyph} {text : List Char} :
      (escaped? e).isSome = true → Quotation gs text rest →
      Quotation (.char '\\' :: .char e :: gs) ('\\' :: e :: text) rest
  | plain {c : Char} {gs rest : List Glyph} {text : List Char} :
      c ≠ '\\' → c ≠ '"' → Quotation gs text rest → Quotation (.char c :: gs) (c :: text) rest

theorem Quotation.of_stringBody {gs : List Glyph} {text : List Char} {rest : List Glyph}
    (h : stringBody gs = .closed text rest) : Quotation gs text rest := by
  induction gs using stringBody_induction generalizing text rest with
  | unknown e gs he => rw [stringBody, he] at h; cases h
  | escape e gs he ih =>
      rw [stringBody, if_pos he] at h
      obtain ⟨more, hmore, rfl⟩ := prepend_eq_closed.mp h
      exact .escape he (ih hmore)
  | quote gs => rw [stringBody_quote] at h; cases h; exact .close
  | plain c gs hback hquote ih =>
      rw [stringBody_plain hback hquote] at h
      obtain ⟨more, hmore, rfl⟩ := prepend_eq_closed.mp h
      exact .plain hback hquote (ih hmore)
  | _ => rw [stringBody] at h; cases h

theorem Quotation.stringBody_eq {gs : List Glyph} {text : List Char} {rest : List Glyph}
    (h : Quotation gs text rest) : stringBody gs = .closed text rest := by
  induction h with
  | close => exact stringBody_quote _
  | escape he _ ih => rw [stringBody, if_pos he, ih]; rfl
  | plain hc hq _ ih => rw [stringBody_plain hc hq, ih]; rfl

theorem Quotation.split {gs : List Glyph} {text : List Char} {rest : List Glyph}
    (h : Quotation gs text rest) : text.map Glyph.char ++ rest = gs := by
  induction h with
  | close => rfl
  | escape _ _ ih => rw [List.map_cons, List.map_cons, List.cons_append, List.cons_append, ih]
  | plain _ _ _ ih => rw [List.map_cons, List.cons_append, ih]

/-- A string literal is read in the same way whatever stands behind it. -/
theorem Quotation.append {gs : List Glyph} {text : List Char} {rest : List Glyph}
    (h : Quotation gs text rest) (k : List Glyph) : Quotation (gs ++ k) text (rest ++ k) := by
  induction h with
  | close => exact .close
  | escape he _ ih => exact .escape he ih
  | plain hc hq _ ih => exact .plain hc hq ih

theorem lexeme_split {pos : Position} {c : Char} {gs : List Glyph} {l : Lexeme}
    (h : lexeme pos c gs = .ok l) : l.text.map Glyph.char ++ l.rest = .char c :: gs := by
  unfold lexeme at h
  split at h
  · cases h; exact number_split c gs
  split at h
  · cases h
    rw [List.map_cons, List.cons_append, takeRun_append_dropRun]
  split at h
  · cases h
    rw [List.map_cons, List.cons_append, takeRun_append_dropRun]
  split at h
  · cases h; exact number_split c gs
  split at h
  · next hc =>
    split at h
    · next hb =>
      cases h
      rw [List.map_cons, List.cons_append, (Quotation.of_stringBody hb).split, hc]
    · cases h
    · cases h
  · cases h; rfl

theorem lexeme_append {d : Char} (hd : Separates d) {pos : Position} {c : Char} {gs : List Glyph}
    {l : Lexeme} (h : lexeme pos c gs = .ok l) (k : List Glyph) :
    lexeme pos c (gs ++ .char d :: k) = .ok (l.before (.char d :: k)) := by
  unfold lexeme at h ⊢
  rw [hd.digitAhead_append]
  split at h
  · next h₁ => cases h; rw [if_pos h₁, number_append hd]
  next h₁ =>
  rw [if_neg h₁]
  split at h
  · next h₂ =>
    cases h
    rw [if_pos h₂, hd.stopsAt_operator.takeRun_append, hd.stopsAt_operator.dropRun_append]
    rfl
  next h₂ =>
  rw [if_neg h₂]
  split at h
  · next h₃ =>
    cases h
    rw [if_pos h₃, hd.stopsAt_namePart.takeRun_append, hd.stopsAt_namePart.dropRun_append]
    rfl
  next h₃ =>
  rw [if_neg h₃]
  split at h
  · next h₄ => cases h; rw [if_pos h₄, number_append hd]
  next h₄ =>
  rw [if_neg h₄]
  split at h
  · next h₅ =>
    split at h
    · next hb =>
      cases h
      rw [if_pos h₅, ((Quotation.of_stringBody hb).append _).stringBody_eq]
      rfl
    · cases h
    · cases h
  · next h₅ => cases h; rw [if_neg h₅]; rfl

/-! ## All tokens -/

/-- The equation of the tokens, all spaces skipped at once. -/
theorem tokens_eq (pos : Position) (gs : List Glyph) :
    tokens pos gs =
      match dropRun (fun c _ => isSpace c) gs with
      | [] => .ok []
      | .stray _ :: _ =>
        .error { pos := pos.advance (takeRun (fun c _ => isSpace c) gs), fault := .invalidEncoding }
      | .char c :: rest =>
        lexeme (pos.advance (takeRun (fun c _ => isSpace c) gs)) c rest >>= fun l =>
          tokens ((pos.advance (takeRun (fun c _ => isSpace c) gs)).advance l.text) l.rest >>=
            fun ts => .ok ({ kind := l.kind, text := String.ofList l.text,
                             pos := pos.advance (takeRun (fun c _ => isSpace c) gs) } :: ts) := by
  rw [tokens.eq_def]
  dsimp only
  split
  · next h => rw [h]
  · next h => rw [h]
  · next c rest h =>
    rw [h]
    dsimp only
    cases hl : lexeme (pos.advance (takeRun (fun c _ => isSpace c) gs)) c rest with
    | error e => rfl
    | ok l =>
        rw [ok_bind]
        dsimp only
        cases tokens ((pos.advance (takeRun (fun c _ => isSpace c) gs)).advance l.text) l.rest <;>
          rfl

@[simp]
theorem tokens_nil (pos : Position) : tokens pos [] = .ok [] := tokens_eq pos []

@[simp]
theorem tokens_stray (pos : Position) (b : UInt8) (gs : List Glyph) :
    tokens pos (.stray b :: gs) = .error { pos, fault := .invalidEncoding } :=
  tokens_eq pos (.stray b :: gs)

theorem tokens_space {c : Char} (hc : isSpace c = true) (pos : Position) (gs : List Glyph) :
    tokens pos (.char c :: gs) = tokens (pos.step c) gs := by
  rw [tokens_eq, tokens_eq (pos.step c), takeRun, dropRun, if_pos hc, if_pos hc,
    Position.advance_cons]

theorem tokens_char {c : Char} (hc : isSpace c = false) (pos : Position) (gs : List Glyph) :
    tokens pos (.char c :: gs) = lexeme pos c gs >>= fun l =>
      tokens (pos.advance l.text) l.rest >>= fun ts =>
        .ok ({ kind := l.kind, text := String.ofList l.text, pos } :: ts) := by
  rw [tokens_eq, takeRun, dropRun, hc, if_neg Bool.false_ne_true, if_neg Bool.false_ne_true,
    Position.advance_nil]

/-- **Induction along the lexer.** To prove something of every text and of every place where it can
start, it is enough to prove it for the ways in which the lexer can go on: from what it leaves when
it skips a space or takes a token, and from nothing when it stops. -/
theorem lexing_induction {P : Position → List Glyph → Prop} (nil : ∀ pos, P pos [])
    (stray : ∀ pos b gs, P pos (.stray b :: gs))
    (space : ∀ pos c gs, isSpace c = true → P (pos.step c) gs → P pos (.char c :: gs))
    (broken : ∀ pos c gs e, isSpace c = false → lexeme pos c gs = .error e → P pos (.char c :: gs))
    (token : ∀ pos c gs l, isSpace c = false → lexeme pos c gs = .ok l →
      P (pos.advance l.text) l.rest → P pos (.char c :: gs))
    (pos : Position) (gs : List Glyph) : P pos gs := by
  -- on the number of units that are left, which every step makes smaller
  induction hn : gs.length using Nat.strongRecOn generalizing pos gs with
  | ind n ih =>
    cases gs with
    | nil => exact nil pos
    | cons g gs =>
        rw [List.length_cons] at hn
        cases g with
        | stray b => exact stray pos b gs
        | char c =>
            cases hc : isSpace c with
            | true => exact space pos c gs hc (ih gs.length (by omega) _ gs rfl)
            | false =>
                cases hl : lexeme pos c gs with
                | error e => exact broken pos c gs e hc hl
                | ok l =>
                    have hlen := length_rest_lexeme_le hl
                    exact token pos c gs l hc hl (ih l.rest.length (by omega) _ l.rest rfl)

/-- A text that has tokens has no stray bytes. -/
theorem isChar_of_tokens {pos : Position} {gs : List Glyph} {ts : List Token}
    (h : tokens pos gs = .ok ts) : ∀ g ∈ gs, g.IsChar := by
  induction pos, gs using lexing_induction generalizing ts with
  | nil pos => simp
  | stray pos b gs => rw [tokens_stray] at h; cases h
  | space pos c gs hc ih =>
      rw [tokens_space hc] at h
      exact List.forall_mem_cons.mpr ⟨trivial, ih h⟩
  | broken pos c gs e hc hl => rw [tokens_char hc, hl] at h; cases h
  | token pos c gs l hc hl ih =>
      rw [tokens_char hc, hl, ok_bind, bind_eq_ok] at h
      obtain ⟨us, hus, -⟩ := h
      rw [← lexeme_split hl]
      intro g hg
      rcases List.mem_append.mp hg with hg | hg
      · obtain ⟨d, -, rfl⟩ := List.mem_map.mp hg
        trivial
      · exact ih hus g hg

/-- The place behind the units `gs`. -/
def behind (pos : Position) (gs : List Glyph) : Position := pos.advance (gs.map Glyph.shown)

theorem behind_lexeme {pos : Position} {c : Char} {gs : List Glyph} {l : Lexeme}
    (h : lexeme pos c gs = .ok l) :
    behind pos (.char c :: gs) = behind (pos.advance l.text) l.rest := by
  have hshown : (l.text.map Glyph.char).map Glyph.shown = l.text := by
    rw [List.map_map]
    exact List.map_id _
  rw [← lexeme_split h, behind, List.map_append, hshown, Position.advance_append]
  rfl

/-- **A text can be cut in front of a separating character.** The tokens in front of it are those of
the text there alone, and the lexer goes on as if it started at that place. -/
theorem tokens_append {d : Char} (hd : Separates d) {pos : Position} {gs : List Glyph}
    {ts : List Token} (h : tokens pos gs = .ok ts) (k : List Glyph) :
    tokens pos (gs ++ .char d :: k) =
      tokens (behind pos gs) (.char d :: k) >>= fun us => .ok (ts ++ us) := by
  induction pos, gs using lexing_induction generalizing ts with
  | nil pos =>
      rw [tokens_nil] at h
      cases h
      rw [List.nil_append]
      show tokens pos (.char d :: k) = tokens pos (.char d :: k) >>= fun us => .ok us
      cases tokens pos (.char d :: k) <;> rfl
  | stray pos b gs => rw [tokens_stray] at h; cases h
  | space pos c gs hc ih =>
      rw [tokens_space hc] at h
      rw [List.cons_append, tokens_space hc]
      exact ih h
  | broken pos c gs e hc hl => rw [tokens_char hc, hl] at h; cases h
  | token pos c gs l hc hl ih =>
      rw [tokens_char hc, hl, ok_bind, bind_eq_ok] at h
      obtain ⟨us, hus, h⟩ := h
      cases h
      -- the token is the same one, and it leaves `d` behind what it left alone
      rw [List.cons_append, tokens_char hc, lexeme_append hd hl, ok_bind, behind_lexeme hl]
      show tokens (pos.advance l.text) (l.rest ++ .char d :: k) >>= _ = _
      rw [ih hus]
      cases tokens (behind (pos.advance l.text) l.rest) (.char d :: k) <;> rfl

/-! ## Places of tokens -/

/-- Of an error, only what is wrong. -/
def faultOnly {α : Type} (x : Except LexError α) : Except LexFault α :=
  match x with
  | .ok a => .ok a
  | .error e => .error e.fault

theorem lexeme_moved (pos pos' : Position) (c : Char) (gs : List Glyph) :
    faultOnly (lexeme pos c gs) = faultOnly (lexeme pos' c gs) := by
  unfold lexeme
  split
  · rfl
  split
  · rfl
  split
  · rfl
  split
  · rfl
  split
  · cases stringBody gs with
    | closed text rest => rfl
    | broken before fault => cases fault <;> rfl
  · rfl

/-- A token is the same wherever it stands. -/
theorem lexeme_ok_moved {pos : Position} {c : Char} {gs : List Glyph} {l : Lexeme}
    (h : lexeme pos c gs = .ok l) (pos' : Position) : lexeme pos' c gs = .ok l := by
  have hmoved := lexeme_moved pos pos' c gs
  rw [h] at hmoved
  cases hl : lexeme pos' c gs with
  | error e => rw [hl] at hmoved; cases hmoved
  | ok l' => rw [hl] at hmoved; cases hmoved; rfl

/-- Tokens without their places; of an error, only what is wrong. -/
def unplacedTokens (x : Except LexError (List Token)) : Except LexFault (List Token) :=
  faultOnly x >>= fun ts => .ok (ts.map Token.unplaced)

theorem unplacedTokens_cons (x : Except LexError (List Token)) (t : Token) :
    unplacedTokens (x >>= fun ts => .ok (t :: ts)) =
      unplacedTokens x >>= fun ts => .ok (t.unplaced :: ts) := by
  cases x <;> rfl

theorem unplacedTokens_eq_ok {x : Except LexError (List Token)} {us : List Token} :
    unplacedTokens x = .ok us ↔ ∃ ts, x = .ok ts ∧ ts.map Token.unplaced = us := by
  cases x with
  | error e => simp [unplacedTokens, faultOnly]
  | ok ts => simp [unplacedTokens, faultOnly]

/-- **The place where a text starts makes no difference** but to the places of its tokens. -/
theorem tokens_moved (pos pos' : Position) (gs : List Glyph) :
    unplacedTokens (tokens pos gs) = unplacedTokens (tokens pos' gs) := by
  induction pos, gs using lexing_induction generalizing pos' with
  | nil pos => rw [tokens_nil, tokens_nil]
  | stray pos b gs => rw [tokens_stray, tokens_stray]; rfl
  | space pos c gs hc ih => rw [tokens_space hc, tokens_space hc]; exact ih _
  | broken pos c gs e hc hl =>
      have hmoved := lexeme_moved pos pos' c gs
      rw [tokens_char hc, tokens_char hc, hl]
      rw [hl] at hmoved
      cases hl' : lexeme pos' c gs with
      | ok l => rw [hl'] at hmoved; cases hmoved
      | error e' =>
          rw [hl'] at hmoved
          have hfault : e.fault = e'.fault := Except.error.inj hmoved
          exact congrArg Except.error hfault
  | token pos c gs l hc hl ih =>
      rw [tokens_char hc, tokens_char hc, hl, lexeme_ok_moved hl, ok_bind, ok_bind,
        unplacedTokens_cons, unplacedTokens_cons, ih (pos'.advance l.text)]
      rfl

/-- A semicolon is a token by itself. -/
theorem tokens_semicolon (pos : Position) (gs : List Glyph) :
    tokens pos (.char ';' :: gs) = tokens (pos.step ';') gs >>= fun ts =>
      .ok ({ kind := .operator, text := ";", pos } :: ts) := by
  rw [tokens_char (by decide)]
  rfl

end LetWhile.Lexer

namespace LetWhile

open Lexer

/-- The two bytes that stand between joined texts: a semicolon and a line feed. -/
def joint : List UInt8 := [0x3B, 0x0A]

/-- **Joined texts are lexed one by one.** Behind a text that has tokens, a semicolon and a line
feed, the lexer goes on with the other text as if it started there. -/
theorem lex_append_joint {first : List UInt8} {ts : List Token} (h : Token.lex first = .ok ts)
    (second : List UInt8) :
    ∃ (semi : Token) (pos : Position), semi.isOperator ";" = true ∧
      Token.lex (first ++ joint ++ second) =
        tokens pos (Glyph.decode second) >>= fun us => .ok (ts ++ semi :: us) := by
  have hsemi (bs : List UInt8) : Glyph.decode (0x3B :: bs) = .char ';' :: Glyph.decode bs :=
    Glyph.decode_ascii (by decide) (by decide) bs
  have hfeed (bs : List UInt8) : Glyph.decode (0x0A :: bs) = .char '\n' :: Glyph.decode bs :=
    Glyph.decode_ascii (by decide) (by decide) bs
  have hdecode : Glyph.decode (first ++ joint ++ second) =
      Glyph.decode first ++ .char ';' :: .char '\n' :: Glyph.decode second := by
    rw [List.append_assoc, Glyph.decode_append (isChar_of_tokens h)]
    show _ ++ Glyph.decode (0x3B :: 0x0A :: second) = _
    rw [hsemi, hfeed]
  let pos := behind .start (Glyph.decode first)
  refine ⟨{ kind := .operator, text := ";", pos }, (pos.step ';').step '\n', rfl, ?_⟩
  rw [Token.lex, hdecode, tokens_append separates_semicolon h, tokens_semicolon,
    tokens_space (by decide)]
  show _ = tokens ((pos.step ';').step '\n') (Glyph.decode second) >>= _
  cases tokens ((pos.step ';').step '\n') (Glyph.decode second) <;> rfl

end LetWhile
