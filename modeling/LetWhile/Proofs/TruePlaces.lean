import Mathlib.Data.List.Induction
import LetWhile.Proofs.Completion
import LetWhile.Proofs.Lexing
import LetWhile.Proofs.Nodes
import LetWhile.Proofs.Pipeline

/-!
# Places are true

The lexer counts offsets, lines and columns while it goes along. `Position.TrueIn` says what they
should be without counting along: the place behind the first `n` bytes of a text has the offset `n`,
its line is one more than the number of line feeds in these bytes, and its column is one more than
the number of characters behind the last of them.

Every place that the compiler names is such a place of the text. The lexer goes over characters of
the text only. The parser takes its places from tokens, or names the end of the last one. The
checker takes its places from the nodes of the tree, which took theirs from tokens.
-/

namespace LetWhile

/-- What stands behind the last `d`. -/
def lastLine {α : Type} [DecidableEq α] (d : α) (xs : List α) : List α :=
  (xs.reverse.takeWhile (· ≠ d)).reverse

/-- The place behind the given bytes of a text. -/
def Position.after (bytes : List UInt8) : Position where
  offset := bytes.length
  line := 1 + bytes.count 0x0A
  column := 1 + (Glyph.decode (lastLine 0x0A bytes)).length

/-- The place is that behind some first bytes of the text. -/
def Position.TrueIn (pos : Position) (source : List UInt8) : Prop :=
  ∃ n ≤ source.length, pos = Position.after (source.take n)

/-! ## Lines -/

section Lines

variable {α : Type} [DecidableEq α] {d : α}

theorem lastLine_feed (xs : List α) : lastLine d (xs ++ [d]) = [] := by
  simp [lastLine]

theorem lastLine_append {ys : List α} (h : d ∉ ys) (xs : List α) :
    lastLine d (xs ++ ys) = lastLine d xs ++ ys := by
  have hall : ∀ y ∈ ys.reverse, decide (y ≠ d) = true := by
    intro y hy
    rw [decide_eq_true_eq]
    rintro rfl
    exact h (List.mem_reverse.mp hy)
  rw [lastLine, lastLine, List.reverse_append, List.takeWhile_append_of_pos hall,
    List.reverse_append, List.reverse_reverse]

end Lines

theorem encode_feed : String.utf8EncodeChar '\n' = [0x0A] := by
  rfl

/-- The byte of the line feed is part of no other character. -/
theorem feed_notMem_encode {c : Char} (hc : c ≠ '\n') : 0x0A ∉ String.utf8EncodeChar c := by
  have hne : c.toNat ≠ 10 := fun h => hc (Char.toNat_inj.mp h)
  have hbyte {n : Nat} (hn : n < 256) (h : n ≠ 10) : (0x0A : UInt8) ≠ UInt8.ofNat n := by
    intro heq
    have htoNat := congrArg UInt8.toNat heq
    rw [Glyph.toNat_ofNat hn] at htoNat
    exact h htoNat.symm
  rcases c.utf8Size_eq with hs | hs | hs | hs
  · obtain ⟨h, he⟩ := Glyph.encode_one hs
    simp only [he, List.mem_cons, List.not_mem_nil, or_false]
    exact hbyte (by omega) hne
  · obtain ⟨hlow, hhigh, he⟩ := Glyph.encode_two hs
    simp only [he, List.mem_cons, List.not_mem_nil, or_false, not_or]
    exact ⟨hbyte (by omega) (by omega), hbyte (by omega) (by omega)⟩
  · obtain ⟨hlow, hhigh, he⟩ := Glyph.encode_three hs
    simp only [he, List.mem_cons, List.not_mem_nil, or_false, not_or]
    exact ⟨hbyte (by omega) (by omega), hbyte (by omega) (by omega), hbyte (by omega) (by omega)⟩
  · obtain ⟨hlow, hhigh, he⟩ := Glyph.encode_four hs
    simp only [he, List.mem_cons, List.not_mem_nil, or_false, not_or]
    exact ⟨hbyte (by omega) (by omega), hbyte (by omega) (by omega), hbyte (by omega) (by omega),
      hbyte (by omega) (by omega)⟩

theorem lastLine_encode (cs : List Char) :
    lastLine 0x0A (cs.flatMap String.utf8EncodeChar) =
      (lastLine '\n' cs).flatMap String.utf8EncodeChar := by
  induction cs using List.reverseRecOn with
  | nil => rfl
  | append_singleton cs c ih =>
      rw [List.flatMap_append, List.flatMap_singleton]
      by_cases hc : c = '\n'
      · rw [hc, encode_feed, lastLine_feed, lastLine_feed]
        rfl
      · rw [lastLine_append (feed_notMem_encode hc), ih,
          lastLine_append (fun h => hc (List.mem_singleton.mp h).symm), List.flatMap_append,
          List.flatMap_singleton]

theorem length_decode_lastLine (cs : List Char) :
    (Glyph.decode (lastLine 0x0A (cs.flatMap String.utf8EncodeChar))).length =
      (lastLine '\n' cs).length := by
  rw [lastLine_encode, Glyph.decode_encode, List.length_map]

/-- **Counting along gives the true place.** -/
theorem Position.advance_start (cs : List Char) :
    Position.start.advance cs = Position.after (cs.flatMap String.utf8EncodeChar) := by
  -- from the end, as it is the last character that may start a new line
  induction cs using List.reverseRecOn with
  | nil =>
      rw [Position.after, length_decode_lastLine]
      rfl
  | append_singleton cs c ih =>
      have hlength : (cs ++ [c]).flatMap String.utf8EncodeChar =
          cs.flatMap String.utf8EncodeChar ++ String.utf8EncodeChar c := by
        rw [List.flatMap_append, List.flatMap_singleton]
      rw [Position.advance_append, Position.advance_cons, Position.advance_nil, ih, Position.step,
        Position.after, Position.after, length_decode_lastLine, length_decode_lastLine, hlength,
        List.length_append, String.length_utf8EncodeChar, List.count_append]
      by_cases hc : c = '\n'
      · rw [if_pos hc, hc, encode_feed, lastLine_feed]
        simp only [Position.mk.injEq, List.count_singleton_self, List.length_nil]
        omega
      · rw [if_neg hc, List.count_eq_zero_of_not_mem (feed_notMem_encode hc),
          lastLine_append (fun h => hc (List.mem_singleton.mp h).symm), List.length_append]
        simp only [Position.mk.injEq, List.length_singleton]
        omega

theorem Position.offset_advance (pos : Position) (cs : List Char) :
    (pos.advance cs).offset = pos.offset + (cs.flatMap String.utf8EncodeChar).length := by
  induction cs generalizing pos with
  | nil => simp
  | cons c cs ih =>
      have hstep : (pos.step c).offset = pos.offset + c.utf8Size := by
        unfold Position.step
        split <;> rfl
      rw [Position.advance_cons, ih, hstep, List.flatMap_cons, List.length_append,
        String.length_utf8EncodeChar]
      omega

/-! ## Places of the lexer -/

namespace Lexer

/-- The lexer, started at `pos` in front of `gs`, comes by the place. -/
def Passes (pos : Position) (gs : List Glyph) (place : Position) : Prop :=
  ∃ before rest, gs = before.map Glyph.char ++ rest ∧ place = pos.advance before

theorem Passes.here {pos : Position} {gs : List Glyph} : Passes pos gs pos :=
  ⟨[], gs, rfl, rfl⟩

theorem Passes.behind {pos place : Position} (cs : List Char) {gs : List Glyph}
    (h : Passes (pos.advance cs) gs place) : Passes pos (cs.map Glyph.char ++ gs) place := by
  obtain ⟨before, rest, rfl, rfl⟩ := h
  refine ⟨cs ++ before, rest, ?_, ?_⟩
  · rw [List.map_append, List.append_assoc]
  · rw [Position.advance_append]

theorem prepend_eq_broken {cs before : List Char} {fault : LexFault} {b : StringBody} :
    b.prepend cs = .broken before fault ↔
      ∃ more, b = .broken more fault ∧ before = cs ++ more := by
  cases b with
  | broken m f =>
      constructor
      · intro h; cases h; exact ⟨m, rfl, rfl⟩
      · rintro ⟨more, h, rfl⟩; cases h; rfl
  | closed t r => simp [StringBody.prepend]

/-- What stands in front of a fault in a string literal is the beginning of the literal. -/
theorem stringBody_broken {gs : List Glyph} {before : List Char} {fault : LexFault}
    (h : stringBody gs = .broken before fault) : ∃ rest, gs = before.map Glyph.char ++ rest := by
  induction gs using stringBody_induction generalizing before fault with
  | ended => rw [stringBody] at h; cases h; exact ⟨_, rfl⟩
  | stray b gs => rw [stringBody] at h; cases h; exact ⟨_, rfl⟩
  | endedEscape => rw [stringBody] at h; cases h; exact ⟨_, rfl⟩
  | strayEscape b gs => rw [stringBody] at h; cases h; exact ⟨_, rfl⟩
  | unknown e gs he => rw [stringBody, he] at h; cases h; exact ⟨_, rfl⟩
  | escape e gs he ih =>
      rw [stringBody, if_pos he] at h
      obtain ⟨more, hmore, rfl⟩ := prepend_eq_broken.mp h
      obtain ⟨rest, rfl⟩ := ih hmore
      exact ⟨rest, rfl⟩
  | quote gs => rw [stringBody_quote] at h; cases h
  | plain c gs hback hquote ih =>
      rw [stringBody_plain hback hquote] at h
      obtain ⟨more, hmore, rfl⟩ := prepend_eq_broken.mp h
      obtain ⟨rest, rfl⟩ := ih hmore
      exact ⟨rest, rfl⟩

/-- **Only a string literal can be at fault.** The fault is that of its inside, and it is reported
where the literal starts if the text ends too early, and where it stands if not. -/
theorem lexeme_eq_error {pos : Position} {c : Char} {gs : List Glyph} {e : LexError} :
    lexeme pos c gs = .error e ↔ c = '"' ∧ ∃ before, stringBody gs = .broken before e.fault ∧
      e.pos = if e.fault = .unterminatedString then pos else pos.advance ('"' :: before) := by
  constructor
  · intro h
    unfold lexeme at h
    split at h
    · cases h
    split at h
    · cases h
    split at h
    · cases h
    split at h
    · cases h
    split at h
    · next hc =>
      refine ⟨hc, ?_⟩
      split at h
      · cases h
      · next before hb => cases h; exact ⟨before, hb, rfl⟩
      · next before fault hfault hb => cases h; exact ⟨before, hb, (if_neg hfault).symm⟩
    · cases h
  · rintro ⟨rfl, before, hb, hpos⟩
    obtain ⟨place, fault⟩ := e
    dsimp only at hb hpos
    rw [lexeme, hb, hpos]
    cases fault <;> rfl

theorem lexeme_error_passes {pos : Position} {c : Char} {gs : List Glyph} {e : LexError}
    (h : lexeme pos c gs = .error e) : Passes pos (.char c :: gs) e.pos := by
  obtain ⟨rfl, before, hb, hpos⟩ := lexeme_eq_error.mp h
  rw [hpos]
  split
  · exact .here
  · obtain ⟨rest, rfl⟩ := stringBody_broken hb
    exact ⟨'"' :: before, rest, rfl, rfl⟩

/-- **A token starts and ends where the lexer comes by.** -/
theorem tokens_pass {pos : Position} {gs : List Glyph} {ts : List Token}
    (h : tokens pos gs = .ok ts) : ∀ t ∈ ts, Passes pos gs t.pos ∧ Passes pos gs t.endPos := by
  induction pos, gs using lexing_induction generalizing ts with
  | nil pos => rw [tokens_nil] at h; cases h; simp
  | stray pos b gs => rw [tokens_stray] at h; cases h
  | space pos c gs hc ih =>
      rw [tokens_space hc] at h
      intro t ht
      obtain ⟨hstart, hend⟩ := ih h t ht
      exact ⟨.behind [c] hstart, .behind [c] hend⟩
  | broken pos c gs e hc hl => rw [tokens_char hc, hl] at h; cases h
  | token pos c gs l hc hl ih =>
      rw [tokens_char hc, hl, ok_bind, bind_eq_ok] at h
      obtain ⟨us, hus, h⟩ := h
      cases h
      rw [← lexeme_split hl]
      intro t ht
      rcases List.mem_cons.mp ht with rfl | ht
      · refine ⟨.here, .behind l.text ?_⟩
        rw [Token.endPos, String.toList_ofList]
        exact .here
      · obtain ⟨hstart, hend⟩ := ih hus t ht
        exact ⟨hstart.behind l.text, hend.behind l.text⟩

/-- **A fault stands where the lexer comes by.** -/
theorem tokens_error_passes {pos : Position} {gs : List Glyph} {e : LexError}
    (h : tokens pos gs = .error e) : Passes pos gs e.pos := by
  induction pos, gs using lexing_induction with
  | nil pos => rw [tokens_nil] at h; cases h
  | stray pos b gs => rw [tokens_stray] at h; cases h; exact .here
  | space pos c gs hc ih =>
      rw [tokens_space hc] at h
      exact .behind [c] (ih h)
  | broken pos c gs e' hc hl =>
      rw [tokens_char hc, hl] at h
      cases h
      exact lexeme_error_passes hl
  | token pos c gs l hc hl ih =>
      rw [tokens_char hc, hl, ok_bind, bind_eq_error] at h
      rw [← lexeme_split hl]
      rcases h with h | ⟨us, -, h⟩
      · exact (ih h).behind l.text
      · cases h

/-- Where the lexer comes by in a text is a true place of the text. -/
theorem Passes.trueIn {source : List UInt8} {place : Position}
    (h : Passes .start (Glyph.decode source) place) : place.TrueIn source := by
  obtain ⟨before, rest, hdecode, rfl⟩ := h
  -- the characters in front of the place are the first bytes of the text
  have hbytes : source =
      before.flatMap String.utf8EncodeChar ++ rest.flatMap Glyph.bytes := by
    rw [← Glyph.bytes_decode source, hdecode, List.flatMap_append, List.flatMap_map]
    rfl
  refine ⟨(before.flatMap String.utf8EncodeChar).length, ?_, ?_⟩
  · rw [hbytes, List.length_append]
    omega
  · rw [Position.advance_start]
    conv_rhs => rw [hbytes, List.take_left]

end Lexer

theorem Token.pos_trueIn {source : List UInt8} {ts : List Token} (h : Token.lex source = .ok ts) :
    ∀ t ∈ ts, t.pos.TrueIn source :=
  fun t ht => (Lexer.tokens_pass h t ht).1.trueIn

theorem Token.endOf_trueIn {source : List UInt8} {ts : List Token} (h : Token.lex source = .ok ts) :
    (endOf ts).TrueIn source := by
  unfold endOf
  split
  · next t ht => exact (Lexer.tokens_pass h t (List.mem_of_getLast? ht)).2.trueIn
  · exact Lexer.Passes.here.trueIn

theorem LexError.pos_trueIn {source : List UInt8} {e : LexError} (h : Token.lex source = .error e) :
    e.pos.TrueIn source :=
  (Lexer.tokens_error_passes h).trueIn

/-! ## Places of the later stages -/

/-- A parse error stands at a token or behind the last one. -/
theorem ParseError.pos_cases {ts : List Token} {e : ParseError}
    (h : Program.ofTokens ts = .error (.refused e)) :
    (e.incomplete = false ∧ ∃ t ∈ ts, e.pos = t.pos) ∨
      (e.incomplete = true ∧ e.pos = endOf ts) := by
  obtain ⟨rest, fault, hs, rfl⟩ := Program.ofTokens_eq_refused.mp h
  obtain ⟨front, _, _, hts, -⟩ := Grammar.block_completable hs
  cases rest with
  | nil => exact .inr ⟨rfl, rfl⟩
  | cons t rest =>
      have ht : t ∈ ts := by
        rw [hts]
        exact List.mem_append_right _ List.mem_cons_self
      exact .inl ⟨rfl, t, ht, rfl⟩

theorem ParseError.pos_trueIn {source : List UInt8} {ts : List Token} {e : ParseError}
    (hts : Token.lex source = .ok ts) (h : Program.ofTokens ts = .error (.refused e)) :
    e.pos.TrueIn source := by
  rcases ParseError.pos_cases h with ⟨-, t, ht, hpos⟩ | ⟨-, hpos⟩
  · rw [hpos]; exact Token.pos_trueIn hts t ht
  · rw [hpos]; exact Token.endOf_trueIn hts

theorem Program.places_of_checkAlone {lib : Library} {p : Program} {typed : Typed.Program}
    (h : p.checkAlone lib = .ok typed) : typed.places = p.places := by
  obtain ⟨s, h⟩ := Program.checkAlone_eq_ok.mp h
  exact (Typing.block_sound p h).places_eq

theorem Program.checkAlone_error_pos {lib : Library} {p : Program} {e : CompileError}
    (h : p.checkAlone lib = .error e) : ∃ err, e = .type err ∧ err.pos ∈ p.places := by
  unfold Program.checkAlone at h
  split at h
  · next err herr => cases h; exact ⟨err, rfl, Check.block_error_pos p herr⟩
  · cases h

/-- The places that the results of a compilation name. -/
def Compilation.places (c : Compilation) : List Position :=
  c.tokens.map Token.pos ++ (c.program.elim [] Program.places ++
    c.typed.elim [] Typed.Program.places)

/-- The place that an error names. -/
def CompileError.places : CompileError → List Position
  | .lex e => [e.pos]
  | .parse e => [e.pos]
  | .type e => [e.pos]
  | .panic _ => []
  | .write _ => []
  | .read _ => []

/-- The places that an answer of the compiler names. -/
def answerPlaces : Except CompileError Compilation → List Position
  | .ok c => c.places
  | .error e => e.places

theorem Compilation.places_satisfy {P : Position → Prop} {c : Compilation}
    (htokens : ∀ t ∈ c.tokens, P t.pos)
    (hprogram : ∀ p, c.program = some p → ∀ pos ∈ p.places, P pos)
    (htyped : ∀ typed, c.typed = some typed → ∀ pos ∈ typed.places, P pos) :
    ∀ pos ∈ c.places, P pos := by
  intro pos hpos
  unfold Compilation.places at hpos
  rcases List.mem_append.mp hpos with hpos | hpos
  · obtain ⟨t, ht, rfl⟩ := List.mem_map.mp hpos
    exact htokens t ht
  rcases List.mem_append.mp hpos with hpos | hpos
  · cases hp : c.program with
    | none => rw [hp] at hpos; cases hpos
    | some p => rw [hp] at hpos; exact hprogram p hp pos hpos
  · cases ht : c.typed with
    | none => rw [ht] at hpos; cases hpos
    | some typed => rw [ht] at hpos; exact htyped typed ht pos hpos

/-- **What holds of the places of the lexer and of the parser's errors holds of every place in an
answer of the compiler**, because all others are places of tokens. -/
theorem answerPlaces_satisfy {P : Position → Prop} {source : List UInt8}
    (hfault : ∀ e, Token.lex source = .error e → P e.pos)
    (htokens : ∀ ts, Token.lex source = .ok ts → ∀ t ∈ ts, P t.pos)
    (hstuck : ∀ ts e, Token.lex source = .ok ts → Program.ofTokens ts = .error (.refused e) →
      P e.pos)
    (o : CompileOptions) : ∀ pos ∈ answerPlaces (Compilation.run o source), P pos := by
  unfold Compilation.run Compilation.runWith
  cases hts : Token.lex source with
  | error e => exact List.forall_mem_singleton.mpr (hfault e hts)
  | ok ts =>
    have htokens := htokens ts hts
    dsimp only
    by_cases hlex : o.stopAfter = .lex
    · rw [if_pos hlex]
      exact Compilation.places_satisfy htokens nofun nofun
    rw [if_neg hlex]
    cases hp : Program.ofTokens ts with
    | error failure =>
      cases failure with
      | refused e => exact List.forall_mem_singleton.mpr (hstuck ts e hts hp)
      | panicked text => exact nofun
    | ok p =>
      have hplaces : ∀ pos ∈ p.places, P pos := by
        intro pos hpos
        obtain ⟨t, ht, rfl⟩ := Program.places_of_ofTokens hp htokens pos hpos
        exact ht
      have hprogram : ∀ q, some p = some q → ∀ pos ∈ q.places, P pos := by
        intro q hq
        cases hq
        exact hplaces
      dsimp only
      by_cases hparse : o.stopAfter = .parse
      · rw [if_pos hparse]
        exact Compilation.places_satisfy htokens hprogram nofun
      rw [if_neg hparse]
      cases ht : p.checkAlone o.library with
      | error e =>
        obtain ⟨err, rfl, herr⟩ := Program.checkAlone_error_pos ht
        exact List.forall_mem_singleton.mpr (hplaces _ herr)
      | ok typed =>
        have htyped : ∀ q, some typed = some q → ∀ pos ∈ q.places, P pos := by
          intro q hq
          cases hq
          rw [Program.places_of_checkAlone ht]
          exact hplaces
        rw [ok_bind]
        by_cases hanalyze : o.stopAfter = .analyze
        · rw [if_pos hanalyze]
          exact Compilation.places_satisfy htokens hprogram htyped
        · obtain ⟨lines, hlines⟩ := Java.program_total (Program.whole_of_checkAlone ht) o.java
          rw [if_neg hanalyze, hlines]
          exact Compilation.places_satisfy htokens hprogram htyped

/-- **Every place in an answer of the compiler is true.** -/
theorem answerPlaces_trueIn (o : CompileOptions) (source : List UInt8) :
    ∀ pos ∈ answerPlaces (Compilation.run o source), pos.TrueIn source :=
  answerPlaces_satisfy (fun _ => LexError.pos_trueIn) (fun _ => Token.pos_trueIn)
    (fun _ _ => ParseError.pos_trueIn) o

/-- An error at the end of the input stands behind the text of the last token. -/
theorem ParseError.offset_of_incomplete {ts : List Token} {e : ParseError} {t : Token}
    (h : Program.ofTokens ts = .error (.refused e)) (he : e.incomplete = true)
    (ht : ts.getLast? = some t) :
    e.pos.offset = t.pos.offset + (utf8Bytes t.text).length := by
  rcases ParseError.pos_cases h with ⟨hno, -⟩ | ⟨-, hpos⟩
  · rw [he] at hno
    cases hno
  · rw [hpos, endOf, ht, Glyph.utf8Bytes_eq]
    exact Position.offset_advance t.pos t.text.toList

/-- **Every reported place is the true one.** That is so for the tokens of a text, for what is wrong
with its characters or with its tokens, and for everything in an answer of the compiler, the nodes
of both trees and the rules that are broken included. An error at the end of the input stands behind
the last token, or at the first place of all. -/
theorem reported_places_true (source : List UInt8) :
    (∀ ts, Token.lex source = .ok ts → ∀ t ∈ ts, t.pos.TrueIn source) ∧
    (∀ e, Token.lex source = .error e → e.pos.TrueIn source) ∧
    (∀ ts e, Token.lex source = .ok ts → Program.ofTokens ts = .error (.refused e) →
      e.pos.TrueIn source ∧
      (e.incomplete = true →
        (ts = [] → e.pos = ⟨0, 1, 1⟩) ∧
        ∀ t, ts.getLast? = some t →
          e.pos.offset = t.pos.offset + (utf8Bytes t.text).length)) ∧
    (∀ o, ∀ pos ∈ answerPlaces (Compilation.run o source), pos.TrueIn source) := by
  refine ⟨fun ts hts => Token.pos_trueIn hts, fun e he => LexError.pos_trueIn he, ?_,
    fun o => answerPlaces_trueIn o source⟩
  intro ts e hts he
  refine ⟨ParseError.pos_trueIn hts he, fun hincomplete => ⟨?_, fun t ht => ?_⟩⟩
  · rintro rfl
    rcases ParseError.pos_cases he with ⟨-, t, ht, -⟩ | ⟨-, hpos⟩
    · cases ht
    · exact hpos
  · exact ParseError.offset_of_incomplete he hincomplete ht

/-- The text `é == `, a line feed and `  (`: a group that is not closed. -/
def openGroup : List UInt8 := [0xC3, 0xA9, 0x20, 0x3D, 0x3D, 0x0A, 0x20, 0x20, 0x28]

/-- The tokens of that text. The name has two bytes and one column. -/
def openGroupTokens : List Token :=
  [⟨.identifier, "é", ⟨0, 1, 1⟩⟩, ⟨.operator, "==", ⟨3, 1, 3⟩⟩, ⟨.operator, "(", ⟨8, 2, 3⟩⟩]

/-- The error of that text. -/
def openGroupError : ParseError :=
  { pos := ⟨9, 2, 4⟩, index := 3, fault := .expectedExpression, incomplete := true }

theorem reported_places_true_openGroup :
    Token.lex openGroup = .ok openGroupTokens ∧
    Program.ofTokens openGroupTokens = .error (.refused openGroupError) ∧
    (∀ t ∈ openGroupTokens, t.pos.TrueIn openGroup) ∧
    openGroupError.pos.TrueIn openGroup ∧
    openGroupError.pos.offset = 8 + (utf8Bytes "(").length ∧
    ∀ pos ∈ answerPlaces (Compilation.run {} openGroup), pos.TrueIn openGroup := by
  have hlex : Token.lex openGroup = .ok openGroupTokens := by with_unfolding_all rfl
  have hparse : Program.ofTokens openGroupTokens = .error (.refused openGroupError) := by
    with_unfolding_all rfl
  obtain ⟨htokens, -, herrors, hanswers⟩ := reported_places_true openGroup
  obtain ⟨hpos, hend⟩ := herrors _ _ hlex hparse
  exact ⟨hlex, hparse, htokens _ hlex, hpos, (hend rfl).2 _ rfl, hanswers {}⟩

end LetWhile
