import LetWhile.Proofs.Relocation

/-!
# The first line of a program file

A program file can start with a line for the shell, `#!` and more. The compiler skips that line up
to its line feed and compiles the rest, the line feed included. As the line feed is white space this
compiles what stands below the line, and as it is there all lines keep their numbers.

Put exactly: the answer for the file is the answer for the text below the first line, moved one line
down. Moving down commutes with counting along a text, and with every stage of the compiler. And the
places moved down are places of the file, once the bytes that were skipped are added to the offset.
-/

namespace LetWhile

open Lexer

/-! ## One line down -/

/-- Where a place of a text is when a line of `n` bytes, its line feed included, stands in front of
the text. What has no place, and so no line, has none then. -/
def Position.below (n : Nat) (pos : Position) : Position :=
  if pos.line = 0 then pos else ⟨pos.offset + n, pos.line + 1, pos.column⟩

theorem Position.below_of_line_pos {pos : Position} (h : 0 < pos.line) (n : Nat) :
    pos.below n = ⟨pos.offset + n, pos.line + 1, pos.column⟩ :=
  if_neg (by omega)

theorem Position.step_below {pos : Position} (h : 0 < pos.line) (n : Nat) (c : Char) :
    (pos.below n).step c = (pos.step c).below n ∧ 0 < (pos.step c).line := by
  rw [Position.below_of_line_pos h]
  unfold Position.step
  split
  · refine ⟨?_, Int.lt_trans h (Int.lt_succ _)⟩
    rw [Position.below_of_line_pos (Int.lt_trans h (Int.lt_succ _))]
    simp only [Position.mk.injEq, and_true]
    omega
  · refine ⟨?_, h⟩
    rw [Position.below_of_line_pos (by exact h)]
    simp only [Position.mk.injEq, and_true]
    omega

/-- **Counting along a text is the same one line down.** -/
theorem Position.advance_below {pos : Position} (h : 0 < pos.line) (n : Nat) (cs : List Char) :
    (pos.below n).advance cs = (pos.advance cs).below n := by
  induction cs generalizing pos with
  | nil => rfl
  | cons c cs ih =>
      obtain ⟨hstep, hpos⟩ := Position.step_below h n c
      rw [Position.advance_cons, hstep, ih hpos, Position.advance_cons]

theorem lastLine_below {α : Type} [DecidableEq α] {d : α} (xs ys : List α) :
    lastLine d (xs ++ d :: ys) = lastLine d ys := by
  -- from the end, as the last line is what stands behind the last `d`
  induction ys using List.reverseRecOn with
  | nil => exact lastLine_feed xs
  | append_singleton ys y ih =>
      rw [← List.cons_append, ← List.append_assoc]
      by_cases hy : y = d
      · rw [hy, lastLine_feed, lastLine_feed]
      · have hne : d ∉ [y] := fun h => hy (List.mem_singleton.mp h).symm
        rw [lastLine_append hne, lastLine_append hne, ih]

/-- The place behind some bytes is one line down when a line stands in front of them. -/
theorem Position.after_below {line : List UInt8} (hline : 0x0A ∉ line) (bytes : List UInt8) :
    (Position.after bytes).below (line.length + 1) = Position.after (line ++ 0x0A :: bytes) := by
  have hpos : 0 < (Position.after bytes).line := by
    show (0 : Int) < 1 + bytes.count 0x0A
    omega
  rw [Position.below_of_line_pos hpos, Position.after, Position.after, lastLine_below,
    List.count_append, List.count_cons_self, List.count_eq_zero_of_not_mem hline,
    List.length_append, List.length_cons]
  simp only [Position.mk.injEq, and_true]
  omega

theorem Position.TrueIn.line_pos {pos : Position} {source : List UInt8} (h : pos.TrueIn source) :
    0 < pos.line := by
  obtain ⟨n, -, rfl⟩ := h
  show (0 : Int) < 1 + _
  omega

/-- A place of a text, moved down below a line feed, is the place of a file that has a line in front
of the text, but for the bytes of that line in its offset. -/
theorem Position.TrueIn.below {pos : Position} {rest line : List UInt8} (h : pos.TrueIn rest)
    (hline : 0x0A ∉ line) :
    Position.TrueIn { pos.below 1 with offset := (pos.below 1).offset + line.length }
      (line ++ 0x0A :: rest) := by
  have hplace : { pos.below 1 with offset := (pos.below 1).offset + line.length } =
      pos.below (line.length + 1) := by
    rw [Position.below_of_line_pos h.line_pos, Position.below_of_line_pos h.line_pos]
    simp only [Position.mk.injEq, and_true]
    omega
  obtain ⟨n, hn, rfl⟩ := h
  refine ⟨line.length + (n + 1), ?_, ?_⟩
  · rw [List.length_append, List.length_cons]
    omega
  · rw [hplace, Position.after_below hline, List.take_length_add_append, List.take_succ_cons]

/-! ## The stages one line down -/

theorem Lexer.carries_below (gs : List Glyph) :
    Carries (Position.below 1) .start (Position.start.step '\n') gs :=
  fun before _ _ => (Position.advance_below (by decide) 1 before).symm

/-- **The lexer finds the same one line down.** -/
theorem lex_feed_cons (v : List UInt8) :
    Token.lex (0x0A :: v) = relocated (Position.below 1) (Token.lex v) := by
  have hfeed : Glyph.decode (0x0A :: v) = .char '\n' :: Glyph.decode v :=
    Glyph.decode_ascii (by decide) (by decide) v
  rw [Token.lex, hfeed, tokens_space rfl]
  exact tokens_relocated (carries_below (Glyph.decode v))

theorem lex_feed_cons_ok {v : List UInt8} {ts : List Token} (h : Token.lex v = .ok ts) :
    Token.lex (0x0A :: v) = .ok (ts.map (Token.moved (Position.below 1))) := by
  rw [lex_feed_cons, h]
  rfl

theorem lex_feed_cons_error {v : List UInt8} {e : LexError} (h : Token.lex v = .error e) :
    Token.lex (0x0A :: v) = .error { e with pos := e.pos.below 1 } := by
  rw [lex_feed_cons, h]
  rfl

theorem endOf_below {ts : List Token} (hne : ts ≠ []) (hlines : ∀ t ∈ ts, 0 < t.pos.line)
    (n : Nat) : endOf (ts.map (Token.moved (Position.below n))) = (endOf ts).below n := by
  obtain ⟨t, ht⟩ := Option.ne_none_iff_exists'.mp (mt List.getLast?_eq_none_iff.mp hne)
  unfold endOf
  rw [List.getLast?_map, ht, Option.map_some]
  exact Position.advance_below (hlines t (List.mem_of_getLast? ht)) n t.text.toList

/-- A parse error at another place. -/
def ParseError.moved (move : Position → Position) (e : ParseError) : ParseError :=
  { e with pos := move e.pos }

/-- A failure of the parser at another place. -/
def ParseFailure.moved (move : Position → Position) : ParseFailure → ParseFailure
  | .refused e => .refused (e.moved move)
  | .panicked text => .panicked text

theorem Parser.errorAt_below {ts : List Token} (hne : ts ≠ []) (hlines : ∀ t ∈ ts, 0 < t.pos.line)
    (n : Nat) (rest : List Token) (fault : ParseFault) :
    errorAt (ts.map (Token.moved (Position.below n))) (rest.map (Token.moved (Position.below n)))
        fault = (errorAt ts rest fault).moved (Position.below n) := by
  cases rest with
  | nil =>
      simp only [List.map_nil, errorAt, endOf_below hne hlines, List.length_map, ParseError.moved]
  | cons t rest =>
      simp only [List.map_cons, errorAt, List.length_map, List.length_cons, List.isEmpty_cons,
        ParseError.moved, Token.moved]

theorem Program.ofTokens_moved {move : Position → Position} (hnone : move {} = {})
    {ts : List Token} {p : Program} (h : Program.ofTokens ts = .ok p) :
    Program.ofTokens (ts.map (Token.moved move)) = .ok (Stmt.movedAll move p) := by
  obtain ⟨rest, h⟩ := Program.ofTokens_eq_ok.mp h
  refine Program.ofTokens_eq_ok.mpr ⟨rest.map (Token.moved move), ?_⟩
  rw [Parser.block_moved hnone, h]
  rfl

/-- **A parse error is the same one line down**, at the end of the input too. -/
theorem Program.ofTokens_error_below {ts : List Token} {failure : ParseFailure}
    (hlines : ∀ t ∈ ts, 0 < t.pos.line) (h : Program.ofTokens ts = .error failure) (n : Nat) :
    Program.ofTokens (ts.map (Token.moved (Position.below n))) =
      .error (failure.moved (Position.below n)) := by
  cases failure with
  | refused e =>
      obtain ⟨rest, fault, hs, rfl⟩ := Program.ofTokens_eq_refused.mp h
      have hne : ts ≠ [] := by
        rintro rfl
        rw [Parser.outcome_block_nil] at hs
        cases hs
      refine Program.ofTokens_eq_refused.mpr
        ⟨rest.map (Token.moved (Position.below n)), fault, ?_, ?_⟩
      · rw [Parser.block_moved rfl, hs]
        rfl
      · exact (Parser.errorAt_below hne hlines n rest fault).symm
  | panicked text =>
      obtain ⟨rest, hs⟩ := Program.ofTokens_eq_panicked.mp h
      refine Program.ofTokens_eq_panicked.mpr ⟨rest.map (Token.moved (Position.below n)), ?_⟩
      rw [Parser.block_moved rfl, hs]
      rfl

/-- An error of the compiler at another place. -/
def CompileError.moved (move : Position → Position) : CompileError → CompileError
  | .lex e => .lex { e with pos := move e.pos }
  | .parse e => .parse (e.moved move)
  | .type e => .type { e with pos := move e.pos }
  | .panic p => .panic p
  | .write e => .write e
  | .read m => .read m

/-- The results of a compilation at other places. -/
def Compilation.moved (move : Position → Position) (c : Compilation) : Compilation where
  tokens := c.tokens.map (Token.moved move)
  program := c.program.map (Stmt.movedAll move)
  typed := c.typed.map (Typed.Stmt.movedAll move)
  output := c.output

/-- An answer of the compiler at other places. -/
def movedAnswer (move : Position → Position) :
    Except CompileError Compilation → Except CompileError Compilation
  | .ok c => .ok (c.moved move)
  | .error e => .error (e.moved move)

theorem Program.checkAlone_moved {move : Position → Position} (hnone : move {} = {})
    (lib : Library) (p : Program) :
    Program.checkAlone lib (Stmt.movedAll move p) =
      match p.checkAlone lib with
      | .ok typed => .ok (Typed.Stmt.movedAll move typed)
      | .error e => .error (e.moved move) := by
  unfold Program.checkAlone Program.check
  rw [Check.block_moved hnone]
  unfold Check.movedPair
  cases (Check.block lib .empty p).1 with
  | ok typed => rfl
  | error e => rfl

theorem Token.line_pos_of_lex {source : List UInt8} {ts : List Token}
    (h : Token.lex source = .ok ts) : ∀ t ∈ ts, 0 < t.pos.line :=
  fun t ht => (Token.pos_trueIn h t ht).line_pos

/-- **The compiler answers the same one line down.** -/
theorem Compilation.run_feed_cons (o : CompileOptions) (source : List UInt8) :
    run o (0x0A :: source) = movedAnswer (Position.below 1) (run o source) := by
  unfold run runWith
  cases hts : Token.lex source with
  | error e => rw [lex_feed_cons_error hts]; rfl
  | ok ts =>
    rw [lex_feed_cons_ok hts]
    dsimp only
    by_cases hlex : o.stopAfter = .lex
    · rw [if_pos hlex, if_pos hlex]
      rfl
    rw [if_neg hlex, if_neg hlex]
    cases hp : Program.ofTokens ts with
    | error failure =>
      rw [Program.ofTokens_error_below (Token.line_pos_of_lex hts) hp]
      cases failure <;> rfl
    | ok p =>
      rw [Program.ofTokens_moved rfl hp]
      dsimp only
      by_cases hparse : o.stopAfter = .parse
      · rw [if_pos hparse, if_pos hparse]
        rfl
      rw [if_neg hparse, if_neg hparse, Program.checkAlone_moved rfl]
      cases p.checkAlone o.library with
      | error e => rfl
      | ok typed =>
        dsimp only
        rw [ok_bind, ok_bind]
        by_cases hanalyze : o.stopAfter = .analyze
        · rw [if_pos hanalyze, if_pos hanalyze]
          rfl
        rw [if_neg hanalyze, if_neg hanalyze, Java.program_moved]
        cases Java.program o.java typed <;> rfl

/-! ## Files -/

/-- A place moved down is a place of the file. -/
theorem answerPlaces_feed_cons {line rest : List UInt8} (hline : 0x0A ∉ line)
    (o : CompileOptions) :
    ∀ pos ∈ answerPlaces (Compilation.run o (0x0A :: rest)),
      Position.TrueIn { pos with offset := pos.offset + line.length } (line ++ 0x0A :: rest) := by
  cases hrest : Token.lex rest with
  | error e =>
      have hlex := lex_feed_cons_error hrest
      apply answerPlaces_satisfy
      · intro e' he'
        cases hlex.symm.trans he'
        exact (LexError.pos_trueIn hrest).below hline
      · intro ts hts
        cases hlex.symm.trans hts
      · intro ts e' hts
        cases hlex.symm.trans hts
  | ok us =>
      have hlex := lex_feed_cons_ok hrest
      apply answerPlaces_satisfy
      · intro e he
        cases hlex.symm.trans he
      · intro ts hts
        cases hlex.symm.trans hts
        refine List.forall_mem_map.mpr fun t ht => ?_
        exact (Token.pos_trueIn hrest t ht).below hline
      · intro ts e hts he
        cases hlex.symm.trans hts
        cases hp : Program.ofTokens us with
        | ok p => cases (Program.ofTokens_moved rfl hp).symm.trans he
        | error failure =>
            have hlines := Token.line_pos_of_lex hrest
            have hmoved := (Program.ofTokens_error_below hlines hp 1).symm.trans he
            cases failure with
            | refused e' =>
                cases hmoved
                exact (ParseError.pos_trueIn hrest hp).below hline
            | panicked text => cases hmoved

namespace Compilation

theorem withoutShebang_cons {line : List UInt8} (hstart : [0x23, 0x21] <+: line)
    (hline : 0x0A ∉ line) (rest : List UInt8) :
    withoutShebang (line ++ rest) = rest.dropWhile (· ≠ 0x0A) := by
  obtain ⟨more, rfl⟩ := hstart
  have hall : ∀ b ∈ [0x23, 0x21] ++ more, decide (b ≠ (0x0A : UInt8)) = true := by
    intro b hb
    rw [decide_eq_true_eq]
    rintro rfl
    exact hline hb
  exact List.dropWhile_append_of_pos hall

theorem withoutShebang_of_not_shebang {source : List UInt8} (h : ¬ [0x23, 0x21] <+: source) :
    withoutShebang source = source := by
  unfold withoutShebang
  split
  · next more => exact absurd (List.prefix_append [0x23, 0x21] more) h
  · rfl

/-- Behind a first line, the file is compiled as what stands below the line, one line down. -/
theorem ofFile_shebang {line : List UInt8} (hstart : [0x23, 0x21] <+: line) (hline : 0x0A ∉ line)
    (o : CompileOptions) (rest : List UInt8) :
    ofFile o (.ok (line ++ 0x0A :: rest)) = run o (0x0A :: rest) := by
  rw [ofFile, withoutShebang_cons hstart hline]
  rfl

/-- The text of a token of a text stands where the token is in a file that goes on with the text. -/
theorem extract_of_run {o : CompileOptions} {source : List UInt8} {c : Compilation}
    (h : run o source = .ok c) (front : List UInt8) {t : Token} (ht : t ∈ c.tokens) :
    (front ++ source).extract (front.length + t.first) (front.length + t.stop) =
      utf8Bytes t.text := by
  have htiles : Tiles source 0 c.tokens :=
    (tokens_eq_ok_iff_tiles .start (Glyph.decode source) 0 [] _ rfl rfl rfl).mp
      (lex_of_runWith h)
  rw [← htiles.texts t ht, List.extract_eq_take_drop, List.extract_eq_take_drop,
    List.drop_length_add_append, Nat.add_sub_add_left]

/-- The empty text is compiled, wherever the compilation stops. -/
theorem exists_run_nil (o : CompileOptions) : ∃ c, run o [] = .ok c ∧ c.tokens = [] := by
  have hlex : Token.lex [] = .ok [] := by
    rw [Token.lex, Glyph.decode, tokens_nil]
  have hparse : Program.ofTokens [] = .ok [] :=
    Program.ofTokens_eq_ok.mpr ⟨[], Parser.outcome_block_nil []⟩
  obtain ⟨lines, hlines⟩ := Java.program_total (p := []) (by simp) o.java
  have hrun : ∃ c, run o [] = .ok c := by
    unfold run runWith
    rw [hlex]
    dsimp only
    split
    · exact ⟨_, rfl⟩
    rw [hparse]
    dsimp only
    split
    · exact ⟨_, rfl⟩
    show ∃ c, (if o.stopAfter = .analyze then _ else _) = _
    split
    · exact ⟨_, rfl⟩
    · rw [hlines]
      exact ⟨_, rfl⟩
  obtain ⟨c, hc⟩ := hrun
  exact ⟨c, hc, Except.ok.inj ((lex_of_runWith hc).symm.trans hlex)⟩

theorem unplaced_moved (move : Position → Position) (ts : List Token) :
    (ts.map (Token.moved move)).map Token.unplaced = ts.map Token.unplaced := by
  rw [List.map_map]
  rfl

/--
**Skipping the first line moves nothing.** Let a file start with `#!`, and let its first line end
somewhere. Then it is compiled exactly if the text below that line is, to the same output from the
same tokens; indeed its answer is the answer for that text, moved one line down. Every place in the
answer is the place in the file that has the same line and column, with the bytes in front of the
line feed missing in its offset, and the texts of the tokens stand there. A file that is nothing but
such a first line is compiled as the empty text, and any other file as it is.
-/
theorem ofFile_moves_nothing (o : CompileOptions) :
    (∀ line rest : List UInt8, [0x23, 0x21] <+: line → 0x0A ∉ line →
      ((∃ c, ofFile o (.ok (line ++ 0x0A :: rest)) = .ok c) ↔ ∃ d, run o rest = .ok d) ∧
      (∀ c d, ofFile o (.ok (line ++ 0x0A :: rest)) = .ok c → run o rest = .ok d →
        c.output = d.output ∧ c.tokens.map Token.unplaced = d.tokens.map Token.unplaced) ∧
      ofFile o (.ok (line ++ 0x0A :: rest)) = movedAnswer (Position.below 1) (run o rest) ∧
      (∀ pos ∈ answerPlaces (ofFile o (.ok (line ++ 0x0A :: rest))),
        Position.TrueIn { pos with offset := pos.offset + line.length }
          (line ++ 0x0A :: rest)) ∧
      (∀ c, ofFile o (.ok (line ++ 0x0A :: rest)) = .ok c → ∀ t ∈ c.tokens,
        (line ++ 0x0A :: rest).extract (line.length + t.first) (line.length + t.stop) =
          utf8Bytes t.text)) ∧
    (∀ line : List UInt8, [0x23, 0x21] <+: line → 0x0A ∉ line →
      ∃ c, ofFile o (.ok line) = .ok c ∧ run o [] = .ok c ∧ c.tokens = []) ∧
    (∀ source : List UInt8, ¬ [0x23, 0x21] <+: source → ofFile o (.ok source) = run o source) := by
  refine ⟨fun line rest hstart hline => ?_, fun line hstart hline => ?_, fun source h => ?_⟩
  · have hrun := run_feed_cons o rest
    rw [ofFile_shebang hstart hline]
    refine ⟨?_, ?_, hrun, answerPlaces_feed_cons hline o, ?_⟩
    · rw [hrun]
      cases run o rest with
      | ok d => exact iff_of_true ⟨_, rfl⟩ ⟨d, rfl⟩
      | error e => exact iff_of_false nofun nofun
    · intro c d hc hd
      rw [hrun, hd] at hc
      cases hc
      exact ⟨rfl, unplaced_moved _ d.tokens⟩
    · intro c hc t ht
      exact extract_of_run hc line ht
  · obtain ⟨c, hc, htokens⟩ := exists_run_nil o
    have hskip := withoutShebang_cons hstart hline []
    rw [List.append_nil] at hskip
    exact ⟨c, by rw [ofFile, hskip]; exact hc, hc, htokens⟩
  · rw [ofFile, withoutShebang_of_not_shebang h]

/-- A first line with a byte that is no character, and below it a name that is not defined. -/
def strayFirstLine : List UInt8 := [0x23, 0x21, 0xFF, 0x0A, 0x78]

theorem ofFile_moves_nothing_strayFirstLine :
    ofFile {} (.ok strayFirstLine) =
      .error (.type { pos := ⟨1, 2, 1⟩, fault := .scope (.notDefined "x") }) ∧
    Position.TrueIn ⟨4, 2, 1⟩ strayFirstLine ∧
    ofFile {} (.ok [0x23, 0x21, 0xFF]) = run {} [] ∧
    ofFile {} (.ok [0x78]) = run {} [0x78] := by
  obtain ⟨hlines, halone, hothers⟩ := ofFile_moves_nothing {}
  obtain ⟨-, -, hanswer, hplaces, -⟩ :=
    hlines [0x23, 0x21, 0xFF] [0x78] (by decide) (by decide)
  have hrest : run {} [0x78] =
      .error (.type { pos := ⟨0, 1, 1⟩, fault := .scope (.notDefined "x") }) := by
    with_unfolding_all rfl
  rw [hrest] at hanswer
  obtain ⟨c, hfile, hnil, -⟩ := halone [0x23, 0x21, 0xFF] (by decide) (by decide)
  refine ⟨hanswer, ?_, hfile.trans hnil.symm, hothers [0x78] (by decide)⟩
  rw [hanswer] at hplaces
  exact hplaces ⟨1, 2, 1⟩ List.mem_cons_self

end Compilation

end LetWhile
