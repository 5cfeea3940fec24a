import LetWhile.Proofs.Lexing
import LetWhile.Proofs.Pipeline
import LetWhile.Proofs.Splitting

/-!
# Programs in pieces

Two program texts are joined by a semicolon and a line feed. This module shows that the joined text
is the program of the first followed by the program of the second, and that it is no program if the
second is none.

The lexer was dealt with before. For the parser, what matters is that an expression may end in front
of a semicolon: whatever is derived from the tokens of the first text is derived in the same way
when a semicolon and any tokens at all stand behind them. From there on completeness says what the
parser does.
-/

namespace LetWhile

namespace Grammar

open LetWhile.Parser

variable {more : List Token}

theorem Ends.append {rest : List Token} (hmore : Ends more) (h : Ends rest) :
    Ends (rest ++ more) := by
  cases h with
  | input => exact hmore
  | mark hop ht => exact .mark hop ht
  | word hw ht => exact .word hw ht
  | assignment hx heq => exact .assignment hx heq

theorem Statement.append (hmore : Ends more) {ts rest : List Token} {s : Stmt}
    (h : Statement ts s rest) : Statement (ts ++ more) s (rest ++ more) := by
  obtain ⟨front, rfl, hfront⟩ := h.split
  rw [List.append_assoc]
  exact (hfront (rest ++ more) hmore.append).1

theorem Block.append (hmore : Ends more) {ts rest : List Token} {ss : List Stmt}
    (h : Block ts ss rest) : Block (ts ++ more) ss (rest ++ more) := by
  obtain ⟨front, rfl, hfront⟩ := h.split
  rw [List.append_assoc]
  exact (hfront (rest ++ more) hmore.append).1

/-- **Behind a program and a semicolon, the parser goes on as if it started there.** -/
theorem Block.outcome_append {semi : Token} (hsemi : semi.isOperator ";" = true)
    {ts : List Token} {ss : List Stmt} {rest : List Token} (h : Block ts ss rest)
    (hrest : rest = []) (us : List Token) :
    (block [] (ts ++ semi :: us)).outcome =
      (block [] us).outcome >>= fun x => .ok (ss ++ x.1, x.2) := by
  have hends : Ends (semi :: us) := .mark (by decide) hsemi
  match h with
  | .done =>
      rw [hrest, List.nil_append, outcome_block_cons, if_pos hsemi]
      cases (block [] us).outcome <;> rfl
  | .separator ht h =>
      rw [List.cons_append, outcome_block_cons, if_pos ht]
      exact h.outcome_append hsemi hrest us
  | @Block.cons ts mid _ s ss hs h =>
      -- the statement is derived in front of the semicolon too, so completeness reads it there
      have hs' := hs.append hends
      have hnext : operatorAhead "=" (mid ++ semi :: us) = false := by
        refine (h.append hends).operatorAhead_eq ?_
        rw [hrest]
        exact Token.isOperator_ne hsemi (by decide)
      have hread := hs'.complete hnext
      have hfirst : operatorAhead ";" (ts ++ semi :: us) = false := hs'.operatorAhead (by decide)
      cases hall : ts ++ semi :: us with
      | nil => simp at hall
      | cons t all =>
          rw [hall] at hread hfirst
          rw [operatorAhead_cons] at hfirst
          rw [outcome_block_cons, hfirst, if_neg (by decide), if_neg (by simp), hread, ok_bind,
            h.outcome_append hsemi hrest us]
          cases (block [] us).outcome <;> rfl

end Grammar

/-! ## Joined texts -/

theorem Stmt.unplacedAll_append (ps qs : List Stmt) :
    Stmt.unplacedAll (ps ++ qs) = Stmt.unplacedAll ps ++ Stmt.unplacedAll qs := by
  simp only [Stmt.unplacedAll_eq_map, List.map_append]

/-- The tokens of a program, a semicolon and other tokens. -/
theorem Program.ofTokens_append {semi : Token} (hsemi : semi.isOperator ";" = true)
    {ts us : List Token} {p q : Program} (h : Program.ofTokens ts = .ok p) :
    Program.ofTokens (ts ++ semi :: us) = .ok q ↔
      ∃ piece, Program.ofTokens us = .ok piece ∧ q = p ++ piece := by
  have hblock := (Grammar.derives_of_ofTokens h).outcome_append hsemi rfl us
  rw [Program.ofTokens_eq_ok, hblock]
  constructor
  · rintro ⟨rest, hq⟩
    obtain ⟨⟨piece, rest'⟩, hpiece, hq⟩ := bind_eq_ok.mp hq
    cases hq
    exact ⟨piece, Program.ofTokens_eq_ok.mpr ⟨_, hpiece⟩, rfl⟩
  · rintro ⟨piece, hpiece, rfl⟩
    obtain ⟨rest, hpiece⟩ := Program.ofTokens_eq_ok.mp hpiece
    exact ⟨rest, by rw [hpiece]; rfl⟩

/-- **Joined texts are read one by one.** Behind the text of a program, a text is one exactly if it
is one alone, and the joined text is the first program followed by the second, up to places. -/
theorem Program.parse_append_joint {first : List UInt8} {p : Program}
    (h : Program.parse first = .ok p) (second : List UInt8) :
    (∀ q, Program.parse (first ++ joint ++ second) = .ok q →
      ∃ piece, Program.parse second = .ok piece ∧
        Stmt.unplacedAll q = Stmt.unplacedAll (p ++ piece)) ∧
    (∀ piece, Program.parse second = .ok piece →
      ∃ q, Program.parse (first ++ joint ++ second) = .ok q ∧
        Stmt.unplacedAll q = Stmt.unplacedAll (p ++ piece)) := by
  obtain ⟨ts, hlex, hts⟩ := Program.parse_eq_ok.mp h
  obtain ⟨semi, pos, hsemi, hjoined⟩ := lex_append_joint hlex second
  have hmoved := Lexer.tokens_moved pos .start (Glyph.decode second)
  constructor
  · intro q hq
    obtain ⟨all, hall, hq⟩ := Program.parse_eq_ok.mp hq
    rw [hjoined, bind_eq_ok] at hall
    obtain ⟨us, hus, hall⟩ := hall
    cases hall
    obtain ⟨piece, hpiece, rfl⟩ := (Program.ofTokens_append hsemi hts).mp hq
    -- read alone, the second text has the same tokens in other places
    obtain ⟨vs, hvs, hsame⟩ := Lexer.unplacedTokens_eq_ok.mp
      (hmoved.symm.trans (Lexer.unplacedTokens_eq_ok.mpr ⟨us, hus, rfl⟩))
    obtain ⟨piece', hpiece', hunplaced⟩ := Program.ofTokens_of_unplaced hpiece hsame
    refine ⟨piece', Program.parse_eq_ok.mpr ⟨vs, hvs, hpiece'⟩, ?_⟩
    rw [Stmt.unplacedAll_append, Stmt.unplacedAll_append, hunplaced]
  · intro piece hpiece
    obtain ⟨vs, hvs, hpiece⟩ := Program.parse_eq_ok.mp hpiece
    obtain ⟨us, hus, hsame⟩ := Lexer.unplacedTokens_eq_ok.mp
      (hmoved.trans (Lexer.unplacedTokens_eq_ok.mpr ⟨vs, hvs, rfl⟩))
    obtain ⟨piece', hpiece', hunplaced⟩ := Program.ofTokens_of_unplaced hpiece hsame
    refine ⟨p ++ piece', Program.parse_eq_ok.mpr ⟨ts ++ semi :: us, ?_, ?_⟩, ?_⟩
    · rw [hjoined, hus]; rfl
    · exact (Program.ofTokens_append hsemi hts).mpr ⟨piece', hpiece', rfl⟩
    · rw [Stmt.unplacedAll_append, Stmt.unplacedAll_append, hunplaced]

end LetWhile
