import LetWhile.Proofs.Complaints
import LetWhile.Proofs.Pipeline
import LetWhile.Proofs.Spelling

/-!
# Layout does not matter

White space between tokens only keeps them apart. The tokens of a text can be written down again
with any white space between them, as long as there is some, and with any at the two ends: the new
text has the same tokens in other places.

Nothing behind the lexer looks at places. So for two texts with the same tokens the compiler gives
answers that differ in places only, whether it accepts them or not and wherever it is told to stop.
-/

namespace LetWhile

open Lexer

/-! ## Tokens written down again -/

/-- White space for `n` tokens: in front of the first one, and behind each of them. It consists of
spaces, tabs, carriage returns and line feeds. Behind every token but the last there is some. -/
structure Layout (n : Nat) where
  lead : String
  gaps : List String
  length_gaps : gaps.length = n
  blank : ∀ gap ∈ lead :: gaps, ∀ c ∈ gap.toList, c ∈ [' ', '\t', '\r', '\n']
  apart : ∀ gap ∈ gaps.dropLast, gap ≠ ""

/-- The texts of tokens, each with its gap behind it. -/
def spread : List String → List Token → String
  | gap :: gaps, t :: ts => t.text ++ gap ++ spread gaps ts
  | _, _ => ""

/-- The texts of tokens in a layout. -/
def Layout.text {n : Nat} (l : Layout n) (ts : List Token) : String :=
  l.lead ++ spread l.gaps ts

theorem isSpace_of_mem {c : Char} (h : c ∈ [' ', '\t', '\r', '\n']) : isSpace c = true := by
  simp only [List.mem_cons, List.not_mem_nil, or_false] at h
  rcases h with rfl | rfl | rfl | rfl
  all_goals rfl

theorem spells_spread {gaps : List String} {ts : List Token} (hlength : gaps.length = ts.length)
    (hblank : ∀ gap ∈ gaps, ∀ c ∈ gap.toList, c ∈ [' ', '\t', '\r', '\n'])
    (hapart : ∀ gap ∈ gaps.dropLast, gap ≠ "")
    (halone : ∀ t ∈ ts, Spells t.text.toList [t.unplaced]) :
    Spells (spread gaps ts).toList (ts.map Token.unplaced) := by
  induction ts generalizing gaps with
  | nil =>
      have hgaps : gaps = [] := List.length_eq_zero_iff.mp hlength
      subst hgaps
      exact spells_nil_iff.mpr rfl
  | cons t ts ih =>
      cases gaps with
      | nil => cases hlength
      | cons gap gaps =>
          obtain ⟨hgap, hblank⟩ := List.forall_mem_cons.mp hblank
          obtain ⟨ht, halone⟩ := List.forall_mem_cons.mp halone
          have hrest : Spells (spread gaps ts).toList (ts.map Token.unplaced) := by
            refine ih (Nat.succ.inj hlength) hblank (fun g hg => hapart g ?_) halone
            cases gaps with
            | nil => cases hg
            | cons g' gs => exact List.mem_cons_of_mem _ hg
          -- nothing at all follows a token without a gap
          have hne : (spread gaps ts).toList ≠ [] → gap.toList ≠ [] := by
            intro hmore hempty
            cases gaps with
            | nil => cases ts <;> exact hmore rfl
            | cons g' gs => exact hapart gap List.mem_cons_self (String.toList_eq_nil_iff.mp hempty)
          rw [spread, String.toList_append, String.toList_append, List.map_cons]
          exact ht.gap (fun c hc => isSpace_of_mem (hgap c hc)) hne hrest

/-- **The tokens of a text, laid out anew, are the tokens of the new text.** -/
theorem Layout.spells {source : List UInt8} {ts : List Token} (h : Token.lex source = .ok ts)
    (l : Layout ts.length) : Spells (l.text ts).toList (ts.map Token.unplaced) := by
  obtain ⟨hlead, hgaps⟩ := List.forall_mem_cons.mp l.blank
  rw [Layout.text, String.toList_append]
  have hspread := spells_spread l.length_gaps hgaps l.apart (spells_of_mem_tokens h)
  exact hspread.spaces fun c hc => isSpace_of_mem (hlead c hc)

/-! ## Answers that differ in places only -/

namespace Compilation

/-- Two answers of the compiler that differ in places only: the results of the same stages, or
errors of the same stage that say the same. -/
inductive Alike : Except CompileError Compilation → Except CompileError Compilation → Prop where
  | results {c d : Compilation} :
      d.tokens.map Token.unplaced = c.tokens.map Token.unplaced →
      d.program.map Stmt.unplacedAll = c.program.map Stmt.unplacedAll →
      d.typed.map Typed.Stmt.unplacedAll = c.typed.map Typed.Stmt.unplacedAll →
      d.output = c.output → Alike (.ok c) (.ok d)
  | parseErrors {e f : ParseError} :
      f.detail = e.detail → f.index = e.index → f.incomplete = e.incomplete →
      Alike (.error (.parse e)) (.error (.parse f))
  | typeErrors {e f : TypeError} :
      f.detail = e.detail → Alike (.error (.type e)) (.error (.type f))

/-- **Texts with the same tokens are compiled alike.** -/
theorem run_alike (o : CompileOptions) {source source' : List UInt8} {ts us : List Token}
    (hts : Token.lex source = .ok ts) (hus : Token.lex source' = .ok us)
    (hsame : us.map Token.unplaced = ts.map Token.unplaced) :
    Alike (run o source) (run o source') := by
  unfold run runWith
  rw [hts, hus]
  dsimp only
  by_cases hlex : o.stopAfter = .lex
  · rw [if_pos hlex, if_pos hlex]
    exact .results hsame rfl rfl rfl
  rw [if_neg hlex, if_neg hlex]
  rcases Program.ofTokens_alike hsame with
    ⟨p, q, hp, hq, hpq⟩ | ⟨e, f, he, hf, hfault, hindex, hincomplete⟩ | ⟨text, hpanic, -⟩
  · rw [hp, hq]
    dsimp only
    by_cases hparse : o.stopAfter = .parse
    · rw [if_pos hparse, if_pos hparse]
      exact .results hsame (congrArg some hpq) rfl rfl
    rw [if_neg hparse, if_neg hparse]
    rcases Program.checkAlone_alike o.library hpq with
      ⟨typed, typed', ht, ht', htyped⟩ | ⟨e, f, he, hf, hfault⟩
    · rw [ht, ht', ok_bind, ok_bind]
      by_cases hanalyze : o.stopAfter = .analyze
      · rw [if_pos hanalyze, if_pos hanalyze]
        exact .results hsame (congrArg some hpq) (congrArg some htyped) rfl
      · -- what was checked can be printed, and places are not printed
        obtain ⟨lines, hlines⟩ := Java.program_total (Program.whole_of_checkAlone ht) o.java
        rw [if_neg hanalyze, if_neg hanalyze, Java.program_of_unplaced htyped, hlines]
        exact .results hsame (congrArg some hpq) (congrArg some htyped) rfl
    · rw [he, hf]
      exact .typeErrors (congrArg TypeFault.message hfault)
  · rw [he, hf]
    exact .parseErrors (congrArg ParseFault.message hfault) hindex hincomplete
  · exact absurd hpanic (Program.not_panicked hts text)

end Compilation

/-- **Layout never changes meaning.** The tokens of a text, written down again with any white space
that keeps them apart, are lexed as the same kinds and texts. And two texts whose tokens have the
same kinds and texts are compiled alike, with any options and any library. -/
theorem layout_keeps_meaning :
    (∀ (source : List UInt8) (ts : List Token) (l : Layout ts.length),
      Token.lex source = .ok ts →
      ∃ us, Token.lex (utf8Bytes (l.text ts)) = .ok us ∧
        us.map Token.unplaced = ts.map Token.unplaced) ∧
    (∀ (o : CompileOptions) (source source' : List UInt8) (ts us : List Token),
      Token.lex source = .ok ts → Token.lex source' = .ok us →
      us.map Token.unplaced = ts.map Token.unplaced →
      Compilation.Alike (Compilation.run o source) (Compilation.run o source')) := by
  constructor
  · intro source ts l hts
    exact lex_of_spells (l.spells hts)
  · intro o source source' ts us hts hus hsame
    exact Compilation.run_alike o hts hus hsame

/-- The text `1+-2`, whose tokens touch each other. -/
def tightSum : List UInt8 := [0x31, 0x2B, 0x2D, 0x32]

/-- The tokens of `1+-2`: the second sign belongs to the number. -/
def tightSumTokens : List Token :=
  [⟨.integer, "1", ⟨0, 1, 1⟩⟩, ⟨.operator, "+", ⟨1, 1, 2⟩⟩, ⟨.integer, "-2", ⟨2, 1, 3⟩⟩]

/-- The same tokens on two lines. -/
def looseSum : List UInt8 := [0x09, 0x31, 0x0D, 0x0A, 0x2B, 0x20, 0x2D, 0x32]

/-- Where the tokens stand then. -/
def looseSumTokens : List Token :=
  [⟨.integer, "1", ⟨1, 1, 2⟩⟩, ⟨.operator, "+", ⟨4, 2, 1⟩⟩, ⟨.integer, "-2", ⟨6, 2, 3⟩⟩]

/-- White space for three tokens, with none at the end. -/
def twoLines : Layout 3 where
  lead := "\t"
  gaps := ["\r\n", " ", ""]
  length_gaps := rfl
  blank := by simp
  apart := by simp

theorem layout_keeps_meaning_tightSum :
    Token.lex tightSum = .ok tightSumTokens ∧
    (∃ us, Token.lex (utf8Bytes (twoLines.text tightSumTokens)) = .ok us ∧
      us.map Token.unplaced = tightSumTokens.map Token.unplaced) ∧
    ∀ o, Compilation.Alike (Compilation.run o tightSum) (Compilation.run o looseSum) := by
  have htight : Token.lex tightSum = .ok tightSumTokens := by with_unfolding_all rfl
  have hloose : Token.lex looseSum = .ok looseSumTokens := by with_unfolding_all rfl
  refine ⟨htight, layout_keeps_meaning.1 tightSum tightSumTokens twoLines htight, fun o => ?_⟩
  exact layout_keeps_meaning.2 o tightSum looseSum _ _ htight hloose rfl

end LetWhile
