import LetWhile.Proofs.Scanning
import LetWhile.Proofs.Walking

/-!
# Every loop makes progress

The lexer and the parser end on every input, whether it is a program or not, because none of their
loops goes around without taking something. The statements are about the lexer and the parser as
loops over a cursor and an index, which start anywhere and are given fuel. They hold of all fuel
that exceeds what is ahead:

* reading a token takes at least one byte, and a loop that does not look whether a character could
  be read asks for one only where it can be;
* reading a statement, an expression of any tier or an operand takes at least one token and none
  that is not there; what fails names the index at which it stands;
* so no loop needs more fuel than that, and what the loops return is what the recursive lexer and
  parser return.
-/

namespace LetWhile

namespace Lexer

/-- The conditions of the loops that do not look whether a character could be read: over spaces,
over operators and over digits. -/
def runConditions (source : List UInt8) : List (Cursor → Bool) :=
  [spaceAt source, operatorAt source, digitAt source 0]

/-- What the loops of the lexer do at a cursor. -/
structure Progress (source : List UInt8) (k : Cursor) (fuel : Nat) : Prop where
  /-- Where a run goes on, there is a character to read. -/
  reads : ∀ more ∈ runConditions source, more k = true → ∃ c k', read source k = .ok (c, k')
  /-- So the loop over a run ends. -/
  skips : ∀ more ∈ runConditions source, ∃ k', skip source more fuel k = some k'
  /-- So reading a token ends, with a token or without. -/
  ends : ∃ r, next source fuel k = some r
  /-- A token that was read is at least one byte, and all of it is in the text. -/
  takes : ∀ t k', next source fuel k = some (.ok (t, k')) →
    k.offset < k'.offset ∧ k'.offset ≤ source.length

theorem exists_runsOn_of_mem {source : List UInt8} {more : Cursor → Bool}
    (h : more ∈ runConditions source) :
    ∃ p : Char → List Glyph → Bool, ∀ k, more k = runsOn p (k.ahead source) := by
  simp only [runConditions, List.mem_cons, List.not_mem_nil, or_false] at h
  rcases h with rfl | rfl | rfl
  · exact ⟨_, spaceAt_eq⟩
  · exact ⟨_, operatorAt_eq⟩
  · exact ⟨_, digitAt_eq⟩

theorem progress {source : List UInt8} {k : Cursor} {fuel : Nat}
    (hfuel : source.length - k.offset < fuel) : Progress source k fuel := by
  have hahead : (k.ahead source).length < fuel :=
    Nat.lt_of_le_of_lt (length_ahead_le source k) hfuel
  refine ⟨?_, ?_, ⟨_, next_eq hahead⟩, fun t k' => offset_of_next hahead⟩
  · intro more hmem hmore
    obtain ⟨p, hp⟩ := exists_runsOn_of_mem hmem
    exact exists_read_of_runsOn ((hp k).symm.trans hmore)
  · intro more hmem
    obtain ⟨p, hp⟩ := exists_runsOn_of_mem hmem
    exact ⟨_, skip_eq hp hahead⟩

theorem scan_eq_lex (source : List UInt8) :
    scan source (source.length + 1) {} = some (Token.lex source) :=
  scan_eq (k := {}) (by omega)

theorem length_lex_le {source : List UInt8} {ts : List Token} (h : Token.lex source = .ok ts) :
    ts.length ≤ source.length :=
  Nat.le_trans (length_tokens_le h) (length_decode_le source)

end Lexer

namespace Parser

variable {α : Type} {ts : List Token} {i fuel : Nat}

/-- The value or the failure that a walk ends with. -/
def Ending.result : Ending α → Option (Except ParseFailure α)
  | .done a _ => some (.ok a)
  | .failed failure _ => some (.error failure)
  | .unfinished => none

/-- A walk that started at `i` has ended, not in front of `i` and not behind the last token. If it
failed with an error, then the error names the index where it stands. -/
def Ending.Stops (ts : List Token) (i : Nat) : Ending α → Prop
  | .done _ j => i ≤ j ∧ j ≤ max i ts.length
  | .failed failure j =>
    (∀ e, failure = .refused e → e.index = j) ∧ i ≤ j ∧ j ≤ max i ts.length
  | .unfinished => False

/-- A walk that started at `i` has ended in that way, and if it succeeded, it has taken a token. -/
def Ending.Advances (ts : List Token) (i : Nat) : Ending α → Prop
  | .done _ j => i < j ∧ j ≤ ts.length
  | .failed failure j =>
    (∀ e, failure = .refused e → e.index = j) ∧ i ≤ j ∧ j ≤ max i ts.length
  | .unfinished => False

theorem Walk.index_of_failureAt {obstacle : Obstacle} {e : ParseError}
    (h : Walk.failureAt ts i obstacle = .refused e) : e.index = i := by
  cases obstacle with
  | fault fault =>
      cases h
      rfl
  | missingQuotes text => cases h

theorem Tracks.stops {ending : Ending α} {x : Except Stuck (α × List Token)}
    (h : Tracks ts i ending x) : ending.Stops ts i := by
  cases h with
  | done a hij hj => exact ⟨hij, hj⟩
  | failed obstacle hij hj => exact ⟨fun _ => Walk.index_of_failureAt, hij, hj⟩

/-- What leaves fewer tokens than there are has taken one. -/
theorem Tracks.advances {ending : Ending α} {r : Result α (ts.drop i).length}
    (h : Tracks ts i ending r.outcome) : ending.Advances ts i := by
  generalize hx : r.outcome = x at h
  cases h with
  | done a hij hj =>
      have hleft := length_of_outcome hx
      rw [List.length_drop, List.length_drop] at hleft
      exact ⟨by omega, by omega⟩
  | failed obstacle hij hj => exact ⟨fun _ => Walk.index_of_failureAt, hij, hj⟩

/-- The two ways to give an error its place agree. -/
theorem Walk.errorAt_eq (fault : ParseFault) (hi : i ≤ ts.length) :
    Walk.errorAt ts i fault = Parser.errorAt ts (ts.drop i) fault := by
  have hindex : i = ts.length - (ts.drop i).length := by
    rw [List.length_drop]
    omega
  have hend : decide (ts.length ≤ i) = (ts.drop i).isEmpty := by
    rw [Bool.eq_iff_iff, List.isEmpty_iff, List.drop_eq_nil_iff, decide_eq_true_iff]
  unfold Walk.errorAt Parser.errorAt
  congr 1
  -- the places: that of the token ahead, or the end
  cases hus : ts.drop i with
  | nil =>
      have hnone : ts[i]? = none := by rw [← List.head?_drop, hus]; exact List.head?_nil
      simp only [Walk.tokenAt, hnone, Option.getD_none]
  | cons t rest => simp only [Walk.tokenAt_of hus]

theorem result_source (ts : List Token) :
    ((Walk.source ts (ts.length + 1)).run 0).result = some (Program.ofTokens ts) := by
  have h := reads_source ts (ts.length + 1) 0 (by omega)
  rw [List.drop_zero] at h
  generalize (Walk.source ts (ts.length + 1)).run 0 = ending at h ⊢
  generalize hx : (block [] ts).outcome = x at h
  cases h with
  | done p _ _ => rw [Program.ofTokens_eq_ok.mpr ⟨_, hx⟩]; rfl
  | failed obstacle _ hj =>
      rw [Nat.zero_max] at hj
      cases obstacle with
      | fault fault =>
          rw [Program.ofTokens_eq_refused.mpr ⟨_, fault, hx, rfl⟩, ← Walk.errorAt_eq fault hj]
          rfl
      | missingQuotes text => rw [Program.ofTokens_eq_panicked.mpr ⟨_, hx⟩]; rfl

/-- What the functions of the parser do at an index. Those that read a statement or an expression
advance, the others stop, and all of them tell what the recursive parser tells of the tokens
ahead. -/
structure Progress (ts : List Token) (i fuel : Nat) : Prop where
  statement : ((Walk.statement ts fuel).run i).Advances ts i ∧
    Tracks ts i ((Walk.statement ts fuel).run i) (statement (ts.drop i)).outcome
  expression : ((Walk.expression ts fuel).run i).Advances ts i ∧
    Tracks ts i ((Walk.expression ts fuel).run i) (expression (ts.drop i)).outcome
  primary : ((Walk.primary ts (Walk.expression ts fuel) fuel).run i).Advances ts i ∧
    Tracks ts i ((Walk.primary ts (Walk.expression ts fuel) fuel).run i)
      (primary (ts.drop i)).outcome
  tier : ∀ t, ((Walk.tier ts (Walk.expression ts fuel) fuel t).run i).Advances ts i ∧
    Tracks ts i ((Walk.tier ts (Walk.expression ts fuel) fuel t).run i) (tier t (ts.drop i)).outcome
  call : ((Walk.call ts (Walk.expression ts fuel) fuel).run i).Stops ts i
  block : ∀ closers, ((Walk.block ts (Walk.statement ts fuel) closers fuel).run i).Stops ts i ∧
    Tracks ts i ((Walk.block ts (Walk.statement ts fuel) closers fuel).run i)
      (block closers (ts.drop i)).outcome
  source : ((Walk.source ts fuel).run i).Stops ts i

theorem progress (hfuel : ts.length - i < fuel) : Progress ts i fuel := by
  have hexpr := reads_expression ts fuel
  have hstmt := reads_statement ts fuel
  have hprimary := (reads_primary hexpr).less i hfuel
  have htier := fun t => (reads_tier hexpr t).less i hfuel
  have hblock := fun closers => reads_block hstmt closers i hfuel
  exact {
    statement := ⟨(hstmt i hfuel).advances, hstmt i hfuel⟩
    expression := ⟨(hexpr i hfuel).advances, hexpr i hfuel⟩
    primary := ⟨hprimary.advances, hprimary⟩
    tier := fun t => ⟨(htier t).advances, htier t⟩
    call := (tracks_call hexpr (by omega)).stops
    block := fun closers => ⟨(hblock closers).stops, hblock closers⟩
    source := (hblock []).stops }

end Parser

/--
**Every loop of the lexer and of the parser makes progress, and so it ends.** For every text, every
cursor and all fuel that exceeds the bytes ahead, the loops of the lexer end, ask for a character
only where there is one, and take at least one byte for a token; the loop over the whole text
returns what the lexer returns, which are no more tokens than there are bytes. For all tokens,
well-formed or not, every index and all fuel that exceeds the tokens ahead, the functions of the
parser end, take at least one token and none behind the last if they read a statement or an
expression, and give the index at which they stand with every error; the loop over all tokens
returns what the parser returns.
-/
theorem loops_advance_and_end :
    (∀ (text : List UInt8) (k : Lexer.Cursor) (fuel : Nat), text.length - k.offset < fuel →
      Lexer.Progress text k fuel) ∧
    (∀ text : List UInt8, Lexer.scan text (text.length + 1) {} = some (Token.lex text) ∧
      ∀ ts, Token.lex text = .ok ts → ts.length ≤ text.length) ∧
    (∀ (ts : List Token) (i fuel : Nat), ts.length - i < fuel → Parser.Progress ts i fuel) ∧
    ∀ ts : List Token, ((Parser.Walk.source ts (ts.length + 1)).run 0).result =
      some (Program.ofTokens ts) :=
  ⟨fun _ _ _ => Lexer.progress,
    fun text => ⟨Lexer.scan_eq_lex text, fun _ => Lexer.length_lex_le⟩,
    fun _ _ _ => Parser.progress, Parser.result_source⟩

/-- An operator behind a space, and a stray byte behind it. -/
def strayText : List UInt8 := [32, 43, 128]

/-- A call that is not closed. -/
def openCall : List Token :=
  [.ofWord "f", .ofOperator "(", .ofWord "x", .ofOperator ","]

/-- The theorem above, where the input is no program: the space in front of the operator is read,
the loops over the text end, and the call fails behind its last token, with the index of the token
that is missing. -/
theorem broken_input_ends :
    (Lexer.spaceAt strayText {} = true ∧ ∃ c k', Lexer.read strayText {} = .ok (c, k')) ∧
    (∃ r, Lexer.next strayText 4 {} = some r) ∧
    (openCall.length - 0 < 5 ∧ ((Parser.Walk.statement openCall 5).run 0).Advances openCall 0) ∧
    Program.ofTokens openCall = .error (.refused
      { pos := endOf openCall, index := 4, fault := .expectedExpression, incomplete := true }) := by
  have hspace : Lexer.spaceAt strayText {} = true := by decide +kernel
  have hlexer := loops_advance_and_end.1 strayText {} 4 (by decide)
  have hparser := loops_advance_and_end.2.2.1 openCall 0 5 (by decide)
  -- the loops can be run, and what they return is what the parser returns
  have hrun : ((Parser.Walk.source openCall 5).run 0).result = some (.error (.refused
      { pos := endOf openCall, index := 4, fault := .expectedExpression, incomplete := true })) :=
    rfl
  have hsource := loops_advance_and_end.2.2.2 openCall
  refine ⟨⟨hspace, hlexer.reads _ (List.mem_cons_self ..) hspace⟩, hlexer.ends,
    ⟨by decide, hparser.statement.1⟩, ?_⟩
  exact Option.some.inj (hsource.symm.trans hrun)

end LetWhile
