import LetWhile.Proofs.Pieces
import LetWhile.Session

/-!
# A session is a compilation in pieces

A session reads its pieces one by one, keeps their trees, and checks all of them again for each new
piece. A compilation reads one text from its start to its end. This module shows that the two agree
along every run of requests: the session answers as the compiler would answer about the texts of the
pieces joined by semicolons.

The invariant of a run is `Agrees`. The trees that the session keeps are those of the joined text,
up to places, and they keep the rules of the language. One step of a run preserves it, and
everything that a session answers follows from it.
-/

namespace LetWhile

namespace Session

/-! ## What a piece does -/

theorem add_of_parse {s : Session} {source : List UInt8} {piece : Program} {typed : Typed.Program}
    (hp : Program.parse source = .ok piece)
    (ht : Program.checkAlone s.options.library (s.history ++ piece) = .ok typed) :
    ∃ java, s.add source = (.ok java, { s with history := s.history ++ piece }) := by
  have hwhole : ∀ t ∈ typed.drop s.history.length, t.Whole :=
    fun t hmem => Program.whole_of_checkAlone ht t (List.mem_of_mem_drop hmem)
  obtain ⟨lines, hlines⟩ := Java.statements_total hwhole s.options.java
  refine ⟨Java.text lines, ?_⟩
  unfold add
  rw [hp]
  dsimp only
  rw [ht]
  dsimp only
  rw [hlines]
  rfl

/-- **A session takes a piece or leaves no trace of it.** -/
theorem add_cases (s : Session) (source : List UInt8) :
    (∃ e, s.add source = (.error e, s)) ∨
      ∃ piece typed java, Program.parse source = .ok piece ∧
        Program.checkAlone s.options.library (s.history ++ piece) = .ok typed ∧
        s.add source = (.ok java, { s with history := s.history ++ piece }) := by
  cases hp : Program.parse source with
  | error e => exact .inl ⟨e, by rw [add, hp]⟩
  | ok piece =>
      cases ht : Program.checkAlone s.options.library (s.history ++ piece) with
      | error e =>
          refine .inl ⟨e, ?_⟩
          rw [add, hp]
          dsimp only
          rw [ht]
      | ok typed =>
          obtain ⟨java, hadd⟩ := add_of_parse hp ht
          exact .inr ⟨piece, typed, java, rfl, ht, hadd⟩

/-! ## Runs -/

/-- What can be asked of a session. -/
inductive Request where
  | add (source : List UInt8)
  | program
  | reset
deriving DecidableEq, Repr

/-- What a session answers to a request, and the session behind it. -/
def handle (s : Session) : Request → Except CompileError String × Session
  | .add source => s.add source
  | .program => (s.program, s)
  | .reset => (.ok "", s.reset)

/-- What a session answers to requests one after the other. -/
def answers (s : Session) : List Request → List (Except CompileError String)
  | [] => []
  | r :: rs => (s.handle r).1 :: (s.handle r).2.answers rs

/-- The pieces accepted since the last reset, with those before a request given as `inputs`. -/
def accepted (s : Session) (inputs : List (List UInt8)) : Request → List (List UInt8)
  | .add source =>
    match (s.add source).1 with
    | .ok _ => inputs ++ [source]
    | .error _ => inputs
  | .program => inputs
  | .reset => []

/-- The session behind requests, and the pieces that it has accepted since the last reset. -/
def run (s : Session) (inputs : List (List UInt8)) : List Request → Session × List (List UInt8)
  | [] => (s, inputs)
  | r :: rs => (s.handle r).2.run (s.accepted inputs r) rs

/-- The texts of pieces as one text. -/
def joined (inputs : List (List UInt8)) : List UInt8 := joint.intercalate inputs

theorem joined_snoc {inputs : List (List UInt8)} (h : inputs ≠ []) (source : List UInt8) :
    joined (inputs ++ [source]) = joined inputs ++ joint ++ source := by
  induction inputs with
  | nil => exact absurd rfl h
  | cons first inputs ih =>
      cases inputs with
      | nil => simp [joined, List.intercalate]
      | cons second inputs =>
          have hne : second :: inputs ≠ [] := List.cons_ne_nil _ _
          have hrest := ih hne
          simp only [joined, List.intercalate, List.cons_append, List.intersperse_cons_cons,
            List.flatten_cons, List.append_assoc] at hrest ⊢
          rw [hrest]

/-- What a run keeps true: the session holds the program of the joined pieces, up to places, and it
keeps the rules. -/
structure Agrees (o : CompileOptions) (s : Session) (inputs : List (List UInt8)) : Prop where
  options : s.options = o
  parses : ∃ p, Program.parse (joined inputs) = .ok p ∧
    Stmt.unplacedAll p = Stmt.unplacedAll s.history
  checks : ∃ typed, Program.checkAlone o.library s.history = .ok typed

theorem parse_nil : Program.parse [] = .ok [] := by
  refine Program.parse_eq_ok.mpr ⟨[], ?_, ?_⟩
  · rw [Token.lex, Glyph.decode, Lexer.tokens_nil]
  · exact Program.ofTokens_eq_ok.mpr ⟨[], Parser.outcome_block_nil []⟩

theorem agrees_nil {o : CompileOptions} {s : Session} (ho : s.options = o) (hs : s.history = []) :
    Agrees o s [] where
  options := ho
  parses := ⟨[], parse_nil, by rw [hs]⟩
  checks := ⟨[], by rw [hs]; rfl⟩

/-- The joined text with a piece more is read as the kept trees and those of the piece. -/
theorem Agrees.parses_snoc {o : CompileOptions} {s : Session} {inputs : List (List UInt8)}
    (h : Agrees o s inputs) {source : List UInt8} {piece : Program}
    (hpiece : Program.parse source = .ok piece) :
    ∃ p, Program.parse (joined (inputs ++ [source])) = .ok p ∧
      Stmt.unplacedAll p = Stmt.unplacedAll (s.history ++ piece) := by
  obtain ⟨p, hp, hsame⟩ := h.parses
  by_cases hne : inputs = []
  · -- the first piece stands alone, and nothing was kept before it
    subst hne
    rw [show joined [] = [] from rfl, parse_nil] at hp
    cases hp
    refine ⟨piece, by simpa [joined, List.intercalate] using hpiece, ?_⟩
    rw [Stmt.unplacedAll_append, ← hsame]
    rfl
  · obtain ⟨q, hq, hqsame⟩ := (Program.parse_append_joint hp source).2 piece hpiece
    refine ⟨q, by rw [joined_snoc hne]; exact hq, ?_⟩
    rw [hqsame, Stmt.unplacedAll_append, Stmt.unplacedAll_append, hsame]

/-- **One step of a run preserves the agreement.** -/
theorem Agrees.step {o : CompileOptions} {s : Session} {inputs : List (List UInt8)}
    (h : Agrees o s inputs) (r : Request) : Agrees o (s.handle r).2 (s.accepted inputs r) := by
  cases r with
  | program => exact h
  | reset => exact agrees_nil h.options rfl
  | add source =>
      rcases s.add_cases source with ⟨e, hadd⟩ | ⟨piece, typed, java, hpiece, htyped, hadd⟩
      · -- refused: neither the session nor the accepted pieces change
        simp only [handle, accepted, hadd]
        exact h
      · -- taken: both grow by the piece
        simp only [handle, accepted, hadd]
        exact ⟨h.options, h.parses_snoc hpiece, typed, by rw [← h.options]; exact htyped⟩

theorem Agrees.run {o : CompileOptions} {s : Session} {inputs : List (List UInt8)}
    (h : Agrees o s inputs) (rs : List Request) :
    Agrees o (s.run inputs rs).1 (s.run inputs rs).2 := by
  induction rs generalizing s inputs with
  | nil => exact h
  | cons r rs ih => exact ih (h.step r)

/-! ## What a session answers -/

theorem Agrees.program_eq {o : CompileOptions} {s : Session} {inputs : List (List UInt8)}
    (h : Agrees o s inputs) :
    ∃ c, Compilation.run (o.toTheEnd) (joined inputs) = .ok c ∧ s.program = .ok c.output := by
  obtain ⟨p, hp, hsame⟩ := h.parses
  obtain ⟨typed, htyped⟩ := h.checks
  -- the session checked the trees that it kept, the compiler checks those of the joined text
  obtain ⟨typed', htyped', hjava⟩ := Program.checkAlone_of_unplaced htyped hsame
  obtain ⟨c, hc, -, hout⟩ := Compilation.run_of_parse o hp htyped'
  refine ⟨c, hc, ?_⟩
  rw [program, h.options, htyped, ok_bind, ← hjava]
  exact hout

theorem Agrees.add_iff {o : CompileOptions} {s : Session} {inputs : List (List UInt8)}
    (h : Agrees o s inputs) (source : List UInt8) :
    (∃ java, (s.add source).1 = .ok java) ↔
      ∃ c, Compilation.run (o.toTheEnd) (joined inputs ++ joint ++ source) = .ok c := by
  obtain ⟨p, hp, hsame⟩ := h.parses
  have hparse := Program.parse_append_joint hp source
  constructor
  · rintro ⟨java, hjava⟩
    rcases s.add_cases source with ⟨e, hadd⟩ | ⟨piece, typed, _, hpiece, htyped, -⟩
    · rw [hadd] at hjava; cases hjava
    · obtain ⟨q, hq, hqsame⟩ := hparse.2 piece hpiece
      rw [h.options] at htyped
      rw [Stmt.unplacedAll_append, hsame, ← Stmt.unplacedAll_append] at hqsame
      obtain ⟨typed', htyped', -⟩ := Program.checkAlone_of_unplaced htyped hqsame
      obtain ⟨c, hc, -⟩ := Compilation.run_of_parse o hq htyped'
      exact ⟨c, hc⟩
  · rintro ⟨c, hc⟩
    obtain ⟨q, typed, hq, htyped⟩ := Compilation.parse_of_run hc
    obtain ⟨piece, hpiece, hqsame⟩ := hparse.1 q hq
    rw [Stmt.unplacedAll_append, hsame, ← Stmt.unplacedAll_append] at hqsame
    obtain ⟨typed', htyped', -⟩ := Program.checkAlone_of_unplaced htyped hqsame.symm
    rw [← h.options] at htyped'
    obtain ⟨java, hadd⟩ := add_of_parse hpiece htyped'
    exact ⟨java, by rw [hadd]⟩

/-- A piece that is refused changes nothing that is answered later. -/
theorem answers_of_refused {s : Session} {source : List UInt8} {e : CompileError}
    (h : (s.add source).1 = .error e) (later : List Request) :
    (s.add source).2.answers later = s.answers later := by
  rcases s.add_cases source with ⟨e', hadd⟩ | ⟨_, _, java, _, _, hadd⟩
  · rw [hadd]
  · rw [hadd] at h; cases h

end Session

end LetWhile
