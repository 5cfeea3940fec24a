import LetWhile.Compilation
import LetWhile.Proofs.Printing

/-!
# The stages of a compilation

When each stage of a compilation succeeds, and what its result then is. With room for every row the
last stage never fails: what was checked is whole, and what is whole can be printed. So a text is
compiled exactly when it is read as a program that keeps the rules.
-/

namespace LetWhile

theorem Program.parse_eq_ok {source : List UInt8} {p : Program} :
    Program.parse source = .ok p ↔
      ∃ ts, Token.lex source = .ok ts ∧ Program.ofTokens ts = .ok p := by
  unfold Program.parse
  cases Token.lex source with
  | error e => simp
  | ok ts =>
      cases hp : Program.ofTokens ts with
      | error e => simp [hp]
      | ok q => simp [hp]

/-- A text is refused by the parser for what its tokens are refused for. -/
theorem Program.parse_eq_refused {source : List UInt8} {e : ParseError} :
    Program.parse source = .error (.parse e) ↔
      ∃ ts, Token.lex source = .ok ts ∧ Program.ofTokens ts = .error (.refused e) := by
  unfold Program.parse
  cases Token.lex source with
  | error e => simp
  | ok ts =>
      cases hp : Program.ofTokens ts with
      | ok q => simp [hp]
      | error failure => cases failure <;> simp [hp, CompileError.ofParse]

/-- Checking a program alone is checking it in the empty scope. -/
theorem Program.checkAlone_eq_ok {lib : Library} {p : Program} {typed : Typed.Program} :
    p.checkAlone lib = .ok typed ↔ ∃ s, p.check lib .empty = (.ok typed, s) := by
  unfold Program.checkAlone
  rcases p.check lib .empty with ⟨_ | t, s⟩
  · simp
  · simp

/-- **A checked program is whole.** -/
theorem Program.whole_of_checkAlone {lib : Library} {p : Program} {typed : Typed.Program}
    (h : p.checkAlone lib = .ok typed) : ∀ t ∈ typed, t.Whole := by
  obtain ⟨s, h⟩ := Program.checkAlone_eq_ok.mp h
  exact (Typing.block_sound p h).whole

/-- Only the last stage is left. -/
theorem Stage.eq_generate {s : Stage} (hlex : s ≠ .lex) (hparse : s ≠ .parse)
    (hanalyze : s ≠ .analyze) : s = .generate := by
  cases s with
  | lex => exact absurd rfl hlex
  | parse => exact absurd rfl hparse
  | analyze => exact absurd rfl hanalyze
  | generate => rfl

/-- The options of a compilation that does not stop early. -/
def CompileOptions.toTheEnd (o : CompileOptions) : CompileOptions :=
  { o with stopAfter := .generate }

namespace Compilation

variable {print : Typed.Program → Except CompileError String}

/-- When a compilation that does not stop early succeeds, however the Java text is made. -/
theorem runWith_toTheEnd_eq_ok {o : CompileOptions} {source : List UInt8} {c : Compilation} :
    runWith print o.toTheEnd source = .ok c ↔
      ∃ ts p typed output, Token.lex source = .ok ts ∧ Program.ofTokens ts = .ok p ∧
        p.checkAlone o.library = .ok typed ∧ print typed = .ok output ∧
        c = { tokens := ts, program := some p, typed := some typed, output } := by
  constructor
  · intro h
    unfold runWith at h
    split at h
    · cases h
    next ts hlex =>
    rw [if_neg (by simp [CompileOptions.toTheEnd])] at h
    split at h
    · cases h
    next p hp =>
    rw [if_neg (by simp [CompileOptions.toTheEnd]), bind_eq_ok] at h
    obtain ⟨typed, ht, h⟩ := h
    rw [if_neg (by simp [CompileOptions.toTheEnd]), bind_eq_ok] at h
    obtain ⟨output, hout, h⟩ := h
    cases h
    exact ⟨ts, p, typed, output, hlex, hp, ht, hout, rfl⟩
  · rintro ⟨ts, p, typed, output, hlex, hp, ht, hout, rfl⟩
    have ht' : p.checkAlone o.toTheEnd.library = .ok typed := ht
    unfold runWith
    rw [hlex]
    dsimp only
    rw [if_neg (by simp [CompileOptions.toTheEnd]), hp]
    dsimp only
    rw [if_neg (by simp [CompileOptions.toTheEnd]), ht', ok_bind,
      if_neg (by simp [CompileOptions.toTheEnd]), hout]
    rfl

theorem javaText_eq_ok {lines : Except Gap (List String)} {output : String} :
    javaText lines = .ok output ↔ ∃ ls, lines = .ok ls ∧ output = Java.text ls := by
  cases lines with
  | error g => simp [javaText]
  | ok ls => simp [javaText, eq_comm]

theorem run_toTheEnd_eq_ok {o : CompileOptions} {source : List UInt8} {c : Compilation} :
    run o.toTheEnd source = .ok c ↔
      ∃ ts p typed lines, Token.lex source = .ok ts ∧ Program.ofTokens ts = .ok p ∧
        p.checkAlone o.library = .ok typed ∧ Java.program o.java typed = .ok lines ∧
        c = { tokens := ts, program := some p, typed := some typed,
              output := Java.text lines } := by
  rw [run, runWith_toTheEnd_eq_ok]
  constructor
  · rintro ⟨ts, p, typed, output, hlex, hp, ht, hout, rfl⟩
    obtain ⟨lines, hlines, rfl⟩ := javaText_eq_ok.mp hout
    exact ⟨ts, p, typed, lines, hlex, hp, ht, hlines, rfl⟩
  · rintro ⟨ts, p, typed, lines, hlex, hp, ht, hlines, rfl⟩
    exact ⟨ts, p, typed, _, hlex, hp, ht, javaText_eq_ok.mpr ⟨lines, hlines, rfl⟩, rfl⟩

/-- The tokens of a compilation are those of its text, wherever it stops. -/
theorem lex_of_runWith {o : CompileOptions} {source : List UInt8} {c : Compilation}
    (h : runWith print o source = .ok c) : Token.lex source = .ok c.tokens := by
  unfold runWith at h
  split at h
  · cases h
  next ts hlex =>
  split at h
  · cases h; exact hlex
  split at h
  · cases h
  split at h
  · cases h; exact hlex
  obtain ⟨typed, -, h⟩ := bind_eq_ok.mp h
  split at h
  · cases h; exact hlex
  obtain ⟨output, -, h⟩ := bind_eq_ok.mp h
  cases h
  exact hlex

/-- A compilation gets as far as the Java text of this checked program. -/
def Reaches (o : CompileOptions) (source : List UInt8) (typed : Typed.Program) : Prop :=
  o.stopAfter = .generate ∧
    ∃ p, Program.parse source = .ok p ∧ p.checkAlone o.library = .ok typed

/-- What becomes of a compilation that gets to the Java text depends on this text alone. -/
theorem runWith_of_reaches {o : CompileOptions} {source : List UInt8} {typed : Typed.Program}
    (h : Reaches o source typed) :
    ∃ ts p, ∀ print : Typed.Program → Except CompileError String,
      runWith print o source = print typed >>= fun output =>
        .ok { tokens := ts, program := some p, typed := some typed, output } := by
  obtain ⟨hstop, p, hparse, hcheck⟩ := h
  obtain ⟨ts, hlex, hp⟩ := Program.parse_eq_ok.mp hparse
  refine ⟨ts, p, fun print => ?_⟩
  unfold runWith
  rw [hlex]
  dsimp only
  rw [if_neg (by simp [hstop]), hp]
  dsimp only
  rw [if_neg (by simp [hstop]), hcheck, ok_bind, if_neg (by simp [hstop])]
  rfl

/-- Two compilations that make the same Java text of what they get to are the same. -/
theorem runWith_congr {print' : Typed.Program → Except CompileError String} {o : CompileOptions}
    {source : List UInt8} (h : ∀ typed, Reaches o source typed → print typed = print' typed) :
    runWith print o source = runWith print' o source := by
  unfold runWith
  cases hlex : Token.lex source with
  | error e => rfl
  | ok ts =>
    dsimp only
    split
    · rfl
    next hnotLex =>
    cases hp : Program.ofTokens ts with
    | error e => rfl
    | ok p =>
      dsimp only
      split
      · rfl
      next hnotParse =>
      cases hcheck : p.checkAlone o.library with
      | error e => rfl
      | ok typed =>
        rw [ok_bind, ok_bind]
        split
        · rfl
        next hnotAnalyze =>
        have hstop := Stage.eq_generate hnotLex hnotParse hnotAnalyze
        rw [h typed ⟨hstop, p, Program.parse_eq_ok.mpr ⟨ts, hlex, hp⟩, hcheck⟩]

/-- **The text of a program that keeps the rules is compiled.** -/
theorem run_of_parse (o : CompileOptions) {source : List UInt8} {p : Program}
    {typed : Typed.Program} (hp : Program.parse source = .ok p)
    (ht : p.checkAlone o.library = .ok typed) :
    ∃ c, run o.toTheEnd source = .ok c ∧ c.typed = some typed ∧
      javaText (Java.program o.java typed) = .ok c.output := by
  obtain ⟨ts, hlex, hts⟩ := Program.parse_eq_ok.mp hp
  obtain ⟨lines, hlines⟩ := Java.program_total (Program.whole_of_checkAlone ht) o.java
  exact ⟨_, run_toTheEnd_eq_ok.mpr ⟨ts, p, typed, lines, hlex, hts, ht, hlines, rfl⟩, rfl,
    by rw [hlines]; rfl⟩

/-- What is compiled is the text of a program that keeps the rules. -/
theorem parse_of_run {o : CompileOptions} {source : List UInt8} {c : Compilation}
    (h : run o.toTheEnd source = .ok c) :
    ∃ p typed, Program.parse source = .ok p ∧ p.checkAlone o.library = .ok typed := by
  obtain ⟨ts, p, typed, _, hlex, hp, ht, _, _⟩ := run_toTheEnd_eq_ok.mp h
  exact ⟨p, typed, Program.parse_eq_ok.mpr ⟨ts, hlex, hp⟩, ht⟩

end Compilation

end LetWhile
