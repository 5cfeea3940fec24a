import LetWhile.Proofs.JavaNumbers
import LetWhile.Proofs.NumberOrder
import LetWhile.Proofs.Parsing
import LetWhile.Proofs.Pipeline

/-!
# Numbers keep their value

The text of a number goes through four hands. The lexer cuts it out, the parser reads it as an exact
integer or an exact rational, the checker fits it into 32 bits or rounds it to a double, and the
printer writes it down again for Java. Only the checker may refuse it, and only for its size. What
Java reads in the end is the integer that was there at the beginning, in base ten however many zeros
stood in front of it, or a double literal that is rounded to the same double.

All of this is known of one literal first. A program has many, but it treats each as if it were
alone: if the program is accepted, then every number in it is accepted for itself, and the output
shows what is printed for them in their order.
-/

namespace LetWhile

open Lexer Binary64

/-! ## One literal -/

/-- What becomes of a token at the front of some tokens, as the start of an expression: it is read,
checked in a scope, and printed. -/
def Token.emitted? (lib : Library) (scope : Scope) (t : Token) (rest : List Token) :
    Option String := do
  let (e, _) ← (Parser.primary (t :: rest)).outcome.toOption
  let typed ← (Check.expr lib scope e).toOption
  (Java.expr typed).toOption

/-- The text of the program that consists of one expression. -/
def Java.alone (o : Java.Options) (value : String) : String :=
  Java.text
    [line 0 ("public class " ++ o.name ++ " \x7b"), "\n",
      line o.width "public static void main(String[] args) \x7b",
      line (2 * o.width) (value ++ ";"), line o.width "\x7d", "\n", line 0 "\x7d"]

/-- **A literal is accepted and printed as `out`.** This is so wherever an expression can start, and
also for the text of the literal as a program. -/
structure Token.AcceptedAs (t : Token) (o : CompileOptions) (out : String) : Prop where
  anywhere : ∀ lib scope rest, t.emitted? lib scope rest = some out
  alone : ∃ c, Compilation.run o.toTheEnd (utf8Bytes t.text) = .ok c ∧
    c.output = Java.alone o.java out

/-- **A literal is refused** wherever it stands. -/
structure Token.Refused (t : Token) (o : CompileOptions) : Prop where
  anywhere : ∀ lib scope rest, t.emitted? lib scope rest = none
  alone : ∃ e, Compilation.run o.toTheEnd (utf8Bytes t.text) = .error e

/-! ## Its text -/

/-- A number fills its text. -/
theorem Denotes.shape {kind : Kind} {text : List Char} {value : Constant}
    (h : Denotes kind text value) (hkind : kind ≠ .string) : Shape kind text [] := by
  have hwhole {sign ds : List Char} {s : Int} (hsign : SignSpelling sign s) (hds : Digits ds) :
      Whole (sign ++ ds) := by
    cases hsign with
    | absent => exact .digits hds
    | plus => exact .signed rfl hds
    | minus => exact .signed rfl hds
  have hend : ¬ Ahead isDigit [] := by rintro ⟨c, more, hnil, -⟩; cases hnil
  cases h with
  | integer hsign hds =>
      refine .integer (hwhole hsign hds) hend ?_
      rintro ⟨more, hnil, -⟩
      cases hnil
  | decimal hsign hds hfs => exact .decimal (hwhole hsign hds) hfs hend
  | string => exact absurd rfl hkind

/-- A text that has the shape of a token is one token. -/
theorem Lexer.Shape.lex_eq {kind : Kind} {text : String} (h : Shape kind text.toList []) :
    Token.lex (utf8Bytes text) = .ok [{ kind, text, pos := .start }] := by
  obtain ⟨c, cs, htext, hspace, hlexeme⟩ := h.lexeme_eq
  rw [Token.lex, Glyph.decode_utf8Bytes, htext, List.map_cons, tokens_char hspace,
    ← List.append_nil (cs.map Glyph.char), hlexeme, ok_bind, tokens_nil, String.ofList_toList]
  rfl

/-- A literal alone is a program. -/
theorem Denotes.ofTokens_eq {t : Token} {value : Constant}
    (h : Denotes t.kind t.text.toList value) (hkind : t.kind ≠ .string) :
    Program.ofTokens [t] = .ok [.expr (.literal value t.pos) t.pos] := by
  have hprimary : Grammar.Primary [t] (.literal value t.pos) [] := by
    generalize hk : t.kind = kind at h
    generalize htext : t.text.toList = text at h
    cases h with
    | integer hsign hds => exact .integer hk (integer?_of_spelling htext hsign hds)
    | decimal hsign hds hfs => exact .decimal hk (decimal?_of_spelling htext hsign hds hfs)
    | string => exact absurd hk hkind
  refine Grammar.ofTokens_of_derives (.cons (.expr (.mk ?_ .input)) .done)
  exact .single (.sum (.single (.product (.single (.primary hprimary)))))

/-! ## Its way through the compiler -/

theorem Program.checkAlone_literal (lib : Library) (value : Constant) (pos : Position) :
    Program.checkAlone lib [.expr (.literal value pos) pos] =
      match Check.literal pos value with
      | .ok e => .ok [.expr e pos]
      | .error e => .error (.type e) := by
  unfold Program.checkAlone Program.check
  rw [Check.block, Check.stmt, Check.expr]
  cases Check.literal pos value with
  | error e => rfl
  | ok e => simp only [Check.block]

theorem Java.program_alone (o : Java.Options) {e : Typed.Expr} {out : String} (pos : Position)
    (h : Java.expr e = .ok out) :
    javaText (Java.program o [.expr e pos]) = .ok (Java.alone o out) := by
  rw [Java.program, Java.stmts, Java.stmt, h, Java.stmts]
  rfl

section Literal

variable {t : Token} {value : Constant} (h : Denotes t.kind t.text.toList value)

include h

theorem Denotes.emitted?_eq (lib : Library) (scope : Scope) (rest : List Token) :
    t.emitted? lib scope rest =
      (Check.literal t.pos value).toOption.bind fun e => (Java.expr e).toOption := by
  unfold Token.emitted?
  rw [h.primary_eq rest]
  rfl

/-- The text of a number is a program that consists of the number. -/
theorem Denotes.parse_eq (hkind : t.kind ≠ .string) :
    Program.parse (utf8Bytes t.text) = .ok [.expr (.literal value .start) .start] := by
  have hparse := Denotes.ofTokens_eq (t := { t with pos := .start }) h hkind
  exact Program.parse_eq_ok.mpr ⟨_, (h.shape hkind).lex_eq, hparse⟩

/-- **What the checker accepts is printed**, wherever the literal stands. -/
theorem Denotes.acceptedAs (hkind : t.kind ≠ .string) {out : String}
    (hvalue : value.PrintedAs out) (o : CompileOptions) : t.AcceptedAs o out := by
  refine ⟨fun lib scope rest => ?_, ?_⟩
  · obtain ⟨e, he, hout⟩ := hvalue t.pos
    rw [h.emitted?_eq, he]
    show (Java.expr e).toOption = some out
    rw [hout]
    rfl
  · obtain ⟨e, he, hout⟩ := hvalue .start
    have hcheck : Program.checkAlone o.library [.expr (.literal value .start) .start] =
        .ok [.expr e .start] := by
      rw [Program.checkAlone_literal, he]
    obtain ⟨c, hrun, -, hjava⟩ := Compilation.run_of_parse o (h.parse_eq hkind) hcheck
    rw [Java.program_alone o.java .start hout] at hjava
    exact ⟨c, hrun, (Except.ok.inj hjava).symm⟩

/-- **What the checker refuses is refused by the compiler**, wherever the literal stands. -/
theorem Denotes.refused (hkind : t.kind ≠ .string)
    (hvalue : ∀ pos, ∃ e, Check.literal pos value = .error e) (o : CompileOptions) :
    t.Refused o := by
  refine ⟨fun lib scope rest => ?_, ?_⟩
  · obtain ⟨e, he⟩ := hvalue t.pos
    rw [h.emitted?_eq, he]
    rfl
  · obtain ⟨e, he⟩ := hvalue .start
    cases hrun : Compilation.run o.toTheEnd (utf8Bytes t.text) with
    | error e => exact ⟨e, rfl⟩
    | ok c =>
        obtain ⟨p, typed, hp, hcheck⟩ := Compilation.parse_of_run hrun
        rw [h.parse_eq hkind] at hp
        cases hp
        rw [Program.checkAlone_literal, he] at hcheck
        cases hcheck

end Literal

/-! ## Its place among others -/

/-- Every number among the tokens is accepted as if it were alone, and the output, cut into pieces
in some way, has among its pieces what is printed for them, in their order. -/
def Compilation.ShowsNumbers (c : Compilation) (o : CompileOptions) : Prop :=
  ∃ outs pieces : List String,
    List.Forall₂ (fun t out => t.AcceptedAs o out) (c.tokens.filter Token.isNumber) outs ∧
      outs.Sublist pieces ∧ c.output = String.join pieces

theorem Token.kind_of_isNumber {t : Token} (h : t.isNumber) :
    t.kind = .integer ∨ t.kind = .decimal := by
  simpa only [Token.isNumber, Bool.or_eq_true, decide_eq_true_eq] using h

theorem Token.kind_ne_string {t : Token} (h : t.isNumber) : t.kind ≠ .string := by
  rcases Token.kind_of_isNumber h with hkind | hkind <;> simp [hkind]

/-- Numbers that can be printed are accepted one by one. -/
theorem Token.acceptedAs_of_forall₂ {ts : List Token} {values : List Constant} {outs : List String}
    (hvalues : List.Forall₂ (fun t value => t.isNumber ∧ Denotes t.kind t.text.toList value)
      ts values)
    (houts : List.Forall₂ Constant.PrintedAs values outs) (o : CompileOptions) :
    List.Forall₂ (fun t out => t.AcceptedAs o out) ts outs := by
  induction hvalues generalizing outs with
  | nil =>
      cases houts
      exact .nil
  | cons hvalue _ ih =>
      cases houts with
      | cons hout houts =>
          obtain ⟨hnumber, hvalue⟩ := hvalue
          exact .cons (hvalue.acceptedAs (Token.kind_ne_string hnumber) hout o) (ih houts)

/-- **An accepted program accepts each of its numbers.** -/
theorem Compilation.showsNumbers_of_run {o : CompileOptions} {source : List UInt8}
    {c : Compilation} (h : Compilation.run o.toTheEnd source = .ok c) : c.ShowsNumbers o := by
  obtain ⟨_, _, wss, _, htyped, hsnippets, houtput⟩ := Java.snippets_of_run h
  obtain ⟨ts, p, typed, _, hlex, hparse, hcheck, _, rfl⟩ := Compilation.run_toTheEnd_eq_ok.mp h
  cases htyped
  obtain ⟨after, hcheck⟩ := Program.checkAlone_eq_ok.mp hcheck
  have hdenotes : ∀ t ∈ ts, t.isNumber → ∃ value, Denotes t.kind t.text.toList value := by
    intro t ht hnumber
    refine Token.denotes_of_lex hlex ht ?_
    rcases Token.kind_of_isNumber hnumber with hkind | hkind <;> simp [hkind]
  have hprinted := (Typing.block_sound p hcheck).numbers
  rw [Program.numbers_of_ofTokens hparse] at hprinted
  have haccepted := Token.acceptedAs_of_forall₂ (Token.forall₂_numbers hdenotes) hprinted o
  exact ⟨_, _, haccepted, Java.shows_programSnippets hsnippets, houtput⟩

/-! ## Numbers -/

/-- An integer that fits into 32 bits is printed in full. -/
theorem Constant.printedAs_integer {n : Int} (hn : -2 ^ 31 ≤ n ∧ n ≤ 2 ^ 31 - 1) :
    Constant.PrintedAs (.integer n) (toString n) := by
  have hvalue : (Int32.ofInt n).toInt = n := Int32.toInt_ofInt_of_le (by omega) (by omega)
  refine fun pos => ⟨_, if_pos (by omega), ?_⟩
  rw [Java.expr, Java.literal, hvalue]

theorem Check.literal_integer_refused {n : Int} (hn : ¬ (-2 ^ 31 ≤ n ∧ n ≤ 2 ^ 31 - 1))
    (pos : Position) : ∃ e, Check.literal pos (.integer n) = .error e :=
  ⟨_, if_neg (by omega)⟩

/-- A rational that is zero or has a normal double is printed as that double. -/
theorem Constant.printedAs_ratio {q : ℚ}
    (hq : q = 0 ∨ normalBound ≤ |q| ∧ |q| < finiteBound) :
    Constant.PrintedAs (.ratio q) (Java.doubleLiteral (ofRat q)) := by
  have hfinite : ¬ finiteBound ≤ |q| := by
    rcases hq with rfl | ⟨-, hhigh⟩
    · rw [abs_zero]
      exact not_le.mpr finiteBound_pos
    · exact not_le.mpr hhigh
  have hnormal : ¬ (q ≠ 0 ∧ |q| < normalBound) := by
    rintro ⟨hne, hlow⟩
    exact absurd (hq.resolve_left hne).1 (not_le.mpr hlow)
  refine fun pos => ⟨_, by rw [Check.literal_ratio, if_neg hfinite, if_neg hnormal], ?_⟩
  rw [Java.expr, Java.literal]

theorem Check.literal_ratio_refused {q : ℚ}
    (hq : ¬ (q = 0 ∨ normalBound ≤ |q| ∧ |q| < finiteBound)) (pos : Position) :
    ∃ e, Check.literal pos (.ratio q) = .error e := by
  rw [not_or, not_and, not_lt] at hq
  rw [Check.literal_ratio]
  by_cases hfinite : finiteBound ≤ |q|
  · exact ⟨_, if_pos hfinite⟩
  · rw [if_neg hfinite]
    exact ⟨_, if_pos ⟨hq.1, not_le.mp fun hlow => hfinite (hq.2 hlow)⟩⟩

/--
**Numbers keep their value from the text to Java.** An integer of any length, with or without a sign
and with any number of zeros in front, is accepted exactly if it fits into 32 bits, and it is then
printed as Java reads it in base ten. A decimal is accepted exactly if it is zero or its double is a
normal number, and what is then printed is a double literal, perhaps behind a minus, with a point or
an exponent in it. The number that the literal spells is rounded to the same double as the decimal.

A program is accepted only if all its numbers are, and its output shows what is printed for them.
-/
theorem numbers_keep_value (o : CompileOptions) :
    (∀ (text : String) (pos : Position) (n : Int), Denotes .integer text.toList (.integer n) →
      ((-2 ^ 31 ≤ n ∧ n ≤ 2 ^ 31 - 1) → ∃ out,
        Token.AcceptedAs { kind := .integer, text, pos } o out ∧ Java.Integral out.toList n) ∧
      (¬ (-2 ^ 31 ≤ n ∧ n ≤ 2 ^ 31 - 1) →
        Token.Refused { kind := .integer, text, pos } o)) ∧
    (∀ (text : String) (pos : Position) (q : ℚ), Denotes .decimal text.toList (.ratio q) →
      ((q = 0 ∨ normalBound ≤ |q| ∧ |q| < finiteBound) → ∃ out r,
        Token.AcceptedAs { kind := .decimal, text, pos } o out ∧
        Java.SignedFloating out.toList r ∧ ('.' ∈ out.toList ∨ 'e' ∈ out.toList) ∧
        ofRat r = ofRat q ∧ (ofRat q).NearestTo q ∧ (ofRat q).NearestTo r) ∧
      (¬ (q = 0 ∨ normalBound ≤ |q| ∧ |q| < finiteBound) →
        Token.Refused { kind := .decimal, text, pos } o)) ∧
    (∀ source c, Compilation.run o.toTheEnd source = .ok c → c.ShowsNumbers o) := by
  refine ⟨fun text pos n h => ⟨fun hn => ?_, fun hn => ?_⟩,
    fun text pos q h => ⟨fun hq => ?_, fun hq => ?_⟩,
    fun source c => Compilation.showsNumbers_of_run⟩
  · exact ⟨toString n, Denotes.acceptedAs h (by simp) (Constant.printedAs_integer hn) o,
      Java.integral_toString n⟩
  · exact Denotes.refused h (by simp) (Check.literal_integer_refused hn) o
  · have hnearest := (represents_ofRat hq).nearest
    have hspells := Java.doubleLiteral_spells hnearest.finite
    have hback := ofRat_shortest hq
    have hfinite : (ofRat (ofRat q).shortest).code < infinityCode := by
      rw [hback]
      exact hnearest.finite
    have hnearest' := nearestTo_ofRat hfinite
    rw [hback] at hnearest'
    exact ⟨_, _, Denotes.acceptedAs h (by simp) (Constant.printedAs_ratio hq) o, hspells,
      hspells.marked, hback, hnearest, hnearest'⟩
  · exact Denotes.refused h (by simp) (Check.literal_ratio_refused hq) o

/-- Numbers at work: zeros in front of an integer, an integer that is one too large, a decimal that
is printed with an exponent, and a program with two numbers. -/
theorem numbers_keep_value_padded :
    (Denotes .integer "-007".toList (.integer (-7)) ∧
      Token.AcceptedAs { kind := .integer, text := "-007", pos := .start } {} "-7" ∧
      Java.Integral "-7".toList (-7)) ∧
    (Denotes .integer "2147483648".toList (.integer 2147483648) ∧
      Token.Refused { kind := .integer, text := "2147483648", pos := .start } {}) ∧
    (Denotes .decimal "-0012500000.50".toList (.ratio (-25000001 / 2)) ∧
      Token.AcceptedAs { kind := .decimal, text := "-0012500000.50", pos := .start } {}
        "-1.25000005e+07" ∧
      ∃ r, Java.SignedFloating "-1.25000005e+07".toList r ∧ ofRat r = ofRat (-25000001 / 2)) ∧
    ∃ c, Compilation.run {} (utf8Bytes "PRINT(007 == 1.50)") = .ok c ∧
      (c.tokens.filter Token.isNumber).map Token.text = ["007", "1.50"] ∧ c.ShowsNumbers {} := by
  have hseven : Denotes .integer "-007".toList (.integer (-7)) :=
    @Denotes.integer ['-'] ['0', '0', '7'] (-1) .minus ⟨by decide, List.all_eq_true.mp rfl⟩
  have hlarge : Denotes .integer "2147483648".toList (.integer 2147483648) :=
    @Denotes.integer [] "2147483648".toList 1 .absent ⟨by decide, List.all_eq_true.mp rfl⟩
  have hdecimal : Denotes .decimal "-0012500000.50".toList (.ratio (-25000001 / 2)) := by
    have h := @Denotes.decimal ['-'] "0012500000".toList ['5', '0'] (-1) .minus
      ⟨by decide, List.all_eq_true.mp rfl⟩ ⟨by decide, List.all_eq_true.mp rfl⟩
    have hvalue : spelledRatio (-1) "0012500000".toList ['5', '0'] = -25000001 / 2 := by
      decide +kernel
    rwa [hvalue] at h
  have hrange : normalBound ≤ |(-25000001 / 2 : ℚ)| ∧ |(-25000001 / 2 : ℚ)| < finiteBound := by
    rw [← not_lt, ← code_ofRat_lt_binade_iff, ← code_ofRat_lt_infinityCode_iff]
    decide +kernel
  obtain ⟨out, hout, hintegral⟩ :=
    ((numbers_keep_value {}).1 "-007" .start (-7) hseven).1 (by decide)
  have hrefused :=
    ((numbers_keep_value {}).1 "2147483648" .start 2147483648 hlarge).2 (by decide)
  obtain ⟨out', r, hout', hspells, -, hback, -⟩ :=
    ((numbers_keep_value {}).2.1 "-0012500000.50" .start _ hdecimal).1 (.inr hrange)
  have htext : out = "-7" :=
    Option.some.inj ((hout.anywhere .standard .empty []).symm.trans (by decide +kernel))
  have htext' : out' = "-1.25000005e+07" :=
    Option.some.inj ((hout'.anywhere .standard .empty []).symm.trans (by decide +kernel))
  subst htext htext'
  have hlex : Token.lex (utf8Bytes "PRINT(007 == 1.50)") = .ok
      [⟨.identifier, "PRINT", ⟨0, 1, 1⟩⟩, ⟨.operator, "(", ⟨5, 1, 6⟩⟩,
        ⟨.integer, "007", ⟨6, 1, 7⟩⟩, ⟨.operator, "==", ⟨10, 1, 11⟩⟩,
        ⟨.decimal, "1.50", ⟨13, 1, 14⟩⟩, ⟨.operator, ")", ⟨17, 1, 18⟩⟩] := by
    with_unfolding_all rfl
  have hprogram : ∃ c, Compilation.run {} (utf8Bytes "PRINT(007 == 1.50)") = .ok c := by
    have hsome : (Compilation.run {} (utf8Bytes "PRINT(007 == 1.50)")).toOption.isSome := by
      decide +kernel
    obtain ⟨c, hc⟩ := Option.isSome_iff_exists.mp hsome
    exact ⟨c, eq_ok_of_toOption hc⟩
  obtain ⟨c, hrun⟩ := hprogram
  refine ⟨⟨hseven, hout, hintegral⟩, ⟨hlarge, hrefused⟩, ⟨hdecimal, hout', r, hspells, hback⟩,
    c, hrun, ?_, (numbers_keep_value {}).2.2 _ c hrun⟩
  obtain ⟨ts, _, _, _, hts, -, -, -, rfl⟩ :=
    (Compilation.run_toTheEnd_eq_ok (o := {})).mp hrun
  rw [hlex] at hts
  cases hts
  rfl

end LetWhile
