import LetWhile.Emission
import LetWhile.Proofs.Complaints
import LetWhile.Proofs.Parsing
import LetWhile.Proofs.Pipeline
import LetWhile.Proofs.Rows

/-!
# No stage meets a gap

The printers break off at a gap of a tree, and the parser at a string token without quotes. Trees
and tokens that are built by hand can have such flaws, but a compilation never gets to see one: the
lexer closes every string, the parser leaves out no node, and the checker either returns a tree
without gaps or an error. It does so for every tree that it is given, with gaps or without.

One thing is left that can make the pen break off, and no check of the tree helps against it: a row
of spaces that no memory can hold. Whether there is one is a matter of the width of a level and of
the number of levels that the tree takes.
-/

namespace LetWhile

/-! ## Dumps -/

namespace Sexpr

/-- A list is converted if each of its items is. The conversions of lists in this project all go
from the front to the back in this way. -/
theorem each_total {α β : Type} {f : α → Except Gap β} {g : List α → Except Gap (List β)}
    (hnil : g [] = .ok [])
    (hcons : ∀ a as, g (a :: as) = f a >>= fun b => g as >>= fun bs => .ok (b :: bs))
    {as : List α} (h : ∀ a ∈ as, ∃ b, f a = .ok b) : ∃ bs, g as = .ok bs := by
  induction as with
  | nil => exact ⟨[], hnil⟩
  | cons a as ih =>
      obtain ⟨hfirst, hrest⟩ := List.forall_mem_cons.mp h
      obtain ⟨b, hb⟩ := hfirst
      obtain ⟨bs, hbs⟩ := ih hrest
      exact ⟨b :: bs, by rw [hcons, hb, ok_bind, hbs, ok_bind]⟩

theorem ofTypedExpr_total {e : Typed.Expr} (h : e.Whole) : ∃ s, ofTypedExpr e = .ok s := by
  induction h with
  | literal _ => exact ⟨_, rfl⟩
  | group _ ih =>
      obtain ⟨inner, hinner⟩ := ih
      exact ⟨_, by rw [ofTypedExpr, hinner]; rfl⟩
  | binary _ _ ihl ihr =>
      obtain ⟨left, hleft⟩ := ihl
      obtain ⟨right, hright⟩ := ihr
      exact ⟨_, by rw [ofTypedExpr, hleft, hright]; rfl⟩
  | var => exact ⟨_, rfl⟩
  | call _ ih =>
      obtain ⟨args, hargs⟩ := each_total (g := ofTypedExprs) rfl (fun _ _ => rfl) ih
      exact ⟨_, by rw [ofTypedExpr, hargs]; rfl⟩

theorem ofTypedStmts_of_each {ss : List Typed.Stmt}
    (h : ∀ s ∈ ss, ∃ v, ofTypedStmt s = .ok v) : ∃ vs, ofTypedStmts ss = .ok vs :=
  each_total (g := ofTypedStmts) rfl (fun _ _ => rfl) h

theorem ofTypedStmt_total {s : Typed.Stmt} (h : s.Whole) : ∃ v, ofTypedStmt s = .ok v := by
  induction h with
  | expr he =>
      obtain ⟨value, hvalue⟩ := ofTypedExpr_total he
      exact ⟨_, by rw [ofTypedStmt, hvalue]; rfl⟩
  | @declare name ty init pos hinit =>
      cases init with
      | none => exact ⟨_, rfl⟩
      | some e =>
          obtain ⟨value, hvalue⟩ := ofTypedExpr_total (hinit e rfl)
          exact ⟨_, by rw [ofTypedStmt, hvalue]; rfl⟩
  | assign he =>
      obtain ⟨value, hvalue⟩ := ofTypedExpr_total he
      exact ⟨_, by rw [ofTypedStmt, hvalue]; rfl⟩
  | branch hc _ _ ihyes ihno =>
      obtain ⟨cond, hcond⟩ := ofTypedExpr_total hc
      obtain ⟨yes, hyes⟩ := ofTypedStmts_of_each ihyes
      obtain ⟨no, hno⟩ := ofTypedStmts_of_each ihno
      exact ⟨_, by rw [ofTypedStmt, hcond, hyes, hno]; rfl⟩
  | loop hc _ ih =>
      obtain ⟨cond, hcond⟩ := ofTypedExpr_total hc
      obtain ⟨body, hbody⟩ := ofTypedStmts_of_each ih
      exact ⟨_, by rw [ofTypedStmt, hcond, hbody]; rfl⟩

end Sexpr

/-- **A checked program without gaps has a dump.** -/
theorem Typed.Program.dump_total {p : Typed.Program} (h : ∀ s ∈ p, s.Whole) :
    ∃ text, p.dump = .ok text := by
  obtain ⟨vs, hvs⟩ := Sexpr.ofTypedStmts_of_each fun s hs => Sexpr.ofTypedStmt_total (h s hs)
  exact ⟨Sexpr.lines vs, by rw [Typed.Program.dump, hvs]; rfl⟩

/-! ## The parser leaves out no node

Every rule of the grammar builds a node from nodes, so a derived tree can be dumped. -/

namespace Grammar

mutual

theorem Primary.dumps {ts rest : List Token} {e : Expr} :
    Primary ts e rest → ∃ v, Sexpr.ofExpr e = .ok v
  | .trueWord _ => ⟨_, rfl⟩
  | .falseWord _ => ⟨_, rfl⟩
  | .var _ => ⟨_, rfl⟩
  | .call _ _ hargs => by
      obtain ⟨args, hargs⟩ := hargs.dumps
      exact ⟨_, by rw [Sexpr.ofExpr, hargs]; rfl⟩
  | .group _ he _ => by
      obtain ⟨inner, hinner⟩ := he.dumps
      exact ⟨_, by rw [Sexpr.ofExpr, hinner]; rfl⟩
  | .integer _ _ => ⟨_, rfl⟩
  | .decimal _ _ => ⟨_, rfl⟩
  | .string _ _ => ⟨_, rfl⟩

theorem Operand.dumps {t : Parser.Tier} {ts rest : List Token} {e : Expr} :
    Operand t ts e rest → ∃ v, Sexpr.ofExpr e = .ok v
  | .sum h => h.dumps
  | .product h => h.dumps
  | .primary h => h.dumps

theorem Chain.dumps {t : Parser.Tier} {ts rest : List Token} {e : Expr} :
    Chain t ts e rest → ∃ v, Sexpr.ofExpr e = .ok v
  | .single h => h.dumps
  | .join hl _ hr => by
      obtain ⟨left, hleft⟩ := hl.dumps
      obtain ⟨right, hright⟩ := hr.dumps
      exact ⟨_, by rw [Sexpr.ofExpr, hleft, hright]; rfl⟩

theorem Expression.dumps {ts rest : List Token} {e : Expr} :
    Expression ts e rest → ∃ v, Sexpr.ofExpr e = .ok v
  | .mk h _ => h.dumps

theorem Arguments.dumps {ts rest : List Token} {es : List Expr} :
    Arguments ts es rest → ∃ vs, Sexpr.ofExprs es = .ok vs
  | .empty _ => ⟨_, rfl⟩
  | .list h => h.dumps

theorem ArgumentList.dumps {ts rest : List Token} {es : List Expr} :
    ArgumentList ts es rest → ∃ vs, Sexpr.ofExprs es = .ok vs
  | .last he _ => by
      obtain ⟨v, hv⟩ := he.dumps
      exact ⟨[v], by rw [Sexpr.ofExprs, hv]; rfl⟩
  | .more he _ hes => by
      obtain ⟨v, hv⟩ := he.dumps
      obtain ⟨vs, hvs⟩ := hes.dumps
      exact ⟨v :: vs, by rw [Sexpr.ofExprs, hv, hvs]; rfl⟩

end

mutual

theorem Statement.dumps {ts rest : List Token} {s : Stmt} :
    Statement ts s rest → ∃ v, Sexpr.ofStmt s = .ok v
  | .declare _ _ _ _ => ⟨_, rfl⟩
  | .declareInit _ _ _ _ _ he => by
      obtain ⟨init, hinit⟩ := he.dumps
      exact ⟨_, by rw [Sexpr.ofStmt, hinit]; rfl⟩
  | .assign _ _ he => by
      obtain ⟨value, hvalue⟩ := he.dumps
      exact ⟨_, by rw [Sexpr.ofStmt, hvalue]; rfl⟩
  | .branch _ hc _ hyes _ => by
      obtain ⟨cond, hcond⟩ := hc.dumps
      obtain ⟨yes, hyes⟩ := hyes.dumps
      exact ⟨_, by rw [Sexpr.ofStmt, hcond, hyes]; rfl⟩
  | .branchElse _ hc _ hyes _ hno _ => by
      obtain ⟨cond, hcond⟩ := hc.dumps
      obtain ⟨yes, hyes⟩ := hyes.dumps
      obtain ⟨no, hno⟩ := hno.dumps
      exact ⟨_, by rw [Sexpr.ofStmt, hcond, hyes, hno]; rfl⟩
  | .loop _ hc _ hbody _ => by
      obtain ⟨cond, hcond⟩ := hc.dumps
      obtain ⟨body, hbody⟩ := hbody.dumps
      exact ⟨_, by rw [Sexpr.ofStmt, hcond, hbody]; rfl⟩
  | .expr he => by
      obtain ⟨value, hvalue⟩ := he.dumps
      exact ⟨_, by rw [Sexpr.ofStmt, hvalue]; rfl⟩

theorem Block.dumps {ts rest : List Token} {ss : List Stmt} :
    Block ts ss rest → ∃ vs, Sexpr.ofStmts ss = .ok vs
  | .done => ⟨_, rfl⟩
  | .separator _ h => h.dumps
  | .cons hs hss => by
      obtain ⟨v, hv⟩ := hs.dumps
      obtain ⟨vs, hvs⟩ := hss.dumps
      exact ⟨v :: vs, by rw [Sexpr.ofStmts, hv, hvs]; rfl⟩

end

end Grammar

/-- **A program that was read has a dump.** -/
theorem Program.dump_of_ofTokens {ts : List Token} {p : Program}
    (h : Program.ofTokens ts = .ok p) : ∃ text, p.dump = .ok text := by
  obtain ⟨vs, hvs⟩ := (Grammar.derives_of_ofTokens h).dumps
  exact ⟨Sexpr.lines vs, by rw [Program.dump, hvs]; rfl⟩

/-! ## Rows of spaces -/

namespace Java

/-- **Nothing but a row that is too long makes a printer break off**, and there is one exactly if
there is no room for the last level. Behind a failed write no row is built, so for sure it is met
only by a sink without a limit. -/
structure LimitedByRows (put : Sink → Except Panic (Option WriteError) × Sink) (room : Prop) :
    Prop where
  returns : room → ∀ sink, ∃ failure, (put sink).1 = .ok failure
  breaksOff : ¬ room → ∃ p, (put {}).1 = .error p
  row : ∀ sink p, (put sink).1 = .error p → ∃ spaces, longestRow < spaces ∧ p = .row spaces

theorem Prints.limitedByRows {work : Work Unit} {o : Options} {top : Nat} {lines : List String}
    (h : Prints work o.width 0 top (.ok lines)) :
    LimitedByRows (work.into o) (o.hasRoom (max 1 (top - 1))) where
  returns hroom sink := ⟨_, congrArg Prod.fst (h.into_of_room hroom sink)⟩
  breaksOff := h.into_of_no_room
  row _ _ := h.row_of_into_error

/-- A program takes two levels more than its statements. -/
theorem limitedByRows_generate (o : Options) {p : Typed.Program} (h : ∀ s ∈ p, s.Whole) :
    LimitedByRows (generate o p) (o.hasRoom (1 + stmtsLevels p)) := by
  obtain ⟨lines, hlines⟩ := program_total h o
  have hprints := prints_program o p
  rw [hlines] at hprints
  rw [← propext hasRoom_program]
  exact hprints.limitedByRows

theorem limitedByRows_generateStatements (o : Options) {ss : List Typed.Stmt}
    (h : ∀ s ∈ ss, s.Whole) :
    LimitedByRows (generateStatements o ss) (o.hasRoom (max 1 (stmtsLevels ss - 1))) := by
  obtain ⟨lines, hlines⟩ := statements_total h o
  have hprints := prints_statements o ss
  rw [hlines] at hprints
  exact hprints.limitedByRows

end Java

/-! ## Compilations -/

theorem flatMap_utf8Bytes (lines : List String) :
    lines.flatMap utf8Bytes = utf8Bytes (String.join lines) := by
  rw [Glyph.utf8Bytes_eq, String.toList_join, List.flatMap_assoc]
  exact congrArg (List.flatMap · lines) (funext Glyph.utf8Bytes_eq)

/-- With room for every row, the text that the pen writes into memory is the text of the lines. -/
theorem writtenText_generate {o : Java.Options} {p : Typed.Program} (h : ∀ s ∈ p, s.Whole)
    (hroom : o.hasRoom (1 + Java.stmtsLevels p)) :
    writtenText (Java.generate o p {}) = javaText (Java.program o p) := by
  obtain ⟨lines, hlines⟩ := Java.program_total h o
  rw [Java.generate_of_room hlines hroom, Writer.writeAll_unlimited, hlines]
  show Except.ok (shownText (lines.flatMap utf8Bytes)) = Except.ok (Java.text lines)
  rw [flatMap_utf8Bytes, Glyph.shownText_utf8Bytes]
  rfl

namespace Compilation

section Answers

variable {print : Typed.Program → Except CompileError String} {o : CompileOptions}
  {source : List UInt8}

/-- What a compilation comes to, wherever it stops: an error of the lexer, of the parser, of the
checker or of the last stage, or the results of the stages that it ran. -/
inductive Answer (print : Typed.Program → Except CompileError String) (o : CompileOptions)
    (source : List UInt8) : Except CompileError Compilation → Prop where
  | lex {e : LexError} : Answer print o source (.error (.lex e))
  | parse {e : ParseError} : Answer print o source (.error (.parse e))
  | type {e : TypeError} : Answer print o source (.error (.type e))
  | print {typed : Typed.Program} {e : CompileError} : Reaches o source typed →
      print typed = .error e → Answer print o source (.error e)
  | done {c : Compilation} :
      (∀ p, c.program = some p → ∃ ts, Program.ofTokens ts = .ok p) →
      (∀ typed, c.typed = some typed → ∀ s ∈ typed, s.Whole) → Answer print o source (.ok c)

theorem Reaches.whole {typed : Typed.Program} (h : Reaches o source typed) :
    ∀ s ∈ typed, s.Whole := by
  obtain ⟨-, p, -, hcheck⟩ := h
  exact Program.whole_of_checkAlone hcheck

theorem answer_runWith (print : Typed.Program → Except CompileError String) (o : CompileOptions)
    (source : List UInt8) : Answer print o source (runWith print o source) := by
  unfold runWith
  cases hlex : Token.lex source with
  | error e => exact .lex
  | ok ts =>
    dsimp only
    split
    · exact .done (by simp) (by simp)
    next hnotLex =>
    cases hparse : Program.ofTokens ts with
    | error failure =>
      cases failure with
      | refused e => exact .parse
      | panicked text =>
          -- the lexer closes every string
          exact absurd hparse (Program.not_panicked hlex text)
    | ok p =>
      have hprogram : ∀ q, some p = some q → ∃ us, Program.ofTokens us = .ok q := by
        intro q hq
        cases hq
        exact ⟨ts, hparse⟩
      dsimp only
      split
      · exact .done hprogram (by simp)
      next hnotParse =>
      cases hcheck : p.checkAlone o.library with
      | error e =>
          rw [error_bind]
          unfold Program.checkAlone at hcheck
          split at hcheck
          · cases hcheck; exact .type
          · cases hcheck
      | ok typed =>
          have hwhole : ∀ t, some typed = some t → ∀ s ∈ t, s.Whole := by
            intro t ht
            cases ht
            exact Program.whole_of_checkAlone hcheck
          rw [ok_bind]
          split
          · exact .done hprogram hwhole
          next hnotAnalyze =>
          have hstop := Stage.eq_generate hnotLex hnotParse hnotAnalyze
          cases hprint : print typed with
          | error e =>
              exact .print ⟨hstop, p, Program.parse_eq_ok.mpr ⟨ts, hlex, hparse⟩, hcheck⟩ hprint
          | ok output => exact .done hprogram hwhole

/-- Every view of a compilation can be shown. -/
theorem chunks_total {c : Compilation} (h : runWith print o source = .ok c) (view : View) :
    ∃ chunks, c.chunks view = .ok chunks := by
  have hanswer := answer_runWith print o source
  rw [h] at hanswer
  cases hanswer with
  | done hprogram htyped =>
    cases view with
    | tokens => exact ⟨_, rfl⟩
    | java => exact ⟨_, rfl⟩
    | ast =>
        have hdump : ∃ text, (c.program.getD []).dump = .ok text := by
          cases hp : c.program with
          | none => exact ⟨_, rfl⟩
          | some p =>
              obtain ⟨ts, hts⟩ := hprogram p hp
              exact Program.dump_of_ofTokens hts
        obtain ⟨text, htext⟩ := hdump
        exact ⟨[text], by rw [chunks, htext]; rfl⟩
    | typed =>
        have hdump : ∃ text, Typed.Program.dump (c.typed.getD []) = .ok text := by
          cases ht : c.typed with
          | none => exact ⟨_, rfl⟩
          | some typed => exact Typed.Program.dump_total (htyped typed ht)
        obtain ⟨text, htext⟩ := hdump
        exact ⟨[text], by rw [chunks, htext]; rfl⟩

end Answers

/-- Without the pen, nothing makes a compilation break off. -/
theorem run_ne_panic (o : CompileOptions) (source : List UInt8) (p : Panic) :
    run o source ≠ .error (.panic p) := by
  intro h
  have hanswer := answer_runWith (fun typed => javaText (Java.program o.java typed)) o source
  rw [← run, h] at hanswer
  cases hanswer with
  | print hreach hprint =>
      obtain ⟨lines, hlines⟩ := Java.program_total hreach.whole o.java
      rw [hlines] at hprint
      cases hprint

/-- The pen makes a compilation break off at a row that is too long, and at nothing else. -/
theorem row_of_compile {o : CompileOptions} {source : List UInt8} {p : Panic}
    (h : compile o source = .error (.panic p)) :
    ∃ spaces, Java.longestRow < spaces ∧ p = .row spaces := by
  have hanswer :=
    answer_runWith (fun typed => writtenText (Java.generate o.java typed {})) o source
  rw [← compile, h] at hanswer
  cases hanswer with
  | @print typed _ hreach hprint =>
      have hrow := (Java.limitedByRows_generate o.java hreach.whole).row {}
      rcases hrun : Java.generate o.java typed {} with ⟨q | failure, sink⟩
      · rw [hrun] at hprint hrow
        cases hprint
        exact hrow _ rfl
      · rw [hrun] at hprint
        cases failure <;> cases hprint

/-- With room for the levels of the program, the pen does not matter. -/
theorem compile_eq_run {o : CompileOptions} {source : List UInt8}
    (h : ∀ typed, Reaches o source typed → o.java.hasRoom (1 + Java.stmtsLevels typed)) :
    compile o source = run o source :=
  runWith_congr fun typed hreach => writtenText_generate hreach.whole (h typed hreach)

/-- Without that room, a compilation breaks off. -/
theorem compile_of_no_room {o : CompileOptions} {source : List UInt8} {typed : Typed.Program}
    (hreach : Reaches o source typed) (hroom : ¬ o.java.hasRoom (1 + Java.stmtsLevels typed)) :
    ∃ p, compile o source = .error (.panic p) := by
  obtain ⟨ts, program, hrun⟩ := runWith_of_reaches hreach
  obtain ⟨p, hp⟩ := (Java.limitedByRows_generate o.java hreach.whole).breaksOff hroom
  refine ⟨p, ?_⟩
  rw [compile, hrun]
  rcases hwrite : Java.generate o.java typed {} with ⟨q | failure, sink⟩
  · rw [hwrite] at hp
    cases hp
    rfl
  · rw [hwrite] at hp
    cases hp

/-- **A compilation breaks off exactly if there is no room** for the levels of the program. -/
theorem compile_breaks_off_iff {o : CompileOptions} {source : List UInt8} :
    (∃ p, compile o source = .error (.panic p)) ↔
      ∃ typed, Reaches o source typed ∧ ¬ o.java.hasRoom (1 + Java.stmtsLevels typed) := by
  constructor
  · rintro ⟨p, hp⟩
    refine Classical.byContradiction fun hnone => run_ne_panic o source p ?_
    rw [← hp, compile_eq_run fun typed hreach => ?_]
    exact Decidable.byContradiction fun hroom => hnone ⟨typed, hreach, hroom⟩
  · rintro ⟨typed, hreach, hroom⟩
    exact compile_of_no_room hreach hroom

/-- What is emitted are the chunks of the view. -/
theorem emit_eq {c : Compilation} {view : View} {chunks : List String}
    (h : c.chunks view = .ok chunks) (sink : Sink) :
    c.emit view sink = (.ok (Writer.writeAll { sink } chunks).failure,
      (Writer.writeAll { sink } chunks).sink) := by
  have hone : ∀ text : Except Gap String, (do return [← text]) = Except.ok chunks →
      emitText text sink = (.ok (Writer.writeAll { sink } chunks).failure,
        (Writer.writeAll { sink } chunks).sink) := by
    intro text htext
    obtain ⟨t, rfl, ht⟩ := bind_eq_ok.mp htext
    cases ht
    rfl
  cases view with
  | tokens => cases h; rfl
  | ast => exact hone _ h
  | typed => exact hone _ h
  | java => exact hone (.ok c.output) h

end Compilation

/-- A half in a variable, and a branch without an else block. -/
def halfBranch : Program :=
  [.declare "x" "DECIMAL" (some (.literal (.ratio (mkRat 1 2)) {})) {},
   .branch (.binary "!=" (.var "x" {}) (.literal (.integer (-1)) {}) {})
     [.declare "s" "STRING" none {}, .assign "s" (.literal (.text "half") {}) {}] [] {}]

/-- That program with its types. -/
def halfBranchTyped : Typed.Program :=
  [.declare "x" .decimal (some (.literal .decimal (.double ⟨0x3FE0000000000000⟩) {})) {},
   .branch (.binary .boolean "!=" (.var .decimal "x" {}) (.literal .integer (.int32 (-1)) {}) {})
     [.declare "s" .string none {}, .assign "s" (.literal .string (.text "half") {}) {}] [] {}]

/-- Options with more spaces a level than memory can hold. -/
def wideOptions : Java.Options := { indent := 0x1000000000000000 }

/-- The program of the text `PRINT(1)`. -/
def printOne : Program :=
  [.expr (.call "PRINT" [.literal (.integer 1) ⟨6, 1, 7⟩] ⟨0, 1, 1⟩) ⟨0, 1, 1⟩]

end LetWhile
