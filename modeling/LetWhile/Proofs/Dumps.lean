import LetWhile.Proofs.Complaints
import LetWhile.Proofs.DumpReader
import LetWhile.Proofs.Erasure
import LetWhile.Proofs.RoundTrip

/-!
# Dumps are faithful

The dump of a parsed program says everything that the program says, apart from places and from the
exact values of decimals. To see this, the tree is read back from the S-expressions of the dump. An
S-expression is told by its head: each kind of list has a word of its own or the sign of an operator
there. An atom is told by its first character, since names start with a letter, integers with a
digit or a sign and texts with a quote; only the truth values are words, and no name is one of them.

The dump of the checked program goes over another tree. It writes the same S-expressions, each
expression wrapped in its type, so that the first dump is the second one without the wrappers.
-/

namespace LetWhile

/-! ## Trees from S-expressions -/

/-- The expression that an atom stands for. -/
def Expr.ofAtom (text : String) : Expr :=
  if text = "TRUE" then .literal (.bool true) {}
  else if text = "FALSE" then .literal (.bool false) {}
  else
    match text.toList with
    | '"' :: inside => .literal (.text (String.ofList (Quoted.unquoted inside))) {}
    | _ =>
      match Numeral.integer? text with
      | some n => .literal (.integer n) {}
      | none => .var text {}

mutual

/-- The expression that an S-expression stands for; a missing one if there is none. -/
def Expr.ofSexpr : Sexpr → Expr
  | .atom text => .ofAtom text
  | .list [.atom "group", inner] => .group (Expr.ofSexpr inner) {}
  | .list (.atom "call" :: .atom name :: args) => .call name (Expr.ofSexprs args) {}
  | .list [.atom op, left, right] => .binary op (Expr.ofSexpr left) (Expr.ofSexpr right) {}
  | .list _ => .missing

/-- The expressions that S-expressions stand for. -/
def Expr.ofSexprs : List Sexpr → List Expr
  | [] => []
  | s :: ss => Expr.ofSexpr s :: Expr.ofSexprs ss

end

mutual

/-- The statement that an S-expression stands for; a missing one if there is none. -/
def Stmt.ofSexpr : Sexpr → Stmt
  | .list [.atom "expr", value] => .expr (Expr.ofSexpr value) {}
  | .list [.atom "let", .atom name, .atom typeName] => .declare name typeName none {}
  | .list [.atom "let", .atom name, .atom typeName, init] =>
    .declare name typeName (some (Expr.ofSexpr init)) {}
  | .list [.atom "set", .atom name, value] => .assign name (Expr.ofSexpr value) {}
  | .list [.atom "if", cond, .list (.atom "then" :: yes), .list (.atom "else" :: no)] =>
    .branch (Expr.ofSexpr cond) (Stmt.ofSexprs yes) (Stmt.ofSexprs no) {}
  | .list [.atom "while", cond, .list (.atom "do" :: body)] =>
    .loop (Expr.ofSexpr cond) (Stmt.ofSexprs body) {}
  | _ => .missing

/-- The statements that S-expressions stand for. -/
def Stmt.ofSexprs : List Sexpr → List Stmt
  | [] => []
  | s :: ss => Stmt.ofSexpr s :: Stmt.ofSexprs ss

end

/-- The program that a dump stands for, without places. -/
def Program.ofDump (text : String) : Program := Stmt.ofSexprs (Sexpr.read text)

/-! ## What a parsed tree is made of -/

/-- A name as the lexer and the parser let it through. -/
structure PlainName (x : String) : Prop where
  letters : ∃ c cs, x.toList = c :: cs ∧ isLetter c = true ∧ ∀ d ∈ cs, Lexer.isNamePart d = true
  noKeyword : x ∉ Token.keywords

/-- An expression as the parser makes it, when it is no decimal literal. What stands below it is not
looked at. -/
inductive Expr.Plain : Expr → Prop where
  | bool {b : Bool} {pos : Position} : Plain (.literal (.bool b) pos)
  | integer {n : Int} {pos : Position} : Plain (.literal (.integer n) pos)
  | text {s : String} {pos : Position} : Plain (.literal (.text s) pos)
  | group {inner : Expr} {pos : Position} : Plain (.group inner pos)
  | binary {op : String} {left right : Expr} {pos : Position} :
      op ∈ ["==", "!=", "+", "-", "*", "/"] → Plain (.binary op left right pos)
  | var {name : String} {pos : Position} : PlainName name → Plain (.var name pos)
  | call {name : String} {args : List Expr} {pos : Position} :
      PlainName name → Plain (.call name args pos)

/-- A statement as the parser makes it. What stands below it is not looked at. -/
inductive Stmt.Plain : Stmt → Prop where
  | expr {value : Expr} {pos : Position} : Plain (.expr value pos)
  | declare {name typeName : String} {init : Option Expr} {pos : Position} :
      PlainName name → PlainName typeName → Plain (.declare name typeName init pos)
  | assign {name : String} {value : Expr} {pos : Position} :
      PlainName name → Plain (.assign name value pos)
  | branch {cond : Expr} {yes no : List Stmt} {pos : Position} : Plain (.branch cond yes no pos)
  | loop {cond : Expr} {body : List Stmt} {pos : Position} : Plain (.loop cond body pos)

/-- The token has a shape that the lexer gives to tokens. -/
def Token.Shaped (t : Token) : Prop := ∃ rest, Lexer.Shape t.kind t.text.toList rest

theorem Token.Shaped.plainName {t : Token} (h : t.Shaped) (hname : t.isName = true) :
    PlainName t.text := by
  obtain ⟨rest, h⟩ := h
  rw [Token.isName, Bool.and_eq_true, decide_eq_true_eq, Bool.not_eq_true',
    ← Bool.not_eq_true, List.contains_iff_mem] at hname
  obtain ⟨hkind, hkeyword⟩ := hname
  rw [hkind] at h
  generalize htext : t.text.toList = cs at h
  cases h with
  | identifier hletter hparts => exact ⟨⟨_, _, htext, hletter, hparts⟩, hkeyword⟩

namespace Grammar

open LetWhile.Parser

theorem Primary.plain {ts rest : List Token} {e : Expr} (h : Primary ts e rest)
    (hts : ∀ t ∈ ts, t.Shaped) (hfree : ∀ q pos, e ≠ .literal (.ratio q) pos) : e.Plain := by
  cases h with
  | trueWord _ => exact .bool
  | falseWord _ => exact .bool
  | var hx => exact .var ((hts _ List.mem_cons_self).plainName hx)
  | call hf _ _ => exact .call ((hts _ List.mem_cons_self).plainName hf)
  | group _ _ _ => exact .group
  | integer _ _ => exact .integer
  | decimal _ _ => exact absurd rfl (hfree _ _)
  | @string t _ hkind _ =>
      obtain ⟨_, hshape⟩ := hts t List.mem_cons_self
      rw [hkind] at hshape
      generalize htext : t.text.toList = text at hshape
      cases hshape with
      | string _ => rw [Constant.ofBytes_literalText htext]; exact .text

theorem mem_operators {t : Tier} {op : Token} (h : t.has op = true) :
    op.text ∈ ["==", "!=", "+", "-", "*", "/"] := by
  have hsome : ∀ t : Tier, ∀ text ∈ t.operators, text ∈ ["==", "!=", "+", "-", "*", "/"] := by
    intro t
    cases t <;> decide
  rw [Tier.has, Bool.and_eq_true, List.contains_iff_mem] at h
  exact hsome t _ h.2

mutual

theorem Operand.plain {t : Tier} {ts rest : List Token} {e : Expr} :
    Operand t ts e rest → (∀ t ∈ ts, t.Shaped) → (∀ q pos, e ≠ .literal (.ratio q) pos) → e.Plain
  | .sum h, hts, hfree => h.plain hts hfree
  | .product h, hts, hfree => h.plain hts hfree
  | .primary h, hts, hfree => h.plain hts hfree

theorem Chain.plain {t : Tier} {ts rest : List Token} {e : Expr} :
    Chain t ts e rest → (∀ t ∈ ts, t.Shaped) → (∀ q pos, e ≠ .literal (.ratio q) pos) → e.Plain
  | .single h, hts, hfree => h.plain hts hfree
  | .join _ hop _, _, _ => .binary (mem_operators hop)

end

theorem DerivedFrom.plain {e : Expr} (h : DerivedFrom Token.Shaped e)
    (hfree : ∀ q pos, e ≠ .literal (.ratio q) pos) : e.Plain := by
  obtain ⟨t, ts, rest, h, hts⟩ := h
  exact h.plain hts hfree

theorem StatementFrom.plain {s : Stmt} (h : StatementFrom Token.Shaped s) : s.Plain := by
  obtain ⟨ts, rest, h, hts⟩ := h
  cases h with
  | declare _ hx _ hy =>
      simp only [List.forall_mem_cons] at hts
      exact .declare (hts.2.1.plainName hx) (hts.2.2.2.1.plainName hy)
  | declareInit _ hx _ hy _ _ =>
      simp only [List.forall_mem_cons] at hts
      exact .declare (hts.2.1.plainName hx) (hts.2.2.2.1.plainName hy)
  | assign hx _ _ => exact .assign ((hts _ List.mem_cons_self).plainName hx)
  | branch _ _ _ _ _ => exact .branch
  | branchElse _ _ _ _ _ _ _ => exact .branch
  | loop _ _ _ _ _ => exact .loop
  | expr _ => exact .expr

end Grammar

/-- A program without decimal literals. -/
def Program.DecimalFree (p : Program) : Prop :=
  ∀ e ∈ Stmt.exprsAll p, ∀ q pos, e ≠ .literal (.ratio q) pos

/-- All nodes of the statements are plain. -/
structure Stmt.AllPlain (ss : List Stmt) : Prop where
  exprs : ∀ e ∈ Stmt.exprsAll ss, e.Plain
  stmts : ∀ s ∈ Stmt.nodesAll ss, s.Plain

/-- **A parsed program without decimals is made of plain nodes.** -/
theorem Program.plain_of_parse {source : List UInt8} {p : Program}
    (h : Program.parse source = .ok p) (hfree : p.DecimalFree) : Stmt.AllPlain p := by
  obtain ⟨ts, hlex, hts⟩ := Program.parse_eq_ok.mp h
  have htree := Program.treeFrom_of_ofTokens hts fun t ht => Lexer.shape_of_mem_tokens hlex t ht
  exact ⟨fun e he => Grammar.DerivedFrom.plain (htree.exprs e he) (hfree e he),
    fun s hs => Grammar.StatementFrom.plain (htree.stmts s hs)⟩

/-! ## Atoms -/

theorem notMem_marks_of_isNamePart {c : Char} (h : Lexer.isNamePart c = true) :
    c ∉ Sexpr.marks := by
  have hall : ∀ m ∈ Sexpr.marks, Lexer.isNamePart m = false := by
    simp [Sexpr.marks, Lexer.isNamePart, isLetter, Lexer.isDigit]
  intro hc
  rw [hall c hc] at h
  cases h

theorem PlainName.isWord {x : String} (h : PlainName x) : Sexpr.IsWord x := by
  obtain ⟨c, cs, hx, hc, hcs⟩ := h.letters
  refine ⟨by simp [hx], ?_⟩
  rw [hx]
  refine List.forall_mem_cons.mpr ⟨notMem_marks_of_isNamePart ?_, fun d hd => ?_⟩
  · rw [Lexer.isNamePart, hc]
    rfl
  · exact notMem_marks_of_isNamePart (hcs d hd)

theorem isWord_toString (n : Int) : Sexpr.IsWord (toString n) := by
  have hdigits : ∀ c ∈ Nat.toDigits 10 n.natAbs, c ∉ Sexpr.marks := by
    intro c hc
    refine notMem_marks_of_isNamePart ?_
    rw [Lexer.isNamePart, isDigit_of_mem_toDigits hc, Bool.or_true]
    rfl
  constructor
  · rw [toList_toString]
    simp [Nat.toDigits_ne_nil]
  · rw [toList_toString]
    intro c hc
    rcases List.mem_append.mp hc with hc | hc
    · split at hc
      · rw [List.mem_singleton.mp hc]
        decide
      · cases hc
    · exact hdigits c hc

theorem integer?_of_isLetter {x : String} {c : Char} {cs : List Char} (hx : x.toList = c :: cs)
    (hc : isLetter c = true) : Numeral.integer? x = none := by
  have hdigit : Numeral.digit? c = none := by
    unfold Numeral.digit?
    split
    · next h =>
      have hc' := (digit_starts (show Lexer.isDigit c = true from h)).2.2.2
      rw [hc] at hc'
      cases hc'
    · rfl
  have hsign : Numeral.sign (c :: cs) = (1, c :: cs) := by
    unfold Numeral.sign
    split
    · next h =>
      rw [(List.cons.inj h).1] at hc
      exact absurd hc (by decide)
    · next h =>
      rw [(List.cons.inj h).1] at hc
      exact absurd hc (by decide)
    · rfl
  rw [Numeral.integer?, hx, hsign]
  dsimp only
  rw [Numeral.natural?, hdigit]
  rfl

theorem Expr.ofAtom_name {x : String} (h : PlainName x) : Expr.ofAtom x = .var x {} := by
  obtain ⟨⟨c, cs, hx, hc, -⟩, hkeyword⟩ := h
  have htrue : x ≠ "TRUE" := by
    rintro rfl
    exact hkeyword (by decide)
  have hfalse : x ≠ "FALSE" := by
    rintro rfl
    exact hkeyword (by decide)
  have hquote : c ≠ '"' := by
    rintro rfl
    exact absurd hc (by decide)
  rw [Expr.ofAtom, if_neg htrue, if_neg hfalse, hx]
  split
  · next h => exact absurd (List.cons.inj h).1 hquote
  · rw [integer?_of_isLetter hx hc]

theorem Expr.ofAtom_integer (n : Int) : Expr.ofAtom (toString n) = .literal (.integer n) {} := by
  have hn := integer?_toString n
  have htrue : toString n ≠ "TRUE" := by
    intro h
    rw [h] at hn
    cases hn
  have hfalse : toString n ≠ "FALSE" := by
    intro h
    rw [h] at hn
    cases hn
  rw [Expr.ofAtom, if_neg htrue, if_neg hfalse, hn]
  split
  · next h =>
    have hquote : '"' ∈ (toString n).toList := by
      rw [h]
      exact List.mem_cons_self
    exact absurd (by decide) ((isWord_toString n).noMarks _ hquote)
  · rfl

theorem Expr.ofAtom_quoted (s : String) : Expr.ofAtom (quoted s) = .literal (.text s) {} := by
  have htext : (quoted s).toList = '"' :: (s.toList.flatMap Quoted.char ++ ['"']) := by
    rw [quoted, String.toList_ofList]
    rfl
  have htrue : quoted s ≠ "TRUE" := by
    intro h
    rw [h] at htext
    cases htext
  have hfalse : quoted s ≠ "FALSE" := by
    intro h
    rw [h] at htext
    cases htext
  rw [Expr.ofAtom, if_neg htrue, if_neg hfalse, htext]
  show Expr.literal (.text (String.ofList (Quoted.unquoted _))) {} = _
  rw [Quoted.unquoted_flatMap, String.ofList_toList]

theorem isWord_operator {op : String} (h : op ∈ ["==", "!=", "+", "-", "*", "/"]) :
    Sexpr.IsWord op := by
  have hall : ∀ op ∈ ["==", "!=", "+", "-", "*", "/"], Sexpr.IsWord op := by decide
  exact hall op h

theorem Expr.ofSexpr_operator {op : String} (h : op ∈ ["==", "!=", "+", "-", "*", "/"])
    (v w : Sexpr) : Expr.ofSexpr (.list [.atom op, v, w]) =
      .binary op (Expr.ofSexpr v) (Expr.ofSexpr w) {} := by
  have hcall : op ≠ "call" := by
    rintro rfl
    exact absurd h (by decide)
  rw [Expr.ofSexpr]
  exact fun _ h _ => hcall h

/-! ## Reading a dump -/

/-- The S-expression is tidy, and the expression can be read from it. -/
structure Expr.ReadFrom (e : Expr) (v : Sexpr) : Prop where
  dump : Sexpr.ofExpr e = .ok v
  tidy : v.Tidy
  read : Expr.ofSexpr v = e.unplaced

mutual

/-- **A plain expression can be read from its S-expression.** -/
theorem Expr.exists_readFrom (e : Expr) (h : ∀ n ∈ e.nodes, n.Plain) : ∃ v, e.ReadFrom v := by
  have hself := h e e.mem_nodes_self
  match e with
  | .missing => cases hself
  | .literal value pos =>
      cases hself with
      | @bool b => cases b <;> exact ⟨_, rfl, .inl (by decide), rfl⟩
      | @integer n => exact ⟨_, rfl, .inl (isWord_toString n), Expr.ofAtom_integer n⟩
      | @text s => exact ⟨_, rfl, .inr ⟨s, rfl⟩, Expr.ofAtom_quoted s⟩
  | .group inner pos =>
      obtain ⟨v, hv⟩ := inner.exists_readFrom fun n hn => h n (List.mem_cons_of_mem _ hn)
      refine ⟨.list [.atom "group", v], ?_, ⟨.inl (by decide), hv.tidy, trivial⟩, ?_⟩
      · rw [Sexpr.ofExpr, hv.dump]
        rfl
      · rw [Expr.ofSexpr, hv.read, Expr.unplaced]
  | .binary op left right pos =>
      obtain ⟨v, hv⟩ := left.exists_readFrom fun n hn =>
        h n (List.mem_cons_of_mem _ (List.mem_append_left _ hn))
      obtain ⟨w, hw⟩ := right.exists_readFrom fun n hn =>
        h n (List.mem_cons_of_mem _ (List.mem_append_right _ hn))
      cases hself with
      | binary hop =>
        refine ⟨.list [.atom op, v, w], ?_,
          ⟨.inl (isWord_operator hop), hv.tidy, hw.tidy, trivial⟩, ?_⟩
        · rw [Sexpr.ofExpr, hv.dump, hw.dump]
          rfl
        · rw [Expr.ofSexpr_operator hop, hv.read, hw.read, Expr.unplaced]
  | .var name pos =>
      cases hself with
      | var hname => exact ⟨.atom name, rfl, .inl hname.isWord, Expr.ofAtom_name hname⟩
  | .call name args pos =>
      obtain ⟨vs, hdump, htidy, hread⟩ := Expr.exists_readFrom_all args fun n hn =>
        h n (List.mem_cons_of_mem _ hn)
      cases hself with
      | call hname =>
        refine ⟨.list (.atom "call" :: .atom name :: vs), ?_,
          ⟨.inl (by decide), .inl hname.isWord, htidy⟩, ?_⟩
        · rw [Sexpr.ofExpr, hdump]
          rfl
        · rw [Expr.ofSexpr, hread, Expr.unplaced]

theorem Expr.exists_readFrom_all (es : List Expr) (h : ∀ n ∈ Expr.nodesAll es, n.Plain) :
    ∃ vs, Sexpr.ofExprs es = .ok vs ∧ Sexpr.TidyAll vs ∧
      Expr.ofSexprs vs = Expr.unplacedAll es := by
  match es with
  | [] => exact ⟨[], rfl, trivial, rfl⟩
  | e :: es =>
      obtain ⟨v, hv⟩ := e.exists_readFrom fun n hn => h n (List.mem_append_left _ hn)
      obtain ⟨vs, hdump, htidy, hread⟩ :=
        Expr.exists_readFrom_all es fun n hn => h n (List.mem_append_right _ hn)
      refine ⟨v :: vs, ?_, ⟨hv.tidy, htidy⟩, ?_⟩
      · rw [Sexpr.ofExprs, hv.dump, hdump]
        rfl
      · rw [Expr.ofSexprs, hv.read, hread, Expr.unplacedAll]

end

/-- The S-expression is tidy, and the statement can be read from it. -/
structure Stmt.ReadFrom (s : Stmt) (v : Sexpr) : Prop where
  dump : Sexpr.ofStmt s = .ok v
  tidy : v.Tidy
  read : Stmt.ofSexpr v = s.unplaced

mutual

/-- **A plain statement can be read from its S-expression.** -/
theorem Stmt.exists_readFrom (s : Stmt) (hexprs : ∀ e ∈ s.exprs, e.Plain)
    (hstmts : ∀ n ∈ s.nodes, n.Plain) : ∃ v, s.ReadFrom v := by
  have hself := hstmts s s.mem_nodes_self
  match s with
  | .missing => cases hself
  | .expr value pos =>
      obtain ⟨v, hv⟩ := value.exists_readFrom hexprs
      refine ⟨.list [.atom "expr", v], ?_, ⟨.inl (by decide), hv.tidy, trivial⟩, ?_⟩
      · rw [Sexpr.ofStmt, hv.dump]
        rfl
      · rw [Stmt.ofSexpr, hv.read, Stmt.unplaced]
  | .declare name typeName none pos =>
      cases hself with
      | declare hname htype =>
        exact ⟨_, rfl, ⟨.inl (by decide), .inl hname.isWord, .inl htype.isWord, trivial⟩,
          by rw [Stmt.ofSexpr, Stmt.unplaced]; rfl⟩
  | .declare name typeName (some init) pos =>
      obtain ⟨v, hv⟩ := init.exists_readFrom hexprs
      cases hself with
      | declare hname htype =>
        refine ⟨.list [.atom "let", .atom name, .atom typeName, v], ?_,
          ⟨.inl (by decide), .inl hname.isWord, .inl htype.isWord, hv.tidy, trivial⟩, ?_⟩
        · rw [Sexpr.ofStmt, hv.dump]
          rfl
        · rw [Stmt.ofSexpr, hv.read, Stmt.unplaced]
          rfl
  | .assign name value pos =>
      obtain ⟨v, hv⟩ := value.exists_readFrom hexprs
      cases hself with
      | assign hname =>
        refine ⟨.list [.atom "set", .atom name, v], ?_,
          ⟨.inl (by decide), .inl hname.isWord, hv.tidy, trivial⟩, ?_⟩
        · rw [Sexpr.ofStmt, hv.dump]
          rfl
        · rw [Stmt.ofSexpr, hv.read, Stmt.unplaced]
  | .branch cond yes no pos =>
      simp only [Stmt.exprs, List.forall_mem_append] at hexprs
      simp only [Stmt.nodes, List.forall_mem_cons, List.forall_mem_append] at hstmts
      obtain ⟨v, hv⟩ := cond.exists_readFrom hexprs.1
      obtain ⟨vs, hdump, htidy, hread⟩ :=
        Stmt.exists_readFrom_all yes ⟨hexprs.2.1, hstmts.2.1⟩
      obtain ⟨ws, hdump', htidy', hread'⟩ :=
        Stmt.exists_readFrom_all no ⟨hexprs.2.2, hstmts.2.2⟩
      refine ⟨.list [.atom "if", v, .list (.atom "then" :: vs), .list (.atom "else" :: ws)], ?_,
        ⟨.inl (by decide), hv.tidy, ⟨.inl (by decide), htidy⟩, ⟨.inl (by decide), htidy'⟩,
          trivial⟩, ?_⟩
      · rw [Sexpr.ofStmt, hv.dump, hdump, hdump']
        rfl
      · rw [Stmt.ofSexpr, hv.read, hread, hread', Stmt.unplaced]
  | .loop cond body pos =>
      simp only [Stmt.exprs, List.forall_mem_append] at hexprs
      simp only [Stmt.nodes, List.forall_mem_cons] at hstmts
      obtain ⟨v, hv⟩ := cond.exists_readFrom hexprs.1
      obtain ⟨vs, hdump, htidy, hread⟩ :=
        Stmt.exists_readFrom_all body ⟨hexprs.2, hstmts.2⟩
      refine ⟨.list [.atom "while", v, .list (.atom "do" :: vs)], ?_,
        ⟨.inl (by decide), hv.tidy, ⟨.inl (by decide), htidy⟩, trivial⟩, ?_⟩
      · rw [Sexpr.ofStmt, hv.dump, hdump]
        rfl
      · rw [Stmt.ofSexpr, hv.read, hread, Stmt.unplaced]

theorem Stmt.exists_readFrom_all (ss : List Stmt) (h : Stmt.AllPlain ss) :
    ∃ vs, Sexpr.ofStmts ss = .ok vs ∧ Sexpr.TidyAll vs ∧
      Stmt.ofSexprs vs = Stmt.unplacedAll ss := by
  match ss with
  | [] => exact ⟨[], rfl, trivial, rfl⟩
  | s :: ss =>
      obtain ⟨hexprs, hstmts⟩ := h
      simp only [Stmt.exprsAll, List.forall_mem_append] at hexprs
      simp only [Stmt.nodesAll, List.forall_mem_append] at hstmts
      obtain ⟨v, hv⟩ := s.exists_readFrom hexprs.1 hstmts.1
      obtain ⟨vs, hdump, htidy, hread⟩ := Stmt.exists_readFrom_all ss ⟨hexprs.2, hstmts.2⟩
      refine ⟨v :: vs, ?_, ⟨hv.tidy, htidy⟩, ?_⟩
      · rw [Sexpr.ofStmts, hv.dump, hdump]
        rfl
      · rw [Stmt.ofSexprs, hv.read, hread, Stmt.unplacedAll]

end

/-! ## Places are not dumped -/

namespace Sexpr

mutual

theorem ofExpr_unplaced (e : Expr) : ofExpr e.unplaced = ofExpr e := by
  match e with
  | .missing => rfl
  | .literal _ _ => rfl
  | .group inner _ => rw [Expr.unplaced, ofExpr, ofExpr, ofExpr_unplaced inner]
  | .binary _ left right _ =>
      rw [Expr.unplaced, ofExpr, ofExpr, ofExpr_unplaced left, ofExpr_unplaced right]
  | .var _ _ => rfl
  | .call _ args _ => rw [Expr.unplaced, ofExpr, ofExpr, ofExprs_unplaced args]

theorem ofExprs_unplaced (es : List Expr) : ofExprs (Expr.unplacedAll es) = ofExprs es := by
  match es with
  | [] => rfl
  | e :: es =>
      rw [Expr.unplacedAll, ofExprs, ofExprs, ofExpr_unplaced e, ofExprs_unplaced es]

end

mutual

theorem ofStmt_unplaced (s : Stmt) : ofStmt s.unplaced = ofStmt s := by
  match s with
  | .missing => rfl
  | .expr value _ => rw [Stmt.unplaced, ofStmt, ofStmt, ofExpr_unplaced]
  | .declare _ _ none _ => rfl
  | .declare _ _ (some init) _ =>
      rw [Stmt.unplaced, Option.map_some, ofStmt, ofStmt, ofExpr_unplaced]
  | .assign _ value _ => rw [Stmt.unplaced, ofStmt, ofStmt, ofExpr_unplaced]
  | .branch cond yes no _ =>
      rw [Stmt.unplaced, ofStmt, ofStmt, ofExpr_unplaced, ofStmts_unplaced yes,
        ofStmts_unplaced no]
  | .loop cond body _ =>
      rw [Stmt.unplaced, ofStmt, ofStmt, ofExpr_unplaced, ofStmts_unplaced body]

theorem ofStmts_unplaced (ss : List Stmt) : ofStmts (Stmt.unplacedAll ss) = ofStmts ss := by
  match ss with
  | [] => rfl
  | s :: ss =>
      rw [Stmt.unplacedAll, ofStmts, ofStmts, ofStmt_unplaced s, ofStmts_unplaced ss]

end

/-! ## Types taken away -/

mutual

/-- The S-expression with every `(the T e)` in it replaced by `e`. -/
def untyped : Sexpr → Sexpr
  | .list [.atom "the", .atom _, s] => s.untyped
  | .list items => .list (untypedAll items)
  | .atom text => .atom text

/-- The S-expressions with every `(the T e)` in them replaced by `e`. -/
def untypedAll : List Sexpr → List Sexpr
  | [] => []
  | s :: ss => s.untyped :: untypedAll ss

end

theorem untypedAll_eq_map (ss : List Sexpr) : untypedAll ss = ss.map untyped := by
  induction ss with
  | nil => rfl
  | cons s ss ih => rw [untypedAll, ih, List.map_cons]

theorem untyped_the (ty : Ty) (s : Sexpr) : (the ty s).untyped = s.untyped := by
  rw [the, untyped]

/-- No list with another head is a wrapper. -/
theorem untyped_list {w : String} (h : w ≠ "the") (items : List Sexpr) :
    (Sexpr.list (.atom w :: items)).untyped = .list (.atom w :: untypedAll items) := by
  rw [untyped, untypedAll, untyped]
  intro _ _ heq
  injection heq with heq
  injection heq with heq
  exact h heq

end Sexpr

namespace Typing

theorem LiteralTyped.literal_eq {value value' : Constant} {τ : Ty} (h : LiteralTyped value τ value')
    (hratio : ∀ q, value ≠ .ratio q) : Sexpr.literal value' = Sexpr.literal value := by
  cases h with
  | bool b => rfl
  | text s => rfl
  | stray s => rfl
  | @integer n hlow hhigh =>
      have hn : (Int32.ofInt n).toInt = n := Int32.toInt_ofInt_of_le (by omega) (by omega)
      rw [Sexpr.literal, Sexpr.literal, hn]
  | decimal _ => exact absurd rfl (hratio _)

mutual

/-- **The S-expression of a typed expression is that of the expression, with types.** -/
theorem ExprTyped.untyped {lib : Library} {Γ : Env} {e : Expr} {τ : Ty} {t : Typed.Expr} :
    ExprTyped lib Γ e τ t → e.DecimalFree →
      ∃ v, Sexpr.ofTypedExpr t = .ok v ∧ Sexpr.ofExpr e = .ok v.untyped
  | .literal hv, hfree => by
      have heq := hv.literal_eq fun q hq => hfree _ List.mem_cons_self q _ (by rw [hq])
      refine ⟨_, rfl, ?_⟩
      rw [Sexpr.untyped_the, Sexpr.untyped, heq]
      rfl
  | .group he, hfree => by
      obtain ⟨v, hv, hv'⟩ := he.untyped fun n hn => hfree n (List.mem_cons_of_mem _ hn)
      refine ⟨_, by rw [Sexpr.ofTypedExpr, hv]; rfl, ?_⟩
      rw [Sexpr.untyped_the, Sexpr.untyped_list (by decide), Sexpr.ofExpr, hv']
      rfl
  | .binary hl hr hop, hfree => by
      obtain ⟨v, hv, hv'⟩ := hl.untyped fun n hn =>
        hfree n (List.mem_cons_of_mem _ (List.mem_append_left _ hn))
      obtain ⟨w, hw, hw'⟩ := hr.untyped fun n hn =>
        hfree n (List.mem_cons_of_mem _ (List.mem_append_right _ hn))
      have hthe : ∀ op ∈ ["==", "!=", "+", "-", "*", "/"], op ≠ "the" := by decide
      refine ⟨_, by rw [Sexpr.ofTypedExpr, hv, hw]; rfl, ?_⟩
      rw [Sexpr.untyped_the, Sexpr.untyped_list (hthe _ hop.mem_operators), Sexpr.ofExpr, hv', hw']
      rfl
  | .var _, _ => by
      refine ⟨_, rfl, ?_⟩
      rw [Sexpr.untyped_the, Sexpr.untyped]
      rfl
  | .call hf hargs, hfree => by
      obtain ⟨vs, hvs, hvs'⟩ := hargs.untyped fun n hn => hfree n (List.mem_cons_of_mem _ hn)
      refine ⟨_, by rw [Sexpr.ofTypedExpr, hvs]; rfl, ?_⟩
      rw [Sexpr.untyped_the, Sexpr.untyped_list (by decide), Sexpr.ofExpr, hvs',
        Library.name_of_find? hf]
      rfl

theorem ArgsTyped.untyped {lib : Library} {Γ : Env} {es : List Expr} {τs : List Ty}
    {ts : List Typed.Expr} :
    ArgsTyped lib Γ es τs ts →
      (∀ n ∈ Expr.nodesAll es, ∀ q pos, n ≠ .literal (.ratio q) pos) →
      ∃ vs, Sexpr.ofTypedExprs ts = .ok vs ∧ Sexpr.ofExprs es = .ok (Sexpr.untypedAll vs)
  | .nil, _ => ⟨[], rfl, rfl⟩
  | .cons he _ hes, hfree => by
      obtain ⟨v, hv, hv'⟩ := he.untyped fun n hn => hfree n (List.mem_append_left _ hn)
      obtain ⟨vs, hvs, hvs'⟩ := hes.untyped fun n hn => hfree n (List.mem_append_right _ hn)
      refine ⟨v :: vs, by rw [Sexpr.ofTypedExprs, hv, hvs]; rfl, ?_⟩
      rw [Sexpr.ofExprs, hv', hvs']
      rfl

end

mutual

/-- **The S-expression of a typed statement is that of the statement, with types.** -/
theorem StmtTyped.untyped {lib : Library} {Γ Γ' : Env} {s : Stmt} {t : Typed.Stmt} :
    StmtTyped lib Γ s Γ' t → (∀ e ∈ s.exprs, ∀ q pos, e ≠ .literal (.ratio q) pos) →
      ∃ v, Sexpr.ofTypedStmt t = .ok v ∧ Sexpr.ofStmt s = .ok v.untyped
  | .expr he, hfree => by
      obtain ⟨v, hv, hv'⟩ := he.untyped hfree
      refine ⟨_, by rw [Sexpr.ofTypedStmt, hv]; rfl, ?_⟩
      rw [Sexpr.untyped_list (by decide), Sexpr.ofStmt, hv']
      rfl
  | .declare hdecl, _ => by
      refine ⟨_, rfl, ?_⟩
      rw [Sexpr.untyped_list (by decide), Sexpr.ofStmt, hdecl.named]
      rfl
  | .declareInit hdecl he _, hfree => by
      obtain ⟨v, hv, hv'⟩ := he.untyped hfree
      refine ⟨_, by rw [Sexpr.ofTypedStmt, hv]; rfl, ?_⟩
      rw [Sexpr.untyped_list (by decide), Sexpr.ofStmt, hv', hdecl.named]
      rfl
  | .assign _ he _, hfree => by
      obtain ⟨v, hv, hv'⟩ := he.untyped hfree
      refine ⟨_, by rw [Sexpr.ofTypedStmt, hv]; rfl, ?_⟩
      rw [Sexpr.untyped_list (by decide), Sexpr.ofStmt, hv']
      rfl
  | .branch hc hyes hno, hfree => by
      simp only [Stmt.exprs, List.forall_mem_append] at hfree
      obtain ⟨v, hv, hv'⟩ := hc.untyped hfree.1
      obtain ⟨vs, hvs, hvs'⟩ := hyes.untyped hfree.2.1
      obtain ⟨ws, hws, hws'⟩ := hno.untyped hfree.2.2
      refine ⟨_, by rw [Sexpr.ofTypedStmt, hv, hvs, hws]; rfl, ?_⟩
      rw [Sexpr.untyped_list (by decide), Sexpr.ofStmt, hv', hvs', hws']
      simp only [Sexpr.untypedAll, Sexpr.untyped_list (show "then" ≠ "the" by decide),
        Sexpr.untyped_list (show "else" ≠ "the" by decide)]
      rfl
  | .loop hc hbody, hfree => by
      simp only [Stmt.exprs, List.forall_mem_append] at hfree
      obtain ⟨v, hv, hv'⟩ := hc.untyped hfree.1
      obtain ⟨vs, hvs, hvs'⟩ := hbody.untyped hfree.2
      refine ⟨_, by rw [Sexpr.ofTypedStmt, hv, hvs]; rfl, ?_⟩
      rw [Sexpr.untyped_list (by decide), Sexpr.ofStmt, hv', hvs']
      simp only [Sexpr.untypedAll, Sexpr.untyped_list (show "do" ≠ "the" by decide)]
      rfl

theorem BlockTyped.untyped {lib : Library} {Γ Γ' : Env} {ss : List Stmt} {ts : List Typed.Stmt} :
    BlockTyped lib Γ ss Γ' ts →
      (∀ e ∈ Stmt.exprsAll ss, ∀ q pos, e ≠ .literal (.ratio q) pos) →
      ∃ vs, Sexpr.ofTypedStmts ts = .ok vs ∧ Sexpr.ofStmts ss = .ok (Sexpr.untypedAll vs)
  | .nil, _ => ⟨[], rfl, rfl⟩
  | .cons hs hss, hfree => by
      simp only [Stmt.exprsAll, List.forall_mem_append] at hfree
      obtain ⟨v, hv, hv'⟩ := hs.untyped hfree.1
      obtain ⟨vs, hvs, hvs'⟩ := hss.untyped hfree.2
      refine ⟨v :: vs, by rw [Sexpr.ofTypedStmts, hv, hvs]; rfl, ?_⟩
      rw [Sexpr.ofStmts, hv', hvs']
      rfl

end

end Typing

/-! ## The two dumps -/

theorem Sexpr.length_of_ofStmts {ss : List Stmt} {vs : List Sexpr}
    (h : Sexpr.ofStmts ss = .ok vs) : vs.length = ss.length := by
  induction ss generalizing vs with
  | nil => cases h; rfl
  | cons s ss ih =>
      rw [Sexpr.ofStmts, bind_eq_ok] at h
      obtain ⟨v, -, h⟩ := h
      obtain ⟨ws, hws, h⟩ := bind_eq_ok.mp h
      cases h
      rw [List.length_cons, List.length_cons, ih hws]

theorem Sexpr.tidy_of_mem {vs : List Sexpr} (h : Sexpr.TidyAll vs) : ∀ v ∈ vs, v.Tidy := by
  induction vs with
  | nil => exact fun _ hv => absurd hv List.not_mem_nil
  | cons v vs ih => exact List.forall_mem_cons.mpr ⟨h.1, ih h.2⟩

/-- **A program of plain nodes can be read from its dump.** -/
theorem Program.exists_dump {p : Program} (h : Stmt.AllPlain p) :
    ∃ vs, p.dump = .ok (Sexpr.lines vs) ∧ vs.length = p.length ∧ (∀ v ∈ vs, v.Tidy) ∧
      Program.ofDump (Sexpr.lines vs) = Stmt.unplacedAll p := by
  obtain ⟨vs, hdump, htidy, hread⟩ := Stmt.exists_readFrom_all p h
  refine ⟨vs, by rw [Program.dump, hdump]; rfl, Sexpr.length_of_ofStmts hdump,
    Sexpr.tidy_of_mem htidy, ?_⟩
  rw [Program.ofDump, Sexpr.read_lines htidy, hread]

/--
**The dump of a program is faithful.** Let a text be parsed as a program without decimal literals.
The dump of the program consists of lines, one for each of its statements. The program can be read
from it apart from places; so two such programs have the same dump exactly if they differ in places
only. And if the program is checked, with any library and in any scope, then its S-expressions are
those of the checked program without the types.
-/
theorem Program.dump_faithful (source : List UInt8) (p : Program)
    (hparse : Program.parse source = .ok p) (hfree : p.DecimalFree) :
    (∃ rows : List String, p.dump = .ok (String.join (rows.map (· ++ "\n"))) ∧
      rows.length = p.length ∧ ∀ row ∈ rows, '\n' ∉ row.toList) ∧
    (∀ text, p.dump = .ok text → Program.ofDump text = Stmt.unplacedAll p) ∧
    (∀ (source' : List UInt8) (q : Program), Program.parse source' = .ok q → q.DecimalFree →
      (p.dump = q.dump ↔ Stmt.unplacedAll p = Stmt.unplacedAll q)) ∧
    (∀ (lib : Library) (scope after : Scope) (typed : Typed.Program),
      p.check lib scope = (.ok typed, after) →
      ∃ vs, Sexpr.ofTypedStmts typed = .ok vs ∧
        Sexpr.ofStmts p = .ok (vs.map Sexpr.untyped)) := by
  obtain ⟨vs, hdump, hlength, htidy, hread⟩ :=
    Program.exists_dump (Program.plain_of_parse hparse hfree)
  refine ⟨⟨vs.map Sexpr.text, ?_, by rw [List.length_map, hlength], ?_⟩, ?_, ?_, ?_⟩
  · rw [hdump, Sexpr.lines, List.map_map]
    rfl
  · exact List.forall_mem_map.mpr fun v hv => Sexpr.feed_notMem_text v (htidy v hv)
  · intro text htext
    cases hdump.symm.trans htext
    exact hread
  · intro source' q hparse' hfree'
    obtain ⟨ws, hdump', -, -, hread'⟩ :=
      Program.exists_dump (Program.plain_of_parse hparse' hfree')
    constructor
    · intro heq
      have hlines : Sexpr.lines vs = Sexpr.lines ws :=
        Except.ok.inj ((hdump.symm.trans heq).trans hdump')
      rw [← hread, hlines, hread']
    · intro heq
      rw [Program.dump, Program.dump, ← Sexpr.ofStmts_unplaced p, heq, Sexpr.ofStmts_unplaced]
  · intro lib scope after typed hcheck
    obtain ⟨us, hus, hus'⟩ := (Typing.block_sound p hcheck).untyped hfree
    exact ⟨us, hus, by rw [hus', Sexpr.untypedAll_eq_map]⟩

/-- A loop that prints a text with a parenthesis, a quote and a line feed in it. -/
def quotingLoop : List UInt8 :=
  utf8Bytes "WHILE TRUE DO PRINT(\") \\\"\\n(\" + -007) END"

/-- The program that this text is. -/
def quotingLoopTree : Program :=
  [.loop (.literal (.bool true) ⟨6, 1, 7⟩)
    [.expr (.call "PRINT" [.binary "+" (.literal (.text ") \"\n(") ⟨20, 1, 21⟩)
      (.literal (.integer (-7)) ⟨32, 1, 33⟩) ⟨30, 1, 31⟩] ⟨14, 1, 15⟩) ⟨14, 1, 15⟩] ⟨0, 1, 1⟩]

theorem Program.dump_faithful_quotingLoop :
    Program.parse quotingLoop = .ok quotingLoopTree ∧
    Program.dump quotingLoopTree =
      .ok "(while TRUE (do (expr (call PRINT (+ \") \\\"\\n(\" -7)))))\n" ∧
    Program.ofDump "(while TRUE (do (expr (call PRINT (+ \") \\\"\\n(\" -7)))))\n" =
      Stmt.unplacedAll quotingLoopTree ∧
    (∃ rows : List String, rows.length = 1 ∧
      Program.dump quotingLoopTree = .ok (String.join (rows.map (· ++ "\n")))) ∧
    ∃ typed after vs, Program.check .standard .empty quotingLoopTree = (.ok typed, after) ∧
      Sexpr.ofTypedStmts typed = .ok vs ∧
      Sexpr.ofStmts quotingLoopTree = .ok (vs.map Sexpr.untyped) := by
  have hparse : Program.parse quotingLoop = .ok quotingLoopTree := by with_unfolding_all rfl
  have hfree : Program.DecimalFree quotingLoopTree := by
    simp [Program.DecimalFree, quotingLoopTree, Stmt.exprsAll, Stmt.exprs, Expr.nodes,
      Expr.nodesAll]
  have hdump : Program.dump quotingLoopTree =
      .ok "(while TRUE (do (expr (call PRINT (+ \") \\\"\\n(\" -7)))))\n" := by
    with_unfolding_all rfl
  obtain ⟨⟨rows, hrows, hlength, -⟩, hread, -, htyped⟩ :=
    Program.dump_faithful quotingLoop quotingLoopTree hparse hfree
  have hcheck : ∃ typed after,
      Program.check .standard .empty quotingLoopTree = (.ok typed, after) := by
    exact ⟨_, _, by with_unfolding_all rfl⟩
  obtain ⟨typed, after, hcheck⟩ := hcheck
  obtain ⟨vs, hvs, hvs'⟩ := htyped _ _ _ _ hcheck
  exact ⟨hparse, hdump, hread _ hdump, ⟨rows, hlength, hrows⟩, typed, after, vs, hcheck, hvs, hvs'⟩

end LetWhile
