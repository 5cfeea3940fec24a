import LetWhile.Program.Parser

/-!
# The grammar

What a list of tokens may say, and the tree that it stands for, without a parser. A relation such as
`Statement ts s rest` says that `ts` starts with the statement `s` and that `rest` stands behind it.

The grammar is written the way one would explain it. A chain of operators is a shorter chain with
one more operator and operand, so it groups to the left because no other tree can be built. Blocks
are any mixture of statements and semicolons.

There is one condition that looks beyond what is derived. Statements need no separator, so nothing
in the rules would keep `f (x)` from being the variable `f` and then the group `(x)`. A complete
expression must therefore stand in front of something that can end it: see `Ends`. The operands
inside an expression need no such condition.

Positions are part of the tree. An operator gives its own place to the tree that it joins, and
everything else has the place of its first token.
-/

namespace LetWhile.Grammar

open LetWhile.Parser

/-- What may stand behind a complete expression. -/
inductive Ends : List Token → Prop where
  /-- The input may be over. -/
  | input : Ends []
  /-- A mark may follow that separates statements or arguments, or closes a parenthesis. -/
  | mark {t : Token} {rest : List Token} {op : String} :
      op ∈ [";", ")", ","] → t.isOperator op → Ends (t :: rest)
  /-- A word may follow that closes a part of a statement, or starts the next one. -/
  | word {t : Token} {rest : List Token} {w : String} :
      w ∈ ["DO", "THEN", "ELSE", "END", "LET", "IF", "WHILE"] → t.isWord w → Ends (t :: rest)
  /-- The next statement may be an assignment. -/
  | assignment {x eq : Token} {rest : List Token} :
      x.isName → eq.isOperator "=" → Ends (x :: eq :: rest)

mutual

/-- An operand without operators outside parentheses. -/
inductive Primary : List Token → Expr → List Token → Prop where
  | trueWord {t : Token} {rest : List Token} :
      t.isWord "TRUE" → Primary (t :: rest) (.literal (.bool true) t.pos) rest
  | falseWord {t : Token} {rest : List Token} :
      t.isWord "FALSE" → Primary (t :: rest) (.literal (.bool false) t.pos) rest
  | var {x : Token} {rest : List Token} :
      x.isName → Primary (x :: rest) (.var x.text x.pos) rest
  | call {f p : Token} {ts rest : List Token} {args : List Expr} :
      f.isName → p.isOperator "(" → Arguments ts args rest →
      Primary (f :: p :: ts) (.call f.text args f.pos) rest
  | group {p q : Token} {ts rest : List Token} {e : Expr} :
      p.isOperator "(" → Expression ts e (q :: rest) → q.isOperator ")" →
      Primary (p :: ts) (.group e p.pos) rest
  | integer {t : Token} {rest : List Token} {n : Int} :
      t.kind = .integer → Numeral.integer? t.text = some n →
      Primary (t :: rest) (.literal (.integer n) t.pos) rest
  | decimal {t : Token} {rest : List Token} {q : Rat} :
      t.kind = .decimal → Notation.decimal? t.text = some q →
      Primary (t :: rest) (.literal (.ratio q) t.pos) rest
  /-- A string token has room for its two quotes. -/
  | string {t : Token} {rest : List Token} :
      t.kind = .string → 2 ≤ t.text.utf8ByteSize →
      Primary (t :: rest) (.literal (.ofBytes (literalText t.text)) t.pos) rest

/-- What the operators of a tier join: chains of the next tier, and operands in the last one. -/
inductive Operand : Tier → List Token → Expr → List Token → Prop where
  | sum {ts rest : List Token} {e : Expr} :
      Chain .additive ts e rest → Operand .equality ts e rest
  | product {ts rest : List Token} {e : Expr} :
      Chain .multiplicative ts e rest → Operand .additive ts e rest
  | primary {ts rest : List Token} {e : Expr} :
      Primary ts e rest → Operand .multiplicative ts e rest

/-- Operands joined by the operators of a tier, from the left. -/
inductive Chain : Tier → List Token → Expr → List Token → Prop where
  | single {t : Tier} {ts rest : List Token} {e : Expr} :
      Operand t ts e rest → Chain t ts e rest
  | join {t : Tier} {op : Token} {ts mid rest : List Token} {left right : Expr} :
      Chain t ts left (op :: mid) → t.has op → Operand t mid right rest →
      Chain t ts (.binary op.text left right op.pos) rest

/-- A complete expression, with something behind it that can end it. -/
inductive Expression : List Token → Expr → List Token → Prop where
  | mk {ts rest : List Token} {e : Expr} :
      Chain .equality ts e rest → Ends rest → Expression ts e rest

/-- The arguments of a call with the closing parenthesis. -/
inductive Arguments : List Token → List Expr → List Token → Prop where
  | empty {q : Token} {rest : List Token} : q.isOperator ")" → Arguments (q :: rest) [] rest
  | list {ts rest : List Token} {args : List Expr} :
      ArgumentList ts args rest → Arguments ts args rest

/-- One or more arguments with commas between them, and the closing parenthesis. -/
inductive ArgumentList : List Token → List Expr → List Token → Prop where
  | last {q : Token} {ts rest : List Token} {e : Expr} :
      Expression ts e (q :: rest) → q.isOperator ")" → ArgumentList ts [e] rest
  | more {c : Token} {ts mid rest : List Token} {e : Expr} {args : List Expr} :
      Expression ts e (c :: mid) → c.isOperator "," → ArgumentList mid args rest →
      ArgumentList ts (e :: args) rest

end

mutual

/-- A statement. A branch without an else block has an empty one. -/
inductive Statement : List Token → Stmt → List Token → Prop where
  | declare {l x c y : Token} {rest : List Token} :
      l.isWord "LET" → x.isName → c.isOperator ":" → y.isName →
      Statement (l :: x :: c :: y :: rest) (.declare x.text y.text none l.pos) rest
  | declareInit {l x c y eq : Token} {ts rest : List Token} {e : Expr} :
      l.isWord "LET" → x.isName → c.isOperator ":" → y.isName → eq.isOperator "=" →
      Expression ts e rest →
      Statement (l :: x :: c :: y :: eq :: ts) (.declare x.text y.text (some e) l.pos) rest
  | assign {x eq : Token} {ts rest : List Token} {e : Expr} :
      x.isName → eq.isOperator "=" → Expression ts e rest →
      Statement (x :: eq :: ts) (.assign x.text e x.pos) rest
  | branch {i w close : Token} {ts yesTs rest : List Token} {cond : Expr} {yes : List Stmt} :
      i.isWord "IF" → Expression ts cond (w :: yesTs) → w.isWord "THEN" →
      Block yesTs yes (close :: rest) → close.isWord "END" →
      Statement (i :: ts) (.branch cond yes [] i.pos) rest
  | branchElse {i w v close : Token} {ts yesTs noTs rest : List Token} {cond : Expr}
      {yes no : List Stmt} :
      i.isWord "IF" → Expression ts cond (w :: yesTs) → w.isWord "THEN" →
      Block yesTs yes (v :: noTs) → v.isWord "ELSE" →
      Block noTs no (close :: rest) → close.isWord "END" →
      Statement (i :: ts) (.branch cond yes no i.pos) rest
  | loop {i w close : Token} {ts bodyTs rest : List Token} {cond : Expr} {body : List Stmt} :
      i.isWord "WHILE" → Expression ts cond (w :: bodyTs) → w.isWord "DO" →
      Block bodyTs body (close :: rest) → close.isWord "END" →
      Statement (i :: ts) (.loop cond body i.pos) rest
  | expr {ts rest : List Token} {e : Expr} :
      Expression ts e rest → Statement ts (.expr e e.pos) rest

/-- Statements with any number of semicolons before, between and behind them. -/
inductive Block : List Token → List Stmt → List Token → Prop where
  | done {rest : List Token} : Block rest [] rest
  | separator {t : Token} {ts rest : List Token} {ss : List Stmt} :
      t.isOperator ";" → Block ts ss rest → Block (t :: ts) ss rest
  | cons {ts mid rest : List Token} {s : Stmt} {ss : List Stmt} :
      Statement ts s mid → Block mid ss rest → Block ts (s :: ss) rest

end

/-- The tokens `ts` make up the program `p`. -/
def Derives (ts : List Token) (p : Program) : Prop := Block ts p []

end LetWhile.Grammar
