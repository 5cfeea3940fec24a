import Mathlib.Data.List.Forall2
import LetWhile.Proofs.Checking
import LetWhile.Proofs.Parsing

/-!
# The nodes of a tree

All expressions and all statements of a program, in the order of its text. What a tree consists of
is known of each of its nodes:

* every node of a parsed program comes from a token, which gives it its place and, to a variable or
  a call, its name;
* the nodes of a checked program are, one for one, the typed forms of the nodes of the program;
* what the checker finds wrong, it finds at a node.
-/

namespace LetWhile

mutual

/-- An expression and all expressions in it. -/
def Expr.nodes : Expr → List Expr
  | .missing => [.missing]
  | .literal value pos => [.literal value pos]
  | .group inner pos => .group inner pos :: inner.nodes
  | .binary op left right pos => .binary op left right pos :: (left.nodes ++ right.nodes)
  | .var name pos => [.var name pos]
  | .call name args pos => .call name args pos :: Expr.nodesAll args

/-- Expressions and all expressions in them. -/
def Expr.nodesAll : List Expr → List Expr
  | [] => []
  | e :: es => e.nodes ++ Expr.nodesAll es

end

/-- The variable that an expression is, or the function that it calls. -/
def Expr.name? : Expr → Option String
  | .var name _ => some name
  | .call name _ _ => some name
  | _ => none

/-- The place of a statement. -/
def Stmt.pos : Stmt → Position
  | .missing => {}
  | .expr _ pos => pos
  | .declare _ _ _ pos => pos
  | .assign _ _ pos => pos
  | .branch _ _ _ pos => pos
  | .loop _ _ pos => pos

mutual

/-- A statement and all statements in it. -/
def Stmt.nodes : Stmt → List Stmt
  | .missing => [.missing]
  | .expr value pos => [.expr value pos]
  | .declare name typeName init pos => [.declare name typeName init pos]
  | .assign name value pos => [.assign name value pos]
  | .branch cond yes no pos =>
    .branch cond yes no pos :: (Stmt.nodesAll yes ++ Stmt.nodesAll no)
  | .loop cond body pos => .loop cond body pos :: Stmt.nodesAll body

/-- Statements and all statements in them. -/
def Stmt.nodesAll : List Stmt → List Stmt
  | [] => []
  | s :: ss => s.nodes ++ Stmt.nodesAll ss

end

mutual

/-- All expressions in a statement. -/
def Stmt.exprs : Stmt → List Expr
  | .missing => []
  | .expr value _ => value.nodes
  | .declare _ _ none _ => []
  | .declare _ _ (some init) _ => init.nodes
  | .assign _ value _ => value.nodes
  | .branch cond yes no _ => cond.nodes ++ (Stmt.exprsAll yes ++ Stmt.exprsAll no)
  | .loop cond body _ => cond.nodes ++ Stmt.exprsAll body

/-- All expressions in statements. -/
def Stmt.exprsAll : List Stmt → List Expr
  | [] => []
  | s :: ss => s.exprs ++ Stmt.exprsAll ss

end

/-- The places of all nodes of a statement. -/
def Stmt.places (s : Stmt) : List Position :=
  s.nodes.map Stmt.pos ++ s.exprs.map Expr.pos

/-- The places of all nodes of a program. -/
def Program.places (p : Program) : List Position :=
  (Stmt.nodesAll p).map Stmt.pos ++ (Stmt.exprsAll p).map Expr.pos

namespace Typed

mutual

/-- An expression and all expressions in it. -/
def Expr.nodes : Expr → List Expr
  | .missing => [.missing]
  | .literal ty value pos => [.literal ty value pos]
  | .group ty inner pos => .group ty inner pos :: inner.nodes
  | .binary ty op left right pos => .binary ty op left right pos :: (left.nodes ++ right.nodes)
  | .var ty name pos => [.var ty name pos]
  | .call function args pos => .call function args pos :: Expr.nodesAll args

/-- Expressions and all expressions in them. -/
def Expr.nodesAll : List Expr → List Expr
  | [] => []
  | e :: es => e.nodes ++ Expr.nodesAll es

end

/-- The place of a statement. -/
def Stmt.pos : Stmt → Position
  | .missing => {}
  | .expr _ pos => pos
  | .declare _ _ _ pos => pos
  | .assign _ _ pos => pos
  | .branch _ _ _ pos => pos
  | .loop _ _ pos => pos

mutual

/-- A statement and all statements in it. -/
def Stmt.nodes : Stmt → List Stmt
  | .missing => [.missing]
  | .expr value pos => [.expr value pos]
  | .declare name ty init pos => [.declare name ty init pos]
  | .assign name value pos => [.assign name value pos]
  | .branch cond yes no pos =>
    .branch cond yes no pos :: (Stmt.nodesAll yes ++ Stmt.nodesAll no)
  | .loop cond body pos => .loop cond body pos :: Stmt.nodesAll body

/-- Statements and all statements in them. -/
def Stmt.nodesAll : List Stmt → List Stmt
  | [] => []
  | s :: ss => s.nodes ++ Stmt.nodesAll ss

end

mutual

/-- All expressions in a statement. -/
def Stmt.exprs : Stmt → List Expr
  | .missing => []
  | .expr value _ => value.nodes
  | .declare _ _ none _ => []
  | .declare _ _ (some init) _ => init.nodes
  | .assign _ value _ => value.nodes
  | .branch cond yes no _ => cond.nodes ++ (Stmt.exprsAll yes ++ Stmt.exprsAll no)
  | .loop cond body _ => cond.nodes ++ Stmt.exprsAll body

/-- All expressions in statements. -/
def Stmt.exprsAll : List Stmt → List Expr
  | [] => []
  | s :: ss => s.exprs ++ Stmt.exprsAll ss

end

/-- The places of all nodes of a checked program. -/
def Program.places (p : Program) : List Position :=
  (Stmt.nodesAll p).map Stmt.pos ++ (Stmt.exprsAll p).map Expr.pos

end Typed

theorem Expr.mem_nodes_self (e : Expr) : e ∈ e.nodes := by
  cases e <;> exact List.mem_cons_self

theorem Stmt.mem_nodes_self (s : Stmt) : s ∈ s.nodes := by
  cases s <;> exact List.mem_cons_self

/-! ## Nodes come from tokens -/

namespace Grammar

open LetWhile.Parser

variable {P : Token → Prop}

/-- The grammar derives the expression, as a chain of some tier, from tokens that satisfy `P`. -/
def DerivedFrom (P : Token → Prop) (e : Expr) : Prop :=
  ∃ t ts rest, Chain t ts e rest ∧ ∀ t ∈ ts, P t

theorem Primary.derivedFrom_self {ts rest : List Token} {e : Expr} (h : Primary ts e rest)
    (hP : ∀ t ∈ ts, P t) : DerivedFrom P e :=
  ⟨.multiplicative, ts, rest, .single (.primary h), hP⟩

/-! Each of these also says that what is left consists of such tokens, so that the next part of a
construct can be dealt with. -/

theorem Primary.derivedFrom_leaf {t : Token} {ts : List Token} {e : Expr}
    (h : Primary (t :: ts) e ts) (hleaf : e.nodes = [e]) (hP : ∀ u ∈ t :: ts, P u) :
    (∀ n ∈ e.nodes, DerivedFrom P n) ∧ ∀ u ∈ ts, P u := by
  rw [hleaf]
  exact ⟨List.forall_mem_singleton.mpr (h.derivedFrom_self hP), (List.forall_mem_cons.mp hP).2⟩

mutual

theorem Primary.derivedFrom {ts rest : List Token} {e : Expr} :
    Primary ts e rest → (∀ t ∈ ts, P t) → (∀ n ∈ e.nodes, DerivedFrom P n) ∧ ∀ t ∈ rest, P t
  | .trueWord ht, hP => Primary.derivedFrom_leaf (.trueWord ht) rfl hP
  | .falseWord ht, hP => Primary.derivedFrom_leaf (.falseWord ht) rfl hP
  | .var hx, hP => Primary.derivedFrom_leaf (.var hx) rfl hP
  | .integer hk hv, hP => Primary.derivedFrom_leaf (.integer hk hv) rfl hP
  | .decimal hk hv, hP => Primary.derivedFrom_leaf (.decimal hk hv) rfl hP
  | .string hk hs, hP => Primary.derivedFrom_leaf (.string hk hs) rfl hP
  | .call hf hp hargs, hP => by
      have hself := (Primary.call hf hp hargs).derivedFrom_self hP
      simp only [List.forall_mem_cons] at hP
      obtain ⟨-, -, hP⟩ := hP
      obtain ⟨hnodes, hrest⟩ := hargs.derivedFrom hP
      exact ⟨List.forall_mem_cons.mpr ⟨hself, hnodes⟩, hrest⟩
  | .group hp he hq, hP => by
      have hself := (Primary.group hp he hq).derivedFrom_self hP
      obtain ⟨hnodes, hrest⟩ := he.derivedFrom (List.forall_mem_cons.mp hP).2
      exact ⟨List.forall_mem_cons.mpr ⟨hself, hnodes⟩, (List.forall_mem_cons.mp hrest).2⟩

theorem Operand.derivedFrom {t : Tier} {ts rest : List Token} {e : Expr} :
    Operand t ts e rest → (∀ t ∈ ts, P t) →
      (∀ n ∈ e.nodes, DerivedFrom P n) ∧ ∀ t ∈ rest, P t
  | .sum h, hP => h.derivedFrom hP
  | .product h, hP => h.derivedFrom hP
  | .primary h, hP => h.derivedFrom hP

theorem Chain.derivedFrom {t : Tier} {ts rest : List Token} {e : Expr} :
    Chain t ts e rest → (∀ t ∈ ts, P t) →
      (∀ n ∈ e.nodes, DerivedFrom P n) ∧ ∀ t ∈ rest, P t
  | .single h, hP => h.derivedFrom hP
  | .join h hop hright, hP => by
      have hself : DerivedFrom P _ := ⟨_, _, _, .join h hop hright, hP⟩
      obtain ⟨hleft, hmid⟩ := h.derivedFrom hP
      obtain ⟨hright, hrest⟩ := hright.derivedFrom (List.forall_mem_cons.mp hmid).2
      refine ⟨List.forall_mem_cons.mpr ⟨hself, fun n hn => ?_⟩, hrest⟩
      exact (List.mem_append.mp hn).elim (hleft n) (hright n)

theorem Expression.derivedFrom {ts rest : List Token} {e : Expr} :
    Expression ts e rest → (∀ t ∈ ts, P t) →
      (∀ n ∈ e.nodes, DerivedFrom P n) ∧ ∀ t ∈ rest, P t
  | .mk h _, hP => h.derivedFrom hP

theorem Arguments.derivedFrom {ts rest : List Token} {args : List Expr} :
    Arguments ts args rest → (∀ t ∈ ts, P t) →
      (∀ n ∈ Expr.nodesAll args, DerivedFrom P n) ∧ ∀ t ∈ rest, P t
  | .empty _, hP => ⟨fun _ hn => absurd hn List.not_mem_nil, (List.forall_mem_cons.mp hP).2⟩
  | .list h, hP => h.derivedFrom hP

theorem ArgumentList.derivedFrom {ts rest : List Token} {args : List Expr} :
    ArgumentList ts args rest → (∀ t ∈ ts, P t) →
      (∀ n ∈ Expr.nodesAll args, DerivedFrom P n) ∧ ∀ t ∈ rest, P t
  | .last he _, hP => by
      obtain ⟨hnodes, hrest⟩ := he.derivedFrom hP
      refine ⟨fun n hn => ?_, (List.forall_mem_cons.mp hrest).2⟩
      rw [Expr.nodesAll, Expr.nodesAll, List.append_nil] at hn
      exact hnodes n hn
  | .more he _ hargs, hP => by
      obtain ⟨hnodes, hmid⟩ := he.derivedFrom hP
      obtain ⟨hmore, hrest⟩ := hargs.derivedFrom (List.forall_mem_cons.mp hmid).2
      exact ⟨fun n hn => (List.mem_append.mp hn).elim (hnodes n) (hmore n), hrest⟩

end

/-- The token gives the expression its place and, if it has a name, its name. -/
structure Origin (e : Expr) (t : Token) : Prop where
  pos_eq : e.pos = t.pos
  name_eq : ∀ x, e.name? = some x → t.isName = true ∧ t.text = x
  stray_eq : ∀ s pos, e = .literal (.stray s) pos →
    t.kind = .string ∧ Constant.ofBytes (literalText t.text) = .stray s

theorem Primary.origin {ts rest : List Token} {e : Expr} (h : Primary ts e rest)
    (hP : ∀ t ∈ ts, P t) : ∃ t, P t ∧ Origin e t := by
  cases h with
  | trueWord _ => exact ⟨_, hP _ List.mem_cons_self, rfl, nofun, nofun⟩
  | falseWord _ => exact ⟨_, hP _ List.mem_cons_self, rfl, nofun, nofun⟩
  | var hx => exact ⟨_, hP _ List.mem_cons_self, rfl, fun _ h => ⟨hx, Option.some.inj h⟩, nofun⟩
  | call hf _ _ =>
      exact ⟨_, hP _ List.mem_cons_self, rfl, fun _ h => ⟨hf, Option.some.inj h⟩, nofun⟩
  | group _ _ _ => exact ⟨_, hP _ List.mem_cons_self, rfl, nofun, nofun⟩
  | integer _ _ => exact ⟨_, hP _ List.mem_cons_self, rfl, nofun, nofun⟩
  | decimal _ _ => exact ⟨_, hP _ List.mem_cons_self, rfl, nofun, nofun⟩
  | string hkind _ =>
      exact ⟨_, hP _ List.mem_cons_self, rfl, nofun, fun _ _ h => ⟨hkind, (Expr.literal.inj h).1⟩⟩

mutual

theorem Operand.origin {t : Tier} {ts rest : List Token} {e : Expr} :
    Operand t ts e rest → (∀ t ∈ ts, P t) → ∃ t, P t ∧ Origin e t
  | .sum h, hP => h.origin hP
  | .product h, hP => h.origin hP
  | .primary h, hP => h.origin hP

theorem Chain.origin {t : Tier} {ts rest : List Token} {e : Expr} :
    Chain t ts e rest → (∀ t ∈ ts, P t) → ∃ t, P t ∧ Origin e t
  | .single h, hP => h.origin hP
  | .join h _ _, hP => ⟨_, (h.derivedFrom hP).2 _ List.mem_cons_self, rfl, nofun, nofun⟩

end

/-- A derived expression has the place and the name of a token. -/
theorem DerivedFrom.origin {e : Expr} (h : DerivedFrom P e) : ∃ t, P t ∧ Origin e t := by
  obtain ⟨t, ts, rest, h, hP⟩ := h
  exact h.origin hP

/-- What stands in a derived expression is derived too. -/
theorem DerivedFrom.nodes {e : Expr} (h : DerivedFrom P e) : ∀ n ∈ e.nodes, DerivedFrom P n := by
  obtain ⟨t, ts, rest, h, hP⟩ := h
  exact (h.derivedFrom hP).1

/-- The statement was derived from tokens that satisfy `P`. -/
def StatementFrom (P : Token → Prop) (s : Stmt) : Prop :=
  ∃ ts rest, Statement ts s rest ∧ ∀ t ∈ ts, P t

/-- A derived statement has the place of a token. -/
theorem StatementFrom.pos_eq {s : Stmt} (h : StatementFrom P s) : ∃ t, P t ∧ s.pos = t.pos := by
  obtain ⟨ts, rest, h, hP⟩ := h
  cases h with
  | expr he =>
      obtain ⟨hnodes, -⟩ := he.derivedFrom hP
      obtain ⟨t, ht, horigin⟩ := (hnodes _ (Expr.mem_nodes_self _)).origin
      exact ⟨t, ht, horigin.pos_eq⟩
  | _ => exact ⟨_, hP _ List.mem_cons_self, rfl⟩

/-- Expressions and statements that tokens which satisfy `P` gave rise to. -/
structure TreeFrom (P : Token → Prop) (es : List Expr) (ss : List Stmt) : Prop where
  exprs : ∀ e ∈ es, DerivedFrom P e
  stmts : ∀ s ∈ ss, StatementFrom P s

theorem TreeFrom.append {es es' : List Expr} {ss ss' : List Stmt} (h : TreeFrom P es ss)
    (h' : TreeFrom P es' ss') : TreeFrom P (es ++ es') (ss ++ ss') :=
  ⟨fun e he => (List.mem_append.mp he).elim (h.exprs e) (h'.exprs e),
    fun s hs => (List.mem_append.mp hs).elim (h.stmts s) (h'.stmts s)⟩

/-- A statement with the expressions `es` of its own and the blocks below it. -/
theorem TreeFrom.cons {s : Stmt} {es es' : List Expr} {ss : List Stmt} (hs : StatementFrom P s)
    (hes : ∀ e ∈ es, DerivedFrom P e) (h : TreeFrom P es' ss) :
    TreeFrom P (es ++ es') (s :: ss) :=
  ⟨fun e he => (List.mem_append.mp he).elim (hes e) (h.exprs e),
    List.forall_mem_cons.mpr ⟨hs, h.stmts⟩⟩

theorem TreeFrom.nil : TreeFrom P [] [] :=
  ⟨fun _ he => absurd he List.not_mem_nil, fun _ hs => absurd hs List.not_mem_nil⟩

/-- A statement without blocks below it. -/
theorem TreeFrom.leaf {s : Stmt} {es : List Expr} (hs : StatementFrom P s)
    (hes : ∀ e ∈ es, DerivedFrom P e) : TreeFrom P es [s] := by
  have h := TreeFrom.cons hs hes .nil
  rwa [List.append_nil] at h

mutual

theorem Statement.treeFrom {ts rest : List Token} {s : Stmt} :
    Statement ts s rest → (∀ t ∈ ts, P t) → TreeFrom P s.exprs s.nodes ∧ ∀ t ∈ rest, P t
  | .declare hl hx hc hy, hP => by
      have hself : StatementFrom P _ := ⟨_, _, .declare hl hx hc hy, hP⟩
      simp only [List.forall_mem_cons] at hP
      obtain ⟨-, -, -, -, hrest⟩ := hP
      exact ⟨.leaf hself (fun _ he => absurd he List.not_mem_nil), hrest⟩
  | .declareInit hl hx hc hy heq he, hP => by
      have hself : StatementFrom P _ := ⟨_, _, .declareInit hl hx hc hy heq he, hP⟩
      simp only [List.forall_mem_cons] at hP
      obtain ⟨-, -, -, -, -, hP⟩ := hP
      obtain ⟨hnodes, hrest⟩ := he.derivedFrom hP
      exact ⟨.leaf hself hnodes, hrest⟩
  | .assign hx heq he, hP => by
      have hself : StatementFrom P _ := ⟨_, _, .assign hx heq he, hP⟩
      simp only [List.forall_mem_cons] at hP
      obtain ⟨-, -, hP⟩ := hP
      obtain ⟨hnodes, hrest⟩ := he.derivedFrom hP
      exact ⟨.leaf hself hnodes, hrest⟩
  | .branch hi hc hw hyes hclose, hP => by
      have hself : StatementFrom P _ := ⟨_, _, .branch hi hc hw hyes hclose, hP⟩
      obtain ⟨-, hP⟩ := List.forall_mem_cons.mp hP
      obtain ⟨hcond, hP⟩ := hc.derivedFrom hP
      obtain ⟨htree, hP⟩ := hyes.treeFrom (List.forall_mem_cons.mp hP).2
      exact ⟨.cons hself hcond (htree.append .nil), (List.forall_mem_cons.mp hP).2⟩
  | .branchElse hi hc hw hyes hv hno hclose, hP => by
      have hself : StatementFrom P _ := ⟨_, _, .branchElse hi hc hw hyes hv hno hclose, hP⟩
      obtain ⟨-, hP⟩ := List.forall_mem_cons.mp hP
      obtain ⟨hcond, hP⟩ := hc.derivedFrom hP
      obtain ⟨htree, hP⟩ := hyes.treeFrom (List.forall_mem_cons.mp hP).2
      obtain ⟨htree', hP⟩ := hno.treeFrom (List.forall_mem_cons.mp hP).2
      exact ⟨.cons hself hcond (htree.append htree'), (List.forall_mem_cons.mp hP).2⟩
  | .loop hi hc hw hbody hclose, hP => by
      have hself : StatementFrom P _ := ⟨_, _, .loop hi hc hw hbody hclose, hP⟩
      obtain ⟨-, hP⟩ := List.forall_mem_cons.mp hP
      obtain ⟨hcond, hP⟩ := hc.derivedFrom hP
      obtain ⟨htree, hP⟩ := hbody.treeFrom (List.forall_mem_cons.mp hP).2
      exact ⟨.cons hself hcond htree, (List.forall_mem_cons.mp hP).2⟩
  | .expr he, hP => by
      obtain ⟨hnodes, hrest⟩ := he.derivedFrom hP
      exact ⟨.leaf ⟨_, _, .expr he, hP⟩ hnodes, hrest⟩

theorem Block.treeFrom {ts rest : List Token} {ss : List Stmt} :
    Block ts ss rest → (∀ t ∈ ts, P t) →
      TreeFrom P (Stmt.exprsAll ss) (Stmt.nodesAll ss) ∧ ∀ t ∈ rest, P t
  | .done, hP => ⟨.nil, hP⟩
  | .separator _ h, hP => h.treeFrom (List.forall_mem_cons.mp hP).2
  | .cons hs h, hP => by
      obtain ⟨hfirst, hP⟩ := hs.treeFrom hP
      obtain ⟨hmore, hrest⟩ := h.treeFrom hP
      exact ⟨hfirst.append hmore, hrest⟩

end

end Grammar

/-- **Every node of a parsed program comes from its tokens.** -/
theorem Program.treeFrom_of_ofTokens {P : Token → Prop} {ts : List Token} {p : Program}
    (h : Program.ofTokens ts = .ok p) (hP : ∀ t ∈ ts, P t) :
    Grammar.TreeFrom P (Stmt.exprsAll p) (Stmt.nodesAll p) :=
  ((Grammar.derives_of_ofTokens h).treeFrom hP).1

theorem Program.places_of_ofTokens {P : Token → Prop} {ts : List Token} {p : Program}
    (h : Program.ofTokens ts = .ok p) (hP : ∀ t ∈ ts, P t) :
    ∀ pos ∈ p.places, ∃ t, P t ∧ pos = t.pos := by
  have htree := Program.treeFrom_of_ofTokens h hP
  intro pos hpos
  rcases List.mem_append.mp hpos with hpos | hpos
  · obtain ⟨s, hs, rfl⟩ := List.mem_map.mp hpos
    exact (htree.stmts s hs).pos_eq
  · obtain ⟨e, he, rfl⟩ := List.mem_map.mp hpos
    obtain ⟨t, ht, horigin⟩ := (htree.exprs e he).origin
    exact ⟨t, ht, horigin.pos_eq⟩

/-! ## Nodes of checked programs -/

namespace Typing

open List (Forall₂)

/-- The second expression is the first one with its types, wherever it stands. -/
def TypedForm (lib : Library) (e : Expr) (t : Typed.Expr) : Prop :=
  ∃ Γ τ, ExprTyped lib Γ e τ t

/-- The second statement is the first one with its types, wherever it stands. -/
def TypedStmt (lib : Library) (s : Stmt) (t : Typed.Stmt) : Prop :=
  ∃ Γ Γ', StmtTyped lib Γ s Γ' t

theorem TypedForm.pos_eq {lib : Library} {e : Expr} {t : Typed.Expr} (h : TypedForm lib e t) :
    t.pos = e.pos := by
  obtain ⟨Γ, τ, h⟩ := h
  cases h <;> rfl

theorem TypedStmt.pos_eq {lib : Library} {s : Stmt} {t : Typed.Stmt} (h : TypedStmt lib s t) :
    t.pos = s.pos := by
  obtain ⟨Γ, Γ', h⟩ := h
  cases h <;> rfl

mutual

theorem ExprTyped.nodes {lib : Library} {Γ : Env} {e : Expr} {τ : Ty} {t : Typed.Expr} :
    ExprTyped lib Γ e τ t → Forall₂ (TypedForm lib) e.nodes t.nodes
  | .literal hv => .cons ⟨Γ, _, .literal hv⟩ .nil
  | .group he => .cons ⟨_, _, .group he⟩ he.nodes
  | .binary hl hr hop => .cons ⟨_, _, .binary hl hr hop⟩ (List.rel_append hl.nodes hr.nodes)
  | .var hx => .cons ⟨_, _, .var hx⟩ .nil
  | .call hf hargs => .cons ⟨_, _, .call hf hargs⟩ hargs.nodes

theorem ArgsTyped.nodes {lib : Library} {Γ : Env} {es : List Expr} {τs : List Ty}
    {ts : List Typed.Expr} :
    ArgsTyped lib Γ es τs ts →
      Forall₂ (TypedForm lib) (Expr.nodesAll es) (Typed.Expr.nodesAll ts)
  | .nil => .nil
  | .cons he _ hes => List.rel_append he.nodes hes.nodes

end

mutual

theorem StmtTyped.exprs {lib : Library} {Γ Γ' : Env} {s : Stmt} {t : Typed.Stmt} :
    StmtTyped lib Γ s Γ' t → Forall₂ (TypedForm lib) s.exprs t.exprs
  | .expr he => he.nodes
  | .declare _ => .nil
  | .declareInit _ he _ => he.nodes
  | .assign _ he _ => he.nodes
  | .branch hc hyes hno => List.rel_append hc.nodes (List.rel_append hyes.exprs hno.exprs)
  | .loop hc hbody => List.rel_append hc.nodes hbody.exprs

theorem BlockTyped.exprs {lib : Library} {Γ Γ' : Env} {ss : List Stmt} {ts : List Typed.Stmt} :
    BlockTyped lib Γ ss Γ' ts →
      Forall₂ (TypedForm lib) (Stmt.exprsAll ss) (Typed.Stmt.exprsAll ts)
  | .nil => .nil
  | .cons hs hss => List.rel_append hs.exprs hss.exprs

end

mutual

theorem StmtTyped.nodes {lib : Library} {Γ Γ' : Env} {s : Stmt} {t : Typed.Stmt} :
    StmtTyped lib Γ s Γ' t → Forall₂ (TypedStmt lib) s.nodes t.nodes
  | .expr he => .cons ⟨_, _, .expr he⟩ .nil
  | .declare hx => .cons ⟨_, _, .declare hx⟩ .nil
  | .declareInit hx he ha => .cons ⟨_, _, .declareInit hx he ha⟩ .nil
  | .assign hx he ha => .cons ⟨_, _, .assign hx he ha⟩ .nil
  | .branch hc hyes hno =>
      .cons ⟨_, _, .branch hc hyes hno⟩ (List.rel_append hyes.nodes hno.nodes)
  | .loop hc hbody => .cons ⟨_, _, .loop hc hbody⟩ hbody.nodes

theorem BlockTyped.nodes {lib : Library} {Γ Γ' : Env} {ss : List Stmt} {ts : List Typed.Stmt} :
    BlockTyped lib Γ ss Γ' ts →
      Forall₂ (TypedStmt lib) (Stmt.nodesAll ss) (Typed.Stmt.nodesAll ts)
  | .nil => .nil
  | .cons hs hss => List.rel_append hs.nodes hss.nodes

end

theorem map_pos_eq {α β : Type} {R : α → β → Prop} {f : α → Position} {g : β → Position}
    (hR : ∀ a b, R a b → g b = f a) {as : List α} {bs : List β} (h : Forall₂ R as bs) :
    bs.map g = as.map f := by
  induction h with
  | nil => rfl
  | cons hab _ ih => rw [List.map_cons, List.map_cons, hR _ _ hab, ih]

/-- **A checked program has the places of the program.** -/
theorem BlockTyped.places_eq {lib : Library} {Γ Γ' : Env} {p : Program} {typed : Typed.Program}
    (h : BlockTyped lib Γ p Γ' typed) : typed.places = p.places := by
  rw [Typed.Program.places, Program.places, map_pos_eq (fun _ _ hs => hs.pos_eq) h.nodes,
    map_pos_eq (fun _ _ he => he.pos_eq) h.exprs]

end Typing

/-! ## Errors of the checker -/

namespace Check

/-! An error is compared with the places of the nodes, so that the checker may look at a node from
the node above it, as it does at an argument that has the wrong type. -/

theorem literal_error_pos {pos : Position} {value : Constant} {err : TypeError}
    (h : literal pos value = .error err) : err.pos = pos := by
  unfold literal at h
  split at h
  · cases h
  · cases h
  · cases h
  · split at h
    · cases h
    · cases h; rfl
  · dsimp only at h
    split at h
    · cases h; rfl
    split at h
    · cases h; rfl
    · cases h
  · cases h; rfl

mutual

theorem expr_error_pos {lib : Library} {scope : Scope} {err : TypeError} (e : Expr)
    (h : expr lib scope e = .error err) : err.pos ∈ e.nodes.map Expr.pos := by
  match e with
  | .missing => cases h; exact List.mem_cons_self
  | .literal value pos => rw [literal_error_pos h]; exact List.mem_cons_self
  | .group inner pos =>
      rw [expr, bind_eq_error] at h
      rcases h with h | ⟨_, -, h⟩
      · exact List.mem_cons_of_mem _ (expr_error_pos inner h)
      · cases h
  | .binary op left right pos =>
      rw [Expr.nodes, List.map_cons, List.map_append]
      rw [expr, bind_eq_error] at h
      rcases h with h | ⟨left', -, h⟩
      · exact List.mem_cons_of_mem _ (List.mem_append_left _ (expr_error_pos left h))
      rw [bind_eq_error] at h
      rcases h with h | ⟨right', -, h⟩
      · exact List.mem_cons_of_mem _ (List.mem_append_right _ (expr_error_pos right h))
      split at h
      · cases h
      · cases h; exact List.mem_cons_self
  | .var name pos =>
      rw [expr] at h
      split at h
      · cases h
      · cases h; exact List.mem_cons_self
  | .call name args pos =>
      rw [expr] at h
      split at h
      · cases h; exact List.mem_cons_self
      split at h
      · rw [bind_eq_error] at h
        rcases h with h | ⟨_, -, h⟩
        · exact List.mem_cons_of_mem _ (arguments_error_pos args h)
        · cases h
      · cases h; exact List.mem_cons_self

theorem arguments_error_pos {lib : Library} {scope : Scope} {function : String} {index : Nat}
    {params : List Ty} {err : TypeError} (args : List Expr)
    (h : arguments lib scope function index args params = .error err) :
    err.pos ∈ (Expr.nodesAll args).map Expr.pos := by
  match args, params with
  | [], _ => rw [arguments] at h; cases h
  | _ :: _, [] => rw [arguments] at h; cases h
  | arg :: args, param :: params =>
      rw [Expr.nodesAll, List.map_append]
      rw [arguments, bind_eq_error] at h
      rcases h with h | ⟨first, -, h⟩
      · exact List.mem_append_left _ (expr_error_pos arg h)
      split at h
      · cases h
        exact List.mem_append_left _ (List.mem_map_of_mem arg.mem_nodes_self)
      · rw [bind_eq_error] at h
        rcases h with h | ⟨_, -, h⟩
        · exact List.mem_append_right _ (arguments_error_pos args h)
        · cases h

end

theorem condition_error_pos {lib : Library} {scope : Scope} {cond : Expr} {err : TypeError}
    (h : condition lib scope cond = .error err) : err.pos ∈ cond.nodes.map Expr.pos := by
  rw [condition, bind_eq_error] at h
  rcases h with h | ⟨checked, -, h⟩
  · exact expr_error_pos cond h
  split at h
  · cases h
  · cases h; exact List.mem_map_of_mem cond.mem_nodes_self

theorem initial_error_pos {lib : Library} {scope : Scope} {name : String} {ty : Ty}
    {pos : Position} {init : Option Expr} {err : TypeError}
    (h : initial lib scope name ty pos init = .error err) :
    err.pos = pos ∨ ∃ e, init = some e ∧ err.pos ∈ e.nodes.map Expr.pos := by
  cases init with
  | none => cases h
  | some e =>
      rw [initial, bind_eq_error] at h
      rcases h with h | ⟨checked, -, h⟩
      · exact .inr ⟨e, rfl, expr_error_pos e h⟩
      split at h
      · cases h; exact .inl rfl
      · cases h

theorem declaration_error_pos {lib : Library} {scope : Scope} {name typeName : String}
    {init : Option Expr} {pos : Position} {err : TypeError}
    (h : declaration lib scope name typeName init pos = .error err) :
    err.pos = pos ∨ ∃ e, init = some e ∧ err.pos ∈ e.nodes.map Expr.pos := by
  unfold declaration at h
  split at h
  · cases h; exact .inl rfl
  split at h
  · cases h; exact .inl rfl
  split at h
  · cases h; exact .inl rfl
  rw [bind_eq_error] at h
  rcases h with h | ⟨_, -, h⟩
  · exact initial_error_pos h
  split at h
  · cases h
  · cases h; exact .inl rfl

theorem assignment_error_pos {lib : Library} {scope : Scope} {name : String} {value : Expr}
    {pos : Position} {err : TypeError}
    (h : assignment lib scope name value pos = .error err) :
    err.pos = pos ∨ err.pos ∈ value.nodes.map Expr.pos := by
  unfold assignment at h
  split at h
  · cases h; exact .inl rfl
  rw [bind_eq_error] at h
  rcases h with h | ⟨checked, -, h⟩
  · exact .inr (expr_error_pos value h)
  split at h
  · cases h; exact .inl rfl
  · cases h

theorem mem_places_self (s : Stmt) : s.pos ∈ s.places :=
  List.mem_append_left _ (List.mem_map_of_mem s.mem_nodes_self)

theorem mem_places_cons {pos : Position} {s : Stmt} {ss : List Stmt} :
    pos ∈ Program.places (s :: ss) ↔ pos ∈ s.places ∨ pos ∈ Program.places ss := by
  simp only [Program.places, Stmt.places, Stmt.nodesAll, Stmt.exprsAll, List.map_append,
    List.mem_append]
  tauto

theorem mem_places_branch {pos own : Position} {cond : Expr} {yes no : List Stmt} :
    pos ∈ (Stmt.branch cond yes no own).places ↔
      pos = own ∨ pos ∈ cond.nodes.map Expr.pos ∨ pos ∈ Program.places yes ∨
        pos ∈ Program.places no := by
  simp only [Program.places, Stmt.places, Stmt.nodes, Stmt.exprs, Stmt.pos, List.map_append,
    List.map_cons, List.mem_append, List.mem_cons]
  tauto

theorem mem_places_loop {pos own : Position} {cond : Expr} {body : List Stmt} :
    pos ∈ (Stmt.loop cond body own).places ↔
      pos = own ∨ pos ∈ cond.nodes.map Expr.pos ∨ pos ∈ Program.places body := by
  simp only [Program.places, Stmt.places, Stmt.nodes, Stmt.exprs, Stmt.pos, List.map_append,
    List.map_cons, List.mem_append, List.mem_cons]
  tauto

mutual

theorem stmt_error_pos {lib : Library} {scope : Scope} {err : TypeError} (s : Stmt)
    (h : (stmt lib scope s).1 = .error err) : err.pos ∈ s.places := by
  match s with
  | .missing => cases h; exact mem_places_self .missing
  | .expr value pos =>
      rw [stmt] at h
      split at h
      · next hv =>
        cases h
        exact List.mem_append_right _ (expr_error_pos value hv)
      · cases h
  | .declare name typeName init pos =>
      rw [stmt] at h
      split at h
      · next hd =>
        cases h
        rcases declaration_error_pos hd with hpos | ⟨e, rfl, hpos⟩
        · rw [hpos]; exact mem_places_self (.declare name typeName init pos)
        · exact List.mem_append_right _ hpos
      · cases h
  | .assign name value pos =>
      rw [stmt] at h
      rcases assignment_error_pos h with hpos | hpos
      · rw [hpos]; exact mem_places_self (.assign name value pos)
      · exact List.mem_append_right _ hpos
  | .branch cond yes no pos =>
      rw [mem_places_branch]
      rw [stmt] at h
      split at h
      · next hc => cases h; exact .inr (.inl (condition_error_pos hc))
      split at h
      · next hyes => cases h; exact .inr (.inr (.inl (block_error_pos yes (by rw [hyes]))))
      split at h
      · next hno => cases h; exact .inr (.inr (.inr (block_error_pos no (by rw [hno]))))
      · cases h
  | .loop cond body pos =>
      rw [mem_places_loop]
      rw [stmt] at h
      split at h
      · next hc => cases h; exact .inr (.inl (condition_error_pos hc))
      split at h
      · next hbody => cases h; exact .inr (.inr (block_error_pos body (by rw [hbody])))
      · cases h

/-- **What the checker finds wrong, it finds at a node.** -/
theorem block_error_pos {lib : Library} {scope : Scope} {err : TypeError} (ss : List Stmt)
    (h : (block lib scope ss).1 = .error err) : err.pos ∈ Program.places ss := by
  match ss with
  | [] => cases h
  | s :: ss =>
      rw [mem_places_cons]
      rw [block] at h
      split at h
      · next hs => cases h; exact .inl (stmt_error_pos s (by rw [hs]))
      split at h
      · next hss => cases h; exact .inr (block_error_pos ss (by rw [hss]))
      · cases h

end

end Check

end LetWhile
