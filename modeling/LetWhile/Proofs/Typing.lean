import LetWhile.Typed.Check

/-!
# The type system

The rules of the language, written down without the checker. `ExprTyped lib Γ e τ t` says that in
the environment `Γ` the expression `e` has the type `τ`, and that `t` is `e` with every type filled
in. `StmtTyped lib Γ s Γ' t` says the same of a statement, and that `Γ'` is the environment behind
it.

An environment knows two things of a name: the type that the innermost frame gives it, and the type
that it has outside of that frame. Only a declaration changes an environment, and only in the
innermost frame. Blocks open no frame, so a branch passes its environment on from the condition to
the first block, from there to the second, and out of it.
-/

namespace LetWhile.Typing

/-- What is known of names. -/
structure Env where
  /-- The types that the innermost frame gives to names. -/
  inner : String → Option Ty
  /-- The types that names have in the frames around it. -/
  outer : String → Option Ty

namespace Env

/-- The type of a name: the innermost frame comes first. -/
def find? (Γ : Env) (x : String) : Option Ty := (Γ.inner x).or (Γ.outer x)

/-- Binds a name in the innermost frame. -/
def bind (Γ : Env) (x : String) (τ : Ty) : Env :=
  { Γ with inner := fun y => if y = x then some τ else Γ.inner y }

theorem inner_bind_self (Γ : Env) (x : String) (τ : Ty) : (Γ.bind x τ).inner x = some τ :=
  if_pos rfl

theorem inner_bind_of_ne {x y : String} (h : y ≠ x) (Γ : Env) (τ : Ty) :
    (Γ.bind x τ).inner y = Γ.inner y :=
  if_neg h

theorem find?_bind_of_ne {x y : String} (h : y ≠ x) (Γ : Env) (τ : Ty) :
    (Γ.bind x τ).find? y = Γ.find? y := by
  rw [find?, find?, inner_bind_of_ne h]
  rfl

end Env

/-- The environment that a scope stands for. -/
def ofScope (s : Scope) : Env where
  inner := s.frame.find?
  outer x := s.outer.findSome? fun f => f.find? x

/-- Where a value can be stored: in its own type, an integer also as a decimal, and everything that
has a value as any. -/
inductive Assignable : Ty → Ty → Prop where
  | same {τ : Ty} : τ ≠ .invalid → Assignable τ τ
  | widen : Assignable .integer .decimal
  | any {σ : Ty} : σ ≠ .invalid → σ ≠ .void → Assignable σ .any

/-- The types that can be calculated with. -/
inductive Numeric : Ty → Prop where
  | integer : Numeric .integer
  | decimal : Numeric .decimal

/-- The type of an operator with operands of two types. -/
inductive BinaryTyped : String → Ty → Ty → Ty → Prop where
  /-- Everything can be compared with everything. -/
  | compare {op : String} {σ τ : Ty} : op ∈ ["==", "!="] → BinaryTyped op σ τ .boolean
  | integers {op : String} : op ∈ ["+", "-", "*", "/"] → BinaryTyped op .integer .integer .integer
  /-- One decimal operand makes the result a decimal. -/
  | decimals {op : String} {σ τ : Ty} :
      op ∈ ["+", "-", "*", "/"] → Numeric σ → Numeric τ → σ = .decimal ∨ τ = .decimal →
      BinaryTyped op σ τ .decimal
  /-- A text can be joined with everything that has a value and is no truth value. -/
  | textLeft {τ : Ty} : τ ≠ .boolean → τ ≠ .void → BinaryTyped "+" .string τ .string
  | textRight {σ : Ty} : σ ≠ .boolean → σ ≠ .void → BinaryTyped "+" σ .string .string

/-- A rational that a decimal literal may denote: the double nearest to it is finite, and it is a
normal one unless the rational is zero. -/
def Representable (q : Rat) : Prop :=
  (Binary64.ofRat q).code < Binary64.infinityCode ∧
    (q ≠ 0 → Binary64.binade ≤ (Binary64.ofRat q).code)

/-- The type of a literal, and the value that it has in a checked program. -/
inductive LiteralTyped : Constant → Ty → Constant → Prop where
  | bool (b : Bool) : LiteralTyped (.bool b) .boolean (.bool b)
  | text (s : String) : LiteralTyped (.text s) .string (.text s)
  | stray (s : StrayText) : LiteralTyped (.stray s) .string (.stray s)
  | integer {n : Int} : -2147483648 ≤ n → n ≤ 2147483647 →
      LiteralTyped (.integer n) .integer (.int32 (Int32.ofInt n))
  | decimal {q : Rat} : Representable q →
      LiteralTyped (.ratio q) .decimal (.double (Binary64.ofRat q))

mutual

/-- In the environment `Γ`, the expression has the type, and the typed expression is its form with
types. -/
inductive ExprTyped (lib : Library) (Γ : Env) : Expr → Ty → Typed.Expr → Prop where
  | literal {value value' : Constant} {τ : Ty} {pos : Position} :
      LiteralTyped value τ value' →
      ExprTyped lib Γ (.literal value pos) τ (.literal τ value' pos)
  | group {e : Expr} {τ : Ty} {t : Typed.Expr} {pos : Position} :
      ExprTyped lib Γ e τ t → ExprTyped lib Γ (.group e pos) τ (.group τ t pos)
  | binary {op : String} {l r : Expr} {ρ σ τ : Ty} {l' r' : Typed.Expr} {pos : Position} :
      ExprTyped lib Γ l σ l' → ExprTyped lib Γ r τ r' → BinaryTyped op σ τ ρ →
      ExprTyped lib Γ (.binary op l r pos) ρ (.binary ρ op l' r' pos)
  | var {x : String} {τ : Ty} {pos : Position} :
      Γ.find? x = some τ → ExprTyped lib Γ (.var x pos) τ (.var τ x pos)
  | call {name : String} {f : Function} {args : List Expr} {args' : List Typed.Expr}
      {pos : Position} :
      lib.find? name = some f → ArgsTyped lib Γ args f.params args' →
      ExprTyped lib Γ (.call name args pos) f.result (.call f args' pos)

/-- The arguments of a call, one for each parameter, can be stored in the parameters. -/
inductive ArgsTyped (lib : Library) (Γ : Env) : List Expr → List Ty → List Typed.Expr → Prop where
  | nil : ArgsTyped lib Γ [] [] []
  | cons {e : Expr} {es : List Expr} {σ τ : Ty} {τs : List Ty} {t : Typed.Expr}
      {ts : List Typed.Expr} :
      ExprTyped lib Γ e σ t → Assignable σ τ → ArgsTyped lib Γ es τs ts →
      ArgsTyped lib Γ (e :: es) (τ :: τs) (t :: ts)

end

/-- What a declaration asks of its name and its type. -/
structure Declarable (Γ : Env) (x typeName : String) (τ : Ty) : Prop where
  /-- The type is one that programs can name. -/
  named : τ.name = typeName
  known : τ ≠ .invalid
  notVoid : τ ≠ .void
  notReserved : Java.isReserved x = false
  /-- The innermost frame does not bind the name yet. -/
  fresh : Γ.inner x = none

mutual

/-- A statement that keeps the rules, with the environments in front of it and behind it. -/
inductive StmtTyped (lib : Library) : Env → Stmt → Env → Typed.Stmt → Prop where
  | expr {Γ : Env} {e : Expr} {τ : Ty} {t : Typed.Expr} {pos : Position} :
      ExprTyped lib Γ e τ t → StmtTyped lib Γ (.expr e pos) Γ (.expr t pos)
  | declare {Γ : Env} {x typeName : String} {τ : Ty} {pos : Position} :
      Declarable Γ x typeName τ →
      StmtTyped lib Γ (.declare x typeName none pos) (Γ.bind x τ) (.declare x τ none pos)
  /-- The initial value is typed before the name is bound. -/
  | declareInit {Γ : Env} {x typeName : String} {e : Expr} {σ τ : Ty} {t : Typed.Expr}
      {pos : Position} :
      Declarable Γ x typeName τ → ExprTyped lib Γ e σ t → Assignable σ τ →
      StmtTyped lib Γ (.declare x typeName (some e) pos) (Γ.bind x τ) (.declare x τ (some t) pos)
  | assign {Γ : Env} {x : String} {e : Expr} {σ τ : Ty} {t : Typed.Expr} {pos : Position} :
      Γ.find? x = some τ → ExprTyped lib Γ e σ t → Assignable σ τ →
      StmtTyped lib Γ (.assign x e pos) Γ (.assign x t pos)
  | branch {Γ Γ₁ Γ₂ : Env} {c : Expr} {yes no : List Stmt} {c' : Typed.Expr}
      {yes' no' : List Typed.Stmt} {pos : Position} :
      ExprTyped lib Γ c .boolean c' → BlockTyped lib Γ yes Γ₁ yes' → BlockTyped lib Γ₁ no Γ₂ no' →
      StmtTyped lib Γ (.branch c yes no pos) Γ₂ (.branch c' yes' no' pos)
  | loop {Γ Γ₁ : Env} {c : Expr} {body : List Stmt} {c' : Typed.Expr} {body' : List Typed.Stmt}
      {pos : Position} :
      ExprTyped lib Γ c .boolean c' → BlockTyped lib Γ body Γ₁ body' →
      StmtTyped lib Γ (.loop c body pos) Γ₁ (.loop c' body' pos)

/-- Statements in the order of the program, each in the environment that the one before left. -/
inductive BlockTyped (lib : Library) : Env → List Stmt → Env → List Typed.Stmt → Prop where
  | nil {Γ : Env} : BlockTyped lib Γ [] Γ []
  | cons {Γ Γ₁ Γ₂ : Env} {s : Stmt} {ss : List Stmt} {t : Typed.Stmt} {ts : List Typed.Stmt} :
      StmtTyped lib Γ s Γ₁ t → BlockTyped lib Γ₁ ss Γ₂ ts → BlockTyped lib Γ (s :: ss) Γ₂ (t :: ts)

end

end LetWhile.Typing
