import LetWhile.Java.Printer
import LetWhile.Proofs.Checking

/-!
# Checked programs can be printed

A printer gives up at a gap: a node that was left out, or a literal whose value has no spelling. A
tree without gaps is `Whole`. The checker only builds whole trees, because it copies no node that is
missing and turns every literal into a machine value of the literal's type. So whatever was checked
can be printed.
-/

namespace LetWhile

namespace Typed

/-- The values that a literal of a type can have in a checked program. A double is a number, and a
finite one. -/
inductive Literal : Ty → Constant → Prop where
  | bool (b : Bool) : Literal .boolean (.bool b)
  | int32 (n : Int32) : Literal .integer (.int32 n)
  | double {x : Binary64} : x.isInfinite = false → x.isNaN = false → Literal .decimal (.double x)
  | text (s : String) : Literal .string (.text s)
  | stray (s : StrayText) : Literal .string (.stray s)

/-- An expression without gaps. -/
inductive Expr.Whole : Expr → Prop where
  | literal {ty : Ty} {value : Constant} {pos : Position} :
      Literal ty value → Whole (.literal ty value pos)
  | group {ty : Ty} {inner : Expr} {pos : Position} : Whole inner → Whole (.group ty inner pos)
  | binary {ty : Ty} {op : String} {left right : Expr} {pos : Position} :
      Whole left → Whole right → Whole (.binary ty op left right pos)
  | var {ty : Ty} {name : String} {pos : Position} : Whole (.var ty name pos)
  | call {function : Function} {args : List Expr} {pos : Position} :
      (∀ e ∈ args, Whole e) → Whole (.call function args pos)

/-- A statement without gaps. Only the initial value of a declaration can be absent. -/
inductive Stmt.Whole : Stmt → Prop where
  | expr {value : Expr} {pos : Position} : value.Whole → Whole (.expr value pos)
  | declare {name : String} {ty : Ty} {init : Option Expr} {pos : Position} :
      (∀ e ∈ init, e.Whole) → Whole (.declare name ty init pos)
  | assign {name : String} {value : Expr} {pos : Position} :
      value.Whole → Whole (.assign name value pos)
  | branch {cond : Expr} {yes no : List Stmt} {pos : Position} :
      cond.Whole → (∀ s ∈ yes, Whole s) → (∀ s ∈ no, Whole s) → Whole (.branch cond yes no pos)
  | loop {cond : Expr} {body : List Stmt} {pos : Position} :
      cond.Whole → (∀ s ∈ body, Whole s) → Whole (.loop cond body pos)

end Typed

/-! ## What was checked is whole -/

namespace Typing

theorem LiteralTyped.literal {value value' : Constant} {τ : Ty} (h : LiteralTyped value τ value') :
    Typed.Literal τ value' := by
  cases h with
  | bool b => exact .bool b
  | text s => exact .text s
  | stray s => exact .stray s
  | integer _ _ => exact .int32 _
  | @decimal q hq =>
      have hnumber : (Binary64.ofRat q).isNaN = false :=
        decide_eq_false (Nat.not_lt.mpr (code_ofRat_le q))
      exact .double ((isInfinite_ofRat_iff _).mpr hq.1) hnumber

mutual

theorem ExprTyped.whole {lib : Library} {Γ : Env} {e : Expr} {τ : Ty} {t : Typed.Expr} :
    ExprTyped lib Γ e τ t → t.Whole
  | .literal h => .literal h.literal
  | .group h => .group h.whole
  | .binary hl hr _ => .binary hl.whole hr.whole
  | .var _ => .var
  | .call _ h => .call h.whole

theorem ArgsTyped.whole {lib : Library} {Γ : Env} {es : List Expr} {τs : List Ty}
    {ts : List Typed.Expr} : ArgsTyped lib Γ es τs ts → ∀ t ∈ ts, t.Whole
  | .nil => fun _ ht => absurd ht List.not_mem_nil
  | .cons h _ hs => List.forall_mem_cons.mpr ⟨h.whole, hs.whole⟩

end

mutual

theorem StmtTyped.whole {lib : Library} {Γ Γ' : Env} {s : Stmt} {t : Typed.Stmt} :
    StmtTyped lib Γ s Γ' t → t.Whole
  | .expr h => .expr h.whole
  | .declare _ => .declare fun _ he => absurd he (by simp)
  | .declareInit _ h _ => .declare fun _ he => Option.mem_some_iff.mp he ▸ h.whole
  | .assign _ h _ => .assign h.whole
  | .branch hc hyes hno => .branch hc.whole hyes.whole hno.whole
  | .loop hc hbody => .loop hc.whole hbody.whole

theorem BlockTyped.whole {lib : Library} {Γ Γ' : Env} {ss : List Stmt} {ts : List Typed.Stmt} :
    BlockTyped lib Γ ss Γ' ts → ∀ t ∈ ts, t.Whole
  | .nil => fun _ ht => absurd ht List.not_mem_nil
  | .cons h hs => List.forall_mem_cons.mpr ⟨h.whole, hs.whole⟩

end

end Typing

/-! ## What is whole can be printed -/

namespace Java

theorem literal_total {ty : Ty} {value : Constant} (h : Typed.Literal ty value) :
    ∃ text, literal value = .ok text := by
  cases h with
  | bool b => exact ⟨_, rfl⟩
  | int32 n => exact ⟨_, rfl⟩
  | double _ _ => exact ⟨_, rfl⟩
  | text s => exact ⟨_, rfl⟩
  | stray s => exact ⟨_, rfl⟩

theorem exprs_total {es : List Typed.Expr} (h : ∀ e ∈ es, ∃ text, expr e = .ok text) :
    ∃ texts, exprs es = .ok texts := by
  induction es with
  | nil => exact ⟨[], rfl⟩
  | cons e es ih =>
      obtain ⟨first, hfirst⟩ := h e List.mem_cons_self
      obtain ⟨rest, hrest⟩ := ih fun e' he' => h e' (List.mem_cons_of_mem _ he')
      exact ⟨first :: rest, by rw [exprs, hfirst, hrest]; rfl⟩

theorem expr_total {e : Typed.Expr} (h : e.Whole) : ∃ text, expr e = .ok text := by
  induction h with
  | literal hv => exact literal_total hv
  | group _ ih =>
      obtain ⟨inner, hinner⟩ := ih
      exact ⟨_, by rw [expr, hinner]; rfl⟩
  | binary _ _ ihl ihr =>
      obtain ⟨left, hleft⟩ := ihl
      obtain ⟨right, hright⟩ := ihr
      exact ⟨_, by rw [expr, hleft, hright]; rfl⟩
  | var => exact ⟨_, rfl⟩
  | call _ ih =>
      obtain ⟨args, hargs⟩ := exprs_total ih
      exact ⟨_, by rw [expr, hargs]; rfl⟩

theorem stmts_of_each {width spaces : Nat} {ss : List Typed.Stmt}
    (h : ∀ s ∈ ss, ∃ lines, stmt width spaces s = .ok lines) :
    ∃ lines, stmts width spaces ss = .ok lines := by
  induction ss with
  | nil => exact ⟨[], rfl⟩
  | cons s ss ih =>
      obtain ⟨first, hfirst⟩ := h s List.mem_cons_self
      obtain ⟨rest, hrest⟩ := ih fun s' hs' => h s' (List.mem_cons_of_mem _ hs')
      exact ⟨first ++ rest, by rw [stmts, hfirst, hrest]; rfl⟩

theorem elseBlock_of_each {width spaces : Nat} {ss : List Typed.Stmt}
    (h : ∀ s ∈ ss, ∃ lines, stmt width (spaces + width) s = .ok lines) :
    ∃ lines, elseBlock width spaces ss = .ok lines := by
  cases ss with
  | nil => exact ⟨[], rfl⟩
  | cons s ss =>
      obtain ⟨first, hfirst⟩ := h s List.mem_cons_self
      obtain ⟨rest, hrest⟩ := stmts_of_each fun s' hs' => h s' (List.mem_cons_of_mem _ hs')
      exact ⟨_, by rw [elseBlock, hfirst, hrest]; rfl⟩

theorem stmt_total {width : Nat} {s : Typed.Stmt} (h : s.Whole) (spaces : Nat) :
    ∃ lines, stmt width spaces s = .ok lines := by
  induction h generalizing spaces with
  | expr he =>
      obtain ⟨value, hvalue⟩ := expr_total he
      exact ⟨_, by rw [stmt, hvalue]; rfl⟩
  | @declare name ty init pos hinit =>
      cases init with
      | none => exact ⟨_, rfl⟩
      | some e =>
          obtain ⟨value, hvalue⟩ := expr_total (hinit e rfl)
          exact ⟨_, by rw [stmt, hvalue]; rfl⟩
  | assign he =>
      obtain ⟨value, hvalue⟩ := expr_total he
      exact ⟨_, by rw [stmt, hvalue]; rfl⟩
  | branch hc _ _ ihyes ihno =>
      obtain ⟨cond, hcond⟩ := expr_total hc
      obtain ⟨yes, hyes⟩ := stmts_of_each fun s hs => ihyes s hs (spaces + width)
      obtain ⟨no, hno⟩ := elseBlock_of_each fun s hs => ihno s hs (spaces + width)
      exact ⟨_, by rw [stmt, hcond, hyes, hno]; rfl⟩
  | loop hc _ ih =>
      obtain ⟨cond, hcond⟩ := expr_total hc
      obtain ⟨body, hbody⟩ := stmts_of_each fun s hs => ih s hs (spaces + width)
      exact ⟨_, by rw [stmt, hcond, hbody]; rfl⟩

/-- **A program without gaps is printed**, whatever the options. -/
theorem statements_total {ss : List Typed.Stmt} (h : ∀ s ∈ ss, s.Whole) (o : Options) :
    ∃ lines, statements o ss = .ok lines :=
  stmts_of_each fun s hs => stmt_total (h s hs) 0

theorem program_total {p : Typed.Program} (h : ∀ s ∈ p, s.Whole) (o : Options) :
    ∃ lines, program o p = .ok lines := by
  obtain ⟨body, hbody⟩ := stmts_of_each fun s hs => stmt_total (h s hs) (2 * o.width)
  exact ⟨_, by rw [program, hbody]; rfl⟩

end Java

end LetWhile
