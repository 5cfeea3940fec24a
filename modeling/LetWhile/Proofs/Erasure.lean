import LetWhile.Proofs.Nodes
import LetWhile.Proofs.Rounding

/-!
# Checking only adds types

`untyped` takes from a checked program what the checker put into it: the types of expressions, all
of a called function but its name, and the width of integers. What is left is the program that was
checked, up to one thing. A decimal literal of a program is an exact rational and that of a checked
one is a double, which does not tell which rational it was made from. So the comparison is made with
the program whose rationals are rounded, and in it nothing else is changed.

That the doubles are the right ones is a statement of its own. The checker takes a rational only if
its double is finite, and then no other double is nearer.
-/

namespace LetWhile

/-! ## Erasing types -/

/-- The value of a checked literal, integers without their width. -/
def Constant.untyped : Constant → Constant
  | .int32 n => .integer n.toInt
  | value => value

namespace Typed

mutual

/-- An expression without its types. -/
def Expr.untyped : Expr → LetWhile.Expr
  | .missing => .missing
  | .literal _ value pos => .literal value.untyped pos
  | .group _ inner pos => .group inner.untyped pos
  | .binary _ op left right pos => .binary op left.untyped right.untyped pos
  | .var _ name pos => .var name pos
  | .call function args pos => .call function.name (Expr.untypedAll args) pos

/-- Expressions without their types. -/
def Expr.untypedAll : List Expr → List LetWhile.Expr
  | [] => []
  | e :: es => e.untyped :: Expr.untypedAll es

end

mutual

/-- A statement without types. A declaration names its type again. -/
def Stmt.untyped : Stmt → LetWhile.Stmt
  | .missing => .missing
  | .expr value pos => .expr value.untyped pos
  | .declare name ty init pos => .declare name ty.name (init.map Expr.untyped) pos
  | .assign name value pos => .assign name value.untyped pos
  | .branch cond yes no pos =>
    .branch cond.untyped (Stmt.untypedAll yes) (Stmt.untypedAll no) pos
  | .loop cond body pos => .loop cond.untyped (Stmt.untypedAll body) pos

/-- Statements without types. -/
def Stmt.untypedAll : List Stmt → List LetWhile.Stmt
  | [] => []
  | s :: ss => s.untyped :: Stmt.untypedAll ss

end

/-- A checked program without types. -/
def Program.untyped (p : Program) : LetWhile.Program := Stmt.untypedAll p

end Typed

/-! ## Rounding decimals -/

/-- A value, rationals rounded to doubles. -/
def Constant.rounded : Constant → Constant
  | .ratio q => .double (Binary64.ofRat q)
  | value => value

mutual

/-- An expression with its rationals rounded. -/
def Expr.rounded : Expr → Expr
  | .missing => .missing
  | .literal value pos => .literal value.rounded pos
  | .group inner pos => .group inner.rounded pos
  | .binary op left right pos => .binary op left.rounded right.rounded pos
  | .var name pos => .var name pos
  | .call name args pos => .call name (Expr.roundedAll args) pos

/-- Expressions with their rationals rounded. -/
def Expr.roundedAll : List Expr → List Expr
  | [] => []
  | e :: es => e.rounded :: Expr.roundedAll es

end

mutual

/-- A statement with its rationals rounded. -/
def Stmt.rounded : Stmt → Stmt
  | .missing => .missing
  | .expr value pos => .expr value.rounded pos
  | .declare name typeName init pos => .declare name typeName (init.map Expr.rounded) pos
  | .assign name value pos => .assign name value.rounded pos
  | .branch cond yes no pos =>
    .branch cond.rounded (Stmt.roundedAll yes) (Stmt.roundedAll no) pos
  | .loop cond body pos => .loop cond.rounded (Stmt.roundedAll body) pos

/-- Statements with their rationals rounded. -/
def Stmt.roundedAll : List Stmt → List Stmt
  | [] => []
  | s :: ss => s.rounded :: Stmt.roundedAll ss

end

/-- A program with its rationals rounded. -/
def Program.rounded (p : Program) : Program := Stmt.roundedAll p

/-! ## The two agree -/

/-- The function that is found for a name has that name. -/
theorem Library.name_of_find? {lib : Library} {name : String} {f : Function}
    (h : lib.find? name = some f) : f.name = name := by
  have hname := List.find?_some h
  exact of_decide_eq_true hname

namespace Typing

theorem LiteralTyped.untyped_eq {value value' : Constant} {τ : Ty}
    (h : LiteralTyped value τ value') : value'.untyped = value.rounded := by
  cases h with
  | bool b => rfl
  | text s => rfl
  | stray s => rfl
  | integer hlow hhigh =>
      have hvalue := Int32.toInt_ofInt_of_le hlow (by omega)
      rw [Constant.untyped, hvalue]
      rfl
  | decimal _ => rfl

mutual

theorem ExprTyped.untyped_eq {lib : Library} {Γ : Env} {e : Expr} {τ : Ty} {t : Typed.Expr} :
    ExprTyped lib Γ e τ t → t.untyped = e.rounded
  | .literal hv => by rw [Typed.Expr.untyped, Expr.rounded, hv.untyped_eq]
  | .group he => by rw [Typed.Expr.untyped, Expr.rounded, he.untyped_eq]
  | .binary hl hr _ => by rw [Typed.Expr.untyped, Expr.rounded, hl.untyped_eq, hr.untyped_eq]
  | .var _ => by rw [Typed.Expr.untyped, Expr.rounded]
  | .call hf hargs => by
      rw [Typed.Expr.untyped, Expr.rounded, hargs.untyped_eq, Library.name_of_find? hf]

theorem ArgsTyped.untyped_eq {lib : Library} {Γ : Env} {es : List Expr} {τs : List Ty}
    {ts : List Typed.Expr} :
    ArgsTyped lib Γ es τs ts → Typed.Expr.untypedAll ts = Expr.roundedAll es
  | .nil => rfl
  | .cons he _ hes => by
      rw [Typed.Expr.untypedAll, Expr.roundedAll, he.untyped_eq, hes.untyped_eq]

end

mutual

theorem StmtTyped.untyped_eq {lib : Library} {Γ Γ' : Env} {s : Stmt} {t : Typed.Stmt} :
    StmtTyped lib Γ s Γ' t → t.untyped = s.rounded
  | .expr he => by rw [Typed.Stmt.untyped, Stmt.rounded, he.untyped_eq]
  | .declare hd => by
      rw [Typed.Stmt.untyped, Stmt.rounded, hd.named]
      rfl
  | .declareInit hd he _ => by
      rw [Typed.Stmt.untyped, Stmt.rounded, hd.named, Option.map_some, Option.map_some,
        he.untyped_eq]
  | .assign _ he _ => by rw [Typed.Stmt.untyped, Stmt.rounded, he.untyped_eq]
  | .branch hc hyes hno => by
      rw [Typed.Stmt.untyped, Stmt.rounded, hc.untyped_eq, hyes.untyped_eq, hno.untyped_eq]
  | .loop hc hbody => by rw [Typed.Stmt.untyped, Stmt.rounded, hc.untyped_eq, hbody.untyped_eq]

/-- **A typed program without its types is the program.** -/
theorem BlockTyped.untyped_eq {lib : Library} {Γ Γ' : Env} {ss : List Stmt} {ts : List Typed.Stmt} :
    BlockTyped lib Γ ss Γ' ts → Typed.Stmt.untypedAll ts = Stmt.roundedAll ss
  | .nil => rfl
  | .cons hs hss => by
      rw [Typed.Stmt.untypedAll, Stmt.roundedAll, hs.untyped_eq, hss.untyped_eq]

end

theorem exists_of_mem_left {α β : Type} {R : α → β → Prop} {as : List α} {bs : List β}
    (h : List.Forall₂ R as bs) {a : α} (ha : a ∈ as) : ∃ b, R a b := by
  induction h with
  | nil => cases ha
  | cons hab _ ih =>
      rcases List.mem_cons.mp ha with rfl | ha
      · exact ⟨_, hab⟩
      · exact ih ha

/-- A call calls what the library has under its name. -/
theorem BlockTyped.find?_of_call {lib : Library} {Γ Γ' : Env} {ss : List Stmt}
    {ts : List Typed.Stmt} (h : BlockTyped lib Γ ss Γ' ts) {f : Function} {args : List Typed.Expr}
    {pos : Position} (hcall : .call f args pos ∈ Typed.Stmt.exprsAll ts) :
    lib.find? f.name = some f := by
  obtain ⟨e, Γ₀, τ, he⟩ := exists_of_mem_left h.exprs.flip hcall
  cases he with
  | call hf _ => rw [Library.name_of_find? hf, hf]

/-- A decimal literal that is accepted has a double that is nearest to it. -/
theorem BlockTyped.nearestTo {lib : Library} {Γ Γ' : Env} {ss : List Stmt} {ts : List Typed.Stmt}
    (h : BlockTyped lib Γ ss Γ' ts) {q : Rat} {pos : Position}
    (hliteral : .literal (.ratio q) pos ∈ Stmt.exprsAll ss) :
    (Binary64.ofRat q).NearestTo q := by
  obtain ⟨t, Γ₀, τ, ht⟩ := exists_of_mem_left h.exprs hliteral
  cases ht with
  | literal hv =>
    cases hv with
    | decimal hq => exact Binary64.nearestTo_ofRat hq.1

/--
**Checking is a rewriting that keeps the structure.** Without its types a checked program is the
program that was checked, with its rationals rounded: the same statements, operators, names,
arguments and places, the same values of integers, texts and Booleans. Each call has the function
that the library has under its name, and each rational was rounded to the nearest double.
-/
theorem untyped_check_eq_rounded (lib : Library) (scope after : Scope) (p : Program)
    (typed : Typed.Program) (h : p.check lib scope = (.ok typed, after)) :
    typed.untyped = p.rounded ∧
      (∀ f args pos, .call f args pos ∈ Typed.Stmt.exprsAll typed → lib.find? f.name = some f) ∧
      ∀ q pos, .literal (.ratio q) pos ∈ Stmt.exprsAll p → (Binary64.ofRat q).NearestTo q := by
  have htyped := block_sound p h
  exact ⟨htyped.untyped_eq, fun _ _ _ => htyped.find?_of_call, fun _ _ => htyped.nearestTo⟩

/-- A tenth in a variable, and a loop over a branch with a call in it. -/
def tenthLoop : Program :=
  [.declare "x" "DECIMAL" (some (.literal (.ratio (mkRat 1 10)) {})) {},
   .loop (.binary "!=" (.var "x" {}) (.literal (.integer 1) {}) {})
     [.branch (.literal (.bool true) {})
       [.expr (.call "PRINT" [.literal (.text "x") {}] {}) {}]
       [.assign "x" (.literal (.integer (-7)) {}) {}] {}] {}]

/-- The double nearest to a tenth. -/
def tenth : Binary64 := ⟨0x3FB999999999999A⟩

/-- That program with its types. -/
def tenthLoopTyped : Typed.Program :=
  [.declare "x" .decimal (some (.literal .decimal (.double tenth) {})) {},
   .loop (.binary .boolean "!=" (.var .decimal "x" {}) (.literal .integer (.int32 1) {}) {})
     [.branch (.literal .boolean (.bool true) {})
       [.expr (.call { name := "PRINT", java := "System.out.println", params := [.any],
                       result := .void } [.literal .string (.text "x") {}] {}) {}]
       [.assign "x" (.literal .integer (.int32 (-7)) {}) {}] {}] {}]

/-- The theorem above, of that program. -/
theorem untyped_check_tenthLoop :
    (∃ after, tenthLoop.check .standard .empty = (.ok tenthLoopTyped, after)) ∧
      tenthLoopTyped.untyped = tenthLoop.rounded ∧ tenth.NearestTo (mkRat 1 10) := by
  have hcheck : tenthLoop.check .standard .empty =
      (.ok tenthLoopTyped, (tenthLoop.check .standard .empty).2) := by with_unfolding_all rfl
  obtain ⟨huntyped, -, hnearest⟩ := untyped_check_eq_rounded .standard .empty _ _ _ hcheck
  have htenth : tenth = Binary64.ofRat (mkRat 1 10) := by with_unfolding_all rfl
  refine ⟨⟨_, hcheck⟩, huntyped, ?_⟩
  rw [htenth]
  exact hnearest _ {} (List.mem_cons_self ..)

end Typing

end LetWhile
