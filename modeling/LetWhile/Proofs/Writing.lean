import LetWhile.Proofs.Totality

/-!
# Printing into a sink that fails

A pen does not ask its sink whether a write went well before the work is done. It keeps the first
error of a write, and every write behind it is left out, at every depth of the tree. So a sink with
a limit can only cut off the end of what it is given, and whether an error is returned in the end
depends on the limit and on the number of bytes alone. This holds where a tree has gaps, too, and
where a row of spaces is too long: behind an error no row is built, so the pen gets past it, but it
does not get past a gap. The views of a compilation are written in the same way, without a pen.
-/

namespace LetWhile

/-- **Only the limit shows.** What is put into a sink without a limit returns no error. A sink with
a limit stores the first bytes of it, up to the limit. If these are not all, then an error is
returned, or the gap is met at which the work breaks off in any case; and if they are, then the work
ends as it does without a limit. -/
structure Truncates {ε : Type} (put : Sink → Except ε (Option WriteError) × Sink)
    (gap : Option ε) : Prop where
  unlimited : ∀ e, (put {}).1 ≠ .ok (some e)
  stored : ∀ limit, (put { limit := some limit }).2.written = (put {}).2.written.take limit
  returned : ∀ limit, (put { limit := some limit }).1 =
    if limit < (put {}).2.written.length then gap.elim (.ok (some .diskFull)) .error
    else (put {}).1

namespace Java

/-! ## Rows -/

/-- **Rows into a sink without a limit and into one with a limit.** Where they differ, the limit was
crossed, and then all that is left is how the work ends behind its rows. -/
theorem inscribe_cut (width : Nat) (gap : Option Gap) (rows : List Row) (limit : Nat)
    (bytes : List UInt8) :
    ∃ result all, inscribe width gap rows (.full bytes) = (result, .full all) ∧
      inscribe width gap rows (.cut limit bytes) =
        (if limit < all.length then ending gap else result, .cut limit all) := by
  induction rows generalizing bytes with
  | nil => exact ⟨ending gap, bytes, rfl, by rw [inscribe, ite_self]⟩
  | cons r rows ih =>
      by_cases hlong : longestRow < r.level * width
      · -- without a limit the work breaks off here
        have hfull : inscribe width gap (r :: rows) (.full bytes) =
            (.error (.row (r.level * width)), .full bytes) := if_pos ⟨rfl, hlong⟩
        refine ⟨_, bytes, hfull, ?_⟩
        by_cases hcrossed : limit < bytes.length
        · have hfailed : (Writer.cut limit bytes).failure = some .diskFull := if_pos hcrossed
          rw [inscribe_failed hfailed, if_pos hcrossed]
        · have hnone : (Writer.cut limit bytes).failure = none := if_neg hcrossed
          rw [inscribe, if_pos ⟨hnone, hlong⟩, if_neg hcrossed]
      · obtain ⟨result, all, hfull, hcut⟩ := ih (bytes ++ utf8Bytes (r.line width))
        refine ⟨result, all, ?_, ?_⟩
        · rw [inscribe, if_neg fun h => hlong h.2, Writer.write_full, hfull]
        · rw [inscribe, if_neg fun h => hlong h.2, Writer.write_cut, hcut]

theorem truncates_pour (width : Nat) (gap : Option Gap) (rows : List Row) :
    Truncates (pour width gap rows) (gap.map .gap) := by
  have hboth (limit : Nat) : ∃ result all,
      pour width gap rows {} = (Except.map (fun _ => none) result, { written := all }) ∧
      pour width gap rows { limit := some limit } =
        (Except.map (fun _ => if limit < all.length then some .diskFull else none)
            (if limit < all.length then ending gap else result),
          { limit := some limit, written := all.take limit }) := by
    obtain ⟨result, all, hfull, hcut⟩ := inscribe_cut width gap rows limit []
    refine ⟨result, all, ?_, ?_⟩
    · rw [Writer.full] at hfull
      rw [pour, hfull]
      rfl
    · rw [pour, Writer.limited_eq_cut, hcut]
      rfl
  refine ⟨fun e => ?_, fun limit => ?_, fun limit => ?_⟩
  · obtain ⟨result, all, hfull, -⟩ := hboth 0
    rw [hfull]
    cases result <;> intro h <;> cases h
  · obtain ⟨result, all, hfull, hcut⟩ := hboth limit
    rw [hfull, hcut]
  · obtain ⟨result, all, hfull, hcut⟩ := hboth limit
    rw [hfull, hcut]
    by_cases hcrossed : limit < all.length
    · simp only [if_pos hcrossed]
      cases gap <;> rfl
    · simp only [if_neg hcrossed]

/-! ## Gaps -/

/-- A literal without a spelling is a gap. -/
def literalGaps : Constant → List Gap
  | .bool _ => []
  | .int32 _ => []
  | .double _ => []
  | .text _ => []
  | .stray _ => []
  | value => [.literal value]

mutual

/-- The gaps of an expression, in the order of its text: the nodes that were left out, and the
literals without a spelling. -/
def exprGaps : Typed.Expr → List Gap
  | .missing => [.expression]
  | .literal _ value _ => literalGaps value
  | .group _ inner _ => exprGaps inner
  | .binary _ _ left right _ => exprGaps left ++ exprGaps right
  | .var _ _ _ => []
  | .call _ args _ => exprsGaps args

/-- The gaps of expressions. -/
def exprsGaps : List Typed.Expr → List Gap
  | [] => []
  | e :: es => exprGaps e ++ exprsGaps es

end

mutual

/-- The gaps of a statement. -/
def stmtGaps : Typed.Stmt → List Gap
  | .missing => [.statement]
  | .expr value _ => exprGaps value
  | .declare _ _ none _ => []
  | .declare _ _ (some init) _ => exprGaps init
  | .assign _ value _ => exprGaps value
  | .branch cond yes no _ => exprGaps cond ++ (stmtsGaps yes ++ stmtsGaps no)
  | .loop cond body _ => exprGaps cond ++ stmtsGaps body

/-- The gaps of statements. -/
def stmtsGaps : List Typed.Stmt → List Gap
  | [] => []
  | s :: ss => stmtGaps s ++ stmtsGaps ss

end

/-- The gap that a printer met, if it met one. -/
def gap? {α : Type} : Except Gap α → Option Gap
  | .error g => some g
  | .ok _ => none

theorem gap?_bind {α β : Type} {x : Except Gap α} {f : α → Except Gap β} {gaps gaps' : List Gap}
    (h : gap? x = gaps.head?) (h' : ∀ a, gap? (f a) = gaps'.head?) :
    gap? (x >>= f) = (gaps ++ gaps').head? := by
  rw [List.head?_append, ← h]
  cases x with
  | error g => rfl
  | ok a => exact h' a

theorem gap?_bind_return {α β : Type} {x : Except Gap α} {f : α → β} {gaps : List Gap}
    (h : gap? x = gaps.head?) : gap? (x >>= fun a => pure (f a)) = gaps.head? := by
  rw [← h]
  cases x <;> rfl

theorem gap?_literal (value : Constant) : gap? (literal value) = (literalGaps value).head? := by
  cases value <;> rfl

mutual

theorem gap?_expr (e : Typed.Expr) : gap? (expr e) = (exprGaps e).head? := by
  match e with
  | .missing => rfl
  | .literal _ value _ => exact gap?_literal value
  | .group _ inner _ => exact gap?_bind_return (gap?_expr inner)
  | .binary _ _ left right _ =>
      exact gap?_bind (gap?_expr left) fun _ => gap?_bind_return (gap?_expr right)
  | .var _ _ _ => rfl
  | .call _ args _ => exact gap?_bind_return (gap?_exprs args)

theorem gap?_exprs (es : List Typed.Expr) : gap? (exprs es) = (exprsGaps es).head? := by
  match es with
  | [] => rfl
  | e :: es => exact gap?_bind (gap?_expr e) fun _ => gap?_bind_return (gap?_exprs es)

end

mutual

theorem gap?_stmt (width spaces : Nat) (s : Typed.Stmt) :
    gap? (stmt width spaces s) = (stmtGaps s).head? := by
  match s with
  | .missing => rfl
  | .expr value _ => exact gap?_bind_return (gap?_expr value)
  | .declare _ _ none _ => rfl
  | .declare _ _ (some init) _ => exact gap?_bind_return (gap?_expr init)
  | .assign _ value _ => exact gap?_bind_return (gap?_expr value)
  | .branch cond yes no _ =>
      exact gap?_bind (gap?_expr cond) fun _ =>
        gap?_bind (gap?_stmts width _ yes) fun _ => gap?_bind_return (gap?_else width _ no)
  | .loop cond body _ =>
      exact gap?_bind (gap?_expr cond) fun _ => gap?_bind_return (gap?_stmts width _ body)

/-- **A printer stops at the first gap**, however it indents. -/
theorem gap?_stmts (width spaces : Nat) (ss : List Typed.Stmt) :
    gap? (stmts width spaces ss) = (stmtsGaps ss).head? := by
  match ss with
  | [] => rfl
  | s :: ss =>
      exact gap?_bind (gap?_stmt width _ s) fun _ => gap?_bind_return (gap?_stmts width _ ss)

theorem gap?_else (width spaces : Nat) (ss : List Typed.Stmt) :
    gap? (elseBlock width spaces ss) = (stmtsGaps ss).head? := by
  match ss with
  | [] => rfl
  | s :: ss =>
      exact gap?_bind (gap?_stmt width _ s) fun _ => gap?_bind_return (gap?_stmts width _ ss)

end

/-- **A limit cuts off the end of what is printed**, with gaps or without. -/
theorem Prints.truncates {work : Work Unit} {o : Options} {top : Nat}
    {x : Except Gap (List String)} (h : Prints work o.width 0 top x) :
    Truncates (work.into o) ((gap? x).map .gap) := by
  by_cases hwidth : o.width ≤ longestRow
  · cases h with
    | all h _ =>
        rw [funext (h.into_eq hwidth)]
        exact truncates_pour ..
    | upTo h =>
        rw [funext (h.into_eq hwidth)]
        exact truncates_pour ..
  · -- nothing is written at all
    have hlong : ∀ sink, work.into o sink = (.error (.row o.width), sink) :=
      into_of_long (Nat.not_le.mp hwidth)
    refine ⟨fun e => ?_, fun limit => ?_, fun limit => ?_⟩
    · rw [hlong]
      intro h
      cases h
    · rw [hlong, hlong]
      exact List.take_nil.symm
    · rw [hlong, hlong]
      exact (if_neg (Nat.not_lt_zero limit)).symm

theorem gap?_program (o : Options) (p : Typed.Program) :
    gap? (program o p) = (stmtsGaps p).head? :=
  gap?_bind_return (gap?_stmts o.width _ p)

/-- A printer that stops at the first gap prints what has none. -/
theorem exists_of_gaps {α : Type} {x : Except Gap α} {gaps : List Gap} (h : gap? x = gaps.head?)
    (hgaps : gaps = []) : ∃ a, x = .ok a := by
  rw [hgaps] at h
  cases x with
  | error g => cases h
  | ok a => exact ⟨a, rfl⟩

end Java

/-! ## Views -/

theorem truncates_of_writeAll {ε : Type} {put : Sink → Except ε (Option WriteError) × Sink}
    {chunks : List String}
    (h : ∀ sink, put sink =
      (.ok (Writer.writeAll { sink } chunks).failure, (Writer.writeAll { sink } chunks).sink)) :
    Truncates put none := by
  have hfull : put {} = (.ok none, { written := chunks.flatMap utf8Bytes }) := by
    rw [h, Writer.writeAll_unlimited]
    rfl
  have hcut (limit : Nat) : put { limit := some limit } =
      (.ok (if limit < (chunks.flatMap utf8Bytes).length then some .diskFull else none),
        { limit := some limit, written := (chunks.flatMap utf8Bytes).take limit }) := by
    rw [h, Writer.writeAll_limited]
    rfl
  refine ⟨fun e => ?_, fun limit => ?_, fun limit => ?_⟩
  · rw [hfull]
    intro hnone
    cases hnone
  · rw [hfull, hcut]
  · rw [hfull, hcut]
    split <;> rfl

/-- A loop around a branch with both of its blocks. -/
def nestedBlocks : Typed.Program :=
  [.loop (.var .boolean "more" {})
    [.branch (.binary .boolean "==" (.var .integer "n" {}) (.literal .integer (.int32 1) {}) {})
      [.assign "n" (.literal .integer (.int32 2) {}) {}]
      [.assign "more" (.literal .boolean (.bool false) {}) {}] {}] {}]

end LetWhile
