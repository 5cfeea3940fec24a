import LetWhile.Proofs.Parsing

/-!
# Derivations do not look behind what they derive

The tokens that a derivation starts from are those that it uses and those that are left. Others can
be put in the place of the ones that are left, and the derivation is the same. An operand is the
same operand whatever stands behind it. An expression must stand in front of something that can end
it, and nothing else is asked there.
-/

namespace LetWhile.Grammar

open LetWhile.Parser

/-! ## Expressions -/

mutual

theorem Primary.split {ts rest : List Token} {e : Expr} :
    Primary ts e rest → ∃ front, ts = front ++ rest ∧ ∀ more, Primary (front ++ more) e more
  | @Primary.trueWord t _ ht => ⟨[t], rfl, fun _ => .trueWord ht⟩
  | @Primary.falseWord t _ ht => ⟨[t], rfl, fun _ => .falseWord ht⟩
  | @Primary.var x _ hx => ⟨[x], rfl, fun _ => .var hx⟩
  | @Primary.call f p _ _ _ hf hp hargs => by
      obtain ⟨front, rfl, hfront⟩ := hargs.split
      exact ⟨f :: p :: front, rfl, fun more => .call hf hp (hfront more)⟩
  | @Primary.group p q _ _ _ hp he hq => by
      obtain ⟨front, rfl, hfront⟩ := he.split
      refine ⟨p :: front ++ [q], by simp, fun more => ?_⟩
      have hinner := hfront (q :: more) (.mark (by decide) hq)
      simpa using Primary.group hp hinner hq
  | @Primary.integer t _ _ hk hv => ⟨[t], rfl, fun _ => .integer hk hv⟩
  | @Primary.decimal t _ _ hk hv => ⟨[t], rfl, fun _ => .decimal hk hv⟩
  | @Primary.string t _ hk hs => ⟨[t], rfl, fun _ => .string hk hs⟩

theorem Operand.split {t : Tier} {ts rest : List Token} {e : Expr} :
    Operand t ts e rest → ∃ front, ts = front ++ rest ∧ ∀ more, Operand t (front ++ more) e more
  | .sum h => by
      obtain ⟨front, hts, hfront⟩ := h.split
      exact ⟨front, hts, fun more => .sum (hfront more)⟩
  | .product h => by
      obtain ⟨front, hts, hfront⟩ := h.split
      exact ⟨front, hts, fun more => .product (hfront more)⟩
  | .primary h => by
      obtain ⟨front, hts, hfront⟩ := h.split
      exact ⟨front, hts, fun more => .primary (hfront more)⟩

theorem Chain.split {t : Tier} {ts rest : List Token} {e : Expr} :
    Chain t ts e rest → ∃ front, ts = front ++ rest ∧ ∀ more, Chain t (front ++ more) e more
  | .single h => by
      obtain ⟨front, hts, hfront⟩ := h.split
      exact ⟨front, hts, fun more => .single (hfront more)⟩
  | @Chain.join _ op _ _ _ _ _ h hop hright => by
      obtain ⟨front, rfl, hfront⟩ := h.split
      obtain ⟨last, rfl, hlast⟩ := hright.split
      refine ⟨front ++ op :: last, by simp, fun more => ?_⟩
      simpa using Chain.join (hfront (op :: last ++ more)) hop (hlast more)

theorem Expression.split {ts rest : List Token} {e : Expr} :
    Expression ts e rest →
      ∃ front, ts = front ++ rest ∧ ∀ more, Ends more → Expression (front ++ more) e more
  | .mk h _ => by
      obtain ⟨front, hts, hfront⟩ := h.split
      exact ⟨front, hts, fun more hends => .mk (hfront more) hends⟩

theorem Arguments.split {ts rest : List Token} {args : List Expr} :
    Arguments ts args rest →
      ∃ front, ts = front ++ rest ∧ ∀ more, Arguments (front ++ more) args more
  | @Arguments.empty q _ hq => ⟨[q], rfl, fun _ => .empty hq⟩
  | .list h => by
      obtain ⟨front, hts, hfront⟩ := h.split
      exact ⟨front, hts, fun more => .list (hfront more)⟩

theorem ArgumentList.split {ts rest : List Token} {args : List Expr} :
    ArgumentList ts args rest →
      ∃ front, ts = front ++ rest ∧ ∀ more, ArgumentList (front ++ more) args more
  | @ArgumentList.last q _ _ _ he hq => by
      obtain ⟨front, rfl, hfront⟩ := he.split
      refine ⟨front ++ [q], by simp, fun more => ?_⟩
      simpa using ArgumentList.last (hfront (q :: more) (.mark (by decide) hq)) hq
  | @ArgumentList.more c _ _ _ _ _ he hc h => by
      obtain ⟨first, rfl, hfirst⟩ := he.split
      obtain ⟨others, rfl, hothers⟩ := h.split
      refine ⟨first ++ c :: others, by simp, fun more => ?_⟩
      have hhead := hfirst (c :: (others ++ more)) (.mark (by decide) hc)
      simpa using ArgumentList.more hhead hc (hothers more)

end

/-- What starts an expression does not end one. -/
theorem Expression.not_ends {ts rest : List Token} {e : Expr} (h : Expression ts e rest) :
    ¬ Ends ts := by
  intro hends
  obtain ⟨_, _, hp, _⟩ := h.first
  cases hends with
  | input => cases hp
  | @mark t _ op hop ht =>
      have hno : t.isOperator op = false := hp.operatorAhead (by rintro rfl; simp at hop)
      rw [ht] at hno
      cases hno
  | @word t _ w hw ht =>
      have hno : t.isWord w = false := by
        simp only [List.mem_cons, List.not_mem_nil, or_false] at hw
        rcases hw with rfl | rfl | rfl | rfl | rfl | rfl | rfl <;>
          exact hp.wordAhead (by decide) (by decide) (by decide)
      rw [ht] at hno
      cases hno
  | assignment hx heq =>
      have hno := h.assignmentAhead
      simp [Parser.assignmentAhead, operatorAhead_cons, hx, heq] at hno

/-! ## Statements

Of a statement only its end looks further, and only if it ends with an expression. The second part
of the two lemmas is about its start: where a statement could end an expression in front of it, it
still can with something else behind it. -/

mutual

theorem Statement.split {ts rest : List Token} {s : Stmt} :
    Statement ts s rest → ∃ front, ts = front ++ rest ∧ ∀ more, (Ends rest → Ends more) →
      Statement (front ++ more) s more ∧ (Ends ts → Ends (front ++ more))
  | @Statement.declare l x c y _ hl hx hc hy =>
      ⟨[l, x, c, y], rfl, fun _ _ => ⟨.declare hl hx hc hy, fun _ => .word (by decide) hl⟩⟩
  | @Statement.declareInit l x c y eq _ _ _ hl hx hc hy heq he => by
      have hends : Ends rest := by cases he; assumption
      obtain ⟨front, rfl, hfront⟩ := he.split
      refine ⟨l :: x :: c :: y :: eq :: front, rfl, fun more hmore => ⟨?_, ?_⟩⟩
      · exact .declareInit hl hx hc hy heq (hfront more (hmore hends))
      · exact fun _ => .word (by decide) hl
  | @Statement.assign x eq _ _ _ hx heq he => by
      have hends : Ends rest := by cases he; assumption
      obtain ⟨front, rfl, hfront⟩ := he.split
      refine ⟨x :: eq :: front, rfl, fun more hmore => ⟨?_, ?_⟩⟩
      · exact .assign hx heq (hfront more (hmore hends))
      · exact fun _ => .assignment hx heq
  | @Statement.branch i w close _ _ _ _ _ hi hcond hw hyes hclose => by
      obtain ⟨first, rfl, hfirst⟩ := hcond.split
      obtain ⟨second, rfl, hsecond⟩ := hyes.split
      refine ⟨i :: first ++ w :: second ++ [close], by simp, fun more _ => ⟨?_, ?_⟩⟩
      · have hyes := (hsecond (close :: more) fun _ => .word (by decide) hclose).1
        have hcond := hfirst (w :: (second ++ close :: more)) (.word (by decide) hw)
        simpa using Statement.branch hi hcond hw hyes hclose
      · exact fun _ => .word (by decide) hi
  | @Statement.branchElse i w v close _ _ _ _ _ _ _ hi hcond hw hyes hv hno hclose => by
      obtain ⟨first, rfl, hfirst⟩ := hcond.split
      obtain ⟨second, rfl, hsecond⟩ := hyes.split
      obtain ⟨third, rfl, hthird⟩ := hno.split
      refine ⟨i :: first ++ w :: second ++ v :: third ++ [close], by simp, fun more _ => ⟨?_, ?_⟩⟩
      · have hno := (hthird (close :: more) fun _ => .word (by decide) hclose).1
        have hyes := (hsecond (v :: (third ++ close :: more)) fun _ => .word (by decide) hv).1
        have hcond := hfirst (w :: (second ++ v :: (third ++ close :: more))) (.word (by decide) hw)
        simpa using Statement.branchElse hi hcond hw hyes hv hno hclose
      · exact fun _ => .word (by decide) hi
  | @Statement.loop i w close _ _ _ _ _ hi hcond hw hbody hclose => by
      obtain ⟨first, rfl, hfirst⟩ := hcond.split
      obtain ⟨second, rfl, hsecond⟩ := hbody.split
      refine ⟨i :: first ++ w :: second ++ [close], by simp, fun more _ => ⟨?_, ?_⟩⟩
      · have hbody := (hsecond (close :: more) fun _ => .word (by decide) hclose).1
        have hcond := hfirst (w :: (second ++ close :: more)) (.word (by decide) hw)
        simpa using Statement.loop hi hcond hw hbody hclose
      · exact fun _ => .word (by decide) hi
  | .expr he => by
      have hends : Ends rest := by cases he; assumption
      have hnot := he.not_ends
      obtain ⟨front, hts, hfront⟩ := he.split
      exact ⟨front, hts, fun more hmore =>
        ⟨.expr (hfront more (hmore hends)), fun h => absurd h hnot⟩⟩

theorem Block.split {ts rest : List Token} {ss : List Stmt} :
    Block ts ss rest → ∃ front, ts = front ++ rest ∧ ∀ more, (Ends rest → Ends more) →
      Block (front ++ more) ss more ∧ (Ends ts → Ends (front ++ more))
  | .done => ⟨[], rfl, fun _ hmore => ⟨.done, hmore⟩⟩
  | @Block.separator t _ _ _ ht h => by
      obtain ⟨front, rfl, hfront⟩ := h.split
      refine ⟨t :: front, rfl, fun more hmore => ⟨?_, ?_⟩⟩
      · exact .separator ht (hfront more hmore).1
      · exact fun _ => .mark (by decide) ht
  | .cons hs h => by
      obtain ⟨first, rfl, hfirst⟩ := hs.split
      obtain ⟨others, rfl, hothers⟩ := h.split
      refine ⟨first ++ others, by simp, fun more hmore => ?_⟩
      -- the statement ends in front of the others as before, as they start as before
      obtain ⟨hblock, hstart⟩ := hothers more hmore
      obtain ⟨hstmt, hends⟩ := hfirst (others ++ more) hstart
      rw [List.append_assoc first others more]
      exact ⟨.cons hstmt hblock, hends⟩

end

end LetWhile.Grammar
