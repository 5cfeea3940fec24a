import LetWhile.Proofs.Marks
import LetWhile.Proofs.Pipeline

/-!
# Scopes of the generated program

The checker knows one flat scope: a variable declared inside a block stays defined behind it. The
generated Java puts braces around every block, and there a variable ends with its block. This module
says how far the two agree.

The marks of the generated text are read in two ways. Along the braces, a use is in scope if a block
that is still open declares its variable. Without the braces, they are a run of the checker's flat
scope. The second reading is what every checked program satisfies, so each variable is declared
once, before it is used. The first one can fail, but only for a variable that is declared in the
body of a branch or a loop.
-/

namespace LetWhile

namespace Java

/-! ## Along the braces -/

/-- How many blocks are open behind marks, when `n` of those that count are open in front of them.
It is undefined where a block is closed that was opened before those. -/
def level : Nat → List Mark → Option Nat
  | n, [] => some n
  | n, .opened :: ms => level (n + 1) ms
  | 0, .closed :: _ => none
  | n + 1, .closed :: ms => level n ms
  | n, .declares _ :: ms => level n ms
  | n, .uses _ :: ms => level n ms

/-- The block in which marks start is open along all of them. -/
def StaysOpen (ms : List Mark) : Prop := (level 0 ms).isSome

instance (ms : List Mark) : Decidable (StaysOpen ms) :=
  inferInstanceAs (Decidable ((level 0 ms).isSome = true))

/-- Behind these marks a variable is in scope: they declare it, and the block of the declaration is
still open. -/
def InScope (x : String) (ms : List Mark) : Prop :=
  ∃ before after, ms = before ++ .declares x :: after ∧ StaysOpen after

/-- Every variable is in scope where it is read or assigned. -/
def WellScoped (ms : List Mark) : Prop :=
  ∀ before x after, ms = before ++ .uses x :: after → InScope x before

/-- Behind these marks of a program, the body of a branch or a loop is open. The class and its main
method are two more blocks. -/
def InBody (ms : List Mark) : Prop := ∃ n, level 0 ms = some n ∧ 2 < n

theorem level_append (n : Nat) (ms ms' : List Mark) :
    level n (ms ++ ms') = (level n ms).bind fun k => level k ms' := by
  fun_induction level n ms with
  | case1 n => rfl
  | case2 n ms ih => rw [List.cons_append, level, ih]
  | case3 ms => rfl
  | case4 n ms ih => rw [List.cons_append, level, ih]
  | case5 n x ms ih => rw [List.cons_append, level, ih]
  | case6 n x ms ih => rw [List.cons_append, level, ih]

/-- Blocks that were open before stay open. -/
theorem level_add {n k : Nat} {ms : List Mark} (h : level n ms = some k) (m : Nat) :
    level (n + m) ms = some (k + m) := by
  induction ms generalizing n with
  | nil => cases h; rfl
  | cons mark ms ih =>
      cases mark with
      | opened =>
          rw [level] at h ⊢
          rw [Nat.add_right_comm]
          exact ih h
      | closed =>
          cases n with
          | zero => cases h
          | succ n =>
              rw [level] at h
              rw [Nat.add_right_comm, level]
              exact ih h
      | declares x => rw [level] at h ⊢; exact ih h
      | uses x => rw [level] at h ⊢; exact ih h

mutual

theorem level_exprMarks (n : Nat) (e : Typed.Expr) : level n (exprMarks e) = some n := by
  match e with
  | .missing => rfl
  | .literal _ _ _ => rfl
  | .group _ inner _ => exact level_exprMarks n inner
  | .binary _ _ left right _ =>
      rw [exprMarks, level_append, level_exprMarks n left]
      exact level_exprMarks n right
  | .var _ _ _ => rfl
  | .call _ args _ => exact level_exprsMarks n args

theorem level_exprsMarks (n : Nat) (es : List Typed.Expr) : level n (exprsMarks es) = some n := by
  match es with
  | [] => rfl
  | e :: es =>
      rw [exprsMarks, level_append, level_exprMarks n e]
      exact level_exprsMarks n es

end

mutual

/-- **A statement closes the blocks that it opens, and no others.** -/
theorem level_stmtMarks (n : Nat) (s : Typed.Stmt) : level n (stmtMarks s) = some n := by
  match s with
  | .missing => rfl
  | .expr value _ => exact level_exprMarks n value
  | .declare _ _ none _ => rfl
  | .declare _ _ (some init) _ => rw [stmtMarks, level_append, level_exprMarks]; rfl
  | .assign _ value _ => rw [stmtMarks, level_append, level_exprMarks]; rfl
  | .branch cond yes no _ =>
      rw [stmtMarks, level_append, level_exprMarks, Option.bind_some, level, level_append,
        level_stmtsMarks (n + 1) yes, Option.bind_some, level_append, level_elseMarks n no]
      rfl
  | .loop cond body _ =>
      rw [stmtMarks, level_append, level_exprMarks, Option.bind_some, level, level_append,
        level_stmtsMarks (n + 1) body]
      rfl

theorem level_stmtsMarks (n : Nat) (ss : List Typed.Stmt) : level n (stmtsMarks ss) = some n := by
  match ss with
  | [] => rfl
  | s :: ss =>
      rw [stmtsMarks, level_append, level_stmtMarks n s]
      exact level_stmtsMarks n ss

theorem level_elseMarks (n : Nat) (ss : List Typed.Stmt) :
    level (n + 1) (elseMarks ss) = some (n + 1) := by
  match ss with
  | [] => rfl
  | s :: ss =>
      rw [elseMarks, level, level, level_append, level_stmtMarks (n + 1) s]
      exact level_stmtsMarks (n + 1) ss

end

/-- **A declaration in the main method is in scope to its end.** Of the marks of a program between a
declaration and a use, none closes the block of the declaration, unless that block is the body of a
branch or a loop. -/
theorem staysOpen_or_inBody {p : Typed.Program} {x y : String} {before between after : List Mark}
    (h : programMarks p = before ++ .declares x :: (between ++ .uses y :: after)) :
    StaysOpen between ∨ InBody before := by
  rw [programMarks] at h
  -- the first two marks open the class and its main method
  rcases before with _ | ⟨m₁, _ | ⟨m₂, inner⟩⟩
  · cases h
  · cases h
  rw [List.cons_append, List.cons_append] at h
  injection h with hm₁ h
  injection h with hm₂ h
  subst hm₁ hm₂
  -- the last two marks close them, so the use comes before these
  obtain ⟨rest, hbody⟩ : ∃ rest, stmtsMarks p = inner ++ .declares x :: between ++ rest := by
    rw [← List.cons_append, ← List.append_assoc] at h
    rcases List.append_eq_append_iff.mp h with ⟨more, hmore, hends⟩ | ⟨more, hmore, hends⟩
    · have hmem : Mark.uses y ∈ [Mark.closed, .closed] := by
        rw [hends]
        exact List.mem_append_right _ List.mem_cons_self
      simp at hmem
    · exact ⟨more, hmore⟩
  have hlevel := level_stmtsMarks 0 p
  rw [hbody, List.append_assoc, level_append] at hlevel
  obtain ⟨k, hinner, hlevel⟩ := Option.bind_eq_some_iff.mp hlevel
  rw [List.cons_append, level, level_append] at hlevel
  obtain ⟨_, hbetween, -⟩ := Option.bind_eq_some_iff.mp hlevel
  -- `k` blocks of the main method's body are open at the declaration
  cases k with
  | zero => exact .inl (by rw [StaysOpen, hbetween]; rfl)
  | succ k =>
      refine .inr ⟨k + 3, ?_, by omega⟩
      rw [level, level]
      exact level_add hinner 2

/-! ## Without the braces -/

open Typing (Env)

/-- A run of the flat scope: a declaration binds a name that is not bound yet, a use finds its name
bound, and braces do nothing. -/
inductive Follows : Env → List Mark → Env → Prop where
  | done {Γ : Env} : Follows Γ [] Γ
  | opened {Γ Γ' : Env} {ms : List Mark} : Follows Γ ms Γ' → Follows Γ (.opened :: ms) Γ'
  | closed {Γ Γ' : Env} {ms : List Mark} : Follows Γ ms Γ' → Follows Γ (.closed :: ms) Γ'
  | declares {Γ Γ' : Env} {ms : List Mark} {x : String} {τ : Ty} :
      Γ.inner x = none → Follows (Γ.bind x τ) ms Γ' → Follows Γ (.declares x :: ms) Γ'
  | uses {Γ Γ' : Env} {ms : List Mark} {x : String} {τ : Ty} :
      Γ.find? x = some τ → Follows Γ ms Γ' → Follows Γ (.uses x :: ms) Γ'

theorem Follows.append {Γ Γ₁ Γ₂ : Env} {ms ms' : List Mark} (h : Follows Γ ms Γ₁)
    (h' : Follows Γ₁ ms' Γ₂) : Follows Γ (ms ++ ms') Γ₂ := by
  induction h with
  | done => exact h'
  | opened _ ih => exact .opened (ih h')
  | closed _ ih => exact .closed (ih h')
  | declares hx _ ih => exact .declares hx (ih h')
  | uses hx _ ih => exact .uses hx (ih h')

/-- A name that is bound is not declared again. -/
theorem Follows.not_declares {Γ Γ' : Env} {ms : List Mark} {x : String} (h : Follows Γ ms Γ')
    (hx : Γ.inner x ≠ none) : .declares x ∉ ms := by
  induction h with
  | done => exact List.not_mem_nil
  | opened _ ih => simpa using ih hx
  | closed _ ih => simpa using ih hx
  | @declares Γ Γ' ms y τ hy _ ih =>
      have hne : x ≠ y := fun he => hx (he ▸ hy)
      have hbound : (Γ.bind y τ).inner x ≠ none := by
        rw [Env.inner_bind_of_ne hne]
        exact hx
      rw [List.mem_cons, not_or]
      exact ⟨fun he => hne (Mark.declares.inj he), ih hbound⟩
  | uses _ _ ih => simpa using ih hx

/-- No name is declared twice. -/
theorem Follows.declares_once {Γ Γ' : Env} {before after : List Mark} {x : String}
    (h : Follows Γ (before ++ .declares x :: after) Γ') :
    .declares x ∉ before ∧ .declares x ∉ after := by
  induction before generalizing Γ with
  | nil =>
      cases h with
      | @declares _ _ _ _ τ _ h =>
          refine ⟨List.not_mem_nil, h.not_declares ?_⟩
          rw [Env.inner_bind_self]
          exact Option.some_ne_none τ
  | cons m before ih =>
      cases h with
      | opened h => simpa using ih h
      | closed h => simpa using ih h
      | @declares _ _ _ y τ _ h =>
          obtain ⟨hbefore, hafter⟩ := ih h
          refine ⟨?_, hafter⟩
          rw [List.mem_cons, not_or]
          refine ⟨fun he => ?_, hbefore⟩
          -- the declaration that follows would declare the same name again
          cases he
          refine h.not_declares ?_ (List.mem_append_right _ List.mem_cons_self)
          rw [Env.inner_bind_self]
          exact Option.some_ne_none τ
      | uses _ h => simpa using ih h

/-- A name that is not bound at first is declared before it is used. -/
theorem Follows.declares_of_uses {Γ Γ' : Env} {before after : List Mark} {x : String}
    (h : Follows Γ (before ++ .uses x :: after) Γ') (hx : Γ.find? x = none) :
    .declares x ∈ before := by
  induction before generalizing Γ with
  | nil =>
      cases h with
      | uses hfind _ => rw [hx] at hfind; cases hfind
  | cons m before ih =>
      cases h with
      | opened h => exact List.mem_cons_of_mem _ (ih h hx)
      | closed h => exact List.mem_cons_of_mem _ (ih h hx)
      | @declares _ _ _ y τ _ h =>
          by_cases hxy : x = y
          · rw [hxy]; exact List.mem_cons_self
          · refine List.mem_cons_of_mem _ (ih h ?_)
            rw [Env.find?_bind_of_ne hxy]
            exact hx
      | uses _ h => exact List.mem_cons_of_mem _ (ih h hx)

end Java

/-! ## Checked programs -/

namespace Typing

open Java

mutual

theorem ExprTyped.follows {lib : Library} {Γ : Env} {e : Expr} {τ : Ty} {t : Typed.Expr} :
    ExprTyped lib Γ e τ t → Follows Γ (exprMarks t) Γ
  | .literal _ => .done
  | .group h => h.follows
  | .binary hl hr _ => hl.follows.append hr.follows
  | .var hx => .uses hx .done
  | .call _ h => h.follows

theorem ArgsTyped.follows {lib : Library} {Γ : Env} {es : List Expr} {τs : List Ty}
    {ts : List Typed.Expr} : ArgsTyped lib Γ es τs ts → Follows Γ (exprsMarks ts) Γ
  | .nil => .done
  | .cons h _ hs => h.follows.append hs.follows

end

/-- The braces of an else block do nothing to a flat scope. -/
theorem follows_else {Γ Γ' : Env} {ts : List Typed.Stmt} (h : Follows Γ (stmtsMarks ts) Γ') :
    Follows Γ (elseMarks ts) Γ' := by
  cases ts with
  | nil => exact h
  | cons t ts => exact .closed (.opened h)

mutual

theorem StmtTyped.follows {lib : Library} {Γ Γ' : Env} {s : Stmt} {t : Typed.Stmt} :
    StmtTyped lib Γ s Γ' t → Follows Γ (stmtMarks t) Γ'
  | .expr h => h.follows
  | .declare hd => .declares hd.fresh .done
  | .declareInit hd h _ => h.follows.append (.declares hd.fresh .done)
  | .assign hx h _ => h.follows.append (.uses hx .done)
  | .branch hc hyes hno =>
      hc.follows.append
        (.opened (hyes.follows.append ((follows_else hno.follows).append (.closed .done))))
  | .loop hc hbody => hc.follows.append (.opened (hbody.follows.append (.closed .done)))

theorem BlockTyped.follows {lib : Library} {Γ Γ' : Env} {ss : List Stmt} {ts : List Typed.Stmt} :
    BlockTyped lib Γ ss Γ' ts → Follows Γ (stmtsMarks ts) Γ'
  | .nil => .done
  | .cons h hs => h.follows.append hs.follows

end

end Typing

namespace Java

/-- The marks of a checked program are a run of the flat scope from the empty one. -/
theorem follows_of_checkAlone {lib : Library} {p : Program} {typed : Typed.Program}
    (h : p.checkAlone lib = .ok typed) :
    ∃ Γ, Follows (Typing.ofScope .empty) (programMarks typed) Γ := by
  obtain ⟨s, h⟩ := Program.checkAlone_eq_ok.mp h
  have hbody := (Typing.block_sound p h).follows
  exact ⟨_, .opened (.opened (hbody.append (.closed (.closed .done))))⟩

/-- A mark of the generated program that declares the variable of a use: it comes first, no other
mark declares the variable, and its block is still open unless it is the body of a branch or a
loop. -/
structure DeclaredOnce (x : String) (before after : List Mark) : Prop where
  exists_declares : ∃ front between, before = front ++ .declares x :: between ∧
    .declares x ∉ front ∧ .declares x ∉ between ∧ (StaysOpen between ∨ InBody front)
  not_declares_after : .declares x ∉ after

theorem declaredOnce_of_uses {lib : Library} {p : Program} {typed : Typed.Program}
    (h : p.checkAlone lib = .ok typed) {before after : List Mark} {x : String}
    (hmarks : programMarks typed = before ++ .uses x :: after) : DeclaredOnce x before after := by
  obtain ⟨Γ, hrun⟩ := follows_of_checkAlone h
  rw [hmarks] at hrun
  obtain ⟨front, between, rfl⟩ := List.append_of_mem (hrun.declares_of_uses rfl)
  rw [List.append_assoc, List.cons_append] at hrun hmarks
  obtain ⟨hfront, hrest⟩ := hrun.declares_once
  rw [List.mem_append, List.mem_cons, not_or, not_or] at hrest
  exact ⟨⟨front, between, rfl, hfront, hrest.1, staysOpen_or_inBody hmarks⟩, hrest.2.2⟩

/-- The output of a compilation is printed from a checked program, and its lines have marks. -/
theorem markedLines_of_run {o : CompileOptions} {source : List UInt8} {c : Compilation}
    (h : Compilation.run o.toTheEnd source = .ok c) :
    ∃ p typed lines, Program.checkAlone o.library p = .ok typed ∧ c.typed = some typed ∧
      markedProgram o.java typed = .ok lines ∧ c.output = text (lines.map MarkedLine.text) := by
  obtain ⟨_, p, typed, printed, _, _, hcheck, hprinted, rfl⟩ := Compilation.run_toTheEnd_eq_ok.mp h
  rw [← unmarked_program] at hprinted
  obtain ⟨lines, hlines, heq⟩ := bind_eq_ok.mp hprinted
  cases heq
  exact ⟨p, typed, lines, hcheck, rfl, hlines, rfl⟩

/--
**Every variable of the generated program is declared once, before it is used.** The marks that are
spoken of are those of the lines of the output. A use is in the block of its declaration or in a
block inside of it, unless the declaration stands in the body of a branch or a loop. Such a variable
stays defined for the checker when the body is closed.
-/
theorem generated_uses_declaredOnce (o : CompileOptions) (source : List UInt8) (c : Compilation)
    (h : Compilation.run o.toTheEnd source = .ok c) :
    ∃ typed lines, c.typed = some typed ∧ markedProgram o.java typed = .ok lines ∧
      c.output = text (lines.map MarkedLine.text) ∧
      ∀ before x after, marksOf lines = before ++ .uses x :: after →
        DeclaredOnce x before after := by
  obtain ⟨p, typed, lines, hcheck, htyped, hlines, hout⟩ := markedLines_of_run h
  refine ⟨typed, lines, htyped, hlines, hout, ?_⟩
  intro before x after hmarks
  rw [marksOf_program hlines] at hmarks
  exact declaredOnce_of_uses hcheck hmarks

/-! ## A variable that outlives its block -/

/-- A program that assigns a variable behind the block that declares it. -/
def escaping : List UInt8 := utf8Bytes "IF TRUE THEN LET x : INTEGER END x = 1"

/-- The program as it is checked. -/
def escapingTyped : Typed.Program :=
  [.branch (.literal .boolean (.bool true) ⟨3, 1, 4⟩) [.declare "x" .integer none ⟨13, 1, 14⟩] []
      ⟨0, 1, 1⟩,
    .assign "x" (.literal .integer (.int32 1) ⟨37, 1, 38⟩) ⟨33, 1, 34⟩]

theorem escaping_compiles :
    ∃ c, Compilation.run (CompileOptions.toTheEnd {}) escaping = .ok c ∧
      c.typed = some escapingTyped := by
  have hparse : Program.parse escaping = .ok
      [.branch (.literal (.bool true) ⟨3, 1, 4⟩) [.declare "x" "INTEGER" none ⟨13, 1, 14⟩] []
          ⟨0, 1, 1⟩,
        .assign "x" (.literal (.integer 1) ⟨37, 1, 38⟩) ⟨33, 1, 34⟩] := by
    with_unfolding_all rfl
  obtain ⟨c, hc, htyped, -⟩ := Compilation.run_of_parse {} hparse rfl
  exact ⟨c, hc, htyped⟩

/-- The theorem above, of that program. -/
theorem escaping_uses_declaredOnce :
    ∃ c, Compilation.run (CompileOptions.toTheEnd {}) escaping = .ok c ∧
      ∃ typed lines, c.typed = some typed ∧ markedProgram {} typed = .ok lines ∧
        c.output = text (lines.map MarkedLine.text) ∧
        ∀ before x after, marksOf lines = before ++ .uses x :: after →
          DeclaredOnce x before after := by
  obtain ⟨c, hc, -⟩ := escaping_compiles
  exact ⟨c, hc, generated_uses_declaredOnce {} escaping c hc⟩

theorem escaping_not_wellScoped : ¬ WellScoped (programMarks escapingTyped) := by
  intro h
  obtain ⟨front, between, hfront, hopen⟩ :=
    h [.opened, .opened, .opened, .declares "x", .closed] "x" [.closed, .closed] rfl
  -- the only declaration is the fourth mark, and the fifth one closes its block
  rcases front with _ | ⟨_, _ | ⟨_, _ | ⟨_, _ | ⟨_, _ | ⟨_, front⟩⟩⟩⟩⟩ <;> simp at hfront
  rw [← hfront.2.2.2] at hopen
  exact absurd hopen (by decide)

/-- **Not every generated program is well scoped.** A compilation succeeds whose output uses a
variable behind the block that declares it. -/
theorem generated_not_wellScoped :
    ∃ c typed lines, Compilation.run (CompileOptions.toTheEnd {}) escaping = .ok c ∧
      c.typed = some typed ∧ markedProgram {} typed = .ok lines ∧
      c.output = text (lines.map MarkedLine.text) ∧ ¬ WellScoped (marksOf lines) := by
  obtain ⟨c, hc, hc'⟩ := escaping_compiles
  obtain ⟨_, typed, lines, -, htyped, hlines, hout⟩ := markedLines_of_run hc
  refine ⟨c, typed, lines, hc, htyped, hlines, hout, ?_⟩
  rw [hc'] at htyped
  cases htyped
  rw [marksOf_program hlines]
  exact escaping_not_wellScoped

end Java

end LetWhile
