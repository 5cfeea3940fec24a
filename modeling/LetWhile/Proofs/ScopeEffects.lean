import LetWhile.Proofs.Checking

/-!
# What a check does to its scope

The checker defines variables while it walks over a program, and it can stop anywhere: in an initial
value, in a condition, deep inside the blocks of a branch. The scope that it leaves behind then
depends on how far it came. To say how far, a program is laid out as the list of its steps. A step
is what the checker looks at in one go, and since blocks open no scope, the steps of a block stand
directly behind the condition in front of it. A check goes over the steps from the front to the back
up to the first one that breaks a rule, and a step that breaks one leaves the scope alone.

So the scope behind a check has what it had before, and behind that exactly the variables that the
steps before the error declare.
-/

namespace LetWhile

/-! ## Steps -/

mutual

/-- The steps of a statement, in the order of its text. A branch without statements stands for the
condition of a branch, and a loop without statements for that of a loop. -/
def Stmt.steps : Stmt → List Stmt
  | .missing => [.missing]
  | .expr value pos => [.expr value pos]
  | .declare name typeName init pos => [.declare name typeName init pos]
  | .assign name value pos => [.assign name value pos]
  | .branch cond yes no pos => .branch cond [] [] pos :: (Stmt.stepsAll yes ++ Stmt.stepsAll no)
  | .loop cond body pos => .loop cond [] pos :: Stmt.stepsAll body

/-- The steps of statements. -/
def Stmt.stepsAll : List Stmt → List Stmt
  | [] => []
  | s :: ss => s.steps ++ Stmt.stepsAll ss

end

mutual

/-- The variables that a statement declares, each with the name of its type, in the order of the
text. -/
def Stmt.declared : Stmt → List (String × String)
  | .missing => []
  | .expr _ _ => []
  | .declare name typeName _ _ => [(name, typeName)]
  | .assign _ _ _ => []
  | .branch _ yes no _ => Stmt.declaredAll yes ++ Stmt.declaredAll no
  | .loop _ body _ => Stmt.declaredAll body

/-- The variables that statements declare. -/
def Stmt.declaredAll : List Stmt → List (String × String)
  | [] => []
  | s :: ss => s.declared ++ Stmt.declaredAll ss

end

theorem Stmt.declaredAll_append (ss ss' : List Stmt) :
    Stmt.declaredAll (ss ++ ss') = Stmt.declaredAll ss ++ Stmt.declaredAll ss' := by
  induction ss with
  | nil => rfl
  | cons s ss ih => rw [List.cons_append, declaredAll, declaredAll, ih, List.append_assoc]

mutual

/-- The steps of a statement declare what the statement declares. -/
theorem Stmt.declaredAll_steps (s : Stmt) : Stmt.declaredAll s.steps = s.declared := by
  match s with
  | .missing => rfl
  | .expr _ _ => rfl
  | .declare _ _ _ _ => rfl
  | .assign _ _ _ => rfl
  | .branch cond yes no pos =>
      rw [steps, declaredAll, declaredAll_append, declaredAll_stepsAll yes,
        declaredAll_stepsAll no]
      rfl
  | .loop cond body pos =>
      rw [steps, declaredAll, declaredAll_stepsAll body]
      rfl

theorem Stmt.declaredAll_stepsAll (ss : List Stmt) :
    Stmt.declaredAll (Stmt.stepsAll ss) = Stmt.declaredAll ss := by
  match ss with
  | [] => rfl
  | s :: ss =>
      rw [stepsAll, declaredAll_append, declaredAll_steps s, declaredAll_stepsAll ss, declaredAll]

end

mutual

/-- A step is its own only step. -/
theorem Stmt.steps_of_mem_steps (s : Stmt) : ∀ step ∈ s.steps, step.steps = [step] := by
  match s with
  | .missing => exact List.forall_mem_singleton.mpr rfl
  | .expr _ _ => exact List.forall_mem_singleton.mpr rfl
  | .declare _ _ _ _ => exact List.forall_mem_singleton.mpr rfl
  | .assign _ _ _ => exact List.forall_mem_singleton.mpr rfl
  | .branch cond yes no pos =>
      rw [steps, List.forall_mem_cons, List.forall_mem_append]
      exact ⟨rfl, steps_of_mem_stepsAll yes, steps_of_mem_stepsAll no⟩
  | .loop cond body pos =>
      rw [steps, List.forall_mem_cons]
      exact ⟨rfl, steps_of_mem_stepsAll body⟩

theorem Stmt.steps_of_mem_stepsAll (ss : List Stmt) :
    ∀ step ∈ Stmt.stepsAll ss, step.steps = [step] := by
  match ss with
  | [] => exact fun _ h => absurd h List.not_mem_nil
  | s :: ss =>
      rw [stepsAll, List.forall_mem_append]
      exact ⟨steps_of_mem_steps s, steps_of_mem_stepsAll ss⟩

end

/-! ## Going over the steps -/

namespace Check

/-- The error of a check, if it ended with one. -/
def error? {α : Type} : Except TypeError α → Option TypeError
  | .error e => some e
  | .ok _ => none

/-- Checking steps one after the other, up to the first one that breaks a rule. That one leaves the
scope as it is. -/
inductive Goes (lib : Library) : Scope → List Stmt → Option TypeError → Scope → Prop where
  | done {s : Scope} : Goes lib s [] none s
  | stop {s : Scope} {step : Stmt} {later : List Stmt} {e : TypeError} :
      stmt lib s step = (.error e, s) → Goes lib s (step :: later) (some e) s
  | on {s s₁ s' : Scope} {step : Stmt} {t : Typed.Stmt} {later : List Stmt}
      {r : Option TypeError} :
      stmt lib s step = (.ok t, s₁) → Goes lib s₁ later r s' → Goes lib s (step :: later) r s'

section Goes

variable {lib : Library} {s s₁ s' : Scope} {front back : List Stmt}

theorem Goes.append {r : Option TypeError} (h : Goes lib s front none s₁)
    (h' : Goes lib s₁ back r s') : Goes lib s (front ++ back) r s' := by
  induction front generalizing s with
  | nil => cases h; exact h'
  | cons step front ih =>
      cases h with
      | on hstep h => exact .on hstep (ih h)

/-- What stands behind an error does not matter. -/
theorem Goes.append_of_error {e : TypeError} (h : Goes lib s front (some e) s') :
    Goes lib s (front ++ back) (some e) s' := by
  induction front generalizing s with
  | nil => cases h
  | cons step front ih =>
      cases h with
      | stop hstep => exact .stop hstep
      | on hstep h => exact .on hstep (ih h)

end Goes

/-- A statement without blocks is a single step, if it leaves the scope alone when it breaks a
rule. -/
theorem goes_single {lib : Library} {s : Scope} {st : Stmt}
    (h : ∀ e, (stmt lib s st).1 = .error e → (stmt lib s st).2 = s) :
    Goes lib s [st] (error? (stmt lib s st).1) (stmt lib s st).2 := by
  cases hst : stmt lib s st with
  | mk result s' =>
    cases result with
    | error e =>
        have hs : s' = s := by
          have hs := h e (by rw [hst])
          rw [hst] at hs
          exact hs
        rw [hs] at hst ⊢
        exact .stop hst
    | ok t => exact .on hst .done

mutual

theorem goes_stmt (lib : Library) (s : Scope) (st : Stmt) :
    Goes lib s st.steps (error? (stmt lib s st).1) (stmt lib s st).2 := by
  match st with
  | .missing => exact goes_single fun _ _ => rfl
  | .expr value pos =>
      refine goes_single fun e he => ?_
      rw [stmt] at he ⊢
      split at he
      · rfl
      · cases he
  | .declare name typeName init pos =>
      refine goes_single fun e he => ?_
      rw [stmt] at he ⊢
      split at he
      · rfl
      · cases he
  | .assign name value pos => exact goes_single fun _ _ => by rw [stmt]
  | .branch cond yes no pos =>
      rw [Stmt.steps, stmt]
      cases hcond : condition lib s cond with
      | error e => exact .stop (by rw [stmt, hcond])
      | ok c =>
        have hstep : stmt lib s (.branch cond [] [] pos) = (.ok (.branch c [] [] pos), s) := by
          rw [stmt, hcond]
          rfl
        refine .on hstep ?_
        have hyes := goes_block lib s yes
        dsimp only
        cases hblock : block lib s yes with
        | mk result s₁ =>
          rw [hblock] at hyes
          cases result with
          | error e => exact hyes.append_of_error
          | ok yes' =>
            refine hyes.append ?_
            have hno := goes_block lib s₁ no
            dsimp only
            cases hblock' : block lib s₁ no with
            | mk result' s₂ =>
              rw [hblock'] at hno
              cases result' with
              | error e => exact hno
              | ok no' => exact hno
  | .loop cond body pos =>
      rw [Stmt.steps, stmt]
      cases hcond : condition lib s cond with
      | error e => exact .stop (by rw [stmt, hcond])
      | ok c =>
        have hstep : stmt lib s (.loop cond [] pos) = (.ok (.loop c [] pos), s) := by
          rw [stmt, hcond]
          rfl
        refine .on hstep ?_
        have hbody := goes_block lib s body
        dsimp only
        cases hblock : block lib s body with
        | mk result s₁ =>
          rw [hblock] at hbody
          cases result with
          | error e => exact hbody
          | ok body' => exact hbody

/-- **A check goes over the steps of its statements.** -/
theorem goes_block (lib : Library) (s : Scope) (ss : List Stmt) :
    Goes lib s (Stmt.stepsAll ss) (error? (block lib s ss).1) (block lib s ss).2 := by
  match ss with
  | [] =>
      rw [block]
      exact .done
  | st :: ss =>
      rw [Stmt.stepsAll, block]
      have hfirst := goes_stmt lib s st
      cases hst : stmt lib s st with
      | mk result s₁ =>
        rw [hst] at hfirst
        cases result with
        | error e => exact hfirst.append_of_error
        | ok t =>
          refine hfirst.append ?_
          have hrest := goes_block lib s₁ ss
          dsimp only
          cases hblock : block lib s₁ ss with
          | mk result' s₂ =>
            rw [hblock] at hrest
            cases result' with
            | error e => exact hrest
            | ok ts => exact hrest

end

end Check

/-! ## What is added to a scope -/

/-- **A scope with new variables in its innermost frame.** The frames around are the same, the new
bindings stand behind those that were there before, and each of them is of a new name that a
variable can have and of a type that a variable can have. -/
structure Scope.Adds (s : Scope) (added : List (String × Ty)) (s' : Scope) : Prop where
  outer_eq : s'.outer = s.outer
  bindings_eq : s'.frame.bindings = s.frame.bindings ++ added
  distinct : (added.map Prod.fst).Nodup
  fresh : ∀ b ∈ added, s.frame.find? b.1 = none
  notReserved : ∀ b ∈ added, Java.isReserved b.1 = false
  notVoid : ∀ b ∈ added, b.2 ≠ .void
  known : ∀ b ∈ added, b.2 ≠ .invalid

namespace Scope

variable {s s₁ s' : Scope} {added added' : List (String × Ty)}

theorem Adds.nil (s : Scope) : s.Adds [] s where
  outer_eq := rfl
  bindings_eq := (List.append_nil _).symm
  distinct := List.nodup_nil
  fresh := by simp
  notReserved := by simp
  notVoid := by simp
  known := by simp

/-- Names that are bound before, and names that are added, are found where they were bound. -/
theorem Adds.find?_eq (h : s.Adds added s') (x : String) :
    s'.frame.find? x = (s.frame.find? x).or (added.lookup x) := by
  rw [Frame.find?, h.bindings_eq, List.lookup_append]
  rfl

theorem Adds.append (h : s.Adds added s₁) (h' : s₁.Adds added' s') :
    s.Adds (added ++ added') s' := by
  -- a name that is new behind the first additions is none of them, and it was new before them
  have hnew : ∀ b ∈ added', s.frame.find? b.1 = none ∧ added.lookup b.1 = none := by
    intro b hb
    have hfresh := h'.fresh b hb
    rw [h.find?_eq, Option.or_eq_none_iff] at hfresh
    exact hfresh
  refine ⟨h'.outer_eq.trans h.outer_eq, ?_, ?_, ?_, ?_, ?_, ?_⟩
  · rw [h'.bindings_eq, h.bindings_eq, List.append_assoc]
  · rw [List.map_append, List.nodup_append]
    refine ⟨h.distinct, h'.distinct, ?_⟩
    intro x hx y hy hxy
    obtain ⟨b, hb, rfl⟩ := List.mem_map.mp hx
    obtain ⟨b', hb', rfl⟩ := List.mem_map.mp hy
    have hnone := (hnew b' hb').2
    rw [← hxy, List.lookup_eq_none_iff] at hnone
    exact absurd (hnone b hb) (by simp)
  · intro b hb
    rcases List.mem_append.mp hb with hb | hb
    · exact h.fresh b hb
    · exact (hnew b hb).1
  · exact List.forall_mem_append.mpr ⟨h.notReserved, h'.notReserved⟩
  · exact List.forall_mem_append.mpr ⟨h.notVoid, h'.notVoid⟩
  · exact List.forall_mem_append.mpr ⟨h.known, h'.known⟩

end Scope

/-- A binding with the name of its type in the place of the type. -/
def typeNamed (b : String × Ty) : String × String := (b.1, b.2.name)

namespace Check

theorem adds_of_declaration {lib : Library} {s s' : Scope} {x typeName : String}
    {init : Option Expr} {pos : Position} {t : Typed.Stmt}
    (h : declaration lib s x typeName init pos = .ok (t, s')) :
    ∃ τ, s.Adds [(x, τ)] s' ∧ τ.name = typeName := by
  obtain ⟨τ, _, hτ, hvoid, hreserved, -, hdefine, -⟩ := Typing.declaration_eq_ok h
  obtain ⟨hname, hknown⟩ := Typing.ofName?_eq_some.mp hτ
  obtain ⟨hfresh, rfl⟩ := Typing.define_eq_ok_iff.mp hdefine
  have hsingle {P : String × Ty → Prop} (hP : P (x, τ)) : ∀ b ∈ [(x, τ)], P b :=
    List.forall_mem_singleton.mpr hP
  exact ⟨τ, ⟨rfl, rfl, by simp, hsingle hfresh, hsingle hreserved, hsingle hvoid,
    hsingle hknown⟩, hname⟩

/-- **What an accepted step does to the scope**: it adds the variable that it declares, if it
declares one. -/
theorem adds_of_step {lib : Library} {s s' : Scope} {step : Stmt} {t : Typed.Stmt}
    (hstep : step.steps = [step]) (h : stmt lib s step = (.ok t, s')) :
    ∃ added, s.Adds added s' ∧ added.map typeNamed = step.declared := by
  cases step with
  | missing =>
      rw [stmt] at h
      cases h
  | expr value pos =>
      rw [stmt] at h
      split at h
      · cases h
      · cases h
        exact ⟨[], .nil s, rfl⟩
  | declare name typeName init pos =>
      rw [stmt] at h
      split at h
      · cases h
      · next hdecl =>
        cases h
        obtain ⟨τ, hadds, rfl⟩ := adds_of_declaration hdecl
        exact ⟨[(name, τ)], hadds, rfl⟩
  | assign name value pos =>
      rw [stmt] at h
      injection h with _ hs
      subst hs
      exact ⟨[], .nil s, rfl⟩
  | branch cond yes no pos =>
      rw [Stmt.steps] at hstep
      injection hstep with hhead _
      injection hhead with _ hyes hno _
      subst hyes hno
      rw [stmt] at h
      split at h
      · cases h
      · rw [block] at h
        cases h
        exact ⟨[], .nil s, rfl⟩
  | loop cond body pos =>
      rw [Stmt.steps] at hstep
      injection hstep with hhead _
      injection hhead with _ hbody _
      subst hbody
      rw [stmt] at h
      split at h
      · cases h
      · rw [block] at h
        cases h
        exact ⟨[], .nil s, rfl⟩

/-- Where a check ended: behind all steps, or at one that breaks a rule in the scope `after`. -/
inductive Ends (lib : Library) (after : Scope) : Option TypeError → List Stmt → Prop where
  | finished : Ends lib after none []
  | stopped {e : TypeError} {failing : Stmt} {later : List Stmt} :
      stmt lib after failing = (.error e, after) → Ends lib after (some e) (failing :: later)

/-- **What going over steps does to the scope.** The steps fall into those that were accepted and
the rest, and the first ones add the variables that they declare. -/
theorem Goes.adds {lib : Library} {s after : Scope} {steps : List Stmt} {r : Option TypeError}
    (h : Goes lib s steps r after) (hsteps : ∀ step ∈ steps, step.steps = [step]) :
    ∃ done rest added, steps = done ++ rest ∧
      (∃ ts, block lib s done = (.ok ts, after)) ∧ Ends lib after r rest ∧
      s.Adds added after ∧ added.map typeNamed = Stmt.declaredAll done := by
  induction h with
  | @done s => exact ⟨[], [], [], rfl, ⟨[], rfl⟩, .finished, .nil s, rfl⟩
  | @stop s step later e hstep =>
      exact ⟨[], step :: later, [], rfl, ⟨[], rfl⟩, .stopped hstep, .nil s, rfl⟩
  | @on s s₁ after step t later r hstep _ ih =>
      obtain ⟨hfirst, hlater⟩ := List.forall_mem_cons.mp hsteps
      obtain ⟨added₁, hadds₁, hnames₁⟩ := adds_of_step hfirst hstep
      obtain ⟨done, rest, added, rfl, ⟨ts, hts⟩, hends, hadds, hnames⟩ := ih hlater
      refine ⟨step :: done, rest, added₁ ++ added, rfl, ⟨t :: ts, ?_⟩, hends,
        hadds₁.append hadds, ?_⟩
      · rw [block, hstep]
        dsimp only
        rw [hts]
      · rw [List.map_append, hnames₁, hnames, Stmt.declaredAll]

theorem outer_block (lib : Library) (s : Scope) (ss : List Stmt) :
    (block lib s ss).2.outer = s.outer := by
  obtain ⟨_, _, _, -, -, -, hadds, -⟩ :=
    (goes_block lib s ss).adds (Stmt.steps_of_mem_stepsAll ss)
  exact hadds.outer_eq

end Check

/--
**The effect of a check on its scope is exact.** Whether a program is accepted or not, its steps
fall into those that were done and the rest. The ones that were done are accepted by themselves and
leave the same scope. If the program is accepted, nothing is left; else the first step that is left
breaks a rule in the scope behind the others, with the error of the program. The scope has the same
frames around it as before, and its innermost frame has the bindings that it had and behind them
exactly one for each declaration in the steps that were done, in the order of the text, with the
type that the declaration names. The names are distinct and new in that frame, none is reserved, and
the types are those that variables can have.
-/
theorem Program.check_scope_exact (lib : Library) (s : Scope) (p : Program) :
    ∃ done rest added, Stmt.stepsAll p = done ++ rest ∧
      Stmt.declaredAll p = Stmt.declaredAll done ++ Stmt.declaredAll rest ∧
      (∃ typed, Program.check lib s done = (.ok typed, (p.check lib s).2)) ∧
      Check.Ends lib (p.check lib s).2 (Check.error? (p.check lib s).1) rest ∧
      s.Adds added (p.check lib s).2 ∧ added.map typeNamed = Stmt.declaredAll done ∧
      ∀ x, (p.check lib s).2.frame.find? x = (s.frame.find? x).or (added.lookup x) := by
  obtain ⟨done, rest, added, hsteps, hdone, hends, hadds, hnames⟩ :=
    (Check.goes_block lib s p).adds (Stmt.steps_of_mem_stepsAll p)
  refine ⟨done, rest, added, hsteps, ?_, hdone, hends, hadds, hnames, hadds.find?_eq⟩
  rw [← Stmt.declaredAll_append, ← hsteps, Stmt.declaredAll_stepsAll]

/-- A check that stops in the first block of a branch keeps what it defined there before. -/
example :
    (Program.check .standard {} [.branch (.literal (.bool true) {})
      [.declare "a" "INTEGER" none {}, .declare "b" "INTEGER" (some (.literal (.text "x") {})) {}]
      [.declare "c" "INTEGER" none {}] {}]).2.frame.bindings = [("a", .integer)] := by
  rfl

end LetWhile
