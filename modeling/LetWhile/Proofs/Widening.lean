import LetWhile.Proofs.Pipeline
import LetWhile.Proofs.ScopeEffects

/-!
# More functions, and more frames around a scope

A program that was accepted uses only functions that the library has and names that it has bound
before. So it does not notice functions that are added to the library, nor frames that are put
around the scope it is checked in: a look-up that succeeded is answered by the same frame, and what
the new frames bind is never reached.

Both are shown at once, of the checker as it runs. It goes through the same scopes in both runs, up
to the frames around them, and returns the same tree.
-/

namespace LetWhile

/-- Every function that `small` finds, `large` finds unchanged. -/
def Library.Extends (large small : Library) : Prop :=
  ∀ name f, small.find? name = some f → large.find? name = some f

/-! ## Scopes inside other frames -/

namespace Scope

/-- A scope with more frames around it. -/
def inside (s : Scope) (around : List Frame) : Scope :=
  { s with outer := s.outer ++ around }

/-- An empty innermost frame is the empty scope inside the frames around it. -/
theorem eq_empty_inside {s : Scope} (h : s.frame = {}) : s = Scope.empty.inside s.outer := by
  obtain ⟨frame, outer⟩ := s
  subst h
  rfl

theorem lookup_inside {s : Scope} {x : String} {τ : Ty} (h : s.lookup x = .ok τ)
    (around : List Frame) : (s.inside around).lookup x = .ok τ := by
  unfold lookup at h ⊢
  cases hfind : s.find? x with
  | none => rw [hfind] at h; cases h
  | some σ =>
      rw [hfind] at h
      cases h
      -- the frames of the scope come first, and one of them binds the name
      have hinside : (s.inside around).find? x = some τ := by
        have hframes : (s.inside around).frames = s.frames ++ around := rfl
        rw [find?, hframes, List.findSome?_append]
        exact Option.or_of_isSome (by rw [← find?, hfind]; rfl) |>.trans hfind
      rw [hinside]

theorem define_inside {s s' : Scope} {x : String} {τ : Ty} (h : s.define x τ = .ok s')
    (around : List Frame) : (s.inside around).define x τ = .ok (s'.inside around) := by
  obtain ⟨hfresh, rfl⟩ := Typing.define_eq_ok_iff.mp h
  exact Typing.define_eq_ok_iff.mpr ⟨hfresh, rfl⟩

end Scope

namespace Check

/-! ## The same run in a wider scope -/

section Wider

variable {lib lib' : Library}

mutual

theorem expr_wider (hlib : lib'.Extends lib) (around : List Frame) {s : Scope} {t : Typed.Expr} :
    (e : Expr) → expr lib s e = .ok t → expr lib' (s.inside around) e = .ok t
  | .missing, h => by
      rw [expr] at h
      cases h
  | .literal value pos, h => by
      rw [expr] at h ⊢
      exact h
  | .group inner pos, h => by
      rw [expr, bind_eq_ok] at h
      obtain ⟨inner', hinner, h⟩ := h
      rw [expr, expr_wider hlib around inner hinner]
      exact h
  | .binary op left right pos, h => by
      rw [expr, bind_eq_ok] at h
      obtain ⟨left', hleft, h⟩ := h
      rw [bind_eq_ok] at h
      obtain ⟨right', hright, h⟩ := h
      rw [expr, expr_wider hlib around left hleft, ok_bind, expr_wider hlib around right hright]
      exact h
  | .var name pos, h => by
      rw [expr] at h
      split at h
      · next ty hty =>
        rw [expr, Scope.lookup_inside hty around]
        exact h
      · cases h
  | .call name args pos, h => by
      rw [expr] at h
      split at h
      · cases h
      next f hf =>
      split at h
      · next hlen =>
        rw [bind_eq_ok] at h
        obtain ⟨args', hargs, h⟩ := h
        rw [expr, hlib name f hf]
        dsimp only
        rw [if_pos hlen, arguments_wider hlib around args f.params hargs]
        exact h
      · cases h

theorem arguments_wider (hlib : lib'.Extends lib) (around : List Frame) {s : Scope} {name : String}
    {index : Nat} {ts : List Typed.Expr} :
    (args : List Expr) → (params : List Ty) → arguments lib s name index args params = .ok ts →
    arguments lib' (s.inside around) name index args params = .ok ts
  | [], _, h => by
      rw [arguments] at h ⊢
      exact h
  | _ :: _, [], h => by
      rw [arguments] at h ⊢
      exact h
  | arg :: args, param :: params, h => by
      rw [arguments, bind_eq_ok] at h
      obtain ⟨first, hfirst, h⟩ := h
      rw [arguments, expr_wider hlib around arg hfirst, ok_bind]
      split at h
      · cases h
      next hm =>
      rw [bind_eq_ok] at h
      obtain ⟨rest, hrest, h⟩ := h
      rw [arguments_wider hlib around args params hrest]
      exact h

end

theorem condition_wider (hlib : lib'.Extends lib) (around : List Frame) {s : Scope} {c : Expr}
    {c' : Typed.Expr} (h : condition lib s c = .ok c') :
    condition lib' (s.inside around) c = .ok c' := by
  unfold condition at h ⊢
  rw [bind_eq_ok] at h
  obtain ⟨t, ht, h⟩ := h
  rw [expr_wider hlib around c ht]
  exact h

theorem initial_wider (hlib : lib'.Extends lib) (around : List Frame) {s : Scope} {x : String}
    {τ : Ty} {pos : Position} {init : Option Expr} {init' : Option Typed.Expr}
    (h : initial lib s x τ pos init = .ok init') :
    initial lib' (s.inside around) x τ pos init = .ok init' := by
  cases init with
  | none => exact h
  | some e =>
      rw [initial, bind_eq_ok] at h
      obtain ⟨t, ht, h⟩ := h
      rw [initial, expr_wider hlib around e ht]
      exact h

theorem declaration_wider (hlib : lib'.Extends lib) (around : List Frame) {s s' : Scope}
    {x typeName : String} {init : Option Expr} {pos : Position} {t : Typed.Stmt}
    (h : declaration lib s x typeName init pos = .ok (t, s')) :
    declaration lib' (s.inside around) x typeName init pos = .ok (t, s'.inside around) := by
  obtain ⟨τ, init', hτ, hvoid, hreserved, hinit, hdefine, rfl⟩ := Typing.declaration_eq_ok h
  unfold declaration
  rw [hτ]
  dsimp only
  rw [if_neg hvoid, hreserved, if_neg Bool.false_ne_true, initial_wider hlib around hinit, ok_bind,
    Scope.define_inside hdefine around]
  rfl

theorem assignment_wider (hlib : lib'.Extends lib) (around : List Frame) {s : Scope} {x : String}
    {e : Expr} {pos : Position} {t : Typed.Stmt} (h : assignment lib s x e pos = .ok t) :
    assignment lib' (s.inside around) x e pos = .ok t := by
  unfold assignment at h ⊢
  split at h
  · cases h
  next τ hτ =>
  rw [bind_eq_ok] at h
  obtain ⟨e', he, h⟩ := h
  rw [Scope.lookup_inside hτ around]
  dsimp only
  rw [expr_wider hlib around e he]
  exact h

mutual

theorem stmt_wider (hlib : lib'.Extends lib) (around : List Frame) {s s' : Scope} {t : Typed.Stmt} :
    (st : Stmt) → stmt lib s st = (.ok t, s') →
    stmt lib' (s.inside around) st = (.ok t, s'.inside around)
  | .missing, h => by
      rw [stmt] at h
      cases h
  | .expr value pos, h => by
      rw [stmt] at h
      split at h
      · cases h
      next hvalue =>
      cases h
      rw [stmt, expr_wider hlib around value hvalue]
  | .declare name typeName init pos, h => by
      rw [stmt] at h
      split at h
      · cases h
      next hdecl =>
      cases h
      rw [stmt, declaration_wider hlib around hdecl]
  | .assign name value pos, h => by
      rw [stmt] at h
      injection h with h hs
      subst hs
      rw [stmt, assignment_wider hlib around h]
  | .branch cond yes no pos, h => by
      rw [stmt] at h
      split at h
      · cases h
      next hcond =>
      split at h
      · cases h
      next hyes =>
      split at h
      · cases h
      next hno =>
      cases h
      rw [stmt, condition_wider hlib around hcond]
      dsimp only
      rw [block_wider hlib around yes hyes]
      dsimp only
      rw [block_wider hlib around no hno]
  | .loop cond body pos, h => by
      rw [stmt] at h
      split at h
      · cases h
      next hcond =>
      split at h
      · cases h
      next hbody =>
      cases h
      rw [stmt, condition_wider hlib around hcond]
      dsimp only
      rw [block_wider hlib around body hbody]

/-- **Statements that were accepted are accepted with more functions and more frames around**, with
the same tree and the same new names. -/
theorem block_wider (hlib : lib'.Extends lib) (around : List Frame) {s s' : Scope}
    {ts : List Typed.Stmt} :
    (ss : List Stmt) → block lib s ss = (.ok ts, s') →
    block lib' (s.inside around) ss = (.ok ts, s'.inside around)
  | [], h => by
      rw [block] at h ⊢
      cases h
      rfl
  | first :: rest, h => by
      rw [block] at h
      split at h
      · cases h
      next hfirst =>
      split at h
      · cases h
      next hrest =>
      cases h
      rw [block, stmt_wider hlib around first hfirst]
      dsimp only
      rw [block_wider hlib around rest hrest]

end

end Wider

end Check

/-! ## Programs -/

/-- The Java text of a program that is checked in a scope. -/
def Program.javaIn (lib : Library) (scope : Scope) (o : Java.Options) (p : Program) :
    Except CompileError String :=
  match (p.check lib scope).1 with
  | .error e => .error (.type e)
  | .ok typed => javaText (Java.program o typed)

theorem Program.javaIn_of_check {lib : Library} {scope after : Scope} {p : Program}
    {typed : Typed.Program} (h : p.check lib scope = (.ok typed, after)) (o : Java.Options) :
    p.javaIn lib scope o = javaText (Java.program o typed) := by
  rw [Program.javaIn, h]

/--
**A program that is accepted stays accepted with more functions and more frames around it.** Let a
program be accepted with the library `lib` and nothing bound. With a library that extends `lib`, and
in a scope whose innermost frame is empty, it is accepted with the same tree, and its Java text,
which there is whatever the options, is the same. The innermost frame binds the same names to the
same types behind it, and the frames around are those that were there before.
-/
theorem Program.check_wider (lib lib' : Library) (scope : Scope) (p : Program)
    (typed : Typed.Program) (after : Scope) (hlib : lib'.Extends lib) (hframe : scope.frame = {})
    (h : p.check lib .empty = (.ok typed, after)) :
    (∃ after', p.check lib' scope = (.ok typed, after') ∧
      after'.frame = after.frame ∧ after'.outer = scope.outer) ∧
      ∀ o, ∃ text, p.javaIn lib .empty o = .ok text ∧ p.javaIn lib' scope o = .ok text := by
  have hwider : p.check lib' scope = (.ok typed, after.inside scope.outer) := by
    rw [Scope.eq_empty_inside hframe]
    exact Check.block_wider hlib scope.outer p h
  have houter : (after.inside scope.outer).outer = scope.outer := by
    have hkept := Check.outer_block lib' scope p
    rw [show Check.block lib' scope p = _ from hwider] at hkept
    exact hkept
  refine ⟨⟨_, hwider, rfl, houter⟩, fun o => ?_⟩
  obtain ⟨lines, hlines⟩ := Java.program_total (Typing.block_sound p h).whole o
  refine ⟨Java.text lines, ?_, ?_⟩
  · rw [Program.javaIn_of_check h, hlines]
    rfl
  · rw [Program.javaIn_of_check hwider, hlines]
    rfl

/-- The standard library and one function more. -/
def roundingLibrary : Library where
  functions := { name := "ROUND", java := "Math.rint", params := [.decimal], result := .decimal } ::
    Library.standard.functions

/-- A scope inside two frames, which bind the names of the program below to other types. -/
def shadowedScope : Scope where
  outer := [{ bindings := [("x", .string)] }, { bindings := [("y", .boolean), ("x", .any)] }]

/-- A program that declares a name in a block and calls a function of the standard library. -/
def shadowing : Program :=
  [.declare "x" "INTEGER" (some (.literal (.integer 1) {})) {},
   .branch (.binary "==" (.var "x" {}) (.literal (.integer 1) {}) {})
     [.declare "y" "STRING" (some (.literal (.text "one") {})) {}]
     [.expr (.call "PRINT" [.var "x" {}] {}) {}] {},
   .assign "y" (.binary "+" (.var "y" {}) (.var "x" {}) {}) {}]

/-- The theorem above, of that program. -/
theorem Program.check_wider_shadowing :
    (∃ typed after, shadowing.check .standard .empty = (.ok typed, after) ∧
      ∃ after', shadowing.check roundingLibrary shadowedScope = (.ok typed, after') ∧
        after'.frame.bindings = [("x", .integer), ("y", .string)] ∧
        after'.outer = shadowedScope.outer) ∧
      ∃ text, shadowing.javaIn .standard .empty {} = .ok text ∧
        shadowing.javaIn roundingLibrary shadowedScope {} = .ok text := by
  have hlib : roundingLibrary.Extends .standard := by
    intro name f hf
    unfold Library.find? at hf ⊢
    -- the new function stands first, and the search starts at the other end
    have hlast : roundingLibrary.functions.reverse = Library.standard.functions.reverse ++ _ :=
      List.reverse_cons
    rw [hlast, List.find?_append, hf]
    rfl
  have hcheck : ∃ typed after, shadowing.check .standard .empty = (.ok typed, after) ∧
      after.frame.bindings = [("x", .integer), ("y", .string)] :=
    ⟨_, _, rfl, rfl⟩
  obtain ⟨typed, after, hcheck, hbindings⟩ := hcheck
  obtain ⟨⟨after', hwider, hframe, houter⟩, hjava⟩ :=
    Program.check_wider .standard roundingLibrary shadowedScope shadowing _ _ hlib rfl hcheck
  refine ⟨⟨typed, after, hcheck, after', hwider, ?_, houter⟩, hjava {}⟩
  rw [hframe, hbindings]

end LetWhile
