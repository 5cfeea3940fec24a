import LetWhile.Java.Printer
import LetWhile.Proofs.Steps

/-!
# What the generated text does to names

What matters of the generated text for scopes is told by marks: where a brace opens or closes a
block, where a variable is declared, and where one is read or assigned. The marked printer writes
them down beside the lines that make them. Forgetting the marks gives the lines that are printed, so
marks are a view of the generated text and not of the tree that it was printed from.

The marks themselves do not depend on indentation and names of classes. They can be read off the
checked tree, which is what proofs about them do.
-/

namespace LetWhile

namespace Java

/-- What a piece of the generated text does to names. -/
inductive Mark where
  /-- A brace opens a block. -/
  | opened
  /-- A brace closes the innermost open block. -/
  | closed
  /-- A variable is declared. -/
  | declares (name : String)
  /-- A variable is read or assigned. -/
  | uses (name : String)
deriving DecidableEq, Repr

mutual

/-- The variables that an expression reads. -/
def exprMarks : Typed.Expr → List Mark
  | .missing => []
  | .literal _ _ _ => []
  | .group _ inner _ => exprMarks inner
  | .binary _ _ left right _ => exprMarks left ++ exprMarks right
  | .var _ name _ => [.uses name]
  | .call _ args _ => exprsMarks args

/-- The variables that expressions read. -/
def exprsMarks : List Typed.Expr → List Mark
  | [] => []
  | e :: es => exprMarks e ++ exprsMarks es

end

/-- A line of the generated text with its marks. -/
structure MarkedLine where
  text : String
  marks : List Mark
deriving DecidableEq, Repr

mutual

/-- The lines of a statement with their marks. A variable is declared behind its initial value. -/
def markedStmt (width spaces : Nat) : Typed.Stmt → Except Gap (List MarkedLine)
  | .missing => .error .statement
  | .expr value _ => do
    let text ← expr value
    return [⟨line spaces (text ++ ";"), exprMarks value⟩]
  | .declare name ty none _ => .ok [⟨line spaces (ty.java ++ " " ++ name ++ ";"), [.declares name]⟩]
  | .declare name ty (some init) _ => do
    let text ← expr init
    return [⟨line spaces (ty.java ++ " " ++ name ++ " = " ++ text ++ ";"),
      exprMarks init ++ [.declares name]⟩]
  | .assign name value _ => do
    let text ← expr value
    return [⟨line spaces (name ++ " = " ++ text ++ ";"), exprMarks value ++ [.uses name]⟩]
  | .branch cond yes no _ => do
    let text ← expr cond
    let yes ← markedStmts width (spaces + width) yes
    let no ← markedElse width spaces no
    return ⟨line spaces ("if (" ++ text ++ ") \x7b"), exprMarks cond ++ [.opened]⟩ :: yes ++ no ++
      [⟨line spaces "\x7d", [.closed]⟩]
  | .loop cond body _ => do
    let text ← expr cond
    let body ← markedStmts width (spaces + width) body
    return ⟨line spaces ("while (" ++ text ++ ") \x7b"), exprMarks cond ++ [.opened]⟩ :: body ++
      [⟨line spaces "\x7d", [.closed]⟩]

/-- The lines of statements with their marks. -/
def markedStmts (width spaces : Nat) : List Typed.Stmt → Except Gap (List MarkedLine)
  | [] => .ok []
  | first :: rest => do
    let first ← markedStmt width spaces first
    let rest ← markedStmts width spaces rest
    return first ++ rest

/-- The lines of an else block with their marks: the first one closes a block and opens one. -/
def markedElse (width spaces : Nat) : List Typed.Stmt → Except Gap (List MarkedLine)
  | [] => .ok []
  | first :: rest => do
    let first ← markedStmt width (spaces + width) first
    let rest ← markedStmts width (spaces + width) rest
    return ⟨line spaces "\x7d else \x7b", [.closed, .opened]⟩ :: first ++ rest

end

/-- The lines of a whole program with their marks. -/
def markedProgram (o : Options) (p : Typed.Program) : Except Gap (List MarkedLine) := do
  let body ← markedStmts o.width (2 * o.width) p
  return [⟨line 0 ("public class " ++ o.name ++ " \x7b"), [.opened]⟩, ⟨"\n", []⟩,
      ⟨line o.width "public static void main(String[] args) \x7b", [.opened]⟩] ++
    body ++ [⟨line o.width "\x7d", [.closed]⟩, ⟨"\n", []⟩, ⟨line 0 "\x7d", [.closed]⟩]

/-! ## Marked lines are the printed lines -/

/-- Lines without their marks. -/
def unmarked (x : Except Gap (List MarkedLine)) : Except Gap (List String) :=
  x >>= fun lines => .ok (lines.map MarkedLine.text)

mutual

theorem unmarked_stmt (width spaces : Nat) (s : Typed.Stmt) :
    unmarked (markedStmt width spaces s) = stmt width spaces s := by
  match s with
  | .missing => rfl
  | .expr value _ => rw [markedStmt, stmt]; cases expr value <;> rfl
  | .declare _ _ none _ => rfl
  | .declare _ _ (some init) _ => rw [markedStmt, stmt]; cases expr init <;> rfl
  | .assign _ value _ => rw [markedStmt, stmt]; cases expr value <;> rfl
  | .branch cond yes no _ =>
      rw [markedStmt, stmt, ← unmarked_stmts width (spaces + width) yes,
        ← unmarked_else width spaces no]
      cases expr cond with
      | error g => rfl
      | ok text =>
          cases markedStmts width (spaces + width) yes with
          | error g => rfl
          | ok yes =>
              cases markedElse width spaces no with
              | error g => rfl
              | ok no => simp [unmarked]
  | .loop cond body _ =>
      rw [markedStmt, stmt, ← unmarked_stmts width (spaces + width) body]
      cases expr cond with
      | error g => rfl
      | ok text =>
          cases markedStmts width (spaces + width) body with
          | error g => rfl
          | ok body => simp [unmarked]

theorem unmarked_stmts (width spaces : Nat) (ss : List Typed.Stmt) :
    unmarked (markedStmts width spaces ss) = stmts width spaces ss := by
  match ss with
  | [] => rfl
  | s :: ss =>
      rw [markedStmts, stmts, ← unmarked_stmt width spaces s, ← unmarked_stmts width spaces ss]
      cases markedStmt width spaces s with
      | error g => rfl
      | ok first =>
          cases markedStmts width spaces ss with
          | error g => rfl
          | ok rest => simp [unmarked]

theorem unmarked_else (width spaces : Nat) (ss : List Typed.Stmt) :
    unmarked (markedElse width spaces ss) = elseBlock width spaces ss := by
  match ss with
  | [] => rfl
  | s :: ss =>
      rw [markedElse, elseBlock, ← unmarked_stmt width (spaces + width) s,
        ← unmarked_stmts width (spaces + width) ss]
      cases markedStmt width (spaces + width) s with
      | error g => rfl
      | ok first =>
          cases markedStmts width (spaces + width) ss with
          | error g => rfl
          | ok rest => simp [unmarked]

end

/-- **Without their marks, the marked lines of a program are the lines that are printed.** -/
theorem unmarked_program (o : Options) (p : Typed.Program) :
    unmarked (markedProgram o p) = program o p := by
  rw [markedProgram, program, ← unmarked_stmts]
  cases markedStmts o.width (2 * o.width) p with
  | error g => rfl
  | ok body => simp [unmarked]

/-! ## The marks of a tree -/

mutual

/-- The marks of a statement. -/
def stmtMarks : Typed.Stmt → List Mark
  | .missing => []
  | .expr value _ => exprMarks value
  | .declare name _ none _ => [.declares name]
  | .declare name _ (some init) _ => exprMarks init ++ [.declares name]
  | .assign name value _ => exprMarks value ++ [.uses name]
  | .branch cond yes no _ =>
    exprMarks cond ++ .opened :: (stmtsMarks yes ++ (elseMarks no ++ [.closed]))
  | .loop cond body _ => exprMarks cond ++ .opened :: (stmtsMarks body ++ [.closed])

/-- The marks of statements. -/
def stmtsMarks : List Typed.Stmt → List Mark
  | [] => []
  | s :: ss => stmtMarks s ++ stmtsMarks ss

/-- The marks of an else block. -/
def elseMarks : List Typed.Stmt → List Mark
  | [] => []
  | s :: ss => .closed :: .opened :: (stmtMarks s ++ stmtsMarks ss)

end

/-- The marks of a whole program: a class and its main method are two blocks around it. -/
def programMarks (p : Typed.Program) : List Mark :=
  .opened :: .opened :: (stmtsMarks p ++ [.closed, .closed])

/-- The marks of lines. -/
def marksOf (lines : List MarkedLine) : List Mark := lines.flatMap MarkedLine.marks

@[simp]
theorem marksOf_nil : marksOf [] = [] := rfl

@[simp]
theorem marksOf_cons (l : MarkedLine) (ls : List MarkedLine) :
    marksOf (l :: ls) = l.marks ++ marksOf ls := rfl

@[simp]
theorem marksOf_append (ls ls' : List MarkedLine) :
    marksOf (ls ++ ls') = marksOf ls ++ marksOf ls' :=
  List.flatMap_append

mutual

theorem marksOf_stmt {width spaces : Nat} {lines : List MarkedLine} :
    (s : Typed.Stmt) → markedStmt width spaces s = .ok lines → marksOf lines = stmtMarks s
  | .missing, h => by cases h
  | .expr value _, h => by
      rw [markedStmt] at h
      obtain ⟨text, -, h⟩ := bind_eq_ok.mp h
      cases h
      simp [stmtMarks]
  | .declare _ _ none _, h => by
      rw [markedStmt] at h
      cases h
      simp [stmtMarks]
  | .declare _ _ (some init) _, h => by
      rw [markedStmt] at h
      obtain ⟨text, -, h⟩ := bind_eq_ok.mp h
      cases h
      simp [stmtMarks]
  | .assign _ value _, h => by
      rw [markedStmt] at h
      obtain ⟨text, -, h⟩ := bind_eq_ok.mp h
      cases h
      simp [stmtMarks]
  | .branch cond yes no _, h => by
      rw [markedStmt] at h
      obtain ⟨text, -, h⟩ := bind_eq_ok.mp h
      obtain ⟨yesLines, hyes, h⟩ := bind_eq_ok.mp h
      obtain ⟨noLines, hno, h⟩ := bind_eq_ok.mp h
      cases h
      simp [stmtMarks, marksOf_stmts yes hyes, marksOf_else no hno]
  | .loop cond body _, h => by
      rw [markedStmt] at h
      obtain ⟨text, -, h⟩ := bind_eq_ok.mp h
      obtain ⟨bodyLines, hbody, h⟩ := bind_eq_ok.mp h
      cases h
      simp [stmtMarks, marksOf_stmts body hbody]

theorem marksOf_stmts {width spaces : Nat} {lines : List MarkedLine} :
    (ss : List Typed.Stmt) → markedStmts width spaces ss = .ok lines →
    marksOf lines = stmtsMarks ss
  | [], h => by
      rw [markedStmts] at h
      cases h
      rfl
  | s :: ss, h => by
      rw [markedStmts] at h
      obtain ⟨first, hfirst, h⟩ := bind_eq_ok.mp h
      obtain ⟨rest, hrest, h⟩ := bind_eq_ok.mp h
      cases h
      rw [marksOf_append, marksOf_stmt s hfirst, marksOf_stmts ss hrest, stmtsMarks]

theorem marksOf_else {width spaces : Nat} {lines : List MarkedLine} :
    (ss : List Typed.Stmt) → markedElse width spaces ss = .ok lines → marksOf lines = elseMarks ss
  | [], h => by
      rw [markedElse] at h
      cases h
      rfl
  | s :: ss, h => by
      rw [markedElse] at h
      obtain ⟨first, hfirst, h⟩ := bind_eq_ok.mp h
      obtain ⟨rest, hrest, h⟩ := bind_eq_ok.mp h
      cases h
      simp [elseMarks, marksOf_stmt s hfirst, marksOf_stmts ss hrest]

end

theorem marksOf_program {o : Options} {p : Typed.Program} {lines : List MarkedLine}
    (h : markedProgram o p = .ok lines) : marksOf lines = programMarks p := by
  obtain ⟨body, hbody, h⟩ := bind_eq_ok.mp h
  cases h
  simp [programMarks, marksOf_stmts p hbody]

end Java

end LetWhile
