import LetWhile.Proofs.Erasure
import LetWhile.Proofs.Pipeline
import LetWhile.Proofs.Settings

/-!
# Names that the generated text relies on

The generated text refers to classes that it does not declare: `System` when something is printed,
`String` for the parameter of the main method and for texts, `Object` for variables of any type. A
user chooses two sorts of names, those of the variables and that of the class, and neither should
get in the way of these.

To speak of the names in a text, the text is taken apart into snippets. A snippet is the Java
spelling of a type or of a function, or anything else. Putting the snippets of a program together
gives the text that is printed, and the spellings among them are those of the functions that the
program calls and of the types that it declares variables with.

Variables never get in the way. The class does not take the name `System`, but it can take the other
two: settings with the class names `String` and `Object` are accepted.
-/

namespace LetWhile

namespace Java

/-! ## Snippets -/

/-- A piece of the generated text. -/
inductive Snippet where
  /-- The Java spelling of a type or of a function. -/
  | spelling (text : String)
  | plain (text : String)
deriving DecidableEq, Repr

/-- The text of a snippet. -/
def Snippet.text : Snippet → String
  | .spelling text => text
  | .plain text => text

/-- The text of snippets. -/
def snippetsText (ws : List Snippet) : String := String.join (ws.map Snippet.text)

@[simp]
theorem snippetsText_nil : snippetsText [] = "" := String.join_nil

@[simp]
theorem snippetsText_cons (w : Snippet) (ws : List Snippet) :
    snippetsText (w :: ws) = w.text ++ snippetsText ws :=
  String.join_cons

@[simp]
theorem snippetsText_append (ws ws' : List Snippet) :
    snippetsText (ws ++ ws') = snippetsText ws ++ snippetsText ws' := by
  rw [snippetsText, List.map_append, String.join_append]
  rfl

theorem snippetsText_flatten (wss : List (List Snippet)) :
    snippetsText wss.flatten = String.join (wss.map snippetsText) := by
  induction wss with
  | nil => rfl
  | cons ws wss ih =>
      rw [List.flatten_cons, snippetsText_append, ih, List.map_cons, String.join_cons]

/-- The class that a spelling refers to by its simple name: what stands in front of the first point,
unless that is a keyword, as it is for primitive types. -/
def referredClass? (spelling : String) : Option String :=
  let name := String.ofList (spelling.toList.takeWhile (· ≠ '.'))
  if keywords.contains name then none else some name

/-- The classes that snippets refer to by their simple names. -/
def referredClasses (ws : List Snippet) : List String :=
  ws.filterMap fun
    | .spelling text => referredClass? text
    | .plain _ => none

/-- Snippets with a comma between each two of them. -/
def listed : List (List Snippet) → List Snippet
  | [] => []
  | [ws] => ws
  | ws :: next :: rest => ws ++ .plain ", " :: listed (next :: rest)

theorem snippetsText_listed (wss : List (List Snippet)) :
    snippetsText (listed wss) = ", ".intercalate (wss.map snippetsText) := by
  induction wss using listed.induct with
  | case1 => rfl
  | case2 ws => rw [listed, List.map_singleton, String.intercalate_singleton]
  | case3 ws next rest ih =>
      rw [listed, snippetsText_append, snippetsText_cons, ih, List.map_cons, List.map_cons,
        List.map_cons, String.intercalate_cons_cons, String.append_assoc]
      rfl

mutual

/-- The snippets of an expression. -/
def exprSnippets : Typed.Expr → Except Gap (List Snippet)
  | .missing => .error .expression
  | .literal _ value _ => do
    let text ← literal value
    return [.plain text]
  | .group _ inner _ => do
    let inner ← exprSnippets inner
    return .plain "(" :: inner ++ [.plain ")"]
  | .binary _ op left right _ => do
    let left ← exprSnippets left
    let right ← exprSnippets right
    return left ++ .plain (" " ++ op ++ " ") :: right
  | .var _ name _ => .ok [.plain name]
  | .call function args _ => do
    let args ← exprsSnippets args
    return .spelling function.java :: .plain "(" :: listed args ++ [.plain ")"]

/-- The snippets of expressions one by one. -/
def exprsSnippets : List Typed.Expr → Except Gap (List (List Snippet))
  | [] => .ok []
  | first :: rest => do
    let first ← exprSnippets first
    let rest ← exprsSnippets rest
    return first :: rest

end

/-- The snippets of a line behind `spaces` spaces. -/
def lineSnippets (spaces : Nat) (ws : List Snippet) : List Snippet :=
  .plain (String.ofList (List.replicate spaces ' ')) :: ws ++ [.plain "\n"]

@[simp]
theorem snippetsText_lineSnippets (spaces : Nat) (ws : List Snippet) :
    snippetsText (lineSnippets spaces ws) = line spaces (snippetsText ws) := by
  simp [lineSnippets, line, Snippet.text, String.append_assoc]

mutual

/-- The snippets of the lines of a statement. -/
def stmtSnippets (width spaces : Nat) : Typed.Stmt → Except Gap (List (List Snippet))
  | .missing => .error .statement
  | .expr value _ => do
    let value ← exprSnippets value
    return [lineSnippets spaces (value ++ [.plain ";"])]
  | .declare name ty none _ =>
    .ok [lineSnippets spaces [.spelling ty.java, .plain (" " ++ name ++ ";")]]
  | .declare name ty (some init) _ => do
    let init ← exprSnippets init
    return [lineSnippets spaces
      (.spelling ty.java :: .plain (" " ++ name ++ " = ") :: init ++ [.plain ";"])]
  | .assign name value _ => do
    let value ← exprSnippets value
    return [lineSnippets spaces (.plain (name ++ " = ") :: value ++ [.plain ";"])]
  | .branch cond yes no _ => do
    let cond ← exprSnippets cond
    let yes ← stmtsSnippets width (spaces + width) yes
    let no ← elseSnippets width spaces no
    return lineSnippets spaces (.plain "if (" :: cond ++ [.plain ") \x7b"]) :: yes ++ no ++
      [lineSnippets spaces [.plain "\x7d"]]
  | .loop cond body _ => do
    let cond ← exprSnippets cond
    let body ← stmtsSnippets width (spaces + width) body
    return lineSnippets spaces (.plain "while (" :: cond ++ [.plain ") \x7b"]) :: body ++
      [lineSnippets spaces [.plain "\x7d"]]

/-- The snippets of the lines of statements. -/
def stmtsSnippets (width spaces : Nat) : List Typed.Stmt → Except Gap (List (List Snippet))
  | [] => .ok []
  | first :: rest => do
    let first ← stmtSnippets width spaces first
    let rest ← stmtsSnippets width spaces rest
    return first ++ rest

/-- The snippets of the lines of an else block. -/
def elseSnippets (width spaces : Nat) : List Typed.Stmt → Except Gap (List (List Snippet))
  | [] => .ok []
  | first :: rest => do
    let first ← stmtSnippets width (spaces + width) first
    let rest ← stmtsSnippets width (spaces + width) rest
    return lineSnippets spaces [.plain "\x7d else \x7b"] :: first ++ rest

end

/-- The snippets of the lines of a whole program. -/
def programSnippets (o : Options) (p : Typed.Program) : Except Gap (List (List Snippet)) := do
  let body ← stmtsSnippets o.width (2 * o.width) p
  return [lineSnippets 0 [.plain ("public class " ++ o.name ++ " \x7b")], [.plain "\n"],
      lineSnippets o.width [.plain "public static void main(", .spelling Ty.string.java,
        .plain "[] args) \x7b"]] ++
    body ++ [lineSnippets o.width [.plain "\x7d"], [.plain "\n"], lineSnippets 0 [.plain "\x7d"]]

/-! ## Snippets make up the text -/

/-- What snippets say. -/
def spoken (x : Except Gap (List Snippet)) : Except Gap String :=
  x >>= fun ws => .ok (snippetsText ws)

/-- What lists of snippets say one by one. -/
def spokenAll (x : Except Gap (List (List Snippet))) : Except Gap (List String) :=
  x >>= fun wss => .ok (wss.map snippetsText)

mutual

theorem spoken_exprSnippets (e : Typed.Expr) : spoken (exprSnippets e) = expr e := by
  match e with
  | .missing => rfl
  | .literal _ value _ =>
      rw [exprSnippets, expr]
      cases literal value with
      | error g => rfl
      | ok text => simp [spoken, Snippet.text]
  | .group _ inner _ =>
      rw [exprSnippets, expr, ← spoken_exprSnippets inner]
      cases exprSnippets inner with
      | error g => rfl
      | ok inner => simp [spoken, Snippet.text, String.append_assoc]
  | .binary _ op left right _ =>
      rw [exprSnippets, expr, ← spoken_exprSnippets left, ← spoken_exprSnippets right]
      cases exprSnippets left with
      | error g => rfl
      | ok left =>
          cases exprSnippets right with
          | error g => rfl
          | ok right => simp [spoken, Snippet.text, String.append_assoc]
  | .var _ name _ => simp [exprSnippets, expr, spoken, Snippet.text]
  | .call function args _ =>
      rw [exprSnippets, expr, ← spokenAll_exprsSnippets args]
      cases exprsSnippets args with
      | error g => rfl
      | ok args => simp [spoken, spokenAll, Snippet.text, snippetsText_listed, String.append_assoc]

theorem spokenAll_exprsSnippets (es : List Typed.Expr) :
    spokenAll (exprsSnippets es) = exprs es := by
  match es with
  | [] => rfl
  | e :: es =>
      rw [exprsSnippets, exprs, ← spoken_exprSnippets e, ← spokenAll_exprsSnippets es]
      cases exprSnippets e with
      | error g => rfl
      | ok first => cases exprsSnippets es <;> rfl

end

mutual

theorem spokenAll_stmtSnippets (width spaces : Nat) (s : Typed.Stmt) :
    spokenAll (stmtSnippets width spaces s) = stmt width spaces s := by
  match s with
  | .missing => rfl
  | .expr value _ =>
      rw [stmtSnippets, stmt, ← spoken_exprSnippets value]
      cases exprSnippets value with
      | error g => rfl
      | ok value => simp [spoken, spokenAll, Snippet.text]
  | .declare _ _ none _ =>
      simp [stmtSnippets, stmt, spokenAll, Snippet.text, String.append_assoc]
  | .declare _ _ (some init) _ =>
      rw [stmtSnippets, stmt, ← spoken_exprSnippets init]
      cases exprSnippets init with
      | error g => rfl
      | ok init => simp [spoken, spokenAll, Snippet.text, String.append_assoc]
  | .assign _ value _ =>
      rw [stmtSnippets, stmt, ← spoken_exprSnippets value]
      cases exprSnippets value with
      | error g => rfl
      | ok value => simp [spoken, spokenAll, Snippet.text, String.append_assoc]
  | .branch cond yes no _ =>
      rw [stmtSnippets, stmt, ← spoken_exprSnippets cond,
        ← spokenAll_stmtsSnippets width (spaces + width) yes,
        ← spokenAll_elseSnippets width spaces no]
      cases exprSnippets cond with
      | error g => rfl
      | ok cond =>
          cases stmtsSnippets width (spaces + width) yes with
          | error g => rfl
          | ok yes =>
              cases elseSnippets width spaces no with
              | error g => rfl
              | ok no => simp [spoken, spokenAll, Snippet.text, String.append_assoc]
  | .loop cond body _ =>
      rw [stmtSnippets, stmt, ← spoken_exprSnippets cond,
        ← spokenAll_stmtsSnippets width (spaces + width) body]
      cases exprSnippets cond with
      | error g => rfl
      | ok cond =>
          cases stmtsSnippets width (spaces + width) body with
          | error g => rfl
          | ok body => simp [spoken, spokenAll, Snippet.text, String.append_assoc]

theorem spokenAll_stmtsSnippets (width spaces : Nat) (ss : List Typed.Stmt) :
    spokenAll (stmtsSnippets width spaces ss) = stmts width spaces ss := by
  match ss with
  | [] => rfl
  | s :: ss =>
      rw [stmtsSnippets, stmts, ← spokenAll_stmtSnippets width spaces s,
        ← spokenAll_stmtsSnippets width spaces ss]
      cases stmtSnippets width spaces s with
      | error g => rfl
      | ok first =>
          cases stmtsSnippets width spaces ss with
          | error g => rfl
          | ok rest => simp [spokenAll]

theorem spokenAll_elseSnippets (width spaces : Nat) (ss : List Typed.Stmt) :
    spokenAll (elseSnippets width spaces ss) = elseBlock width spaces ss := by
  match ss with
  | [] => rfl
  | s :: ss =>
      rw [elseSnippets, elseBlock, ← spokenAll_stmtSnippets width (spaces + width) s,
        ← spokenAll_stmtsSnippets width (spaces + width) ss]
      cases stmtSnippets width (spaces + width) s with
      | error g => rfl
      | ok first =>
          cases stmtsSnippets width (spaces + width) ss with
          | error g => rfl
          | ok rest => simp [spokenAll, Snippet.text]

end

/-- **The snippets of a program say the lines that are printed.** -/
theorem spokenAll_programSnippets (o : Options) (p : Typed.Program) :
    spokenAll (programSnippets o p) = program o p := by
  rw [programSnippets, program, ← spokenAll_stmtsSnippets]
  cases stmtsSnippets o.width (2 * o.width) p with
  | error g => rfl
  | ok body => simp [spokenAll, Snippet.text, Ty.java, line]

/-! ## The spellings in a program -/

/-- One of the expressions calls a function with this spelling. -/
def Calls (es : List Typed.Expr) (t : String) : Prop :=
  ∃ f args pos, .call f args pos ∈ es ∧ f.java = t

/-- One of the statements declares a variable of a type with this spelling. -/
def Declares (ss : List Typed.Stmt) (t : String) : Prop :=
  ∃ x ty init pos, .declare x ty init pos ∈ ss ∧ ty.java = t

variable {t : String}

@[simp]
theorem calls_nil : ¬ Calls [] t := by
  rintro ⟨f, args, pos, h, -⟩
  cases h

@[simp]
theorem calls_cons (e : Typed.Expr) (es : List Typed.Expr) :
    Calls (e :: es) t ↔ (∃ f args pos, e = .call f args pos ∧ f.java = t) ∨ Calls es t := by
  simp only [Calls, List.mem_cons, or_and_right, exists_or, eq_comm (a := e)]

@[simp]
theorem calls_append (es es' : List Typed.Expr) :
    Calls (es ++ es') t ↔ Calls es t ∨ Calls es' t := by
  simp only [Calls, List.mem_append, or_and_right, exists_or]

@[simp]
theorem declares_nil : ¬ Declares [] t := by
  rintro ⟨x, ty, init, pos, h, -⟩
  cases h

@[simp]
theorem declares_cons (s : Typed.Stmt) (ss : List Typed.Stmt) :
    Declares (s :: ss) t ↔
      (∃ x ty init pos, s = .declare x ty init pos ∧ ty.java = t) ∨ Declares ss t := by
  simp only [Declares, List.mem_cons, or_and_right, exists_or, eq_comm (a := s)]

@[simp]
theorem declares_append (ss ss' : List Typed.Stmt) :
    Declares (ss ++ ss') t ↔ Declares ss t ∨ Declares ss' t := by
  simp only [Declares, List.mem_append, or_and_right, exists_or]

@[simp]
theorem spelling_mem_lineSnippets (spaces : Nat) (ws : List Snippet) :
    .spelling t ∈ lineSnippets spaces ws ↔ .spelling t ∈ ws := by
  simp [lineSnippets]

@[simp]
theorem spelling_mem_listed (wss : List (List Snippet)) :
    .spelling t ∈ listed wss ↔ .spelling t ∈ wss.flatten := by
  induction wss using listed.induct with
  | case1 => rfl
  | case2 ws => simp [listed]
  | case3 ws next rest ih => simp [listed, ih]

mutual

theorem spelling_mem_exprSnippets {ws : List Snippet} :
    (e : Typed.Expr) → exprSnippets e = .ok ws → (.spelling t ∈ ws ↔ Calls e.nodes t)
  | .missing, h => by cases h
  | .literal _ value _, h => by
      rw [exprSnippets] at h
      obtain ⟨text, -, h⟩ := bind_eq_ok.mp h
      cases h
      simp [Typed.Expr.nodes]
  | .group _ inner _, h => by
      rw [exprSnippets] at h
      obtain ⟨ws, hws, h⟩ := bind_eq_ok.mp h
      cases h
      simp [Typed.Expr.nodes, spelling_mem_exprSnippets inner hws]
  | .binary _ _ left right _, h => by
      rw [exprSnippets] at h
      obtain ⟨ws, hws, h⟩ := bind_eq_ok.mp h
      obtain ⟨ws', hws', h⟩ := bind_eq_ok.mp h
      cases h
      simp [Typed.Expr.nodes, spelling_mem_exprSnippets left hws,
        spelling_mem_exprSnippets right hws']
  | .var _ _ _, h => by
      cases h
      simp [Typed.Expr.nodes]
  | .call f args _, h => by
      rw [exprSnippets] at h
      obtain ⟨wss, hwss, h⟩ := bind_eq_ok.mp h
      cases h
      have hargs := spelling_mem_exprsSnippets args hwss
      simp [Typed.Expr.nodes, hargs, eq_comm]

theorem spelling_mem_exprsSnippets {wss : List (List Snippet)} :
    (es : List Typed.Expr) → exprsSnippets es = .ok wss →
      (.spelling t ∈ wss.flatten ↔ Calls (Typed.Expr.nodesAll es) t)
  | [], h => by
      cases h
      simp [Typed.Expr.nodesAll]
  | e :: es, h => by
      rw [exprsSnippets] at h
      obtain ⟨ws, hws, h⟩ := bind_eq_ok.mp h
      obtain ⟨wss, hwss, h⟩ := bind_eq_ok.mp h
      cases h
      have hrest := spelling_mem_exprsSnippets es hwss
      rw [List.flatten_cons, List.mem_append, spelling_mem_exprSnippets e hws, hrest,
        Typed.Expr.nodesAll, calls_append]

end

/-- The spellings of the functions that expressions call and of the types that statements
declare. -/
def Mentions (es : List Typed.Expr) (ss : List Typed.Stmt) (t : String) : Prop :=
  Calls es t ∨ Declares ss t

theorem mentions_append (es es' : List Typed.Expr) (ss ss' : List Typed.Stmt) :
    Mentions (es ++ es') (ss ++ ss') t ↔ Mentions es ss t ∨ Mentions es' ss' t := by
  simp only [Mentions, calls_append, declares_append]
  exact or_or_or_comm

/-- A statement that declares nothing itself, with its own expressions and what stands in its
blocks. -/
theorem mentions_nested {s : Typed.Stmt} (hs : ∀ x ty init pos, s ≠ .declare x ty init pos)
    (es es' : List Typed.Expr) (ss : List Typed.Stmt) :
    Mentions (es ++ es') (s :: ss) t ↔ Calls es t ∨ Mentions es' ss t := by
  simp [Mentions, hs, or_assoc]

mutual

theorem spelling_mem_stmtSnippets {width spaces : Nat} {wss : List (List Snippet)} :
    (s : Typed.Stmt) → stmtSnippets width spaces s = .ok wss →
      (.spelling t ∈ wss.flatten ↔ Mentions s.exprs s.nodes t)
  | .missing, h => by cases h
  | .expr value _, h => by
      rw [stmtSnippets] at h
      obtain ⟨ws, hws, h⟩ := bind_eq_ok.mp h
      cases h
      simp [Mentions, Typed.Stmt.exprs, Typed.Stmt.nodes, spelling_mem_exprSnippets value hws]
  | .declare _ _ none _, h => by
      cases h
      simp [Mentions, Typed.Stmt.exprs, Typed.Stmt.nodes, eq_comm]
  | .declare _ _ (some init) _, h => by
      rw [stmtSnippets] at h
      obtain ⟨ws, hws, h⟩ := bind_eq_ok.mp h
      cases h
      simp [Mentions, Typed.Stmt.exprs, Typed.Stmt.nodes, spelling_mem_exprSnippets init hws,
        eq_comm, or_comm]
  | .assign _ value _, h => by
      rw [stmtSnippets] at h
      obtain ⟨ws, hws, h⟩ := bind_eq_ok.mp h
      cases h
      simp [Mentions, Typed.Stmt.exprs, Typed.Stmt.nodes, spelling_mem_exprSnippets value hws]
  | .branch cond yes no pos, h => by
      rw [stmtSnippets] at h
      obtain ⟨ws, hws, h⟩ := bind_eq_ok.mp h
      obtain ⟨yesLines, hyes, h⟩ := bind_eq_ok.mp h
      obtain ⟨noLines, hno, h⟩ := bind_eq_ok.mp h
      cases h
      rw [Typed.Stmt.exprs, Typed.Stmt.nodes, mentions_nested (s := .branch cond yes no pos) nofun,
        mentions_append, ← spelling_mem_exprSnippets cond hws,
        ← spelling_mem_stmtsSnippets yes hyes, ← spelling_mem_elseSnippets no hno]
      simp
  | .loop cond body pos, h => by
      rw [stmtSnippets] at h
      obtain ⟨ws, hws, h⟩ := bind_eq_ok.mp h
      obtain ⟨bodyLines, hbody, h⟩ := bind_eq_ok.mp h
      cases h
      rw [Typed.Stmt.exprs, Typed.Stmt.nodes, mentions_nested (s := .loop cond body pos) nofun,
        ← spelling_mem_exprSnippets cond hws, ← spelling_mem_stmtsSnippets body hbody]
      simp

theorem spelling_mem_stmtsSnippets {width spaces : Nat} {wss : List (List Snippet)} :
    (ss : List Typed.Stmt) → stmtsSnippets width spaces ss = .ok wss →
      (.spelling t ∈ wss.flatten ↔ Mentions (Typed.Stmt.exprsAll ss) (Typed.Stmt.nodesAll ss) t)
  | [], h => by
      cases h
      simp [Mentions, Typed.Stmt.exprsAll, Typed.Stmt.nodesAll]
  | s :: ss, h => by
      rw [stmtsSnippets] at h
      obtain ⟨first, hfirst, h⟩ := bind_eq_ok.mp h
      obtain ⟨rest, hrest, h⟩ := bind_eq_ok.mp h
      cases h
      rw [List.flatten_append, List.mem_append, spelling_mem_stmtSnippets s hfirst,
        spelling_mem_stmtsSnippets ss hrest, Typed.Stmt.exprsAll, Typed.Stmt.nodesAll,
        mentions_append]

theorem spelling_mem_elseSnippets {width spaces : Nat} {wss : List (List Snippet)} :
    (ss : List Typed.Stmt) → elseSnippets width spaces ss = .ok wss →
      (.spelling t ∈ wss.flatten ↔ Mentions (Typed.Stmt.exprsAll ss) (Typed.Stmt.nodesAll ss) t)
  | [], h => by
      cases h
      simp [Mentions, Typed.Stmt.exprsAll, Typed.Stmt.nodesAll]
  | s :: ss, h => by
      rw [elseSnippets] at h
      obtain ⟨first, hfirst, h⟩ := bind_eq_ok.mp h
      obtain ⟨rest, hrest, h⟩ := bind_eq_ok.mp h
      cases h
      rw [Typed.Stmt.exprsAll, Typed.Stmt.nodesAll, mentions_append,
        ← spelling_mem_stmtSnippets s hfirst, ← spelling_mem_stmtsSnippets ss hrest]
      simp

end

/-- **The spellings in a generated program.** The main method has a parameter; everything else
comes from a call or from a declaration. -/
theorem spelling_mem_programSnippets {o : Options} {p : Typed.Program} {wss : List (List Snippet)}
    (h : programSnippets o p = .ok wss) :
    .spelling t ∈ wss.flatten ↔
      t = Ty.string.java ∨ Mentions (Typed.Stmt.exprsAll p) (Typed.Stmt.nodesAll p) t := by
  obtain ⟨body, hbody, h⟩ := bind_eq_ok.mp h
  cases h
  rw [← spelling_mem_stmtsSnippets p hbody]
  simp

theorem mem_referredClasses {ws : List Snippet} {name : String} :
    name ∈ referredClasses ws ↔ ∃ t, .spelling t ∈ ws ∧ referredClass? t = some name := by
  rw [referredClasses, List.mem_filterMap]
  constructor
  · rintro ⟨w, hw, hname⟩
    cases w with
    | spelling t => exact ⟨t, hw, hname⟩
    | plain t => cases hname
  · rintro ⟨t, ht, hname⟩
    exact ⟨.spelling t, ht, hname⟩

/-! ## Names that users choose -/

end Java

namespace Typing

variable {lib : Library} {Γ Γ' : Env} {ss : List Stmt} {ts : List Typed.Stmt}

/-- A variable of a checked program was declarable. -/
theorem BlockTyped.declarable (h : BlockTyped lib Γ ss Γ' ts) {x : String} {ty : Ty}
    {init : Option Typed.Expr} {pos : Position}
    (hx : .declare x ty init pos ∈ Typed.Stmt.nodesAll ts) :
    ty ≠ .invalid ∧ ty ≠ .void ∧ Java.isReserved x = false := by
  obtain ⟨s, Γ₀, Γ₁, hs⟩ := exists_of_mem_left h.nodes.flip hx
  cases hs with
  | declare hd => exact ⟨hd.known, hd.notVoid, hd.notReserved⟩
  | declareInit hd _ _ => exact ⟨hd.known, hd.notVoid, hd.notReserved⟩

end Typing

namespace Java

/-- A variable with a name that is not reserved gets in the way of nothing. -/
theorem not_reserved {x : String} (h : isReserved x = false) :
    x ∉ keywords ∧ x ≠ "System" ∧ x ≠ "args" := by
  rw [isReserved, Bool.or_eq_false_iff, ← Bool.not_eq_true, ← Bool.not_eq_true,
    List.contains_iff_mem, List.contains_iff_mem] at h
  obtain ⟨hkeyword, hmain⟩ := h
  refine ⟨hkeyword, ?_, ?_⟩
  · rintro rfl
    exact hmain (by decide)
  · rintro rfl
    exact hmain (by decide)

theorem java_of_standard {name : String} {f : Function} (h : Library.standard.find? name = some f) :
    f.java = "System.out.println" := by
  have hmem := List.mem_of_find?_eq_some h
  simp only [Library.standard, List.reverse_singleton, List.mem_singleton] at hmem
  rw [hmem]

/-- The class that the type of a variable refers to. -/
theorem referredClass?_java {ty : Ty} (hknown : ty ≠ .invalid) (hvoid : ty ≠ .void) :
    referredClass? ty.java =
      if ty = .string then some "String" else if ty = .any then some "Object" else none := by
  cases ty with
  | invalid => exact absurd rfl hknown
  | void => exact absurd rfl hvoid
  | boolean => rfl
  | integer => rfl
  | decimal => rfl
  | string => rfl
  | any => rfl

/-- **The classes that a generated program refers to.** -/
theorem mem_referredClasses_program {p : Program} {typed : Typed.Program}
    (hcheck : p.checkAlone .standard = .ok typed) {o : Options} {wss : List (List Snippet)}
    (hsnippets : programSnippets o typed = .ok wss) (name : String) :
    name ∈ referredClasses wss.flatten ↔
      name = "String" ∨
      (name = "System" ∧ ∃ f args pos, .call f args pos ∈ Typed.Stmt.exprsAll typed) ∨
      (name = "Object" ∧ ∃ x init pos, .declare x .any init pos ∈ Typed.Stmt.nodesAll typed) := by
  obtain ⟨after, hcheck⟩ := Program.checkAlone_eq_ok.mp hcheck
  have htyped := Typing.block_sound p hcheck
  have hcall {f : Function} {args pos} (h : .call f args pos ∈ Typed.Stmt.exprsAll typed) :
      referredClass? f.java = some "System" := by
    rw [java_of_standard (htyped.find?_of_call h)]
    rfl
  rw [mem_referredClasses]
  simp only [spelling_mem_programSnippets hsnippets]
  constructor
  · rintro ⟨t, rfl | ⟨f, args, pos, hf, rfl⟩ | ⟨x, ty, init, pos, hx, rfl⟩, hname⟩
    · exact .inl (Option.some.inj hname).symm
    · rw [hcall hf] at hname
      exact .inr (.inl ⟨(Option.some.inj hname).symm, f, args, pos, hf⟩)
    · obtain ⟨hknown, hvoid, -⟩ := htyped.declarable hx
      rw [referredClass?_java hknown hvoid] at hname
      split at hname
      · exact .inl (Option.some.inj hname).symm
      split at hname
      · next hany =>
        subst hany
        exact .inr (.inr ⟨(Option.some.inj hname).symm, x, init, pos, hx⟩)
      · cases hname
  · rintro (rfl | ⟨rfl, f, args, pos, hf⟩ | ⟨rfl, x, init, pos, hx⟩)
    · exact ⟨_, .inl rfl, rfl⟩
    · exact ⟨f.java, .inr (.inl ⟨f, args, pos, hf, rfl⟩), hcall hf⟩
    · exact ⟨Ty.any.java, .inr (.inr ⟨x, .any, init, pos, hx, rfl⟩), rfl⟩

/-- The output of a compilation is made up of snippets. -/
theorem snippets_of_run {o : CompileOptions} {source : List UInt8} {c : Compilation}
    (h : Compilation.run o.toTheEnd source = .ok c) :
    ∃ p typed wss, Program.checkAlone o.library p = .ok typed ∧ c.typed = some typed ∧
      programSnippets o.java typed = .ok wss ∧ c.output = snippetsText wss.flatten := by
  obtain ⟨_, p, typed, printed, _, _, hcheck, hprinted, rfl⟩ := Compilation.run_toTheEnd_eq_ok.mp h
  rw [← spokenAll_programSnippets] at hprinted
  obtain ⟨wss, hwss, heq⟩ := bind_eq_ok.mp hprinted
  cases heq
  refine ⟨p, typed, wss, hcheck, rfl, hwss, ?_⟩
  exact (snippetsText_flatten wss).symm

end Java

namespace Settings

/-- A class can be called neither nothing nor `System`. -/
theorem className_ne {s : Settings} (h : s.invalid? = none) :
    s.className ≠ "" ∧ s.className ≠ "System" := by
  obtain ⟨hname, -⟩ := invalid?_eq_none h
  constructor
  · intro heq
    rw [heq] at hname
    cases hname
  · intro heq
    rw [heq] at hname
    cases hname

/--
**What a generated program refers to, and what can get in its way.** Take settings that are
accepted, and a program that is compiled with them and the standard library. The output is made up
of snippets. No variable that the program declares is called `System` or `args` or by a keyword or
literal of Java. The only classes that the output refers to by their simple names are `System`,
`String` and `Object`, and the class that it declares is none of them but in two cases: its name is
`String`, or its name is `Object` and the program declares a variable of any type.
-/
theorem names_captured_iff (s : Settings) (source : List UInt8) (c : Compilation)
    (hs : s.invalid? = none) (h : Compilation.run { java := s.java } source = .ok c) :
    ∃ typed snippets, c.typed = some typed ∧ Java.programSnippets s.java typed = .ok snippets ∧
      c.output = Java.snippetsText snippets.flatten ∧ s.java.name = s.className ∧
      (∀ x ty init pos, .declare x ty init pos ∈ Typed.Stmt.nodesAll typed →
        x ∉ Java.keywords ∧ x ≠ "System" ∧ x ≠ "args") ∧
      (∀ name ∈ Java.referredClasses snippets.flatten, name ∈ ["System", "String", "Object"]) ∧
      (s.className ∈ Java.referredClasses snippets.flatten ↔
        s.className = "String" ∨
        s.className = "Object" ∧
          ∃ x init pos, .declare x .any init pos ∈ Typed.Stmt.nodesAll typed) := by
  obtain ⟨p, typed, snippets, hcheck, htyped, hsnippets, hout⟩ :=
    Java.snippets_of_run (o := { java := s.java }) h
  have hclasses (name : String) := Java.mem_referredClasses_program hcheck hsnippets name
  obtain ⟨hnonempty, hsystem⟩ := className_ne hs
  refine ⟨typed, snippets, htyped, hsnippets, hout, if_neg hnonempty, ?_, ?_, ?_⟩
  · intro x ty init pos hx
    obtain ⟨after, hcheck⟩ := Program.checkAlone_eq_ok.mp hcheck
    exact Java.not_reserved ((Typing.block_sound p hcheck).declarable hx).2.2
  · intro name hname
    rcases (hclasses name).mp hname with rfl | ⟨rfl, -⟩ | ⟨rfl, -⟩ <;> decide
  · rw [hclasses]
    simp [hsystem]

/-- A program that declares a variable of any type and prints it. -/
def printsAny : List UInt8 := utf8Bytes "LET x : ANY PRINT(x)"

/-- That program with its types. -/
def printsAnyTyped : Typed.Program :=
  [.declare "x" .any none ⟨0, 1, 1⟩,
    .expr (.call { name := "PRINT", java := "System.out.println", params := [.any],
                   result := .void } [.var .any "x" ⟨18, 1, 19⟩] ⟨12, 1, 13⟩) ⟨12, 1, 13⟩]

theorem printsAny_compiles (o : Java.Options) :
    ∃ c, Compilation.run { java := o } printsAny = .ok c ∧ c.typed = some printsAnyTyped := by
  have hparse : Program.parse printsAny = .ok
      [.declare "x" "ANY" none ⟨0, 1, 1⟩,
        .expr (.call "PRINT" [.var "x" ⟨18, 1, 19⟩] ⟨12, 1, 13⟩) ⟨12, 1, 13⟩] := by
    with_unfolding_all rfl
  obtain ⟨c, hc, htyped, -⟩ := Compilation.run_of_parse { java := o } hparse rfl
  exact ⟨c, hc, htyped⟩

/-- **Two class names get in the way.** Settings with either of them are accepted, and the class of
this program then takes the place of one that the snippets of the program refer to. -/
theorem names_captured_printsAny :
    (invalid? { className := "String" } = none ∧
      ∃ c snippets, Compilation.run { java := java { className := "String" } } printsAny = .ok c ∧
        Java.programSnippets (java { className := "String" }) printsAnyTyped = .ok snippets ∧
        c.output = Java.snippetsText snippets.flatten ∧
        "String" ∈ Java.referredClasses snippets.flatten) ∧
    (invalid? { className := "Object" } = none ∧
      ∃ c snippets, Compilation.run { java := java { className := "Object" } } printsAny = .ok c ∧
        Java.programSnippets (java { className := "Object" }) printsAnyTyped = .ok snippets ∧
        c.output = Java.snippetsText snippets.flatten ∧
        "Object" ∈ Java.referredClasses snippets.flatten) := by
  have hcaptured (name : String) (hname : name = "String" ∨ name = "Object")
      (hvalid : invalid? { className := name } = none) :
      ∃ c snippets, Compilation.run { java := java { className := name } } printsAny = .ok c ∧
        Java.programSnippets (java { className := name }) printsAnyTyped = .ok snippets ∧
        c.output = Java.snippetsText snippets.flatten ∧
        name ∈ Java.referredClasses snippets.flatten := by
    obtain ⟨c, hc, htyped'⟩ := printsAny_compiles (java { className := name })
    obtain ⟨typed, snippets, htyped, hsnippets, hout, -, -, -, hcaptured⟩ :=
      names_captured_iff { className := name } printsAny c hvalid hc
    rw [htyped'] at htyped
    cases htyped
    refine ⟨c, snippets, hc, hsnippets, hout, hcaptured.mpr ?_⟩
    exact hname.imp_right fun heq => ⟨heq, "x", none, ⟨0, 1, 1⟩, List.mem_cons_self⟩
  exact ⟨⟨rfl, hcaptured "String" (.inl rfl) rfl⟩, rfl, hcaptured "Object" (.inr rfl) rfl⟩

end Settings

end LetWhile
