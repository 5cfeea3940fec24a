import LetWhile.Proofs.JavaStrings
import LetWhile.Proofs.Writing
import LetWhile.Text.Lines

/-!
# Indentation

A block is printed as it would be printed for itself, further to the right. For the lines that the
printer writes this is clear from how it walks over a tree: the spaces in front of a line are all
that depends on the depth. But a reader of the text knows lines by their line feeds. So it also has
to be shown that what the printer takes for a line is one, which means that no expression is printed
with a line feed in it. String literals are not, because line feeds are escaped there, and numbers
are not. What is printed just as the tree has it are names, operators and the Java names of
functions, and of these it has to be assumed. The operators that the checker lets through are safe.
-/

namespace LetWhile.Java

/-! ## Lines of a text -/

/-- A text with more spaces in front of each of its lines. Behind the last line feed there is one
more line only if something is in it. -/
def indent (spaces : Nat) (text : String) : String :=
  String.ofList ((cutLines '\n' text.toList).flatMap fun l =>
    if l.isEmpty then [] else List.replicate spaces ' ' ++ l)

theorem toList_line (spaces : Nat) (text : String) :
    (line spaces text).toList = List.replicate spaces ' ' ++ text.toList ++ ['\n'] := by
  rw [line, String.toList_append, String.toList_append, String.toList_ofList]
  rfl

theorem isLine_line {text : String} (h : '\n' ∉ text.toList) (spaces : Nat) :
    IsLine '\n' (line spaces text).toList := by
  refine ⟨_, ?_, toList_line spaces text⟩
  rw [List.mem_append, not_or]
  exact ⟨fun hmem => absurd (List.eq_of_mem_replicate hmem) (by decide), h⟩

/-- A line further to the right. -/
def shifted (spaces : Nat) (text : String) : String :=
  String.ofList (List.replicate spaces ' ') ++ text

theorem line_add (more spaces : Nat) (text : String) :
    line (more + spaces) text = shifted more (line spaces text) := by
  apply String.toList_injective
  rw [shifted, String.toList_append, String.toList_ofList, toList_line, toList_line,
    ← List.replicate_append_replicate, List.append_assoc, List.append_assoc, List.append_assoc]

/-- **Indenting a text of lines shifts each of them.** -/
theorem indent_text (spaces : Nat) {lines : List String}
    (h : ∀ l ∈ lines, IsLine '\n' l.toList) :
    indent spaces (text lines) = text (lines.map (shifted spaces)) := by
  apply String.toList_injective
  rw [indent, text, text, String.toList_ofList, String.toList_join, String.toList_join]
  induction lines with
  | nil => rfl
  | cons l lines ih =>
      obtain ⟨⟨cs, hcs, hl⟩, hlines⟩ := List.forall_mem_cons.mp h
      have hne : (cs ++ ['\n']).isEmpty = false := by simp
      rw [List.flatMap_cons, hl, List.append_assoc, List.singleton_append, cutLines_append hcs,
        List.flatMap_cons, ih hlines, hne, if_neg Bool.false_ne_true, List.map_cons,
        List.flatMap_cons, shifted, String.toList_append, String.toList_ofList, hl]

/-! ## Deeper lines -/

/-- What a printer collects, further to the right. -/
def deeper (spaces : Nat) (x : Except Gap (List String)) : Except Gap (List String) := do
  return (← x).map (shifted spaces)

/-- An else block is printed like the other blocks, behind a line of its own. -/
theorem elseBlock_eq (width spaces : Nat) (ss : List Typed.Stmt) :
    elseBlock width spaces ss = (do
      let lines ← stmts width (spaces + width) ss
      return if ss.isEmpty then [] else line spaces "\x7d else \x7b" :: lines) := by
  cases ss with
  | nil => rfl
  | cons s ss =>
      rw [elseBlock, stmts]
      cases stmt width (spaces + width) s with
      | error g => rfl
      | ok first =>
        cases stmts width (spaces + width) ss with
        | error g => rfl
        | ok rest => rfl

theorem deeper_append (spaces : Nat) (x y : Except Gap (List String)) :
    deeper spaces (do return (← x) ++ (← y)) =
      (do return (← deeper spaces x) ++ (← deeper spaces y)) := by
  cases x with
  | error g => rfl
  | ok lines =>
      cases y with
      | error g => rfl
      | ok lines' => exact congrArg Except.ok List.map_append

mutual

theorem stmt_deeper (width more spaces : Nat) (s : Typed.Stmt) :
    stmt width (more + spaces) s = deeper more (stmt width spaces s) := by
  match s with
  | .missing => rfl
  | .expr value _ =>
      rw [stmt, stmt]
      cases expr value with
      | error g => rfl
      | ok text => simp [deeper, line_add]
  | .declare name ty none _ => simp [stmt, deeper, line_add]
  | .declare name ty (some init) _ =>
      rw [stmt, stmt]
      cases expr init with
      | error g => rfl
      | ok text => simp [deeper, line_add]
  | .assign name value _ =>
      rw [stmt, stmt]
      cases expr value with
      | error g => rfl
      | ok text => simp [deeper, line_add]
  | .branch cond yes no _ =>
      -- as a list of statements, the else block falls under the induction hypothesis
      rw [stmt, stmt, elseBlock_eq, elseBlock_eq, Nat.add_assoc,
        stmts_deeper width more (spaces + width) yes, stmts_deeper width more (spaces + width) no]
      cases expr cond with
      | error g => rfl
      | ok text =>
        cases stmts width (spaces + width) yes with
        | error g => rfl
        | ok lines =>
          cases stmts width (spaces + width) no with
          | error g => rfl
          | ok lines' => cases no <;> simp [deeper, line_add]
  | .loop cond body _ =>
      rw [stmt, stmt, Nat.add_assoc, stmts_deeper width more (spaces + width) body]
      cases expr cond with
      | error g => rfl
      | ok text =>
        cases stmts width (spaces + width) body with
        | error g => rfl
        | ok lines => simp [deeper, line_add]

/-- **Only the spaces in front of lines depend on the depth.** -/
theorem stmts_deeper (width more spaces : Nat) (ss : List Typed.Stmt) :
    stmts width (more + spaces) ss = deeper more (stmts width spaces ss) := by
  match ss with
  | [] => rfl
  | s :: ss =>
      rw [stmts, stmts, stmt_deeper width more spaces s, stmts_deeper width more spaces ss]
      exact (deeper_append more _ _).symm

end

/-! ## Line feeds -/

/-- A text in one line. -/
def NoFeed (text : String) : Prop := '\n' ∉ text.toList

instance (text : String) : Decidable (NoFeed text) :=
  inferInstanceAs (Decidable ('\n' ∉ text.toList))

theorem NoFeed.append {s t : String} (hs : NoFeed s) (ht : NoFeed t) : NoFeed (s ++ t) := by
  rw [NoFeed, String.toList_append, List.mem_append, not_or]
  exact ⟨hs, ht⟩

theorem noFeed_intercalate {ts : List String} (h : ∀ t ∈ ts, NoFeed t) :
    NoFeed (", ".intercalate ts) := by
  induction ts with
  | nil => decide
  | cons t ts ih =>
      obtain ⟨ht, hts⟩ := List.forall_mem_cons.mp h
      cases ts with
      | nil => rw [String.intercalate_singleton]; exact ht
      | cons u ts =>
          -- commas stand between texts only, so the last text is a case of its own
          have hcomma : NoFeed ", " := by decide
          rw [String.intercalate_cons_cons]
          exact (ht.append hcomma).append (ih hts)

theorem noFeed_java (ty : Ty) : NoFeed ty.java := by
  cases ty <;> decide

theorem feed_notMem_toDigits (n : Nat) : '\n' ∉ Nat.toDigits 10 n :=
  fun h => absurd (isDigit_of_mem_toDigits h) (by decide)

theorem feed_notMem_fraction {ds : List Char} (h : '\n' ∉ ds) : '\n' ∉ Scientific.fraction ds := by
  unfold Scientific.fraction
  split
  · exact List.not_mem_nil
  · simp [h]

theorem feed_notMem_exponent (e : Int) : '\n' ∉ Scientific.exponent e := by
  have hdigits : '\n' ∉ Scientific.digits e.natAbs := feed_notMem_toDigits _
  unfold Scientific.exponent
  dsimp only
  split <;> split <;> simp [hdigits]

theorem feed_notMem_decimal (d : Decimal) : '\n' ∉ Scientific.decimal d := by
  have hdigits : '\n' ∉ Scientific.digits d.digits := feed_notMem_toDigits _
  have htake (n : Nat) : '\n' ∉ (Scientific.digits d.digits).take n :=
    fun h => hdigits (List.mem_of_mem_take h)
  have hdrop (n : Nat) : '\n' ∉ (Scientific.digits d.digits).drop n :=
    fun h => hdigits (List.mem_of_mem_drop h)
  unfold Scientific.decimal
  dsimp only
  split
  · simp only [Scientific.withExponent, List.mem_append, not_or]
    exact ⟨⟨htake 1, feed_notMem_fraction (hdrop 1)⟩, feed_notMem_exponent _⟩
  · unfold Scientific.plain
    split
    · simp [htake, feed_notMem_fraction (hdrop _)]
    · simp [hdigits]

theorem noFeed_doubleLiteral (x : Binary64) : NoFeed (doubleLiteral x) := by
  have htext : NoFeed x.text := by
    unfold Binary64.text
    split
    · decide
    · split
      · split <;> decide
      · rw [NoFeed, String.toList_ofList, List.mem_append, not_or]
        refine ⟨?_, feed_notMem_decimal _⟩
        split <;> decide
  have hpoint : NoFeed ".0" := by decide
  unfold doubleLiteral
  dsimp only
  split
  · exact htext
  · exact htext.append hpoint

/-- **No literal is printed with a line feed.** -/
theorem noFeed_literal {value : Constant} {text : String} (h : literal value = .ok text) :
    NoFeed text := by
  unfold literal at h
  split at h
  · cases h
    split <;> decide
  · cases h
    rw [NoFeed, toList_toString, List.mem_append, not_or]
    refine ⟨?_, feed_notMem_toDigits _⟩
    split <;> decide
  · cases h
    exact noFeed_doubleLiteral _
  · cases h
    exact (feed_notMem_stringLiteral _).1
  · cases h
    exact (feed_notMem_stringLiteral _).1
  · cases h

/-! ## Words -/

/-- What is printed as the tree has it. -/
inductive Word where
  | name (text : String)
  | operator (text : String)
  /-- The Java name of a function. -/
  | spelling (text : String)
deriving DecidableEq, Repr

/-- How a word is printed. -/
def Word.text : Word → String
  | .name text => text
  | .operator text => text
  | .spelling text => text

mutual

/-- The words of an expression. -/
def exprWords : Typed.Expr → List Word
  | .missing => []
  | .literal _ _ _ => []
  | .group _ inner _ => exprWords inner
  | .binary _ op left right _ => .operator op :: (exprWords left ++ exprWords right)
  | .var _ name _ => [.name name]
  | .call function args _ => .spelling function.java :: exprsWords args

/-- The words of expressions. -/
def exprsWords : List Typed.Expr → List Word
  | [] => []
  | e :: es => exprWords e ++ exprsWords es

end

mutual

/-- The words of a statement. -/
def stmtWords : Typed.Stmt → List Word
  | .missing => []
  | .expr value _ => exprWords value
  | .declare name _ none _ => [.name name]
  | .declare name _ (some init) _ => .name name :: exprWords init
  | .assign name value _ => .name name :: exprWords value
  | .branch cond yes no _ => exprWords cond ++ (stmtsWords yes ++ stmtsWords no)
  | .loop cond body _ => exprWords cond ++ stmtsWords body

/-- The words of statements. -/
def stmtsWords : List Typed.Stmt → List Word
  | [] => []
  | s :: ss => stmtWords s ++ stmtsWords ss

end

/-- None of the words has a line feed. -/
def NoFeeds (words : List Word) : Prop := ∀ w ∈ words, NoFeed w.text

instance (words : List Word) : Decidable (NoFeeds words) :=
  inferInstanceAs (Decidable (∀ w ∈ words, NoFeed w.text))

theorem noFeeds_cons {w : Word} {ws : List Word} :
    NoFeeds (w :: ws) ↔ NoFeed w.text ∧ NoFeeds ws :=
  List.forall_mem_cons

theorem noFeeds_append {ws ws' : List Word} : NoFeeds (ws ++ ws') ↔ NoFeeds ws ∧ NoFeeds ws' :=
  List.forall_mem_append

mutual

/-- **An expression is printed in one line if its words are.** -/
theorem noFeed_expr (e : Typed.Expr) :
    NoFeeds (exprWords e) → ∀ {text}, expr e = .ok text → NoFeed text := by
  match e with
  | .missing => intro _ text h; cases h
  | .literal _ value _ => intro _ text h; exact noFeed_literal h
  | .group _ inner _ =>
      intro hwords text h
      obtain ⟨t, ht, h⟩ := bind_eq_ok.mp h
      cases h
      have hopen : NoFeed "(" := by decide
      have hclose : NoFeed ")" := by decide
      exact (hopen.append (noFeed_expr inner hwords ht)).append hclose
  | .binary _ op left right _ =>
      intro hwords text h
      obtain ⟨hop, hwords⟩ := noFeeds_cons.mp hwords
      obtain ⟨hleft, hright⟩ := noFeeds_append.mp hwords
      obtain ⟨l, hl, h⟩ := bind_eq_ok.mp h
      obtain ⟨r, hr, h⟩ := bind_eq_ok.mp h
      cases h
      have hspace : NoFeed " " := by decide
      exact ((((noFeed_expr left hleft hl).append hspace).append hop).append hspace).append
        (noFeed_expr right hright hr)
  | .var _ name _ =>
      intro hwords text h
      cases h
      exact (noFeeds_cons.mp hwords).1
  | .call function args _ =>
      intro hwords text h
      obtain ⟨hspelling, hargs⟩ := noFeeds_cons.mp hwords
      obtain ⟨ts, hts, h⟩ := bind_eq_ok.mp h
      cases h
      have hopen : NoFeed "(" := by decide
      have hclose : NoFeed ")" := by decide
      exact ((NoFeed.append hspelling hopen).append
        (noFeed_intercalate (noFeed_exprs args hargs hts))).append hclose

theorem noFeed_exprs (es : List Typed.Expr) :
    NoFeeds (exprsWords es) → ∀ {texts}, exprs es = .ok texts → ∀ t ∈ texts, NoFeed t := by
  match es with
  | [] => intro _ texts h; cases h; exact fun _ ht => absurd ht List.not_mem_nil
  | e :: es =>
      intro hwords texts h
      obtain ⟨he, hes⟩ := noFeeds_append.mp hwords
      obtain ⟨t, ht, h⟩ := bind_eq_ok.mp h
      obtain ⟨ts, hts, h⟩ := bind_eq_ok.mp h
      cases h
      exact List.forall_mem_cons.mpr ⟨noFeed_expr e he ht, noFeed_exprs es hes hts⟩

end

mutual

theorem isLine_stmt (width spaces : Nat) (s : Typed.Stmt) :
    NoFeeds (stmtWords s) → ∀ {lines}, stmt width spaces s = .ok lines →
      ∀ l ∈ lines, IsLine '\n' l.toList := by
  have hend : NoFeed ";" := by decide
  have hequals : NoFeed " = " := by decide
  have hspace : NoFeed " " := by decide
  have hopen : NoFeed ") \x7b" := by decide
  have hclose : NoFeed "\x7d" := by decide
  match s with
  | .missing => intro _ lines h; cases h
  | .expr value _ =>
      intro hwords lines h
      obtain ⟨t, ht, h⟩ := bind_eq_ok.mp h
      cases h
      exact List.forall_mem_singleton.mpr
        (isLine_line ((noFeed_expr value hwords ht).append hend) spaces)
  | .declare name ty none _ =>
      intro hwords lines h
      cases h
      have hname := (noFeeds_cons.mp hwords).1
      exact List.forall_mem_singleton.mpr
        (isLine_line ((((noFeed_java ty).append hspace).append hname).append hend) spaces)
  | .declare name ty (some init) _ =>
      intro hwords lines h
      obtain ⟨hname, hinit⟩ := noFeeds_cons.mp hwords
      obtain ⟨t, ht, h⟩ := bind_eq_ok.mp h
      cases h
      exact List.forall_mem_singleton.mpr
        (isLine_line ((((((noFeed_java ty).append hspace).append hname).append hequals).append
          (noFeed_expr init hinit ht)).append hend) spaces)
  | .assign name value _ =>
      intro hwords lines h
      obtain ⟨hname, hvalue⟩ := noFeeds_cons.mp hwords
      obtain ⟨t, ht, h⟩ := bind_eq_ok.mp h
      cases h
      exact List.forall_mem_singleton.mpr
        (isLine_line (((NoFeed.append hname hequals).append (noFeed_expr value hvalue ht)).append
          hend) spaces)
  | .branch cond yes no _ =>
      intro hwords lines h
      obtain ⟨hcond, hwords⟩ := noFeeds_append.mp hwords
      obtain ⟨hyes, hno⟩ := noFeeds_append.mp hwords
      obtain ⟨t, ht, h⟩ := bind_eq_ok.mp h
      obtain ⟨ys, hys, h⟩ := bind_eq_ok.mp h
      obtain ⟨es, hes, h⟩ := bind_eq_ok.mp h
      cases h
      rw [elseBlock_eq] at hes
      obtain ⟨ns, hns, hes⟩ := bind_eq_ok.mp hes
      cases hes
      have hif : NoFeed "if (" := by decide
      have helse : NoFeed "\x7d else \x7b" := by decide
      refine List.forall_mem_append.mpr ⟨List.forall_mem_append.mpr
        ⟨List.forall_mem_cons.mpr ⟨?_, isLine_stmts width _ yes hyes hys⟩, ?_⟩, ?_⟩
      · exact isLine_line ((hif.append (noFeed_expr cond hcond ht)).append hopen) spaces
      · split
        · exact fun _ hl => absurd hl List.not_mem_nil
        · exact List.forall_mem_cons.mpr
            ⟨isLine_line helse spaces, isLine_stmts width _ no hno hns⟩
      · exact List.forall_mem_singleton.mpr (isLine_line hclose spaces)
  | .loop cond body _ =>
      intro hwords lines h
      obtain ⟨hcond, hbody⟩ := noFeeds_append.mp hwords
      obtain ⟨t, ht, h⟩ := bind_eq_ok.mp h
      obtain ⟨bs, hbs, h⟩ := bind_eq_ok.mp h
      cases h
      have hwhile : NoFeed "while (" := by decide
      refine List.forall_mem_append.mpr ⟨List.forall_mem_cons.mpr ⟨?_, ?_⟩, ?_⟩
      · exact isLine_line ((hwhile.append (noFeed_expr cond hcond ht)).append hopen) spaces
      · exact isLine_stmts width _ body hbody hbs
      · exact List.forall_mem_singleton.mpr (isLine_line hclose spaces)

/-- **What is written at once is a line.** -/
theorem isLine_stmts (width spaces : Nat) (ss : List Typed.Stmt) :
    NoFeeds (stmtsWords ss) → ∀ {lines}, stmts width spaces ss = .ok lines →
      ∀ l ∈ lines, IsLine '\n' l.toList := by
  match ss with
  | [] => intro _ lines h; cases h; exact fun _ hl => absurd hl List.not_mem_nil
  | s :: ss =>
      intro hwords lines h
      obtain ⟨hs, hss⟩ := noFeeds_append.mp hwords
      obtain ⟨first, hfirst, h⟩ := bind_eq_ok.mp h
      obtain ⟨rest, hrest, h⟩ := bind_eq_ok.mp h
      cases h
      exact List.forall_mem_append.mpr
        ⟨isLine_stmt width spaces s hs hfirst, isLine_stmts width spaces ss hss hrest⟩

end

/-! ## Texts -/

/-- The text of what a printer collects. -/
def printed (x : Except Gap (List String)) : Except Gap String := do
  return text (← x)

theorem printed_stmts_cons (width spaces : Nat) (s : Typed.Stmt) (ss : List Typed.Stmt) :
    printed (stmts width spaces (s :: ss)) =
      (do return (← printed (stmt width spaces s)) ++ (← printed (stmts width spaces ss))) := by
  rw [stmts]
  cases stmt width spaces s with
  | error g => rfl
  | ok lines =>
      cases stmts width spaces ss with
      | error g => rfl
      | ok lines' => exact congrArg Except.ok String.join_append

theorem printed_branch (width spaces : Nat) (cond : Typed.Expr) (yes no : List Typed.Stmt)
    (pos : Position) :
    printed (stmt width spaces (.branch cond yes no pos)) = (do
      let c ← expr cond
      let y ← printed (stmts width (spaces + width) yes)
      let z ← printed (stmts width (spaces + width) no)
      return line spaces ("if (" ++ c ++ ") \x7b") ++ y ++
        (if no.isEmpty then "" else line spaces "\x7d else \x7b" ++ z) ++ line spaces "\x7d") := by
  rw [stmt, elseBlock_eq]
  cases expr cond with
  | error g => rfl
  | ok c =>
    cases stmts width (spaces + width) yes with
    | error g => rfl
    | ok lines =>
      cases stmts width (spaces + width) no with
      | error g => rfl
      | ok lines' => cases no <;> simp [printed, text, String.join_append, String.append_assoc]

theorem printed_loop (width spaces : Nat) (cond : Typed.Expr) (body : List Typed.Stmt)
    (pos : Position) :
    printed (stmt width spaces (.loop cond body pos)) = (do
      let c ← expr cond
      let b ← printed (stmts width (spaces + width) body)
      return line spaces ("while (" ++ c ++ ") \x7b") ++ b ++ line spaces "\x7d") := by
  rw [stmt]
  cases expr cond with
  | error g => rfl
  | ok c =>
    cases stmts width (spaces + width) body with
    | error g => rfl
    | ok lines => simp [printed, text, String.join_append, String.append_assoc]

/-- A class around the text of the main method's body. -/
def classText (name : String) (width : Nat) (body : String) : String :=
  line 0 ("public class " ++ name ++ " \x7b") ++ "\n" ++
    line width "public static void main(String[] args) \x7b" ++ indent (2 * width) body ++
    line width "\x7d" ++ "\n" ++ line 0 "\x7d"

/-- **Statements are printed at every depth as they are printed for themselves**, further to the
right. -/
theorem printed_deeper (width : Nat) {ss : List Typed.Stmt} (hgaps : stmtsGaps ss = [])
    (hwords : NoFeeds (stmtsWords ss)) :
    ∃ t, printed (stmts width 0 ss) = .ok t ∧
      ∀ spaces, printed (stmts width spaces ss) = .ok (indent spaces t) := by
  obtain ⟨lines, hlines⟩ := exists_of_gaps (gap?_stmts width 0 ss) hgaps
  refine ⟨text lines, by rw [hlines]; rfl, fun spaces => ?_⟩
  -- the printer shifts its own lines, and these are the lines that a reader finds
  have hdeeper := stmts_deeper width spaces 0 ss
  rw [Nat.add_zero, hlines] at hdeeper
  rw [hdeeper, indent_text spaces (isLine_stmts width 0 ss hwords hlines)]
  rfl

theorem printed_program (o : Options) (p : Typed.Program) {t : String}
    (h : printed (stmts o.width (2 * o.width) p) = .ok (indent (2 * o.width) t)) :
    printed (program o p) = .ok (classText o.name o.width t) := by
  obtain ⟨lines, hlines, htext⟩ := bind_eq_ok.mp h
  have hbody : text lines = indent (2 * o.width) t := Except.ok.inj htext
  rw [program, hlines, classText, ← hbody]
  simp [printed, text, String.join_append, String.append_assoc]

/-! ## Operators of checked programs -/

/-- A word that is no operator, or an operator without a line feed. -/
def Word.OperatorSafe : Word → Prop
  | .name _ => True
  | .operator text => NoFeed text
  | .spelling _ => True

theorem noFeed_of_binaryTyped {op : String} {ρ σ τ : Ty} (h : Typing.BinaryTyped op σ τ ρ) :
    NoFeed op := by
  have hall : ∀ op ∈ ["==", "!=", "+", "-", "*", "/"], NoFeed op := by decide
  exact hall op h.mem_operators

mutual

theorem exprTyped_operatorSafe {lib : Library} {Γ : Typing.Env} {e : Expr} {τ : Ty}
    {t : Typed.Expr} : Typing.ExprTyped lib Γ e τ t → ∀ w ∈ exprWords t, w.OperatorSafe
  | .literal _ => fun _ hw => absurd hw List.not_mem_nil
  | .group he => fun w hw => exprTyped_operatorSafe he w hw
  | .binary hl hr hop => List.forall_mem_cons.mpr ⟨noFeed_of_binaryTyped hop,
      List.forall_mem_append.mpr ⟨exprTyped_operatorSafe hl, exprTyped_operatorSafe hr⟩⟩
  | .var _ => List.forall_mem_singleton.mpr trivial
  | .call _ hargs => List.forall_mem_cons.mpr ⟨trivial, argsTyped_operatorSafe hargs⟩

theorem argsTyped_operatorSafe {lib : Library} {Γ : Typing.Env} {es : List Expr} {τs : List Ty}
    {ts : List Typed.Expr} : Typing.ArgsTyped lib Γ es τs ts → ∀ w ∈ exprsWords ts, w.OperatorSafe
  | .nil => fun _ hw => absurd hw List.not_mem_nil
  | .cons he _ hes =>
      List.forall_mem_append.mpr ⟨exprTyped_operatorSafe he, argsTyped_operatorSafe hes⟩

end

mutual

theorem stmtTyped_operatorSafe {lib : Library} {Γ Γ' : Typing.Env} {s : Stmt} {t : Typed.Stmt} :
    Typing.StmtTyped lib Γ s Γ' t → ∀ w ∈ stmtWords t, w.OperatorSafe
  | .expr he => fun w hw => exprTyped_operatorSafe he w hw
  | .declare _ => List.forall_mem_singleton.mpr trivial
  | .declareInit _ he _ => List.forall_mem_cons.mpr ⟨trivial, exprTyped_operatorSafe he⟩
  | .assign _ he _ => List.forall_mem_cons.mpr ⟨trivial, exprTyped_operatorSafe he⟩
  | .branch hc hyes hno => List.forall_mem_append.mpr ⟨exprTyped_operatorSafe hc,
      List.forall_mem_append.mpr ⟨blockTyped_operatorSafe hyes, blockTyped_operatorSafe hno⟩⟩
  | .loop hc hbody =>
      List.forall_mem_append.mpr ⟨exprTyped_operatorSafe hc, blockTyped_operatorSafe hbody⟩

/-- **No operator that keeps the rules has a line feed.** -/
theorem blockTyped_operatorSafe {lib : Library} {Γ Γ' : Typing.Env} {ss : List Stmt}
    {ts : List Typed.Stmt} :
    Typing.BlockTyped lib Γ ss Γ' ts → ∀ w ∈ stmtsWords ts, w.OperatorSafe
  | .nil => fun _ hw => absurd hw List.not_mem_nil
  | .cons hs hss =>
      List.forall_mem_append.mpr ⟨stmtTyped_operatorSafe hs, blockTyped_operatorSafe hss⟩

end

/-! ## Blocks within blocks -/

/-- The bytes that are written to memory are those of the text. -/
theorem written_text {x : Except Gap (List String)} {lines : List String} {t : String}
    (hlines : x = .ok lines) (h : printed x = .ok t) :
    Writer.writeAll { sink := {} } lines = .full (utf8Bytes t) := by
  rw [hlines] at h
  cases h
  rw [Writer.writeAll_unlimited, flatMap_utf8Bytes]
  rfl

/-- The pen writes the text of a program, if it has room for its levels. -/
theorem generate_written {o : Options} {p : Typed.Program} {t : String}
    (h : printed (program o p) = .ok t) (hroom : o.hasRoom (1 + stmtsLevels p)) :
    generate o p {} = (.ok none, { written := utf8Bytes t }) := by
  obtain ⟨lines, hlines, -⟩ := bind_eq_ok.mp h
  rw [generate_of_room hlines hroom, written_text hlines h]
  rfl

/-- So it does with the text of statements. -/
theorem generateStatements_written {o : Options} {ss : List Typed.Stmt} {t : String}
    (h : printed (statements o ss) = .ok t) (hroom : o.hasRoom (max 1 (stmtsLevels ss - 1))) :
    generateStatements o ss {} = (.ok none, { written := utf8Bytes t }) := by
  obtain ⟨lines, hlines, -⟩ := bind_eq_ok.mp h
  rw [generateStatements_of_room hlines hroom, written_text hlines h]
  rfl

/-- After every statement that the pen comes to the end of, it is at its old depth again; and it
comes to the end if it has room for the levels of the statement. -/
theorem putStmt_restores {s : Typed.Stmt} (h : stmtGaps s = []) (pen : Pen) :
    ∃ lines, stmt pen.width (pen.depth * pen.width) s = .ok lines ∧
      (∀ pen', putStmt s pen = (.ok (), pen') → pen'.depth = pen.depth) ∧
      ((reach pen.depth (stmtLevels s) - 1) * pen.width ≤ longestRow →
        putStmt s pen = (.ok (), { pen with toWriter := pen.toWriter.writeAll lines })) := by
  obtain ⟨lines, hlines⟩ := exists_of_gaps (gap?_stmt pen.width (pen.depth * pen.width) s) h
  have hprints := prints_stmt pen.width pen.depth s
  rw [hlines] at hprints
  refine ⟨lines, hlines, ?_⟩
  cases hprints with
  | all hdoes htop =>
      obtain ⟨after, hwork, hafter⟩ := hdoes pen.toWriter
      constructor
      · intro pen' hpen'
        obtain ⟨hresult, rfl⟩ := Prod.mk.inj (hwork.symm.trans hpen')
        exact hafter hresult
      · intro hroom
        rw [inscribe_of_fits ((htop.fits_iff pen.width).mpr hroom)] at hwork hafter
        obtain rfl := hafter rfl
        exact hwork

/-- **Blocks are printed as texts of their own**, when the class has this name and a level is `n`
spaces. -/
structure Compositional (name : String) (n : Nat) : Prop where
  /-- At every depth, statements are printed as for themselves, with the spaces of the depth in
  front of each line; and a program is a class around them. This is what the pen writes, if it has
  room for the levels. -/
  deeper : ∀ ss : List Typed.Stmt, stmtsGaps ss = [] → NoFeeds (stmtsWords ss) →
    ∃ t, printed (statements ⟨name, n⟩ ss) = .ok t ∧
      (∀ depth, printed (stmts n (depth * n) ss) = .ok (indent (depth * n) t)) ∧
      printed (program ⟨name, n⟩ ss) = .ok (classText name n t) ∧
      (Options.hasRoom ⟨name, n⟩ (max 1 (stmtsLevels ss - 1)) →
        generateStatements ⟨name, n⟩ ss {} = (.ok none, { written := utf8Bytes t })) ∧
      (Options.hasRoom ⟨name, n⟩ (1 + stmtsLevels ss) →
        generate ⟨name, n⟩ ss {} = (.ok none, { written := utf8Bytes (classText name n t) }))
  /-- Statements are printed one after the other. -/
  sequence : ∀ (depth : Nat) (s : Typed.Stmt) (ss : List Typed.Stmt),
    printed (stmts n (depth * n) (s :: ss)) =
      (do return (← printed (stmt n (depth * n) s)) ++ (← printed (stmts n (depth * n) ss)))
  /-- The blocks of a branch are printed as for themselves, one level further to the right. There is
  an else part exactly if there are statements in it. -/
  branch : ∀ (cond : Typed.Expr) (yes no : List Typed.Stmt) (pos : Position),
    stmtGaps (.branch cond yes no pos) = [] → NoFeeds (stmtWords (.branch cond yes no pos)) →
    ∃ c y z, expr cond = .ok c ∧ printed (statements ⟨name, n⟩ yes) = .ok y ∧
      printed (statements ⟨name, n⟩ no) = .ok z ∧
      ∀ depth, printed (stmt n (depth * n) (.branch cond yes no pos)) =
        .ok (line (depth * n) ("if (" ++ c ++ ") \x7b") ++ indent ((depth + 1) * n) y ++
          (if no.isEmpty then "" else
            line (depth * n) "\x7d else \x7b" ++ indent ((depth + 1) * n) z) ++
          line (depth * n) "\x7d")
  /-- So is the body of a loop. -/
  loop : ∀ (cond : Typed.Expr) (body : List Typed.Stmt) (pos : Position),
    stmtGaps (.loop cond body pos) = [] → NoFeeds (stmtWords (.loop cond body pos)) →
    ∃ c b, expr cond = .ok c ∧ printed (statements ⟨name, n⟩ body) = .ok b ∧
      ∀ depth, printed (stmt n (depth * n) (.loop cond body pos)) =
        .ok (line (depth * n) ("while (" ++ c ++ ") \x7b") ++ indent ((depth + 1) * n) b ++
          line (depth * n) "\x7d")
  /-- The pen, which counts the open blocks, writes these lines if it has room for their levels.
  After every statement that it comes to the end of, its count is what it was before. -/
  restored : ∀ (s : Typed.Stmt) (pen : Pen), pen.width = n → stmtGaps s = [] →
    ∃ lines, stmt n (pen.depth * n) s = .ok lines ∧
      (∀ pen', putStmt s pen = (.ok (), pen') → pen'.depth = pen.depth) ∧
      ((reach pen.depth (stmtLevels s) - 1) * n ≤ longestRow →
        putStmt s pen = (.ok (), { pen with toWriter := pen.toWriter.writeAll lines }))

/-- A branch on a text with a line feed, without an else part. -/
def quotedFeed : Typed.Stmt :=
  .branch (.binary .boolean "==" (.var .string "s" {}) (.literal .string (.text "a\nb") {}) {})
    [.assign "more" (.literal .boolean (.bool false) {}) {}] [] {}

/-- A sum that keeps the rules. -/
def checkedSum : Typed.Program :=
  [.expr (.binary .integer "+" (.literal .integer (.int32 1) {}) (.literal .integer (.int32 2) {})
    {}) {}]

/-- An expression whose operator is a line feed. -/
def feedOperator : Typed.Stmt :=
  .expr (.binary .integer "\n" (.literal .integer (.int32 1) {}) (.literal .integer (.int32 2) {})
    {}) {}

end LetWhile.Java
