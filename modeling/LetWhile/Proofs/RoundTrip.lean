import LetWhile.Proofs.Complaints
import LetWhile.Proofs.Completion
import LetWhile.Proofs.Literals
import LetWhile.Proofs.Nodes
import LetWhile.Proofs.Pipeline

/-!
# Printed expressions are read back

The printer writes the operands and operators of an expression one after the other and adds no
parentheses. Nothing is lost by that. The text of an expression that was parsed and checked is read
as the same expression again, so the tree is determined by the text. The places are other ones, and
Booleans come back as variables, since Java has other words for them.

Tokens stand between the two trees. `Expr.tokens` are those that an expression is written with.

* For the grammar, these tokens are as good as those that the expression was parsed from, because a
  derivation looks at nothing else in a token (`Chain.respelled`).
* For the lexer, they are the tokens of the printed text (`ExprTyped.spells`). Operators stand
  between spaces, so a sign behind an operator starts a number as it did before.
-/

namespace LetWhile

open Lexer

/-! ## The tokens of an expression -/

/-- How a Boolean is written in Java. -/
def boolName (b : Bool) : String := if b then "true" else "false"

/-- The token that a literal is written as. Decimals have none here, as some of them are written in
ways that the language does not read. -/
def Constant.token : Constant → Token
  | .bool b => .ofWord (boolName b)
  | .integer n => { kind := .integer, text := toString n, pos := {} }
  | .text s => { kind := .string, text := Java.stringLiteral s, pos := {} }
  | _ => { kind := .unknown, text := "", pos := {} }

mutual

/-- The tokens that an expression is written with. -/
def Expr.tokens : Expr → List Token
  | .missing => []
  | .literal value _ => [value.token]
  | .group inner _ => .ofOperator "(" :: (inner.tokens ++ [.ofOperator ")"])
  | .binary op left right _ => left.tokens ++ .ofOperator op :: right.tokens
  | .var name _ => [.ofWord name]
  | .call name args _ => .ofWord name :: .ofOperator "(" :: Expr.argTokens args

/-- The tokens that the arguments of a call are written with, up to the closing parenthesis. -/
def Expr.argTokens : List Expr → List Token
  | [] => [.ofOperator ")"]
  | e :: es => e.tokens ++ Expr.moreTokens es

/-- The tokens behind an argument. -/
def Expr.moreTokens : List Expr → List Token
  | [] => [.ofOperator ")"]
  | e :: es => .ofOperator "," :: (e.tokens ++ Expr.moreTokens es)

end

mutual

/-- An expression with variables in the place of its Booleans. -/
def Expr.boolsAsNames : Expr → Expr
  | .missing => .missing
  | .literal (.bool b) pos => .var (boolName b) pos
  | .literal value pos => .literal value pos
  | .group inner pos => .group inner.boolsAsNames pos
  | .binary op left right pos => .binary op left.boolsAsNames right.boolsAsNames pos
  | .var name pos => .var name pos
  | .call name args pos => .call name (Expr.boolsAsNamesAll args) pos

/-- Expressions with variables in the place of their Booleans. -/
def Expr.boolsAsNamesAll : List Expr → List Expr
  | [] => []
  | e :: es => e.boolsAsNames :: Expr.boolsAsNamesAll es

end

/-- An expression without decimal literals. -/
def Expr.DecimalFree (e : Expr) : Prop :=
  ∀ n ∈ e.nodes, ∀ q pos, n ≠ .literal (.ratio q) pos

/-- An expression that is read back if it is a literal: it is no decimal, and no text with stray
bytes, which no program text has. What stands below it is not looked at. -/
structure Expr.Readable (e : Expr) : Prop where
  noDecimal : ∀ q pos, e ≠ .literal (.ratio q) pos
  noStray : ∀ s pos, e ≠ .literal (.stray s) pos

mutual

theorem Expr.unplaced_unplaced (e : Expr) : e.unplaced.unplaced = e.unplaced := by
  match e with
  | .missing => rfl
  | .literal _ _ => rfl
  | .group inner _ => rw [Expr.unplaced, Expr.unplaced, inner.unplaced_unplaced]
  | .binary _ left right _ =>
      rw [Expr.unplaced, Expr.unplaced, left.unplaced_unplaced, right.unplaced_unplaced]
  | .var _ _ => rfl
  | .call _ args _ => rw [Expr.unplaced, Expr.unplaced, Expr.unplacedAll_unplacedAll args]

theorem Expr.unplacedAll_unplacedAll (es : List Expr) :
    Expr.unplacedAll (Expr.unplacedAll es) = Expr.unplacedAll es := by
  match es with
  | [] => rfl
  | e :: es =>
      rw [Expr.unplacedAll, Expr.unplacedAll, e.unplaced_unplaced,
        Expr.unplacedAll_unplacedAll es]

end

/-! ## The grammar -/

namespace Grammar

open LetWhile.Parser

/-- What is read from the tokens of an expression. -/
def readBack (e : Expr) : Expr := e.boolsAsNames.unplaced

/-- What is read from the tokens of expressions. -/
def readBackAll (es : List Expr) : List Expr := Expr.unplacedAll (Expr.boolsAsNamesAll es)

theorem isName_ofWord_text {t : Token} (h : t.isName = true) :
    (Token.ofWord t.text).isName = true := by
  unfold Token.isName at h ⊢
  exact (Bool.and_eq_true_iff.mp h).2

theorem has_ofOperator_text {t : Tier} {op : Token} (h : t.has op = true) :
    t.has (.ofOperator op.text) = true := by
  unfold Tier.has at h ⊢
  exact (Bool.and_eq_true_iff.mp h).2

theorem ends_comma (rest : List Token) : Ends (.ofOperator "," :: rest) :=
  .mark (by decide) (Token.isOperator_ofOperator ",")

theorem primary_boolName (b : Bool) (rest : List Token) :
    Primary (.ofWord (boolName b) :: rest) (.var (boolName b) {}) rest := by
  have hname : (Token.ofWord (boolName b)).isName = true := by cases b <;> decide
  exact .var hname

theorem primary_stringLiteral (s : String) (rest : List Token) :
    Primary ((Constant.text s).token :: rest) (.literal (.text s) {}) rest := by
  have h : Primary ((Constant.text s).token :: rest)
      (.literal (.ofBytes (literalText (Java.stringLiteral s))) {}) rest :=
    .string rfl (two_le_stringLiteral s)
  rwa [literalText_stringLiteral, Constant.ofBytes_utf8Bytes] at h

theorem ArgumentList.moreTokens_eq {ts rest : List Token} {args : List Expr}
    (h : ArgumentList ts args rest) :
    Expr.moreTokens args = .ofOperator "," :: Expr.argTokens args := by
  cases h <;> rfl

mutual

theorem Primary.respelled {ts rest : List Token} {e : Expr} :
    Primary ts e rest → (∀ n ∈ e.nodes, n.Readable) →
      ∀ more, Primary (e.tokens ++ more) (readBack e) more
  | .trueWord _, _, more => primary_boolName true more
  | .falseWord _, _, more => primary_boolName false more
  | .var hx, _, _ => .var (isName_ofWord_text hx)
  | .integer _ _, _, _ => .integer rfl (integer?_toString _)
  | .decimal _ _, hread, _ => absurd rfl ((hread _ List.mem_cons_self).noDecimal _ _)
  | @Primary.string t _ _ _, hread, more => by
      -- what the token denotes is a text
      rcases Constant.ofBytes_cases (literalText t.text) with ⟨s, hs⟩ | ⟨s, hs⟩
      · rw [hs]
        exact primary_stringLiteral s more
      · rw [hs] at hread
        exact absurd rfl ((hread _ List.mem_cons_self).noStray s _)
  | .call hf _ hargs, hread, more =>
      .call (isName_ofWord_text hf) (Token.isOperator_ofOperator "(")
        (hargs.respelled (fun n hn => hread n (List.mem_cons_of_mem _ hn)) more)
  | .group _ he _, hread, more => by
      have hinner := he.respelled (fun n hn => hread n (List.mem_cons_of_mem _ hn))
        (ends_close more)
      rw [Expr.tokens, List.cons_append, List.append_assoc]
      exact .group (Token.isOperator_ofOperator "(") hinner (Token.isOperator_ofOperator ")")

theorem Operand.respelled {t : Tier} {ts rest : List Token} {e : Expr} :
    Operand t ts e rest → (∀ n ∈ e.nodes, n.Readable) →
      ∀ more, Operand t (e.tokens ++ more) (readBack e) more
  | .sum h, hread, more => .sum (h.respelled hread more)
  | .product h, hread, more => .product (h.respelled hread more)
  | .primary h, hread, more => .primary (h.respelled hread more)

theorem Chain.respelled {t : Tier} {ts rest : List Token} {e : Expr} :
    Chain t ts e rest → (∀ n ∈ e.nodes, n.Readable) →
      ∀ more, Chain t (e.tokens ++ more) (readBack e) more
  | .single h, hread, more => .single (h.respelled hread more)
  | .join h hop hright, hread, more => by
      have hleft := h.respelled fun n hn =>
        hread n (List.mem_cons_of_mem _ (List.mem_append_left _ hn))
      have hright := hright.respelled fun n hn =>
        hread n (List.mem_cons_of_mem _ (List.mem_append_right _ hn))
      -- the operator and the right operand are what stands behind the left one
      rw [Expr.tokens, List.append_assoc, List.cons_append]
      exact .join (hleft _) (has_ofOperator_text hop) (hright more)

theorem Expression.respelled {ts rest : List Token} {e : Expr} :
    Expression ts e rest → (∀ n ∈ e.nodes, n.Readable) → ∀ {more}, Ends more →
      Expression (e.tokens ++ more) (readBack e) more
  | .mk h _, hread, more, hmore => .mk (h.respelled hread more) hmore

theorem Arguments.respelled {ts rest : List Token} {args : List Expr} :
    Arguments ts args rest → (∀ n ∈ Expr.nodesAll args, n.Readable) →
      ∀ more, Arguments (Expr.argTokens args ++ more) (readBackAll args) more
  | .empty _, _, _ => .empty (Token.isOperator_ofOperator ")")
  | .list h, hread, more => .list (h.respelled hread more)

theorem ArgumentList.respelled {ts rest : List Token} {args : List Expr} :
    ArgumentList ts args rest → (∀ n ∈ Expr.nodesAll args, n.Readable) →
      ∀ more, ArgumentList (Expr.argTokens args ++ more) (readBackAll args) more
  | .last he _, hread, more => by
      have hlast := he.respelled (fun n hn => hread n (List.mem_append_left _ hn)) (ends_close more)
      rw [Expr.argTokens, Expr.moreTokens, List.append_assoc]
      exact .last hlast (Token.isOperator_ofOperator ")")
  | .more he _ hargs, hread, more => by
      have hrest := hargs.respelled (fun n hn => hread n (List.mem_append_right _ hn)) more
      rw [Expr.argTokens, hargs.moreTokens_eq, List.append_assoc, List.cons_append]
      refine .more (he.respelled (fun n hn => ?_) (ends_comma _)) (Token.isOperator_ofOperator ",")
        hrest
      exact hread n (List.mem_append_left _ hn)

end

/-- A chain of any tier is an expression by itself. -/
theorem Chain.equality {t : Tier} {ts rest : List Token} {e : Expr} (h : Chain t ts e rest) :
    Chain .equality ts e rest := by
  cases t with
  | equality => exact h
  | additive => exact .single (.sum h)
  | multiplicative => exact .single (.sum (.single (.product h)))

/-- **The tokens of a parsed expression are a program that consists of it.** -/
theorem DerivedFrom.ofTokens_tokens {P : Token → Prop} {e : Expr} (h : DerivedFrom P e)
    (hread : ∀ n ∈ e.nodes, n.Readable) :
    ∃ pos, Program.ofTokens e.tokens = .ok [.expr (readBack e) pos] := by
  obtain ⟨t, ts, rest, h, -⟩ := h
  have hchain := (h.respelled hread []).equality
  rw [List.append_nil] at hchain
  have hderives : Derives e.tokens [.expr (readBack e) (readBack e).pos] :=
    .cons (.expr (.mk hchain .input)) .done
  exact ⟨_, ofTokens_of_derives hderives⟩

end Grammar

/-! ## The text -/

namespace Lexer

theorem separates_open : Separates '(' := ⟨by decide, by decide, by decide⟩

theorem separates_close : Separates ')' := ⟨by decide, by decide, by decide⟩

theorem separates_comma : Separates ',' := ⟨by decide, by decide, by decide⟩

theorem Spells.open {cs : List Char} {ts : List Token} (h : Spells cs ts) :
    Spells ('(' :: cs) (.ofOperator "(" :: ts) :=
  h.mark (by decide) fun _ => rfl

theorem Spells.close {cs : List Char} {ts : List Token} (h : Spells cs ts) :
    Spells (')' :: cs) (.ofOperator ")" :: ts) :=
  h.mark (by decide) fun _ => rfl

theorem Spells.comma {cs : List Char} {ts : List Token} (h : Spells cs ts) :
    Spells (',' :: cs) (.ofOperator "," :: ts) :=
  h.mark (by decide) fun _ => rfl

/-- Two texts with one space between them. -/
theorem Spells.spaced {cs ds : List Char} {ts us : List Token} (h : Spells cs ts)
    (h' : Spells ds us) : Spells (cs ++ ' ' :: ds) (ts ++ us) :=
  h.append (separates_of_isSpace (by decide)) (h'.space (by decide))

end Lexer

theorem spells_boolName (b : Bool) : Spells (boolName b).toList [.ofWord (boolName b)] := by
  cases b with
  | true => with_unfolding_all rfl
  | false => with_unfolding_all rfl

/-! ### Arguments -/

/-- The texts behind an argument, up to the closing parenthesis. -/
def moreText : List String → List Char
  | [] => [')']
  | text :: texts => ',' :: ' ' :: (text.toList ++ moreText texts)

theorem toList_intercalate_close (text : String) (texts : List String) :
    (", ".intercalate (text :: texts)).toList ++ [')'] = text.toList ++ moreText texts := by
  induction texts generalizing text with
  | nil => rw [String.intercalate_singleton, moreText]
  | cons next texts ih =>
      rw [String.intercalate_cons_cons, String.toList_append, String.toList_append,
        List.append_assoc, ih, List.append_assoc, moreText]
      rfl

/-- Every argument stands in front of a comma or a parenthesis. -/
theorem Lexer.Spells.followed {cs : List Char} {ts us : List Token} {texts : List String}
    (h : Spells cs ts) (h' : Spells (moreText texts) us) :
    Spells (cs ++ moreText texts) (ts ++ us) := by
  cases texts with
  | nil => exact h.append separates_close h'
  | cons text texts => exact h.append separates_comma h'

theorem spells_moreText {texts : List String} {es : List Expr}
    (h : List.Forall₂ (fun text e => Spells text.toList e.tokens) texts es) :
    Spells (moreText texts) (Expr.moreTokens es) := by
  induction h with
  | nil => exact (spells_nil_iff.mpr rfl).close
  | cons hfirst _ ih => exact ((hfirst.followed ih).space (by decide)).comma

/-- **Arguments with commas between them spell the tokens of the arguments.** -/
theorem spells_arguments {texts : List String} {es : List Expr}
    (h : List.Forall₂ (fun text e => Spells text.toList e.tokens) texts es) :
    Spells ((", ".intercalate texts).toList ++ [')']) (Expr.argTokens es) := by
  cases h with
  | nil => exact (spells_nil_iff.mpr rfl).close
  | cons hfirst hrest =>
      rw [toList_intercalate_close]
      exact hfirst.followed (spells_moreText hrest)

/-! ### Expressions -/

/-- An expression whose text is made of tokens of the language: a literal can be read back, and a
name is lexed as a name. What stands below it is not looked at. -/
structure Expr.Legible (e : Expr) : Prop extends e.Readable where
  name : ∀ x, e.name? = some x → Spells x.toList [.ofWord x]

namespace Typing

theorem BinaryTyped.spells {op : String} {σ τ ρ : Ty} (h : BinaryTyped op σ τ ρ) :
    Spells op.toList [.ofOperator op] := by
  have hop := h.mem_operators
  simp only [List.mem_cons, List.not_mem_nil, or_false] at hop
  rcases hop with rfl | rfl | rfl | rfl | rfl | rfl
  all_goals with_unfolding_all rfl

theorem LiteralTyped.spells {value value' : Constant} {τ : Ty} (h : LiteralTyped value τ value')
    (hratio : ∀ q, value ≠ .ratio q) (hstray : ∀ s, value ≠ .stray s) :
    ∃ text, Java.literal value' = .ok text ∧ Spells text.toList [value.token] := by
  cases h with
  | bool b => exact ⟨_, rfl, spells_boolName b⟩
  | text s => exact ⟨_, rfl, spells_stringLiteral s⟩
  | stray s => exact absurd rfl (hstray s)
  | @integer n hlow hhigh =>
      -- a literal in range is the machine integer that it becomes
      have hn : (Int32.ofInt n).toInt = n := Int32.toInt_ofInt_of_le (by omega) (by omega)
      refine ⟨_, rfl, ?_⟩
      rw [hn]
      exact spells_integer n
  | decimal _ => exact absurd rfl (hratio _)

theorem java_of_find? {lib : Library} (hlib : ∀ f ∈ lib.functions, f.java = f.name) {x : String}
    {f : Function} (h : lib.find? x = some f) : f.java = x := by
  unfold Library.find? at h
  have hmem : f ∈ lib.functions := List.mem_reverse.mp (List.mem_of_find?_eq_some h)
  have hname := List.find?_some h
  rw [hlib f hmem]
  exact of_decide_eq_true hname

mutual

/-- **The printed text of an expression spells its tokens.** -/
theorem ExprTyped.spells {lib : Library} (hlib : ∀ f ∈ lib.functions, f.java = f.name) {Γ : Env}
    {e : Expr} {τ : Ty} {t : Typed.Expr} :
    ExprTyped lib Γ e τ t → (∀ n ∈ e.nodes, n.Legible) →
      ∃ text, Java.expr t = .ok text ∧ Spells text.toList e.tokens
  | .literal hv, hlegible => by
      have hself := hlegible _ List.mem_cons_self
      exact hv.spells (fun q hq => hself.noDecimal q _ (by rw [hq]))
        fun s hs => hself.noStray s _ (by rw [hs])
  | .group he, hlegible => by
      obtain ⟨text, htext, hspells⟩ :=
        he.spells hlib fun n hn => hlegible n (List.mem_cons_of_mem _ hn)
      refine ⟨"(" ++ text ++ ")", by rw [Java.expr, htext]; rfl, ?_⟩
      rw [String.toList_append, String.toList_append]
      exact (hspells.append separates_close (spells_nil_iff.mpr rfl).close).open
  | .binary hl hr hop, hlegible => by
      obtain ⟨left, hleft, hlspells⟩ := hl.spells hlib fun n hn =>
        hlegible n (List.mem_cons_of_mem _ (List.mem_append_left _ hn))
      obtain ⟨right, hright, hrspells⟩ := hr.spells hlib fun n hn =>
        hlegible n (List.mem_cons_of_mem _ (List.mem_append_right _ hn))
      refine ⟨_, by rw [Java.expr, hleft, hright]; rfl, ?_⟩
      -- the operator stands between spaces, so that it ends where it did
      have hall := hlspells.spaced (hop.spells.spaced hrspells)
      simp only [String.toList_append, List.append_assoc]
      exact hall
  | .var _, hlegible => ⟨_, rfl, (hlegible _ List.mem_cons_self).name _ rfl⟩
  | .call hf hargs, hlegible => by
      obtain ⟨texts, htexts, hspells⟩ :=
        hargs.spells hlib fun n hn => hlegible n (List.mem_cons_of_mem _ hn)
      have hname := (hlegible _ List.mem_cons_self).name _ rfl
      refine ⟨_, by rw [Java.expr, htexts]; rfl, ?_⟩
      have hall := hname.append separates_open (spells_arguments hspells).open
      rw [java_of_find? hlib hf]
      simp only [String.toList_append, List.append_assoc]
      exact hall

theorem ArgsTyped.spells {lib : Library} (hlib : ∀ f ∈ lib.functions, f.java = f.name) {Γ : Env}
    {es : List Expr} {τs : List Ty} {ts : List Typed.Expr} :
    ArgsTyped lib Γ es τs ts → (∀ n ∈ Expr.nodesAll es, n.Legible) →
      ∃ texts, Java.exprs ts = .ok texts ∧
        List.Forall₂ (fun text e => Spells text.toList e.tokens) texts es
  | .nil, _ => ⟨[], rfl, .nil⟩
  | .cons he _ hes, hlegible => by
      obtain ⟨first, hfirst, hspells⟩ :=
        he.spells hlib fun n hn => hlegible n (List.mem_append_left _ hn)
      obtain ⟨rest, hrest, hmore⟩ :=
        hes.spells hlib fun n hn => hlegible n (List.mem_append_right _ hn)
      exact ⟨first :: rest, by rw [Java.exprs, hfirst, hrest]; rfl, .cons hspells hmore⟩

end

end Typing

/-! ## Back to the tree -/

/-- A token that is lexed from its own text, with quotes around it if it is a string. -/
structure Token.Spelled (t : Token) : Prop where
  spells : Spells t.text.toList [t.unplaced]
  quoted : t.kind = .string → ∃ body, t.text.toList = '"' :: body ++ ['"']

theorem Token.unplaced_of_isName {t : Token} (h : t.isName = true) :
    t.unplaced = .ofWord t.text := by
  have hkind : t.kind = .identifier := of_decide_eq_true (Bool.and_eq_true_iff.mp h).1
  rw [Token.unplaced, hkind, Token.ofWord]

/-- The nodes of an expression that was parsed from a text are legible if it has no decimals. -/
theorem Grammar.DerivedFrom.legible {e : Expr} (h : Grammar.DerivedFrom Token.Spelled e)
    (hfree : e.DecimalFree) : ∀ n ∈ e.nodes, n.Legible := by
  intro n hn
  obtain ⟨t, ht, horigin⟩ := (h.nodes n hn).origin
  refine ⟨⟨hfree n hn, fun s pos hs => ?_⟩, fun x hx => ?_⟩
  · obtain ⟨hkind, hvalue⟩ := horigin.stray_eq s pos hs
    obtain ⟨body, htext⟩ := ht.quoted hkind
    rw [Constant.ofBytes_literalText htext] at hvalue
    cases hvalue
  · obtain ⟨hname, rfl⟩ := horigin.name_eq x hx
    rw [← Token.unplaced_of_isName hname]
    exact ht.spells

/-- **The text of an expression is read back** as a program that consists of the expression. -/
theorem Typing.TypedForm.reads_back {lib : Library} (hlib : ∀ f ∈ lib.functions, f.java = f.name)
    {e : Expr} {t : Typed.Expr} (h : TypedForm lib e t)
    (hderived : Grammar.DerivedFrom Token.Spelled e) (hfree : e.DecimalFree) :
    ∃ text q, Java.expr t = .ok text ∧ Program.parse (utf8Bytes text) = .ok q ∧
      Stmt.unplacedAll q = [.expr e.boolsAsNames.unplaced {}] := by
  obtain ⟨Γ, τ, htyped⟩ := h
  have hlegible := hderived.legible hfree
  obtain ⟨text, htext, hspells⟩ := htyped.spells hlib hlegible
  obtain ⟨us, hus, htokens⟩ := lex_of_spells hspells
  obtain ⟨pos, hprogram⟩ := hderived.ofTokens_tokens fun n hn => (hlegible n hn).toReadable
  -- the lexed tokens are those of the expression in other places
  have hsame : us.map Token.unplaced = e.tokens.map Token.unplaced := by
    rw [← htokens, List.map_map]
    rfl
  obtain ⟨q, hq, hunplaced⟩ := Program.ofTokens_of_unplaced hprogram hsame
  refine ⟨text, q, htext, Program.parse_eq_ok.mpr ⟨us, hus, hq⟩, ?_⟩
  rw [hunplaced, Stmt.unplacedAll, Stmt.unplacedAll, Stmt.unplaced, Grammar.readBack,
    Expr.unplaced_unplaced]

/--
**Printed expressions are read back.** Take a program text that is parsed and checked, with a
library whose functions have the same names in Java. The expressions of the checked program are the
typed forms of the expressions of the program, one for one. For every one without decimal literals,
the printer gives a text, and this text is parsed as one statement, which is the expression apart
from places and with variables in the place of Booleans.
-/
theorem expressions_read_back (lib : Library) (hlib : ∀ f ∈ lib.functions, f.java = f.name)
    (scope : Scope) (source : List UInt8) (p : Program) (typed : Typed.Program)
    (hparse : Program.parse source = .ok p) (hcheck : (p.check lib scope).1 = .ok typed) :
    List.Forall₂ (fun e t => Typing.TypedForm lib e t ∧ (e.DecimalFree →
        ∃ text q, Java.expr t = .ok text ∧ Program.parse (utf8Bytes text) = .ok q ∧
          Stmt.unplacedAll q = [.expr e.boolsAsNames.unplaced {}]))
      (Stmt.exprsAll p) (Typed.Stmt.exprsAll typed) := by
  obtain ⟨ts, hlex, hts⟩ := Program.parse_eq_ok.mp hparse
  have hspelled : ∀ t ∈ ts, t.Spelled := fun t ht =>
    ⟨spells_of_mem_tokens hlex t ht, Token.quoted_of_lex hlex ht⟩
  have htree := Program.treeFrom_of_ofTokens hts hspelled
  have hforms := (Typing.block_sound p (Prod.ext hcheck rfl)).exprs
  have hboth := (List.forall₂_and_left _ _).mpr ⟨htree.exprs, hforms⟩
  refine hboth.imp ?_
  rintro e t ⟨hderived, hform⟩
  exact ⟨hform, hform.reads_back hlib hderived⟩

/-- A library with one function, which takes a text. -/
def lengthLibrary : Library where
  functions := [{ name := "f", java := "f", params := [.string], result := .integer }]

/-- The text `1- -2*f("\"")==TRUE`. -/
def signedCall : List UInt8 :=
  [0x31, 0x2D, 0x20, 0x2D, 0x32, 0x2A, 0x66, 0x28, 0x22, 0x5C, 0x22, 0x22, 0x29, 0x3D, 0x3D,
    0x54, 0x52, 0x55, 0x45]

/-- The program of that text. -/
def signedCallProgram : Program :=
  [.expr
    (.binary "=="
      (.binary "-" (.literal (.integer 1) ⟨0, 1, 1⟩)
        (.binary "*" (.literal (.integer (-2)) ⟨3, 1, 4⟩)
          (.call "f" [.literal (.text "\"") ⟨8, 1, 9⟩] ⟨6, 1, 7⟩) ⟨5, 1, 6⟩) ⟨1, 1, 2⟩)
      (.literal (.bool true) ⟨15, 1, 16⟩) ⟨13, 1, 14⟩) ⟨13, 1, 14⟩]

/-- That program with its types. -/
def signedCallTyped : Typed.Program :=
  [.expr
    (.binary .boolean "=="
      (.binary .integer "-" (.literal .integer (.int32 1) ⟨0, 1, 1⟩)
        (.binary .integer "*" (.literal .integer (.int32 (-2)) ⟨3, 1, 4⟩)
          (.call { name := "f", java := "f", params := [.string], result := .integer }
            [.literal .string (.text "\"") ⟨8, 1, 9⟩] ⟨6, 1, 7⟩) ⟨5, 1, 6⟩) ⟨1, 1, 2⟩)
      (.literal .boolean (.bool true) ⟨15, 1, 16⟩) ⟨13, 1, 14⟩) ⟨13, 1, 14⟩]

theorem signedCall_decimalFree : ∀ e ∈ Stmt.exprsAll signedCallProgram, e.DecimalFree := by
  simp [signedCallProgram, Stmt.exprsAll, Stmt.exprs, Expr.nodes, Expr.nodesAll,
    Expr.DecimalFree]

/-- All expressions of that program are read back. -/
theorem expressions_read_back_signedCall :
    Program.parse signedCall = .ok signedCallProgram ∧
    (signedCallProgram.check lengthLibrary .empty).1 = .ok signedCallTyped ∧
    List.Forall₂ (fun e t => ∃ text q, Java.expr t = .ok text ∧
        Program.parse (utf8Bytes text) = .ok q ∧
        Stmt.unplacedAll q = [.expr e.boolsAsNames.unplaced {}])
      (Stmt.exprsAll signedCallProgram) (Typed.Stmt.exprsAll signedCallTyped) := by
  have hparse : Program.parse signedCall = .ok signedCallProgram := by with_unfolding_all rfl
  have hcheck : (signedCallProgram.check lengthLibrary .empty).1 = .ok signedCallTyped := by
    with_unfolding_all rfl
  have hlib : ∀ f ∈ lengthLibrary.functions, f.java = f.name := by simp [lengthLibrary]
  have hall := expressions_read_back lengthLibrary hlib .empty signedCall signedCallProgram
    signedCallTyped hparse hcheck
  refine ⟨hparse, hcheck, ?_⟩
  refine ((List.forall₂_and_left _ _).mpr ⟨signedCall_decimalFree, hall⟩).imp ?_
  rintro e t ⟨hfree, -, hread⟩
  exact hread hfree

end LetWhile
