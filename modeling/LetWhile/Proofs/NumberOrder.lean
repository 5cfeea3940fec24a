import LetWhile.Proofs.Capture
import LetWhile.Proofs.Denotations

/-!
# The numbers of a program in their order

Nothing on the way from a text to Java drops a number, adds one, or moves one past another. At every
stage the numbers can be read off from left to right:

* the numbers among the tokens of a program are those among the nodes of its tree;
* the numbers of a checked program are, one for one, those of the program, each typed for itself;
* what is printed for the numbers of a checked program stands in the output in their order.
-/

namespace LetWhile

/-! ## Numbers of a stage -/

/-- Whether a token is a number. -/
def Token.isNumber (t : Token) : Bool :=
  t.kind = .integer || t.kind = .decimal

/-- The number that a token is read as. -/
def Token.number? (t : Token) : Option Constant :=
  match t.kind with
  | .integer => (Numeral.integer? t.text).map .integer
  | .decimal => (Notation.decimal? t.text).map .ratio
  | _ => none

/-- Whether a value is a number. -/
def Constant.isNumber : Constant → Bool
  | .integer _ | .ratio _ | .int32 _ | .double _ => true
  | .absent | .bool _ | .text _ | .stray _ => false

/-- The number that an expression is. -/
def Expr.number? : Expr → Option Constant
  | .literal value _ => if value.isNumber then some value else none
  | _ => none

/-- The numbers among tokens, from left to right. -/
def Token.numbers (ts : List Token) : List Constant := ts.filterMap Token.number?

/-- The numbers among expressions, from left to right. -/
def Expr.numbers (es : List Expr) : List Constant := es.filterMap Expr.number?

/-- What is printed for an expression of a checked program that is a number. -/
def Java.numeral? : Typed.Expr → Option String
  | .literal _ value _ => if value.isNumber then (Java.literal value).toOption else none
  | _ => none

/-- What is printed for the numbers among expressions of a checked program, from left to right. -/
def Java.numerals (es : List Typed.Expr) : List String := es.filterMap Java.numeral?

/-! ## From tokens to the tree -/

theorem Token.numbers_cons {t : Token} (h : t.number? = none) (ts : List Token) :
    Token.numbers (t :: ts) = Token.numbers ts :=
  List.filterMap_cons_none h

theorem Token.number?_eq_none {t : Token} (h : t.isNumber = false) : t.number? = none := by
  simp only [Token.isNumber, Bool.or_eq_false_iff, decide_eq_false_iff_not] at h
  unfold Token.number?
  split
  · next hkind => exact absurd hkind h.1
  · next hkind => exact absurd hkind h.2
  · rfl

theorem Token.number?_of_kind {t : Token} (h : t.kind = .operator ∨ t.kind = .identifier) :
    t.number? = none := by
  refine Token.number?_eq_none ?_
  rcases h with h | h <;> simp [Token.isNumber, h]

theorem Token.number?_of_isOperator {t : Token} {op : String} (h : t.isOperator op) :
    t.number? = none := by
  simp only [Token.isOperator, Bool.and_eq_true, decide_eq_true_eq] at h
  exact Token.number?_of_kind (.inl h.1)

theorem Token.number?_of_has {tier : Parser.Tier} {t : Token} (h : tier.has t) :
    t.number? = none := by
  simp only [Parser.Tier.has, Bool.and_eq_true, decide_eq_true_eq] at h
  exact Token.number?_of_kind (.inl h.1)

theorem Token.number?_of_isWord {t : Token} {w : String} (h : t.isWord w) : t.number? = none := by
  simp only [Token.isWord, Bool.and_eq_true, decide_eq_true_eq] at h
  exact Token.number?_of_kind (.inr h.1)

theorem Token.number?_of_isName {t : Token} (h : t.isName) : t.number? = none := by
  simp only [Token.isName, Bool.and_eq_true, decide_eq_true_eq] at h
  exact Token.number?_of_kind (.inr h.1)

theorem Expr.numbers_append (es es' : List Expr) :
    Expr.numbers (es ++ es') = Expr.numbers es ++ Expr.numbers es' :=
  List.filterMap_append

namespace Grammar

open LetWhile.Parser Token

/-! What is derived takes its numbers from the front of the tokens and leaves the others. -/

mutual

theorem Primary.numbers {ts rest : List Token} {e : Expr} :
    Primary ts e rest → numbers ts = Expr.numbers e.nodes ++ numbers rest
  | .trueWord ht => numbers_cons (number?_of_isWord ht) _
  | .falseWord ht => numbers_cons (number?_of_isWord ht) _
  | .var hx => numbers_cons (number?_of_isName hx) _
  | .call hf hp hargs => by
      rw [numbers_cons (number?_of_isName hf), numbers_cons (number?_of_isOperator hp),
        hargs.numbers]
      rfl
  | .group hp he hq => by
      rw [numbers_cons (number?_of_isOperator hp), he.numbers,
        numbers_cons (number?_of_isOperator hq)]
      rfl
  | .integer hk hv => List.filterMap_cons_some (by rw [Token.number?, hk, hv]; rfl)
  | .decimal hk hv => List.filterMap_cons_some (by rw [Token.number?, hk, hv]; rfl)
  | @Primary.string t _ hk _ => by
      have hnone :
          Expr.numbers (Expr.literal (.ofBytes (literalText t.text)) t.pos).nodes = [] := by
        rcases Constant.ofBytes_cases (literalText t.text) with ⟨s, hs⟩ | ⟨s, hs⟩
        · rw [hs]; rfl
        · rw [hs]; rfl
      rw [numbers_cons (by rw [Token.number?, hk]), hnone, List.nil_append]

theorem Operand.numbers {t : Tier} {ts rest : List Token} {e : Expr} :
    Operand t ts e rest → numbers ts = Expr.numbers e.nodes ++ numbers rest
  | .sum h => h.numbers
  | .product h => h.numbers
  | .primary h => h.numbers

theorem Chain.numbers {t : Tier} {ts rest : List Token} {e : Expr} :
    Chain t ts e rest → numbers ts = Expr.numbers e.nodes ++ numbers rest
  | .single h => h.numbers
  | .join h hop hright => by
      rw [h.numbers, numbers_cons (number?_of_has hop), hright.numbers, ← List.append_assoc,
        ← Expr.numbers_append]
      rfl

theorem Expression.numbers {ts rest : List Token} {e : Expr} :
    Expression ts e rest → numbers ts = Expr.numbers e.nodes ++ numbers rest
  | .mk h _ => h.numbers

theorem Arguments.numbers {ts rest : List Token} {args : List Expr} :
    Arguments ts args rest → numbers ts = Expr.numbers (Expr.nodesAll args) ++ numbers rest
  | .empty hq => numbers_cons (number?_of_isOperator hq) _
  | .list h => h.numbers

theorem ArgumentList.numbers {ts rest : List Token} {args : List Expr} :
    ArgumentList ts args rest → numbers ts = Expr.numbers (Expr.nodesAll args) ++ numbers rest
  | .last he hq => by
      rw [he.numbers, numbers_cons (number?_of_isOperator hq), Expr.nodesAll, Expr.nodesAll,
        List.append_nil]
  | .more he hc hargs => by
      rw [he.numbers, numbers_cons (number?_of_isOperator hc), hargs.numbers, Expr.nodesAll,
        Expr.numbers_append, List.append_assoc]

end

mutual

theorem Statement.numbers {ts rest : List Token} {s : Stmt} :
    Statement ts s rest → numbers ts = Expr.numbers s.exprs ++ numbers rest
  | .declare hl hx hc hy => by
      rw [numbers_cons (number?_of_isWord hl), numbers_cons (number?_of_isName hx),
        numbers_cons (number?_of_isOperator hc), numbers_cons (number?_of_isName hy)]
      rfl
  | .declareInit hl hx hc hy heq he => by
      rw [numbers_cons (number?_of_isWord hl), numbers_cons (number?_of_isName hx),
        numbers_cons (number?_of_isOperator hc), numbers_cons (number?_of_isName hy),
        numbers_cons (number?_of_isOperator heq), he.numbers]
      rfl
  | .assign hx heq he => by
      rw [numbers_cons (number?_of_isName hx), numbers_cons (number?_of_isOperator heq),
        he.numbers]
      rfl
  | .branch hi hc hw hyes hclose => by
      rw [numbers_cons (number?_of_isWord hi), hc.numbers, numbers_cons (number?_of_isWord hw),
        hyes.numbers, numbers_cons (number?_of_isWord hclose), Stmt.exprs, Stmt.exprsAll,
        List.append_nil, Expr.numbers_append, List.append_assoc]
  | .branchElse hi hc hw hyes hv hno hclose => by
      rw [numbers_cons (number?_of_isWord hi), hc.numbers, numbers_cons (number?_of_isWord hw),
        hyes.numbers, numbers_cons (number?_of_isWord hv), hno.numbers,
        numbers_cons (number?_of_isWord hclose), Stmt.exprs, Expr.numbers_append,
        Expr.numbers_append, List.append_assoc, List.append_assoc]
  | .loop hi hc hw hbody hclose => by
      rw [numbers_cons (number?_of_isWord hi), hc.numbers, numbers_cons (number?_of_isWord hw),
        hbody.numbers, numbers_cons (number?_of_isWord hclose), Stmt.exprs, Expr.numbers_append,
        List.append_assoc]
  | .expr he => he.numbers

theorem Block.numbers {ts rest : List Token} {ss : List Stmt} :
    Block ts ss rest → numbers ts = Expr.numbers (Stmt.exprsAll ss) ++ numbers rest
  | .done => rfl
  | .separator ht h => by rw [numbers_cons (number?_of_isOperator ht), h.numbers]
  | .cons hs h => by
      rw [hs.numbers, h.numbers, Stmt.exprsAll, Expr.numbers_append, List.append_assoc]

end

end Grammar

/-- **A parsed program has the numbers of its tokens**, in their order. -/
theorem Program.numbers_of_ofTokens {ts : List Token} {p : Program}
    (h : Program.ofTokens ts = .ok p) : Expr.numbers (Stmt.exprsAll p) = Token.numbers ts := by
  rw [(Grammar.derives_of_ofTokens h).numbers]
  exact (List.append_nil _).symm

/-- Every number of a text is read as the value that it denotes. -/
theorem Denotes.number?_eq {t : Token} {value : Constant}
    (h : Denotes t.kind t.text.toList value) (hnumber : t.isNumber) : t.number? = some value := by
  unfold Token.number?
  unfold Token.isNumber at hnumber
  generalize hkind : t.kind = kind at h hnumber
  generalize htext : t.text.toList = text at h
  cases h with
  | integer hsign hds => dsimp only; rw [integer?_of_spelling htext hsign hds]; rfl
  | decimal hsign hds hfs => dsimp only; rw [decimal?_of_spelling htext hsign hds hfs]; rfl
  | string => cases hnumber

/-- The numbers among tokens belong, one for one, to the tokens that are numbers. -/
theorem Token.forall₂_numbers {ts : List Token}
    (h : ∀ t ∈ ts, t.isNumber → ∃ value, Denotes t.kind t.text.toList value) :
    List.Forall₂ (fun t value => t.isNumber ∧ Denotes t.kind t.text.toList value)
      (ts.filter Token.isNumber) (Token.numbers ts) := by
  induction ts with
  | nil => exact .nil
  | cons t ts ih =>
      obtain ⟨hfirst, hrest⟩ := List.forall_mem_cons.mp h
      cases hnumber : t.isNumber with
      | true =>
          obtain ⟨value, hvalue⟩ := hfirst hnumber
          rw [List.filter_cons_of_pos hnumber, Token.numbers,
            List.filterMap_cons_some (hvalue.number?_eq hnumber)]
          exact .cons ⟨hnumber, hvalue⟩ (ih hrest)
      | false =>
          rw [List.filter_cons_of_neg (by simp [hnumber]),
            Token.numbers_cons (Token.number?_eq_none hnumber)]
          exact ih hrest

/-! ## From the tree to the checked program -/

/-- The checker accepts the value as a literal wherever it stands, and it is printed as `out`. -/
def Constant.PrintedAs (value : Constant) (out : String) : Prop :=
  ∀ pos, ∃ e, Check.literal pos value = .ok e ∧ Java.expr e = .ok out

namespace Typing

theorem LiteralTyped.isNumber_eq {value value' : Constant} {τ : Ty}
    (h : LiteralTyped value τ value') : value'.isNumber = value.isNumber := by
  cases h <;> rfl

theorem LiteralTyped.printedAs {value value' : Constant} {τ : Ty} {out : String}
    (h : LiteralTyped value τ value') (hout : Java.literal value' = .ok out) :
    value.PrintedAs out :=
  fun pos => ⟨_, h.complete pos, by rw [Java.expr, hout]⟩

/-- Every typed number can be printed. -/
theorem LiteralTyped.exists_literal {value value' : Constant} {τ : Ty}
    (h : LiteralTyped value τ value') : ∃ out, Java.literal value' = .ok out := by
  cases h <;> exact ⟨_, rfl⟩

/-- A number becomes a number, and nothing else does. -/
theorem TypedForm.number {lib : Library} {e : Expr} {t : Typed.Expr} (h : TypedForm lib e t) :
    Option.Rel Constant.PrintedAs e.number? (Java.numeral? t) := by
  obtain ⟨Γ, τ, h⟩ := h
  cases h with
  | @literal value value' _ _ hv =>
      obtain ⟨out, hout⟩ := hv.exists_literal
      rw [Expr.number?, Java.numeral?, hv.isNumber_eq, hout]
      split
      · exact .some (hv.printedAs hout)
      · exact .none
  | group => exact .none
  | binary => exact .none
  | var => exact .none
  | call => exact .none

/-- **A checked program has the numbers of the program**, in their order. -/
theorem BlockTyped.numbers {lib : Library} {Γ Γ' : Env} {ss : List Stmt} {ts : List Typed.Stmt}
    (h : BlockTyped lib Γ ss Γ' ts) :
    List.Forall₂ Constant.PrintedAs (Expr.numbers (Stmt.exprsAll ss))
      (Java.numerals (Typed.Stmt.exprsAll ts)) :=
  List.rel_filterMap (fun _ _ hform => hform.number) h.exprs

end Typing

/-! ## From the checked program to the output -/

namespace Java

variable {es es' : List Typed.Expr} {ws ws' : List Snippet} {wss : List (List Snippet)}

/-- The snippets show the numbers among the expressions, from left to right and each as one of
them. -/
def Shows (es : List Typed.Expr) (ws : List Snippet) : Prop :=
  (numerals es).Sublist (ws.map Snippet.text)

theorem Shows.nil : Shows [] ws := List.nil_sublist _

theorem Shows.mono (h : Shows es ws) (hws : ws.Sublist ws') : Shows es ws' :=
  h.trans (hws.map _)

theorem Shows.append (h : Shows es ws) (h' : Shows es' ws') : Shows (es ++ es') (ws ++ ws') := by
  rw [Shows, numerals, List.filterMap_append, List.map_append]
  exact List.Sublist.append h h'

theorem Shows.behind (h : Shows es ws) (w : Snippet) : Shows es (w :: ws) :=
  h.mono (List.sublist_cons_self w ws)

theorem Shows.before (h : Shows es ws) (ws' : List Snippet) : Shows es (ws ++ ws') :=
  h.mono (List.sublist_append_left ws ws')

theorem Shows.line (h : Shows es ws) (spaces : Nat) :
    Shows es [lineSnippets spaces ws].flatten := by
  rw [List.flatten_singleton]
  exact (h.behind _).before _

/-- Commas between the snippets of arguments hide none of their numbers. -/
theorem Shows.listed (h : Shows es wss.flatten) : Shows es (listed wss) := by
  refine h.mono ?_
  clear h
  induction wss using Java.listed.induct with
  | case1 => exact .slnil
  | case2 ws => rw [Java.listed, List.flatten_singleton]
  | case3 ws next rest ih =>
      rw [Java.listed, List.flatten_cons]
      exact (List.Sublist.refl ws).append (ih.cons _)

mutual

theorem shows_exprSnippets {ws : List Snippet} :
    (e : Typed.Expr) → exprSnippets e = .ok ws → Shows e.nodes ws
  | .missing, h => by cases h
  | .literal ty value pos, h => by
      rw [exprSnippets] at h
      obtain ⟨text, htext, h⟩ := bind_eq_ok.mp h
      cases h
      have hnumeral : numeral? (.literal ty value pos) = none ∨
          numeral? (.literal ty value pos) = some text := by
        rw [numeral?, htext]
        split
        · exact .inr rfl
        · exact .inl rfl
      rw [Shows, numerals, Typed.Expr.nodes]
      rcases hnumeral with hnone | hsome
      · rw [List.filterMap_cons_none hnone]
        exact List.nil_sublist _
      · rw [List.filterMap_cons_some hsome]
        exact .refl _
  | .group _ inner _, h => by
      rw [exprSnippets] at h
      obtain ⟨ws, hws, h⟩ := bind_eq_ok.mp h
      cases h
      exact ((shows_exprSnippets inner hws).behind _).before _
  | .binary _ _ left right _, h => by
      rw [exprSnippets] at h
      obtain ⟨ws, hws, h⟩ := bind_eq_ok.mp h
      obtain ⟨ws', hws', h⟩ := bind_eq_ok.mp h
      cases h
      exact (shows_exprSnippets left hws).append ((shows_exprSnippets right hws').behind _)
  | .var _ _ _, h => by
      cases h
      exact .nil
  | .call _ args _, h => by
      rw [exprSnippets] at h
      obtain ⟨wss, hwss, h⟩ := bind_eq_ok.mp h
      cases h
      exact (((shows_exprsSnippets args hwss).listed.behind _).behind _).before _

theorem shows_exprsSnippets {wss : List (List Snippet)} :
    (es : List Typed.Expr) → exprsSnippets es = .ok wss →
      Shows (Typed.Expr.nodesAll es) wss.flatten
  | [], h => by
      cases h
      exact .nil
  | e :: es, h => by
      rw [exprsSnippets] at h
      obtain ⟨ws, hws, h⟩ := bind_eq_ok.mp h
      obtain ⟨wss, hwss, h⟩ := bind_eq_ok.mp h
      cases h
      exact (shows_exprSnippets e hws).append (shows_exprsSnippets es hwss)

end

mutual

theorem shows_stmtSnippets {width spaces : Nat} {wss : List (List Snippet)} :
    (s : Typed.Stmt) → stmtSnippets width spaces s = .ok wss → Shows s.exprs wss.flatten
  | .missing, h => by cases h
  | .expr value _, h => by
      rw [stmtSnippets] at h
      obtain ⟨ws, hws, h⟩ := bind_eq_ok.mp h
      cases h
      exact ((shows_exprSnippets value hws).before _).line spaces
  | .declare _ _ none _, h => by
      cases h
      exact .nil
  | .declare _ _ (some init) _, h => by
      rw [stmtSnippets] at h
      obtain ⟨ws, hws, h⟩ := bind_eq_ok.mp h
      cases h
      exact ((((shows_exprSnippets init hws).behind _).behind _).before _).line spaces
  | .assign _ value _, h => by
      rw [stmtSnippets] at h
      obtain ⟨ws, hws, h⟩ := bind_eq_ok.mp h
      cases h
      exact (((shows_exprSnippets value hws).behind _).before _).line spaces
  | .branch cond yes no _, h => by
      rw [stmtSnippets] at h
      obtain ⟨ws, hws, h⟩ := bind_eq_ok.mp h
      obtain ⟨yesLines, hyes, h⟩ := bind_eq_ok.mp h
      obtain ⟨noLines, hno, h⟩ := bind_eq_ok.mp h
      cases h
      have hhead := (((shows_exprSnippets cond hws).behind (.plain "if (")).before
        [.plain ") \x7b"]).line spaces
      have hblocks := (shows_stmtsSnippets yes hyes).append (shows_elseSnippets no hno)
      have hall := (hhead.append hblocks).before [lineSnippets spaces [.plain "\x7d"]].flatten
      simpa [Typed.Stmt.exprs] using hall
  | .loop cond body _, h => by
      rw [stmtSnippets] at h
      obtain ⟨ws, hws, h⟩ := bind_eq_ok.mp h
      obtain ⟨bodyLines, hbody, h⟩ := bind_eq_ok.mp h
      cases h
      have hhead := (((shows_exprSnippets cond hws).behind (.plain "while (")).before
        [.plain ") \x7b"]).line spaces
      have hall := (hhead.append (shows_stmtsSnippets body hbody)).before
        [lineSnippets spaces [.plain "\x7d"]].flatten
      simpa [Typed.Stmt.exprs] using hall

theorem shows_stmtsSnippets {width spaces : Nat} {wss : List (List Snippet)} :
    (ss : List Typed.Stmt) → stmtsSnippets width spaces ss = .ok wss →
      Shows (Typed.Stmt.exprsAll ss) wss.flatten
  | [], h => by
      cases h
      exact .nil
  | s :: ss, h => by
      rw [stmtsSnippets] at h
      obtain ⟨first, hfirst, h⟩ := bind_eq_ok.mp h
      obtain ⟨rest, hrest, h⟩ := bind_eq_ok.mp h
      cases h
      rw [List.flatten_append]
      exact (shows_stmtSnippets s hfirst).append (shows_stmtsSnippets ss hrest)

theorem shows_elseSnippets {width spaces : Nat} {wss : List (List Snippet)} :
    (ss : List Typed.Stmt) → elseSnippets width spaces ss = .ok wss →
      Shows (Typed.Stmt.exprsAll ss) wss.flatten
  | [], h => by
      cases h
      exact .nil
  | s :: ss, h => by
      rw [elseSnippets] at h
      obtain ⟨first, hfirst, h⟩ := bind_eq_ok.mp h
      obtain ⟨rest, hrest, h⟩ := bind_eq_ok.mp h
      cases h
      have hblock := (shows_stmtSnippets s hfirst).append (shows_stmtsSnippets ss hrest)
      rw [← List.flatten_append] at hblock
      exact hblock.mono (List.sublist_append_right _ _)

end

/-- **The output shows the numbers of the checked program**, in their order. -/
theorem shows_programSnippets {o : Options} {p : Typed.Program} {wss : List (List Snippet)}
    (h : programSnippets o p = .ok wss) : Shows (Typed.Stmt.exprsAll p) wss.flatten := by
  obtain ⟨body, hbody, h⟩ := bind_eq_ok.mp h
  cases h
  rw [List.flatten_append, List.flatten_append]
  exact ((shows_stmtsSnippets p hbody).mono (List.sublist_append_right _ _)).before _

end Java

end LetWhile
