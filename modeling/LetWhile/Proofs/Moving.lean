import LetWhile.Compilation
import LetWhile.Proofs.Outcome

/-!
# Moving places

The stages behind the lexer carry the places of tokens along, for messages, and never look at them.
So when every token is moved, what becomes of the tokens is moved in the same way and is otherwise
as before. `moved` says what moving is, for tokens and trees and for what a stage reports, and each
stage is shown to commute with it: parsing, checking and printing, for programs that are accepted
and for programs that are refused.

Two things have a place that no token gave them. A missing node has the place `{}`, and so it is
asked of a move that it leaves `{}` where it is. An error at the end of the input stands behind the
last token, which is where the place of that token is moved on by its text; that case is not treated
here, where the parser only says which tokens are left.
-/

namespace LetWhile

/-- A token at another place. -/
def Token.moved (move : Position → Position) (t : Token) : Token := { t with pos := move t.pos }

mutual

/-- An expression at other places. -/
def Expr.moved (move : Position → Position) : Expr → Expr
  | .missing => .missing
  | .literal value pos => .literal value (move pos)
  | .group inner pos => .group (inner.moved move) (move pos)
  | .binary op left right pos => .binary op (left.moved move) (right.moved move) (move pos)
  | .var name pos => .var name (move pos)
  | .call name args pos => .call name (Expr.movedAll move args) (move pos)

/-- Expressions at other places. -/
def Expr.movedAll (move : Position → Position) : List Expr → List Expr
  | [] => []
  | e :: es => e.moved move :: Expr.movedAll move es

end

mutual

/-- A statement at other places. -/
def Stmt.moved (move : Position → Position) : Stmt → Stmt
  | .missing => .missing
  | .expr value pos => .expr (value.moved move) (move pos)
  | .declare name typeName init pos =>
    .declare name typeName (init.map (Expr.moved move)) (move pos)
  | .assign name value pos => .assign name (value.moved move) (move pos)
  | .branch cond yes no pos =>
    .branch (cond.moved move) (Stmt.movedAll move yes) (Stmt.movedAll move no) (move pos)
  | .loop cond body pos => .loop (cond.moved move) (Stmt.movedAll move body) (move pos)

/-- Statements at other places. -/
def Stmt.movedAll (move : Position → Position) : List Stmt → List Stmt
  | [] => []
  | s :: ss => s.moved move :: Stmt.movedAll move ss

end

namespace Typed

mutual

/-- A typed expression at other places. -/
def Expr.moved (move : Position → Position) : Expr → Expr
  | .missing => .missing
  | .literal ty value pos => .literal ty value (move pos)
  | .group ty inner pos => .group ty (inner.moved move) (move pos)
  | .binary ty op left right pos => .binary ty op (left.moved move) (right.moved move) (move pos)
  | .var ty name pos => .var ty name (move pos)
  | .call function args pos => .call function (Expr.movedAll move args) (move pos)

/-- Typed expressions at other places. -/
def Expr.movedAll (move : Position → Position) : List Expr → List Expr
  | [] => []
  | e :: es => e.moved move :: Expr.movedAll move es

end

mutual

/-- A typed statement at other places. -/
def Stmt.moved (move : Position → Position) : Stmt → Stmt
  | .missing => .missing
  | .expr value pos => .expr (value.moved move) (move pos)
  | .declare name ty init pos => .declare name ty (init.map (Expr.moved move)) (move pos)
  | .assign name value pos => .assign name (value.moved move) (move pos)
  | .branch cond yes no pos =>
    .branch (cond.moved move) (Stmt.movedAll move yes) (Stmt.movedAll move no) (move pos)
  | .loop cond body pos => .loop (cond.moved move) (Stmt.movedAll move body) (move pos)

/-- Typed statements at other places. -/
def Stmt.movedAll (move : Position → Position) : List Stmt → List Stmt
  | [] => []
  | s :: ss => s.moved move :: Stmt.movedAll move ss

end

end Typed

variable {move : Position → Position}

theorem Expr.length_movedAll (es : List Expr) : (Expr.movedAll move es).length = es.length := by
  induction es with
  | nil => rfl
  | cons e es ih => rw [Expr.movedAll, List.length_cons, ih, List.length_cons]

@[simp]
theorem Token.isOperator_moved (t : Token) (op : String) :
    (t.moved move).isOperator op = t.isOperator op := rfl

@[simp]
theorem Token.isWord_moved (t : Token) (w : String) : (t.moved move).isWord w = t.isWord w := rfl

@[simp]
theorem Token.isName_moved (t : Token) : (t.moved move).isName = t.isName := rfl

theorem Expr.pos_moved (hnone : move {} = {}) (e : Expr) : (e.moved move).pos = move e.pos := by
  cases e with
  | missing => exact hnone.symm
  | _ => rfl

/-! ## Parsing -/

namespace Parser

@[simp]
theorem Tier.has_moved (t : Tier) (op : Token) : t.has (op.moved move) = t.has op := rfl

@[simp]
theorem operatorAhead_moved (op : String) (ts : List Token) :
    operatorAhead op (ts.map (Token.moved move)) = operatorAhead op ts := by
  cases ts <;> rfl

@[simp]
theorem wordAhead_moved (w : String) (ts : List Token) :
    wordAhead w (ts.map (Token.moved move)) = wordAhead w ts := by
  cases ts <;> rfl

@[simp]
theorem assignmentAhead_moved (ts : List Token) :
    assignmentAhead (ts.map (Token.moved move)) = assignmentAhead ts := by
  cases ts with
  | nil => rfl
  | cons t ts => simp only [List.map_cons, assignmentAhead, Token.isName_moved,
      operatorAhead_moved]

@[simp]
theorem mayFollow_moved (ts : List Token) :
    mayFollow (ts.map (Token.moved move)) = mayFollow ts := by
  cases ts with
  | nil => rfl
  | cons t ts =>
      simp only [List.map_cons, mayFollow]
      rw [← List.map_cons, assignmentAhead_moved]
      rfl

@[simp]
theorem ofTokens_moved (ts : List Token) :
    Found.ofTokens (ts.map (Token.moved move)) = Found.ofTokens ts := by
  cases ts <;> rfl

/-- Where the parser got stuck, at other places. -/
def Stuck.moved (move : Position → Position) (s : Stuck) : Stuck :=
  { s with rest := s.rest.map (Token.moved move) }

/-- An outcome at other places, when `f` moves the value. -/
def movedOutcome (move : Position → Position) {α β : Type} (f : α → β)
    (x : Except Stuck (α × List Token)) : Except Stuck (β × List Token) :=
  match x with
  | .ok (a, rest) => .ok (f a, rest.map (Token.moved move))
  | .error s => .error (s.moved move)

/-- Two steps that each go on alike at other places do so together. -/
theorem moved_bind {α α' β β' : Type} {f : α → α'} {g : β → β'}
    {x : Except Stuck (α × List Token)} {x' : Except Stuck (α' × List Token)}
    {k : α × List Token → Except Stuck (β × List Token)}
    {k' : α' × List Token → Except Stuck (β' × List Token)}
    (hx : x' = movedOutcome move f x)
    (hk : ∀ a rest, x = .ok (a, rest) →
      k' (f a, rest.map (Token.moved move)) = movedOutcome move g (k (a, rest))) :
    x' >>= k' = movedOutcome move g (x >>= k) := by
  subst hx
  cases x with
  | error s => rfl
  | ok y => exact hk y.1 y.2 rfl

theorem oneToken_moved {p : Token → Bool} (hp : ∀ t, p (t.moved move) = p t)
    (fault : Found → ParseFault) (ts : List Token) :
    oneToken p fault (ts.map (Token.moved move)) =
      movedOutcome move (Token.moved move) (oneToken p fault ts) := by
  cases ts with
  | nil => rfl
  | cons t ts =>
      rw [List.map_cons, oneToken, oneToken, hp, ← List.map_cons, ofTokens_moved]
      split <;> rfl

theorem operator_moved (op : String) (ts : List Token) :
    (operator op (ts.map (Token.moved move))).outcome =
      movedOutcome move (Token.moved move) (operator op ts).outcome := by
  rw [outcome_operator, outcome_operator]
  exact oneToken_moved (fun _ => rfl) _ ts

theorem word_moved (w : String) (ts : List Token) :
    (word w (ts.map (Token.moved move))).outcome =
      movedOutcome move (Token.moved move) (word w ts).outcome := by
  rw [outcome_word, outcome_word]
  exact oneToken_moved (fun _ => rfl) _ ts

theorem name_moved (role : String) (ts : List Token) :
    (name role (ts.map (Token.moved move))).outcome =
      movedOutcome move (Token.moved move) (name role ts).outcome := by
  rw [outcome_name, outcome_name]
  exact oneToken_moved (fun _ => rfl) _ ts

/-- Fewer than `n` tokens are read as the same expression at other places. -/
def ShorterMoved (move : Position → Position) (n : Nat) : Prop :=
  ∀ ts : List Token, ts.length < n →
    (expression (ts.map (Token.moved move))).outcome =
      movedOutcome move (Expr.moved move) (expression ts).outcome

/-- At most `n` tokens are read as the same operand at other places. -/
def OperandMoved (move : Position → Position) (t : Tier) (n : Nat) : Prop :=
  ∀ ts : List Token, ts.length ≤ n →
    (operand t (ts.map (Token.moved move))).outcome =
      movedOutcome move (Expr.moved move) (operand t ts).outcome

theorem argumentList_moved {n : Nat} (IH : ShorterMoved move n) :
    ∀ (k : Nat) (ts : List Token), ts.length ≤ k → ts.length < n →
      (argumentList (ts.map (Token.moved move))).outcome =
        movedOutcome move (Expr.movedAll move) (argumentList ts).outcome := by
  intro k
  induction k using Nat.strongRecOn with
  | ind k ih =>
    intro ts hk hn
    rw [outcome_argumentList, outcome_argumentList]
    refine moved_bind (IH ts hn) fun e rest he => ?_
    have hlen := length_of_outcome he
    dsimp only
    rw [operatorAhead_moved, ← List.map_drop]
    split
    · refine moved_bind (ih (rest.drop 1).length ?_ _ (Nat.le_refl _) ?_) fun _ _ _ => rfl
      · rw [List.length_drop]; omega
      · rw [List.length_drop]; omega
    · exact moved_bind (operator_moved _ rest) fun _ _ _ => rfl

theorem arguments_moved {n : Nat} (IH : ShorterMoved move n) {ts : List Token}
    (hn : ts.length < n) :
    (arguments (ts.map (Token.moved move))).outcome =
      movedOutcome move (Expr.movedAll move) (arguments ts).outcome := by
  rw [outcome_arguments, outcome_arguments, operatorAhead_moved, ← List.map_drop]
  split
  · rfl
  · exact argumentList_moved IH _ ts (Nat.le_refl _) hn

theorem primary_moved {n : Nat} (IH : ShorterMoved move n) {ts : List Token}
    (hn : ts.length ≤ n) :
    (primary (ts.map (Token.moved move))).outcome =
      movedOutcome move (Expr.moved move) (primary ts).outcome := by
  cases ts with
  | nil => rw [List.map_nil, outcome_primary_nil]; rfl
  | cons t ts =>
    rw [List.length_cons] at hn
    have hk : (t.moved move).kind = t.kind := rfl
    have ht : (t.moved move).text = t.text := rfl
    rw [List.map_cons, outcome_primary_cons, outcome_primary_cons, hk, ht, Token.isName_moved,
      operatorAhead_moved, ← List.map_drop]
    cases t.kind with
    | identifier =>
        dsimp only
        split
        · rfl
        split
        · rfl
        split
        · split
          · have hdrop : (ts.drop 1).length < n := by rw [List.length_drop]; omega
            exact moved_bind (arguments_moved IH hdrop) fun _ _ _ => rfl
          · rfl
        · rfl
    | integer => dsimp only; cases Numeral.integer? t.text <;> rfl
    | decimal => dsimp only; cases Notation.decimal? t.text <;> rfl
    | string => dsimp only; split <;> rfl
    | operator =>
        dsimp only
        split
        · refine moved_bind (IH ts (by omega)) fun e rest _ => ?_
          exact moved_bind (operator_moved _ rest) fun _ _ _ => rfl
        · rfl
    | unknown => rfl

theorem joined_moved {t : Tier} {n : Nat} (H : OperandMoved move t n) :
    ∀ (k : Nat) (left : Expr) (ts : List Token), ts.length ≤ k → ts.length ≤ n →
      (joined t (left.moved move) (ts.map (Token.moved move))).outcome =
        movedOutcome move (Expr.moved move) (joined t left ts).outcome := by
  intro k
  induction k using Nat.strongRecOn with
  | ind k ih =>
    intro left ts hk hn
    cases ts with
    | nil => rw [List.map_nil, outcome_joined_nil, outcome_joined_nil]; rfl
    | cons op ts =>
        rw [List.length_cons] at hk hn
        rw [List.map_cons, outcome_joined_cons, outcome_joined_cons, Tier.has_moved]
        split
        · -- the tree grows by the operand, and the induction is on the tokens behind it
          refine moved_bind (H ts (by omega)) fun right rest hright => ?_
          have hlen := length_of_outcome hright
          exact ih rest.length (by omega) (.binary op.text left right op.pos) rest (Nat.le_refl _)
            (by omega)
        · rfl

theorem tier_moved {t : Tier} {n : Nat} (H : OperandMoved move t n) {ts : List Token}
    (hn : ts.length ≤ n) :
    (tier t (ts.map (Token.moved move))).outcome =
      movedOutcome move (Expr.moved move) (tier t ts).outcome := by
  rw [outcome_tier, outcome_tier]
  refine moved_bind (H ts hn) fun first rest hfirst => ?_
  have hlen := length_of_outcome hfirst
  exact joined_moved H _ first rest (Nat.le_refl _) (by omega)

theorem operand_moved {n : Nat} (IH : ShorterMoved move n) (t : Tier) : OperandMoved move t n := by
  have hprimary : OperandMoved move .multiplicative n := by
    intro ts hn
    rw [outcome_operand_multiplicative, outcome_operand_multiplicative]
    refine moved_bind (primary_moved IH hn) fun e rest _ => ?_
    dsimp only
    rw [mayFollow_moved, ofTokens_moved]
    split <;> rfl
  have hproduct : OperandMoved move .additive n := by
    intro ts hn
    rw [outcome_operand_additive, outcome_operand_additive]
    exact tier_moved hprimary hn
  cases t with
  | multiplicative => exact hprimary
  | additive => exact hproduct
  | equality =>
      intro ts hn
      rw [outcome_operand_equality, outcome_operand_equality]
      exact tier_moved hproduct hn

theorem expression_shorter_moved : ∀ n : Nat, ShorterMoved move n := by
  intro n
  induction n with
  | zero => intro ts hn; exact absurd hn (by simp)
  | succ n ih =>
      intro ts hn
      exact tier_moved (operand_moved ih .equality) (by omega)

theorem expression_moved (ts : List Token) :
    (expression (ts.map (Token.moved move))).outcome =
      movedOutcome move (Expr.moved move) (expression ts).outcome :=
  expression_shorter_moved (ts.length + 1) ts (Nat.lt_succ_self _)

/-- Fewer than `n` tokens are read as the same block at other places. -/
def ShorterBlocksMoved (move : Position → Position) (n : Nat) : Prop :=
  ∀ (closers : List String) (ts : List Token), ts.length < n →
    (block closers (ts.map (Token.moved move))).outcome =
      movedOutcome move (Stmt.movedAll move) (block closers ts).outcome

theorem statement_moved (hnone : move {} = {}) {n : Nat} (IH : ShorterBlocksMoved move n)
    {ts : List Token} (hn : ts.length ≤ n) :
    (statement (ts.map (Token.moved move))).outcome =
      movedOutcome move (Stmt.moved move) (statement ts).outcome := by
  cases ts with
  | nil => rw [List.map_nil, outcome_statement_nil]; rfl
  | cons t ts =>
    rw [List.length_cons] at hn
    rw [List.map_cons, outcome_statement_cons, outcome_statement_cons, Token.isWord_moved,
      Token.isWord_moved, Token.isWord_moved, ← List.map_cons, assignmentAhead_moved,
      ← List.map_drop]
    split
    · -- a declaration
      refine moved_bind (name_moved _ ts) fun x ts₁ _ => ?_
      refine moved_bind (operator_moved _ ts₁) fun c ts₂ _ => ?_
      refine moved_bind (name_moved _ ts₂) fun y ts₃ _ => ?_
      dsimp only
      rw [operatorAhead_moved, ← List.map_drop]
      split
      · exact moved_bind (expression_moved _) fun _ _ _ => rfl
      · rfl
    split
    · -- a branch
      refine moved_bind (expression_moved ts) fun cond ts₁ hcond => ?_
      have hlen := length_of_outcome hcond
      refine moved_bind (word_moved _ ts₁) fun w ts₂ hw => ?_
      have hlen₁ : ts₂.length < ts₁.length := length_of_outcome hw
      refine moved_bind (IH _ ts₂ (by omega)) fun yes ts₃ hyes => ?_
      have hlen₂ : ts₃.length < ts₂.length + 1 := length_of_outcome hyes
      dsimp only
      rw [wordAhead_moved, ← List.map_drop]
      split
      · refine moved_bind (IH _ (ts₃.drop 1) (by rw [List.length_drop]; omega)) fun no ts₄ _ => ?_
        exact moved_bind (word_moved _ ts₄) fun _ _ _ => rfl
      · exact moved_bind (word_moved _ ts₃) fun _ _ _ => rfl
    split
    · -- a loop
      refine moved_bind (expression_moved ts) fun cond ts₁ hcond => ?_
      have hlen := length_of_outcome hcond
      refine moved_bind (word_moved _ ts₁) fun w ts₂ hw => ?_
      have hlen₁ : ts₂.length < ts₁.length := length_of_outcome hw
      refine moved_bind (IH _ ts₂ (by omega)) fun body ts₃ _ => ?_
      exact moved_bind (word_moved _ ts₃) fun _ _ _ => rfl
    split
    · exact moved_bind (expression_moved _) fun _ _ _ => rfl
    · refine moved_bind (expression_moved _) fun e rest _ => ?_
      dsimp only
      rw [Expr.pos_moved hnone]
      rfl

theorem block_shorter_moved (hnone : move {} = {}) :
    ∀ n : Nat, ShorterBlocksMoved move n := by
  intro n
  induction n with
  | zero => intro closers ts hn; exact absurd hn (by simp)
  | succ n ih =>
      intro closers ts hn
      cases ts with
      | nil =>
          rw [List.map_nil, outcome_block_nil]
          split <;> rfl
      | cons t ts =>
          rw [List.length_cons] at hn
          rw [List.map_cons, outcome_block_cons, outcome_block_cons, Token.isOperator_moved,
            ← List.map_cons]
          split
          · exact ih closers ts (by omega)
          -- a closing word is told by its kind and its text
          split
          · next hc => rw [if_pos (by exact hc)]; rfl
          · next hc =>
            rw [if_neg (by exact hc)]
            refine moved_bind (statement_moved hnone ih (by rw [List.length_cons]; omega))
              fun s rest hs => ?_
            have hlen := length_of_outcome hs
            rw [List.length_cons] at hlen
            exact moved_bind (ih closers rest (by omega)) fun _ _ _ => rfl

/-- **The parser does not look at places.** -/
theorem block_moved (hnone : move {} = {}) (closers : List String) (ts : List Token) :
    (block closers (ts.map (Token.moved move))).outcome =
      movedOutcome move (Stmt.movedAll move) (block closers ts).outcome :=
  block_shorter_moved hnone (ts.length + 1) closers ts (Nat.lt_succ_self _)

end Parser

/-! ## Checking -/

namespace Typed

@[simp]
theorem Expr.ty_moved (e : Expr) : (e.moved move).ty = e.ty := by
  cases e <;> rfl

end Typed

namespace Check

/-- A verdict at other places, when `f` moves what was checked. -/
def movedVerdict (move : Position → Position) {α β : Type} (f : α → β) (x : Except TypeError α) :
    Except TypeError β :=
  match x with
  | .ok a => .ok (f a)
  | .error e => .error { e with pos := move e.pos }

theorem verdict_bind {α α' β β' : Type} {f : α → α'} {g : β → β'} {x : Except TypeError α}
    {x' : Except TypeError α'} {k : α → Except TypeError β} {k' : α' → Except TypeError β'}
    (hx : x' = movedVerdict move f x) (hk : ∀ a, k' (f a) = movedVerdict move g (k a)) :
    x' >>= k' = movedVerdict move g (x >>= k) := by
  subst hx
  cases x with
  | error e => rfl
  | ok a => exact hk a

theorem literal_moved (value : Constant) (pos : Position) :
    literal (move pos) value = movedVerdict move (Typed.Expr.moved move) (literal pos value) := by
  cases value with
  | integer n => simp only [literal]; split <;> rfl
  | ratio q =>
      simp only [literal]
      split
      · rfl
      split <;> rfl
  | _ => rfl

mutual

theorem expr_moved (hnone : move {} = {}) (lib : Library) (scope : Scope) (e : Expr) :
    expr lib scope (e.moved move) =
      movedVerdict move (Typed.Expr.moved move) (expr lib scope e) := by
  match e with
  | .missing => rw [Expr.moved, expr, reject, movedVerdict, hnone]
  | .literal value pos => exact literal_moved value pos
  | .group inner pos =>
      rw [Expr.moved, expr, expr]
      refine verdict_bind (expr_moved hnone lib scope inner) fun inner' => ?_
      rw [Typed.Expr.ty_moved]
      rfl
  | .binary op left right pos =>
      rw [Expr.moved, expr, expr]
      refine verdict_bind (expr_moved hnone lib scope left) fun left' => ?_
      refine verdict_bind (expr_moved hnone lib scope right) fun right' => ?_
      rw [Typed.Expr.ty_moved, Typed.Expr.ty_moved]
      cases binaryType op left'.ty right'.ty <;> rfl
  | .var name pos =>
      rw [Expr.moved, expr, expr]
      cases scope.lookup name <;> rfl
  | .call name args pos =>
      rw [Expr.moved, expr, expr, Expr.length_movedAll]
      cases lib.find? name with
      | none => rfl
      | some f =>
          dsimp only
          split
          · exact verdict_bind (arguments_moved hnone lib scope name 1 args f.params) fun _ => rfl
          · rfl

theorem arguments_moved (hnone : move {} = {}) (lib : Library) (scope : Scope)
    (function : String) (index : Nat) (args : List Expr) (params : List Ty) :
    arguments lib scope function index (Expr.movedAll move args) params =
      movedVerdict move (Typed.Expr.movedAll move)
        (arguments lib scope function index args params) := by
  match args, params with
  | [], _ => rw [Expr.movedAll, arguments]; rfl
  | _ :: _, [] => rw [Expr.movedAll, arguments, arguments]; rfl
  | arg :: args, param :: params =>
      rw [Expr.movedAll, arguments, arguments]
      refine verdict_bind (expr_moved hnone lib scope arg) fun first => ?_
      rw [Typed.Expr.ty_moved, Expr.pos_moved hnone]
      cases first.ty.mismatch? param with
      | some m => rfl
      | none =>
          exact verdict_bind (arguments_moved hnone lib scope function (index + 1) args params)
            fun _ => rfl

end

theorem condition_moved (hnone : move {} = {}) (lib : Library) (scope : Scope) (cond : Expr) :
    condition lib scope (cond.moved move) =
      movedVerdict move (Typed.Expr.moved move) (condition lib scope cond) := by
  rw [condition, condition]
  refine verdict_bind (expr_moved hnone lib scope cond) fun checked => ?_
  rw [Typed.Expr.ty_moved, Expr.pos_moved hnone]
  split <;> rfl

theorem initial_moved (hnone : move {} = {}) (lib : Library) (scope : Scope) (name : String)
    (ty : Ty) (pos : Position) (init : Option Expr) :
    initial lib scope name ty (move pos) (init.map (Expr.moved move)) =
      movedVerdict move (Option.map (Typed.Expr.moved move))
        (initial lib scope name ty pos init) := by
  cases init with
  | none => rfl
  | some e =>
      rw [Option.map_some, initial, initial]
      refine verdict_bind (expr_moved hnone lib scope e) fun checked => ?_
      rw [Typed.Expr.ty_moved]
      cases checked.ty.mismatch? ty <;> rfl

theorem declaration_moved (hnone : move {} = {}) (lib : Library) (scope : Scope)
    (name typeName : String) (init : Option Expr) (pos : Position) :
    declaration lib scope name typeName (init.map (Expr.moved move)) (move pos) =
      movedVerdict move (fun x => (x.1.moved move, x.2))
        (declaration lib scope name typeName init pos) := by
  rw [declaration, declaration]
  cases Ty.ofName? typeName with
  | none => rfl
  | some ty =>
      dsimp only
      split
      · rfl
      split
      · rfl
      · refine verdict_bind (initial_moved hnone lib scope name ty pos init) fun init' => ?_
        cases scope.define name ty <;> rfl

theorem assignment_moved (hnone : move {} = {}) (lib : Library) (scope : Scope) (name : String)
    (value : Expr) (pos : Position) :
    assignment lib scope name (value.moved move) (move pos) =
      movedVerdict move (Typed.Stmt.moved move) (assignment lib scope name value pos) := by
  rw [assignment, assignment]
  cases scope.lookup name with
  | error e => rfl
  | ok ty =>
      refine verdict_bind (expr_moved hnone lib scope value) fun checked => ?_
      rw [Typed.Expr.ty_moved]
      cases checked.ty.mismatch? ty <;> rfl

/-- What checking a statement gives, at other places: the scope has none. -/
def movedPair (move : Position → Position) {α β : Type} (f : α → β)
    (x : Except TypeError α × Scope) : Except TypeError β × Scope :=
  (movedVerdict move f x.1, x.2)

mutual

theorem stmt_moved (hnone : move {} = {}) (lib : Library) (scope : Scope) (s : Stmt) :
    stmt lib scope (s.moved move) = movedPair move (Typed.Stmt.moved move) (stmt lib scope s) := by
  match s with
  | .missing => rw [Stmt.moved, stmt, reject, movedPair, movedVerdict, hnone]
  | .expr value pos =>
      rw [Stmt.moved, stmt, stmt, expr_moved hnone]
      cases expr lib scope value <;> rfl
  | .declare name typeName init pos =>
      rw [Stmt.moved, stmt, stmt, declaration_moved hnone lib scope name typeName init pos]
      cases declaration lib scope name typeName init pos <;> rfl
  | .assign name value pos =>
      rw [Stmt.moved, stmt, stmt, assignment_moved hnone lib scope name value pos]
      rfl
  | .branch cond yes no pos =>
      rw [Stmt.moved, stmt, stmt, condition_moved hnone]
      cases condition lib scope cond with
      | error e => rfl
      | ok cond' =>
          dsimp only [movedVerdict]
          rw [block_moved hnone lib scope yes]
          rcases block lib scope yes with ⟨_ | yes', scope₁⟩
          · rfl
          · dsimp only [movedPair, movedVerdict]
            rw [block_moved hnone lib scope₁ no]
            rcases block lib scope₁ no with ⟨_ | no', scope₂⟩ <;> rfl
  | .loop cond body pos =>
      rw [Stmt.moved, stmt, stmt, condition_moved hnone]
      cases condition lib scope cond with
      | error e => rfl
      | ok cond' =>
          dsimp only [movedVerdict]
          rw [block_moved hnone lib scope body]
          rcases block lib scope body with ⟨_ | body', scope₁⟩ <;> rfl

theorem block_moved (hnone : move {} = {}) (lib : Library) (scope : Scope) (ss : List Stmt) :
    block lib scope (Stmt.movedAll move ss) =
      movedPair move (Typed.Stmt.movedAll move) (block lib scope ss) := by
  match ss with
  | [] => rfl
  | s :: ss =>
      rw [Stmt.movedAll, block, block, stmt_moved hnone lib scope s]
      rcases stmt lib scope s with ⟨_ | s', scope₁⟩
      · rfl
      · dsimp only [movedPair, movedVerdict]
        rw [block_moved hnone lib scope₁ ss]
        rcases block lib scope₁ ss with ⟨_ | ss', scope₂⟩ <;> rfl

end

end Check

/-! ## Printing -/

namespace Java

mutual

theorem expr_moved (e : Typed.Expr) : expr (e.moved move) = expr e := by
  match e with
  | .missing => rfl
  | .literal _ _ _ => rfl
  | .group _ inner _ => rw [Typed.Expr.moved, expr, expr, expr_moved inner]
  | .binary _ _ left right _ =>
      rw [Typed.Expr.moved, expr, expr, expr_moved left, expr_moved right]
  | .var _ _ _ => rfl
  | .call _ args _ => rw [Typed.Expr.moved, expr, expr, exprs_moved args]

theorem exprs_moved (es : List Typed.Expr) : exprs (Typed.Expr.movedAll move es) = exprs es := by
  match es with
  | [] => rfl
  | e :: es => rw [Typed.Expr.movedAll, exprs, exprs, expr_moved e, exprs_moved es]

end

mutual

theorem stmt_moved (width spaces : Nat) (s : Typed.Stmt) :
    stmt width spaces (s.moved move) = stmt width spaces s := by
  match s with
  | .missing => rfl
  | .expr value _ => rw [Typed.Stmt.moved, stmt, stmt, expr_moved]
  | .declare _ _ none _ => rfl
  | .declare _ _ (some init) _ =>
      rw [Typed.Stmt.moved, Option.map_some, stmt, stmt, expr_moved]
  | .assign _ value _ => rw [Typed.Stmt.moved, stmt, stmt, expr_moved]
  | .branch cond yes no _ =>
      rw [Typed.Stmt.moved, stmt, stmt, expr_moved, stmts_moved _ _ yes,
        elseBlock_moved _ _ no]
  | .loop cond body _ =>
      rw [Typed.Stmt.moved, stmt, stmt, expr_moved, stmts_moved _ _ body]

theorem stmts_moved (width spaces : Nat) (ss : List Typed.Stmt) :
    stmts width spaces (Typed.Stmt.movedAll move ss) = stmts width spaces ss := by
  match ss with
  | [] => rfl
  | s :: ss =>
      rw [Typed.Stmt.movedAll, stmts, stmts, stmt_moved _ _ s, stmts_moved _ _ ss]

theorem elseBlock_moved (width spaces : Nat) (ss : List Typed.Stmt) :
    elseBlock width spaces (Typed.Stmt.movedAll move ss) = elseBlock width spaces ss := by
  match ss with
  | [] => rfl
  | s :: ss =>
      rw [Typed.Stmt.movedAll, elseBlock, elseBlock, stmt_moved _ _ s,
        stmts_moved _ _ ss]

end

theorem program_moved (o : Options) (p : Typed.Program) :
    program o (Typed.Stmt.movedAll move p) = program o p := by
  rw [program, program, stmts_moved]

end Java

end LetWhile
