import LetWhile.Proofs.Grammar
import LetWhile.Proofs.Outcome

/-!
# The parser reads the grammar

`Program.ofTokens` succeeds on the token lists that the grammar derives, and on no others, and it
returns the tree that is derived.

The parser looks behind every operand and lets operators pass there; the grammar looks only behind a
complete expression and lets none pass. The two agree because a chain takes all the operators that
it can: what is left behind a chain of a tier starts with no operator of that tier or of a tighter
one. This is `Closed`, and it is what both directions carry along.
-/

namespace LetWhile

namespace Parser

theorem Tier.has_iff {t : Tier} {op : Token} :
    t.has op = true ↔ op.kind = .operator ∧ op.text ∈ t.operators := by
  simp [Tier.has]

/-- No operator belongs to two tiers. -/
theorem Tier.eq_of_mem_operators {t t' : Tier} :
    ∀ op ∈ t.operators, op ∈ t'.operators → t = t' := by
  cases t <;> cases t' <;> decide

theorem Tier.eq_of_has {t t' : Tier} {op : Token} (h : t.has op = true) (h' : t'.has op = true) :
    t = t' :=
  Tier.eq_of_mem_operators op.text (Tier.has_iff.mp h).2 (Tier.has_iff.mp h').2

theorem Tier.eq_of_rank {t t' : Tier} : t.rank = t'.rank → t = t' := by
  cases t <;> cases t' <;> decide

theorem operatorAhead_cons (op : String) (t : Token) (rest : List Token) :
    operatorAhead op (t :: rest) = t.isOperator op := rfl

theorem wordAhead_cons (w : String) (t : Token) (rest : List Token) :
    wordAhead w (t :: rest) = t.isWord w := rfl

/-- Every operator may stand behind an operand. -/
theorem mayFollow_of_has {t : Tier} {op : Token} {rest : List Token} (h : t.has op = true) :
    mayFollow (op :: rest) = true := by
  obtain ⟨hk, ht⟩ := Tier.has_iff.mp h
  have hf : op.text ∈ followingOperators := by
    generalize op.text = text at ht
    cases t <;> simp only [Tier.operators, List.mem_cons, List.not_mem_nil, or_false] at ht <;>
      rcases ht with rfl | rfl <;> decide
  simp [mayFollow, hk, hf]

/-- What is left starts with no operator of a tier that binds at least as tightly as `t`. -/
def Closed (t : Tier) : List Token → Prop
  | [] => True
  | op :: _ => ∀ t' : Tier, t'.rank ≤ t.rank → t'.has op = false

/-- In front of an operator of a tier, everything tighter is closed. -/
theorem closed_of_has {t t' : Tier} {op : Token} {rest : List Token} (h : t.has op = true)
    (hr : t'.rank < t.rank) : Closed t' (op :: rest) := by
  intro t'' hr''
  rw [Bool.eq_false_iff]
  intro h''
  have := Tier.eq_of_has h h''
  subst this
  omega

theorem closed_mono {t t' : Tier} {rest : List Token} (h : Closed t rest)
    (hr : t'.rank ≤ t.rank) : Closed t' rest := by
  cases rest with
  | nil => trivial
  | cons op rest => exact fun t'' hr'' => h t'' (Nat.le_trans hr'' hr)

/-- A tier is closed when all tighter ones are and it has no operator here itself. -/
theorem closed_of_not_has {t : Tier} {op : Token} {rest : List Token}
    (h : ∀ t' : Tier, t'.rank < t.rank → Closed t' (op :: rest)) (hop : t.has op = false) :
    Closed t (op :: rest) := by
  intro t' hr
  rcases Nat.lt_or_eq_of_le hr with hlt | heq
  · exact h t' hlt t' (Nat.le_refl _)
  · rw [Tier.eq_of_rank heq]
    exact hop

/-- An operator that is not in the list cannot follow an operand. -/
theorem operatorAhead_of_mayFollow {op : String} {rest : List Token} (h : mayFollow rest = true)
    (hop : op ∉ followingOperators) : operatorAhead op rest = false := by
  cases rest with
  | nil => rfl
  | cons t rest =>
      rw [Bool.eq_false_iff]
      intro h'
      obtain ⟨hk, rfl⟩ := Token.isOperator_iff.mp h'
      simp [mayFollow, assignmentAhead, Token.isName, hk, hop] at h

/-- A chain of a tier stops in front of what closes it. -/
theorem outcome_joined_of_closed {t : Tier} {left : Expr} {rest : List Token}
    (h : Closed t rest) : (joined t left rest).outcome = .ok (left, rest) := by
  cases rest with
  | nil => exact outcome_joined_nil t left
  | cons op rest =>
      rw [outcome_joined_cons, h t (Nat.le_refl _)]
      rfl

end Parser

namespace Grammar

open LetWhile.Parser

/-- **The two conditions on what follows agree.** What ends an expression is what may follow an
operand and is no operator. -/
theorem ends_iff {rest : List Token} :
    Ends rest ↔ mayFollow rest = true ∧ Closed .equality rest := by
  constructor
  · intro h
    cases h with
    | input => exact ⟨rfl, trivial⟩
    | @mark t rest op hop ht =>
        obtain ⟨hk, rfl⟩ := Token.isOperator_iff.mp ht
        refine ⟨?_, ?_⟩
        · have : t.text ∈ followingOperators := by
            simp only [List.mem_cons, List.not_mem_nil, or_false] at hop
            rcases hop with h | h | h <;> rw [h] <;> decide
          simp [mayFollow, hk, this]
        · -- none of the three marks is an operator of a tier
          intro t' _
          rw [Bool.eq_false_iff]
          intro h'
          have h' := (Tier.has_iff.mp h').2
          simp only [List.mem_cons, List.not_mem_nil, or_false] at hop
          rcases hop with h | h | h <;> rw [h] at h' <;> cases t' <;> exact absurd h' (by decide)
    | @word t rest w hw ht =>
        obtain ⟨hk, rfl⟩ := Token.isWord_iff.mp ht
        refine ⟨?_, ?_⟩
        · simp [mayFollow, hk, followingWords, hw]
        · intro t' _
          simp [Tier.has, hk]
    | @assignment x eq rest hx heq =>
        obtain ⟨hk, _⟩ := Token.isName_iff.mp hx
        refine ⟨?_, ?_⟩
        · simp [mayFollow, assignmentAhead, operatorAhead, hx, heq]
        · intro t' _
          simp [Tier.has, hk]
  · rintro ⟨hf, hc⟩
    cases rest with
    | nil => exact Ends.input
    | cons t rest =>
        simp only [mayFollow, Bool.or_eq_true, Bool.and_eq_true, decide_eq_true_eq,
          List.contains_iff_mem] at hf
        rcases hf with (⟨hk, ht⟩ | ⟨hk, ht⟩) | ha
        · -- six of the nine operators continue the expression
          have hno : ∀ t' : Tier, t.text ∉ t'.operators := by
            intro t' hmem
            have := hc t' (Tier.rank_le t')
            rw [Tier.has_iff.mpr ⟨hk, hmem⟩] at this
            exact Bool.noConfusion this
          have hmark : t.text ∈ [";", ")", ","] := by
            have h1 := hno .equality
            have h2 := hno .additive
            have h3 := hno .multiplicative
            generalize t.text = text at ht h1 h2 h3
            simp only [followingOperators, List.mem_cons, List.not_mem_nil, or_false] at ht
            rcases ht with rfl | rfl | rfl | rfl | rfl | rfl | rfl | rfl | rfl
            · decide
            · decide
            · decide
            · exact absurd (by decide) h1
            · exact absurd (by decide) h1
            · exact absurd (by decide) h2
            · exact absurd (by decide) h2
            · exact absurd (by decide) h3
            · exact absurd (by decide) h3
          exact Ends.mark hmark (Token.isOperator_iff.mpr ⟨hk, rfl⟩)
        · exact Ends.word ht (Token.isWord_iff.mpr ⟨hk, rfl⟩)
        · simp only [assignmentAhead, Bool.and_eq_true] at ha
          obtain ⟨hx, heq⟩ := ha
          cases rest with
          | nil => exact absurd heq (by simp [operatorAhead])
          | cons eq rest => exact Ends.assignment hx heq

/-! ## How an expression starts -/

/-- The only operator that an operand can start with is an opening parenthesis. -/
theorem Primary.operatorAhead {ts rest : List Token} {e : Expr} {op : String}
    (h : Primary ts e rest) (hop : op ≠ "(") : operatorAhead op ts = false := by
  cases h with
  | trueWord ht => simp [operatorAhead_cons, Token.isOperator, (Token.isWord_iff.mp ht).1]
  | falseWord ht => simp [operatorAhead_cons, Token.isOperator, (Token.isWord_iff.mp ht).1]
  | var hx => simp [operatorAhead_cons, Token.isOperator, (Token.isName_iff.mp hx).1]
  | call hf _ _ => simp [operatorAhead_cons, Token.isOperator, (Token.isName_iff.mp hf).1]
  | group hp _ _ => exact Token.isOperator_ne hp (Ne.symm hop)
  | integer hk _ => simp [operatorAhead_cons, Token.isOperator, hk]
  | decimal hk _ => simp [operatorAhead_cons, Token.isOperator, hk]
  | string hk _ => simp [operatorAhead_cons, Token.isOperator, hk]

/-- The only keywords that an operand can start with are the two truth values. -/
theorem Primary.wordAhead {ts rest : List Token} {e : Expr} {w : String}
    (h : Primary ts e rest) (hw : w ∈ Token.keywords) (ht : w ≠ "TRUE") (hf : w ≠ "FALSE") :
    wordAhead w ts = false := by
  cases h with
  | trueWord h => simp [Parser.wordAhead, Token.isWord, (Token.isWord_iff.mp h).2, Ne.symm ht]
  | falseWord h => simp [Parser.wordAhead, Token.isWord, (Token.isWord_iff.mp h).2, Ne.symm hf]
  | var hx => exact Token.isWord_eq_false_of_isName hx hw
  | call hf _ _ => exact Token.isWord_eq_false_of_isName hf hw
  | group hp _ _ => simp [Parser.wordAhead, Token.isWord, (Token.isOperator_iff.mp hp).1]
  | integer hk _ => simp [Parser.wordAhead, Token.isWord, hk]
  | decimal hk _ => simp [Parser.wordAhead, Token.isWord, hk]
  | string hk _ => simp [Parser.wordAhead, Token.isWord, hk]

mutual

/-- A chain starts with an operand, and an operator follows it unless it is all of the chain. -/
theorem Chain.first {t : Tier} {ts rest : List Token} {e : Expr} :
    Chain t ts e rest → ∃ e' mid, Primary ts e' mid ∧
      (mid = rest ∨ ∃ (t' : Tier) (op : Token) (more : List Token),
        mid = op :: more ∧ t'.has op = true)
  | .single h => h.first
  | @Chain.join t op _ mid _ _ _ h hop _ => by
      obtain ⟨e', mid', hp, hmid⟩ := h.first
      refine ⟨e', mid', hp, Or.inr ?_⟩
      rcases hmid with rfl | hmid
      · exact ⟨t, op, mid, rfl, hop⟩
      · exact hmid

theorem Operand.first {t : Tier} {ts rest : List Token} {e : Expr} :
    Operand t ts e rest → ∃ e' mid, Primary ts e' mid ∧
      (mid = rest ∨ ∃ (t' : Tier) (op : Token) (more : List Token),
        mid = op :: more ∧ t'.has op = true)
  | .sum h => h.first
  | .product h => h.first
  | .primary h => ⟨_, _, h, Or.inl rfl⟩

end

theorem Expression.first {ts rest : List Token} {e : Expr} (h : Expression ts e rest) :
    ∃ e' mid, Primary ts e' mid ∧ mayFollow mid = true := by
  cases h with
  | mk hc hends =>
      obtain ⟨e', mid, hp, rfl | ⟨t', op, more, rfl, hop⟩⟩ := hc.first
      · exact ⟨e', mid, hp, (ends_iff.mp hends).1⟩
      · exact ⟨e', op :: more, hp, mayFollow_of_has hop⟩

theorem ArgumentList.operatorAhead {ts rest : List Token} {args : List Expr} {op : String}
    (h : ArgumentList ts args rest) (hop : op ≠ "(") : operatorAhead op ts = false := by
  cases h with
  | last he _ => obtain ⟨_, _, hp, _⟩ := he.first; exact hp.operatorAhead hop
  | more he _ _ => obtain ⟨_, _, hp, _⟩ := he.first; exact hp.operatorAhead hop

/-! ## What is derived is read

By induction on the derivation. A chain is read up to any of its operators, so the statement about
it leaves open what the parser does behind it. -/

mutual

theorem Primary.complete {ts rest : List Token} {e : Expr} :
    Primary ts e rest → mayFollow rest = true → (primary ts).outcome = .ok (e, rest)
  | .trueWord h, _ => by
      obtain ⟨hk, ht⟩ := Token.isWord_iff.mp h
      rw [outcome_primary_cons, hk, ht]
      rfl
  | .falseWord h, _ => by
      obtain ⟨hk, ht⟩ := Token.isWord_iff.mp h
      rw [outcome_primary_cons, hk, ht]
      rfl
  | .var h, hf => by
      have hp : operatorAhead "(" rest = false := operatorAhead_of_mayFollow hf (by decide)
      rw [outcome_primary_name h, hp]
      rfl
  | .call hf hp hargs, _ => by
      rw [outcome_primary_name hf, operatorAhead_cons, hp, List.drop_one, List.tail_cons,
        hargs.complete]
      rfl
  | @Primary.group p q ts rest e hp he hq, _ => by
      obtain ⟨hk, ht⟩ := Token.isOperator_iff.mp hp
      rw [outcome_primary_cons, hk, ht]
      show (tier .equality ts).outcome >>= _ = _
      rw [he.complete, ok_bind, outcome_operator_of hq]
      rfl
  | .integer hk hn, _ => by
      rw [outcome_primary_cons, hk]
      simp only [hn]
  | .decimal hk hq, _ => by
      rw [outcome_primary_cons, hk]
      simp only [hq]
  | .string hk hs, _ => by
      rw [outcome_primary_cons, hk]
      simp only [Nat.not_lt.mpr hs, if_false]

theorem Operand.complete {t : Tier} {ts rest : List Token} {e : Expr} :
    Operand t ts e rest → mayFollow rest = true →
    (∀ t' : Tier, t'.rank < t.rank → Closed t' rest) → (operand t ts).outcome = .ok (e, rest)
  | .sum h, hf, hc => by
      rw [outcome_operand_equality,
        h.complete hf fun t' ht' => hc t' (Nat.lt_trans ht' (by decide))]
      exact outcome_joined_of_closed (hc .additive (by decide))
  | .product h, hf, hc => by
      rw [outcome_operand_additive,
        h.complete hf fun t' ht' => hc t' (Nat.lt_trans ht' (by decide))]
      exact outcome_joined_of_closed (hc .multiplicative (by decide))
  | .primary h, hf, _ => by
      rw [outcome_operand_multiplicative, h.complete hf]
      show (if mayFollow rest = true then _ else _) = _
      rw [if_pos hf]

theorem Chain.complete {t : Tier} {ts rest : List Token} {e : Expr} :
    Chain t ts e rest → mayFollow rest = true →
    (∀ t' : Tier, t'.rank < t.rank → Closed t' rest) →
    (tier t ts).outcome = (joined t e rest).outcome
  | .single h, hf, hc => by
      rw [outcome_tier, h.complete hf hc]
      rfl
  | .join h hop hr, hf, hc => by
      -- the chain on the left is read up to its operator, where every tighter tier is closed
      rw [h.complete (mayFollow_of_has hop) fun t' ht' => closed_of_has hop ht',
        outcome_joined_cons, if_pos hop, hr.complete hf hc]
      rfl

theorem Expression.complete {ts rest : List Token} {e : Expr} :
    Expression ts e rest → (tier .equality ts).outcome = .ok (e, rest)
  | .mk h hends => by
      obtain ⟨hf, hc⟩ := ends_iff.mp hends
      rw [h.complete hf fun t' _ => closed_mono hc (Tier.rank_le t')]
      exact outcome_joined_of_closed hc

theorem Arguments.complete {ts rest : List Token} {args : List Expr} :
    Arguments ts args rest → (arguments ts).outcome = .ok (args, rest)
  | .empty hq => by
      rw [outcome_arguments, operatorAhead_cons, hq]
      rfl
  | .list h => by
      rw [outcome_arguments, h.operatorAhead (by decide), h.complete]
      rfl

theorem ArgumentList.complete {ts rest : List Token} {args : List Expr} :
    ArgumentList ts args rest → (argumentList ts).outcome = .ok (args, rest)
  | .last he hq => by
      rw [outcome_argumentList, he.complete, ok_bind, operatorAhead_cons,
        Token.isOperator_ne hq (by decide), outcome_operator_of hq]
      rfl
  | .more he hc hargs => by
      rw [outcome_argumentList, he.complete, ok_bind, operatorAhead_cons, hc, List.drop_one,
        List.tail_cons, hargs.complete]
      rfl

end

/-! Statements are read the same way. The only place where more has to be known of what follows is
a declaration without a value, which must not stand in front of `=`; nothing in a block does. -/

theorem Expression.assignmentAhead {ts rest : List Token} {e : Expr} (h : Expression ts e rest) :
    assignmentAhead ts = false := by
  obtain ⟨e', mid, hp, hf⟩ := h.first
  have hmid : operatorAhead "=" mid = false := operatorAhead_of_mayFollow hf (by decide)
  cases hp with
  | trueWord ht =>
      simp [Parser.assignmentAhead, Token.isName, (Token.isWord_iff.mp ht).2, Token.keywords]
  | falseWord ht =>
      simp [Parser.assignmentAhead, Token.isName, (Token.isWord_iff.mp ht).2, Token.keywords]
  | var hx => simp [Parser.assignmentAhead, hmid]
  | @call f p _ _ _ _ hp _ =>
      have hne : p.isOperator "=" = false := Token.isOperator_ne hp (by decide)
      simp [Parser.assignmentAhead, operatorAhead_cons, hne]
  | group hp _ _ => simp [Parser.assignmentAhead, Token.isName, (Token.isOperator_iff.mp hp).1]
  | integer hk _ => simp [Parser.assignmentAhead, Token.isName, hk]
  | decimal hk _ => simp [Parser.assignmentAhead, Token.isName, hk]
  | string hk _ => simp [Parser.assignmentAhead, Token.isName, hk]

theorem Statement.operatorAhead {ts rest : List Token} {s : Stmt} {op : String}
    (h : Statement ts s rest) (hop : op ≠ "(") : operatorAhead op ts = false := by
  cases h with
  | declare hl _ _ _ => exact Token.isOperator_eq_false_of_isWord hl
  | declareInit hl _ _ _ _ _ => exact Token.isOperator_eq_false_of_isWord hl
  | assign hx _ _ => simp [operatorAhead_cons, Token.isOperator, (Token.isName_iff.mp hx).1]
  | branch hi _ _ _ _ => exact Token.isOperator_eq_false_of_isWord hi
  | branchElse hi _ _ _ _ _ _ => exact Token.isOperator_eq_false_of_isWord hi
  | loop hi _ _ _ _ => exact Token.isOperator_eq_false_of_isWord hi
  | expr he => obtain ⟨_, _, hp, _⟩ := he.first; exact hp.operatorAhead hop

theorem Block.operatorAhead_eq {ts rest : List Token} {ss : List Stmt} (h : Block ts ss rest)
    (hrest : operatorAhead "=" rest = false) : operatorAhead "=" ts = false := by
  cases h with
  | done => exact hrest
  | separator ht _ => exact Token.isOperator_ne ht (by decide)
  | cons hs _ => exact hs.operatorAhead (by decide)

/-- No statement starts with a word that closes a block. -/
theorem Statement.wordAhead {ts rest : List Token} {s : Stmt} {w : String}
    (h : Statement ts s rest) (hw : w ∈ ["ELSE", "END"]) : wordAhead w ts = false := by
  have hne : ∀ w' ∈ ["LET", "IF", "WHILE", "TRUE", "FALSE"], w' ≠ w := by
    simp only [List.mem_cons, List.not_mem_nil, or_false] at hw
    rcases hw with rfl | rfl <;> decide
  have hkey : w ∈ Token.keywords := by
    simp only [List.mem_cons, List.not_mem_nil, or_false] at hw
    rcases hw with rfl | rfl <;> decide
  cases h with
  | declare hl _ _ _ => exact Token.isWord_ne hl (hne _ (by decide))
  | declareInit hl _ _ _ _ _ => exact Token.isWord_ne hl (hne _ (by decide))
  | assign hx _ _ => exact Token.isWord_eq_false_of_isName hx hkey
  | branch hi _ _ _ _ => exact Token.isWord_ne hi (hne _ (by decide))
  | branchElse hi _ _ _ _ _ _ => exact Token.isWord_ne hi (hne _ (by decide))
  | loop hi _ _ _ _ => exact Token.isWord_ne hi (hne _ (by decide))
  | expr he =>
      obtain ⟨_, _, hp, _⟩ := he.first
      exact hp.wordAhead hkey (hne _ (by decide)).symm (hne _ (by decide)).symm

/-- Where a block stops: at one of its closing words, or at the end when it has none. -/
inductive Stops : List String → List Token → Prop where
  | input : Stops [] []
  | word {closers : List String} {t : Token} {w : String} {rest : List Token} :
      w ∈ closers → t.isWord w → Stops closers (t :: rest)

theorem Stops.operatorAhead_eq {closers : List String} {rest : List Token}
    (h : Stops closers rest) : operatorAhead "=" rest = false := by
  cases h with
  | input => rfl
  | word _ ht => exact Token.isOperator_eq_false_of_isWord ht

mutual

theorem Statement.complete {ts rest : List Token} {s : Stmt} :
    Statement ts s rest → operatorAhead "=" rest = false → (statement ts).outcome = .ok (s, rest)
  | .declare hl hx hc hy, hrest => by
      rw [outcome_statement_cons, if_pos hl, outcome_name_of hx, ok_bind,
        outcome_operator_of hc, ok_bind, outcome_name_of hy, ok_bind,
        hrest]
      rfl
  | .declareInit hl hx hc hy heq he, _ => by
      rw [outcome_statement_cons, if_pos hl, outcome_name_of hx, ok_bind,
        outcome_operator_of hc, ok_bind, outcome_name_of hy, ok_bind,
        operatorAhead_cons, if_pos heq, List.drop_one, List.tail_cons, expression, he.complete]
      rfl
  | @Statement.assign x eq ts rest e hx heq he, _ => by
      have hne : ∀ w ∈ Token.keywords, x.isWord w = false :=
        fun w hw => Token.isWord_eq_false_of_isName hx hw
      rw [outcome_statement_cons, hne "LET" (by decide), hne "IF" (by decide),
        hne "WHILE" (by decide)]
      simp only [Parser.assignmentAhead, operatorAhead_cons, hx, heq]
      show (expression ts).outcome >>= _ = _
      rw [expression, he.complete]
      rfl
  | .branch hi hcond hw hyes hclose, _ => by
      rw [outcome_statement_cons, Token.isWord_ne hi (by decide), if_neg (by decide), if_pos hi,
        expression, hcond.complete, ok_bind, outcome_word_of hw, ok_bind,
        hyes.complete (.word (by decide) hclose) (by decide), ok_bind,
        wordAhead_cons, Token.isWord_ne hclose (by decide), if_neg (by decide),
        outcome_word_of hclose]
      rfl
  | .branchElse hi hcond hw hyes hv hno hclose, _ => by
      rw [outcome_statement_cons, Token.isWord_ne hi (by decide), if_neg (by decide), if_pos hi,
        expression, hcond.complete, ok_bind, outcome_word_of hw, ok_bind,
        hyes.complete (.word (by decide) hv) (by decide), ok_bind,
        wordAhead_cons, if_pos hv, List.drop_one, List.tail_cons,
        hno.complete (.word (by decide) hclose) (by decide), ok_bind,
        outcome_word_of hclose]
      rfl
  | .loop hi hcond hw hbody hclose, _ => by
      rw [outcome_statement_cons, Token.isWord_ne hi (by decide), if_neg (by decide),
        Token.isWord_ne hi (by decide), if_neg (by decide), if_pos hi,
        expression, hcond.complete, ok_bind, outcome_word_of hw, ok_bind,
        hbody.complete (.word (by decide) hclose) (by decide), ok_bind,
        outcome_word_of hclose]
      rfl
  | .expr he, _ => by
      obtain ⟨_, _, hp, _⟩ := he.first
      cases ts with
      | nil => cases hp
      | cons t ts =>
          have hne : ∀ w ∈ ["LET", "IF", "WHILE"], t.isWord w = false := by
            intro w hw
            simp only [List.mem_cons, List.not_mem_nil, or_false] at hw
            rcases hw with rfl | rfl | rfl <;>
              exact hp.wordAhead (by decide) (by decide) (by decide)
          rw [outcome_statement_cons, hne "LET" (by decide), hne "IF" (by decide),
            hne "WHILE" (by decide), he.assignmentAhead]
          show (expression (t :: ts)).outcome >>= _ = _
          rw [expression, he.complete]
          rfl

theorem Block.complete {closers : List String} {ts rest : List Token} {ss : List Stmt} :
    Block ts ss rest → Stops closers rest → (∀ w ∈ closers, w ∈ ["ELSE", "END"]) →
    (block closers ts).outcome = .ok (ss, rest)
  | .done, hstop, _ => by
      cases hstop with
      | input => exact outcome_block_nil []
      | word hw ht =>
          rw [outcome_block_cons, Token.isOperator_eq_false_of_isWord ht]
          obtain ⟨hk, rfl⟩ := Token.isWord_iff.mp ht
          simp [hk, hw]
  | .separator ht h, hstop, hcl => by
      rw [outcome_block_cons, if_pos ht, h.complete hstop hcl]
  | .cons hs h, hstop, hcl => by
      -- the statement starts with no closing word and no semicolon, so the parser reads it
      have hread := hs.complete (h.operatorAhead_eq hstop.operatorAhead_eq)
      cases ts with
      | nil => rw [outcome_statement_nil] at hread; cases hread
      | cons t ts =>
          have hclose : ¬ (t.kind = .identifier && closers.contains t.text) = true := by
            intro hc
            simp only [Bool.and_eq_true, decide_eq_true_eq, List.contains_iff_mem] at hc
            have := hs.wordAhead (hcl _ hc.2)
            rw [wordAhead_cons, Token.isWord_iff.mpr ⟨hc.1, rfl⟩] at this
            exact Bool.noConfusion this
          have hsemi : t.isOperator ";" = false := hs.operatorAhead (by decide)
          rw [outcome_block_cons, hsemi, if_neg (by decide), if_neg hclose, hread, ok_bind,
            h.complete hstop hcl]
          rfl

end

/-! ## What is read is derived

The parser's functions call each other before they have taken a token, so the induction is on how
many tokens there are. For one length the tiers are settled from the inside to the outside: operands
first, which only hold expressions that are shorter, then the chains of each tier. -/

/-- What is read as an operand of a tier, from at most `n` tokens, is one. -/
def OperandSound (t : Tier) (n : Nat) : Prop :=
  ∀ (ts : List Token) (e : Expr) (rest : List Token), ts.length ≤ n →
    (operand t ts).outcome = .ok (e, rest) →
    Operand t ts e rest ∧ mayFollow rest = true ∧
      ∀ t' : Tier, t'.rank < t.rank → Closed t' rest

/-- What is read as a chain of a tier, from at most `n` tokens, is one. -/
def ChainSound (t : Tier) (n : Nat) : Prop :=
  ∀ (ts : List Token) (e : Expr) (rest : List Token), ts.length ≤ n →
    (tier t ts).outcome = .ok (e, rest) →
    Chain t ts e rest ∧ mayFollow rest = true ∧ Closed t rest

/-- What is read as an expression, from fewer than `n` tokens, is one. -/
def ShorterSound (n : Nat) : Prop :=
  ∀ (ts : List Token) (e : Expr) (rest : List Token), ts.length < n →
    (tier .equality ts).outcome = .ok (e, rest) → Expression ts e rest

theorem argumentList_sound {n : Nat} (IH : ShorterSound n) :
    ∀ (k : Nat) (ts : List Token) (args : List Expr) (rest : List Token), ts.length ≤ k →
      ts.length < n → (argumentList ts).outcome = .ok (args, rest) → ArgumentList ts args rest := by
  intro k
  induction k using Nat.strongRecOn with
  | ind k ih =>
    intro ts args rest hk hn h
    rw [outcome_argumentList, bind_eq_ok] at h
    obtain ⟨⟨e, mid⟩, he, h⟩ := h
    have hmid := length_of_outcome he
    have he := IH ts e mid hn he
    dsimp only at h
    split at h
    · next hc =>
      -- a comma: the rest of the list is shorter
      cases mid with
      | nil => simp [operatorAhead] at hc
      | cons c mid =>
          rw [List.drop_one, List.tail_cons, bind_eq_ok] at h
          obtain ⟨⟨es, rest'⟩, hes, h⟩ := h
          cases h
          rw [List.length_cons] at hmid
          exact .more he hc
            (ih mid.length (by omega) mid es rest' (Nat.le_refl _) (by omega) hes)
    · obtain ⟨q, rest', rfl, hq, h⟩ := operator_bind_eq_ok h
      cases h
      exact .last he hq

theorem arguments_sound {n : Nat} (IH : ShorterSound n) {ts : List Token} {args : List Expr}
    {rest : List Token} (hn : ts.length < n) (h : (arguments ts).outcome = .ok (args, rest)) :
    Arguments ts args rest := by
  rw [outcome_arguments] at h
  split at h
  · next hq =>
    cases ts with
    | nil => simp [operatorAhead] at hq
    | cons q ts =>
        cases h
        exact .empty hq
  · exact .list (argumentList_sound IH _ ts args rest (Nat.le_refl _) hn h)

theorem primary_sound {n : Nat} (IH : ShorterSound n) {ts : List Token} {e : Expr}
    {rest : List Token} (hn : ts.length ≤ n) (h : (primary ts).outcome = .ok (e, rest)) :
    Primary ts e rest := by
  cases ts with
  | nil => rw [outcome_primary_nil] at h; cases h
  | cons t ts =>
    rw [List.length_cons] at hn
    rw [outcome_primary_cons] at h
    split at h
    · next hk =>
      split at h
      · next ht => cases h; exact .trueWord (Token.isWord_iff.mpr ⟨hk, ht⟩)
      split at h
      · next ht => cases h; exact .falseWord (Token.isWord_iff.mpr ⟨hk, ht⟩)
      split at h
      · next hname =>
        split at h
        · next hp =>
          cases ts with
          | nil => simp [operatorAhead] at hp
          | cons p ts =>
              rw [List.drop_one, List.tail_cons, bind_eq_ok] at h
              obtain ⟨⟨args, rest'⟩, hargs, h⟩ := h
              cases h
              rw [List.length_cons] at hn
              exact .call hname hp (arguments_sound IH (by omega) hargs)
        · cases h; exact .var hname
      · cases h
    · next hk =>
      split at h
      · next hv => cases h; exact .integer hk hv
      · cases h
    · next hk =>
      split at h
      · next hv => cases h; exact .decimal hk hv
      · cases h
    · next hk =>
      split at h
      · cases h
      · next hs => cases h; exact .string hk (by omega)
    · next hk =>
      split at h
      · next ht =>
        rw [bind_eq_ok] at h
        obtain ⟨⟨inner, mid⟩, hinner, h⟩ := h
        obtain ⟨q, rest', rfl, hq, h⟩ := operator_bind_eq_ok h
        cases h
        exact .group (Token.isOperator_iff.mpr ⟨hk, ht⟩) (IH ts _ _ (by omega) hinner) hq
      · cases h
    · cases h

theorem joined_sound {t : Tier} {n : Nat} (H : OperandSound t n) :
    ∀ (k : Nat) (all ts : List Token) (left e : Expr) (rest : List Token), ts.length ≤ k →
      ts.length ≤ n → Chain t all left ts → mayFollow ts = true →
      (∀ t' : Tier, t'.rank < t.rank → Closed t' ts) →
      (joined t left ts).outcome = .ok (e, rest) →
      Chain t all e rest ∧ mayFollow rest = true ∧ Closed t rest := by
  intro k
  induction k using Nat.strongRecOn with
  | ind k ih =>
    intro all ts left e rest hk hn hleft hf hc h
    cases ts with
    | nil =>
        rw [outcome_joined_nil] at h
        cases h
        exact ⟨hleft, rfl, trivial⟩
    | cons op ts =>
        rw [List.length_cons] at hk hn
        rw [outcome_joined_cons] at h
        split at h
        · next hop =>
          rw [bind_eq_ok] at h
          obtain ⟨⟨right, mid⟩, hright, h⟩ := h
          have hmid := length_of_outcome hright
          obtain ⟨hoper, hf', hc'⟩ := H ts right mid (by omega) hright
          -- the operand makes the chain longer, and reading goes on behind it
          exact ih mid.length (by omega) all mid _ e rest (Nat.le_refl _) (by omega)
            (.join hleft hop hoper) hf' hc' h
        · next hop =>
          cases h
          exact ⟨hleft, hf, closed_of_not_has hc (Bool.eq_false_iff.mpr hop)⟩

theorem chain_sound {t : Tier} {n : Nat} (H : OperandSound t n) : ChainSound t n := by
  intro ts e rest hn h
  rw [outcome_tier, bind_eq_ok] at h
  obtain ⟨⟨first, mid⟩, hfirst, h⟩ := h
  have hmid := length_of_outcome hfirst
  obtain ⟨hoper, hf, hc⟩ := H ts first mid hn hfirst
  exact joined_sound H _ ts mid first e rest (Nat.le_refl _) (by omega) (.single hoper) hf hc h

theorem operandSound_multiplicative {n : Nat} (IH : ShorterSound n) :
    OperandSound .multiplicative n := by
  intro ts e rest hn h
  rw [outcome_operand_multiplicative, bind_eq_ok] at h
  obtain ⟨⟨e', rest'⟩, hp, h⟩ := h
  dsimp only at h
  split at h
  · next hf =>
    cases h
    refine ⟨.primary (primary_sound IH hn hp), hf, ?_⟩
    intro t' ht'
    cases t' <;> exact absurd ht' (by decide)
  · cases h

theorem operandSound_additive {n : Nat} (H : ChainSound .multiplicative n) :
    OperandSound .additive n := by
  intro ts e rest hn h
  rw [outcome_operand_additive] at h
  obtain ⟨hchain, hf, hc⟩ := H ts e rest hn h
  exact ⟨.product hchain, hf, fun t' ht' => closed_mono hc (Nat.le_of_lt_succ ht')⟩

theorem operandSound_equality {n : Nat} (H : ChainSound .additive n) :
    OperandSound .equality n := by
  intro ts e rest hn h
  rw [outcome_operand_equality] at h
  obtain ⟨hchain, hf, hc⟩ := H ts e rest hn h
  exact ⟨.sum hchain, hf, fun t' ht' => closed_mono hc (Nat.le_of_lt_succ ht')⟩

/-- **Every expression that is read is one of the grammar.** -/
theorem expression_sound : ∀ n : Nat, ShorterSound n := by
  intro n
  induction n with
  | zero => intro ts e rest hn; exact absurd hn (by simp)
  | succ n ih =>
      intro ts e rest hn h
      -- from operands to complete expressions, one tier after the other
      have hprod := chain_sound (operandSound_multiplicative ih)
      have hsum := chain_sound (operandSound_additive hprod)
      have heq := chain_sound (operandSound_equality hsum)
      obtain ⟨hchain, hf, hc⟩ := heq ts e rest (by omega) h
      exact .mk hchain (ends_iff.mpr ⟨hf, hc⟩)

theorem Expression.of_outcome {ts rest : List Token} {e : Expr}
    (h : (expression ts).outcome = .ok (e, rest)) : Expression ts e rest :=
  expression_sound (ts.length + 1) ts e rest (Nat.lt_succ_self _) h

/-- What is read as a block, from fewer than `n` tokens, is one. -/
def ShorterBlocksSound (n : Nat) : Prop :=
  ∀ (closers : List String) (ts : List Token) (ss : List Stmt) (rest : List Token),
    ts.length < n → (block closers ts).outcome = .ok (ss, rest) →
    Block ts ss rest ∧ (closers = [] → rest = [])

theorem declaration_sound {t : Token} {ts rest : List Token} {s : Stmt} (ht : t.isWord "LET" = true)
    (h : (statement (t :: ts)).outcome = .ok (s, rest)) : Statement (t :: ts) s rest := by
  rw [outcome_statement_cons, if_pos ht] at h
  obtain ⟨x, ts₁, rfl, hx, h⟩ := name_bind_eq_ok h
  obtain ⟨c, ts₂, rfl, hc, h⟩ := operator_bind_eq_ok h
  obtain ⟨y, ts₃, rfl, hy, h⟩ := name_bind_eq_ok h
  dsimp only at h
  split at h
  · next heq =>
    cases ts₃ with
    | nil => simp [operatorAhead] at heq
    | cons eq ts₄ =>
        rw [List.drop_one, List.tail_cons, bind_eq_ok] at h
        obtain ⟨⟨e, rest'⟩, he, h⟩ := h
        cases h
        exact .declareInit ht hx hc hy heq (.of_outcome he)
  · cases h
    exact .declare ht hx hc hy

theorem branch_sound {n : Nat} (IH : ShorterBlocksSound n) {t : Token} {ts rest : List Token}
    {s : Stmt} (hn : ts.length < n) (ht : t.isWord "IF" = true)
    (h : (statement (t :: ts)).outcome = .ok (s, rest)) : Statement (t :: ts) s rest := by
  rw [outcome_statement_cons, Token.isWord_ne ht (by decide), if_neg (by decide), if_pos ht,
    bind_eq_ok] at h
  obtain ⟨⟨cond, ts₁⟩, hcond, h⟩ := h
  have hlen₁ := length_of_outcome hcond
  obtain ⟨w, ts₂, rfl, hw, h⟩ := word_bind_eq_ok h
  rw [List.length_cons] at hlen₁
  rw [bind_eq_ok] at h
  obtain ⟨⟨yes, ts₃⟩, hyes, h⟩ := h
  have hlen₂ := length_of_outcome hyes
  dsimp only at hyes hlen₂ h
  have hyes := (IH _ _ _ _ (by omega) hyes).1
  split at h
  · next hv =>
    cases ts₃ with
    | nil => simp [wordAhead] at hv
    | cons v ts₄ =>
        rw [List.length_cons] at hlen₂
        rw [List.drop_one, List.tail_cons, bind_eq_ok] at h
        obtain ⟨⟨no, ts₅⟩, hno, h⟩ := h
        have hno := (IH _ _ _ _ (by omega) hno).1
        obtain ⟨close, ts₆, rfl, hclose, h⟩ := word_bind_eq_ok h
        cases h
        exact .branchElse ht (.of_outcome hcond) hw hyes hv hno hclose
  · obtain ⟨close, ts₄, rfl, hclose, h⟩ := word_bind_eq_ok h
    cases h
    exact .branch ht (.of_outcome hcond) hw hyes hclose

theorem loop_sound {n : Nat} (IH : ShorterBlocksSound n) {t : Token} {ts rest : List Token}
    {s : Stmt} (hn : ts.length < n) (ht : t.isWord "WHILE" = true)
    (h : (statement (t :: ts)).outcome = .ok (s, rest)) : Statement (t :: ts) s rest := by
  rw [outcome_statement_cons, Token.isWord_ne ht (by decide), if_neg (by decide),
    Token.isWord_ne ht (by decide), if_neg (by decide), if_pos ht, bind_eq_ok] at h
  obtain ⟨⟨cond, ts₁⟩, hcond, h⟩ := h
  have hlen := length_of_outcome hcond
  obtain ⟨w, ts₂, rfl, hw, h⟩ := word_bind_eq_ok h
  rw [List.length_cons] at hlen
  rw [bind_eq_ok] at h
  obtain ⟨⟨body, ts₃⟩, hbody, h⟩ := h
  dsimp only at hbody h
  have hbody := (IH _ _ _ _ (by omega) hbody).1
  obtain ⟨close, ts₄, rfl, hclose, h⟩ := word_bind_eq_ok h
  cases h
  exact .loop ht (.of_outcome hcond) hw hbody hclose

theorem statement_sound {n : Nat} (IH : ShorterBlocksSound n) {ts rest : List Token} {s : Stmt}
    (hn : ts.length ≤ n) (h : (statement ts).outcome = .ok (s, rest)) : Statement ts s rest := by
  cases ts with
  | nil => rw [outcome_statement_nil] at h; cases h
  | cons t ts =>
    rw [List.length_cons] at hn
    -- by the word that the statement starts with
    by_cases hlet : t.isWord "LET" = true
    · exact declaration_sound hlet h
    by_cases hif : t.isWord "IF" = true
    · exact branch_sound IH hn hif h
    by_cases hwhile : t.isWord "WHILE" = true
    · exact loop_sound IH hn hwhile h
    rw [outcome_statement_cons, if_neg hlet, if_neg hif, if_neg hwhile] at h
    split at h
    · next ha =>
      simp only [Parser.assignmentAhead, Bool.and_eq_true] at ha
      obtain ⟨hx, heq⟩ := ha
      cases ts with
      | nil => simp [operatorAhead] at heq
      | cons eq ts =>
          rw [List.drop_one, List.tail_cons, bind_eq_ok] at h
          obtain ⟨⟨e, rest'⟩, he, h⟩ := h
          cases h
          exact .assign hx heq (.of_outcome he)
    · rw [bind_eq_ok] at h
      obtain ⟨⟨e, rest'⟩, he, h⟩ := h
      cases h
      exact .expr (.of_outcome he)

/-- **Every block that is read is one of the grammar.** -/
theorem block_sound : ∀ n : Nat, ShorterBlocksSound n := by
  intro n
  induction n with
  | zero => intro closers ts ss rest hn; exact absurd hn (by simp)
  | succ n ih =>
      intro closers ts ss rest hn h
      cases ts with
      | nil =>
          rw [outcome_block_nil] at h
          split at h
          · cases h; exact ⟨.done, fun _ => rfl⟩
          · cases h
      | cons t ts =>
          have hn' : ts.length < n := by rw [List.length_cons] at hn; omega
          rw [outcome_block_cons] at h
          split at h
          · next ht =>
            obtain ⟨hb, hend⟩ := ih closers ts ss rest hn' h
            exact ⟨.separator ht hb, hend⟩
          split at h
          · next hc =>
            cases h
            refine ⟨.done, ?_⟩
            -- no word closes a block without closing words
            intro hnil
            rw [hnil] at hc
            simp at hc
          · rw [bind_eq_ok] at h
            obtain ⟨⟨s, mid⟩, hs, h⟩ := h
            have hmid := length_of_outcome hs
            rw [bind_eq_ok] at h
            obtain ⟨⟨ss', rest'⟩, hss, h⟩ := h
            cases h
            rw [List.length_cons] at hmid
            obtain ⟨hb, hend⟩ := ih closers mid ss' rest' (by omega) hss
            exact ⟨.cons (statement_sound ih (by rw [List.length_cons]; omega) hs) hb, hend⟩

theorem derives_of_ofTokens {ts : List Token} {p : Program} (h : Program.ofTokens ts = .ok p) :
    Derives ts p := by
  obtain ⟨rest, h⟩ := Program.ofTokens_eq_ok.mp h
  obtain ⟨hb, hend⟩ := block_sound (ts.length + 1) [] ts p rest (Nat.lt_succ_self _) h
  rw [hend rfl] at hb
  exact hb

theorem ofTokens_of_derives {ts : List Token} {p : Program} (h : Derives ts p) :
    Program.ofTokens ts = .ok p :=
  Program.ofTokens_eq_ok.mpr ⟨[], Block.complete h .input (by simp)⟩

/--
**The parser accepts the grammar and builds its trees.** For every list of tokens and every program,
the parser returns the program, with all its positions, if and only if the tokens derive it.
-/
theorem ofTokens_eq_ok_iff_derives (ts : List Token) (p : Program) :
    Program.ofTokens ts = .ok p ↔ Derives ts p :=
  ⟨derives_of_ofTokens, ofTokens_of_derives⟩

end Grammar

end LetWhile
