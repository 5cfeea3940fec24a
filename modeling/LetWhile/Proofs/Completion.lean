import LetWhile.Proofs.Splitting

/-!
# Errors stand as early as they can

Where the parser gets stuck, everything in front of that place is still the beginning of a program:
some tokens behind it would make it one. So an error is reported at the first token that cannot go
on with what was read, and an input that is reported as incomplete can be completed.

The proof builds the completion. What was read before the parser got stuck is a stack of open
constructs, and each of them can be closed: a missing operand is filled in, then come the
parentheses, `THEN`, `DO` and `END` that are still owed. `Completable` says this of one construct,
and it is carried from the inside to the outside.

Statements need no separator, so the end of one is seen by what the next one starts with. The
completed text has other tokens there than the input had. Nothing is lost by this, because a
statement that was begun keeps the tokens by which it can be told from the rest of an expression.
-/

namespace LetWhile

namespace Grammar

open LetWhile.Parser

/-! ## Completing what was begun -/

/-- What stands in front of the place where the parser got stuck can be completed: with some tokens
behind it, it is an `N` in front of anything. -/
def Completable (N : List Token → List Token → Prop) (ts : List Token) (s : Stuck) : Prop :=
  ∃ front more, ts = front ++ s.rest ∧ ∀ rest, N (front ++ more ++ rest) rest

/-- A construct is completed when its last part is, with the tokens `owed` that close it. -/
theorem Completable.within {N M : List Token → List Token → Prop} {ts all : List Token} {s : Stuck}
    (h : Completable N ts s) (before owed : List Token) (hall : all = before ++ ts)
    (hM : ∀ us rest, N us (owed ++ rest) → M (before ++ us) rest) : Completable M all s := by
  obtain ⟨front, more, rfl, hN⟩ := h
  refine ⟨before ++ front, more ++ owed, by simp [hall], fun rest => ?_⟩
  have hclosed := hM _ rest (hN (owed ++ rest))
  simpa using hclosed

/-- A construct is completed when the parser got stuck between two of its parts. -/
theorem Completable.here {M : List Token → List Token → Prop} {ts all : List Token} {s : Stuck}
    (h : s.rest = ts) (before owed : List Token) (hall : all = before ++ ts)
    (hM : ∀ rest, M (before ++ (owed ++ rest)) rest) : Completable M all s :=
  ⟨before, owed, by rw [h, hall], fun rest => by rw [List.append_assoc]; exact hM rest⟩

/-- An operand that can stand wherever one is missing. -/
def operandToken : Token := { kind := .integer, text := "1", pos := {} }

theorem primary_operandToken (rest : List Token) :
    Primary (operandToken :: rest) (.literal (.integer 1) {}) rest :=
  .integer (t := operandToken) rfl rfl

/-! ## Expressions

By the number of tokens, as in the proof that what is read is derived: operands first, then the
chains of each tier. Where a part was read in full, that proof says what it is, and `split` puts the
completion behind it. -/

/-- The operands of a tier, whatever their trees. -/
def IsOperand (t : Tier) (ts rest : List Token) : Prop := ∃ e, Operand t ts e rest

/-- The chains of a tier, whatever their trees. -/
def IsChain (t : Tier) (ts rest : List Token) : Prop := ∃ e, Chain t ts e rest

/-- Where an expression was begun in fewer than `n` tokens, it can be completed. -/
def ShorterCompletable (n : Nat) : Prop :=
  ∀ (ts : List Token) (s : Stuck), ts.length < n → (expression ts).outcome = .error s →
    Completable (IsChain .equality) ts s

/-- Where an operand of a tier was begun in at most `n` tokens, it can be completed. -/
def OperandCompletable (t : Tier) (n : Nat) : Prop :=
  ∀ (ts : List Token) (s : Stuck), ts.length ≤ n → (operand t ts).outcome = .error s →
    Completable (IsOperand t) ts s

/-- A closing parenthesis ends an expression. -/
theorem ends_close (rest : List Token) : Ends (.ofOperator ")" :: rest) :=
  .mark (by decide) (Token.isOperator_ofOperator ")")

theorem argumentList_completable {n : Nat} (IH : ShorterCompletable n) :
    ∀ (k : Nat) (ts : List Token) (s : Stuck), ts.length ≤ k → ts.length < n →
      (argumentList ts).outcome = .error s →
      Completable (fun us rest => ∃ args, ArgumentList us args rest) ts s := by
  intro k
  induction k using Nat.strongRecOn with
  | ind k ih =>
    intro ts s hk hn h
    rw [outcome_argumentList] at h
    rw [bind_eq_error] at h
    rcases h with he | ⟨⟨e, mid⟩, he, h⟩
    · -- the first argument is open: it becomes the only one
      refine (IH ts s hn he).within [] [.ofOperator ")"] rfl ?_
      rintro us rest ⟨e, he⟩
      exact ⟨[e], .last (.mk he (ends_close rest)) (Token.isOperator_ofOperator ")")⟩
    · have hlen := length_of_outcome he
      obtain ⟨front, rfl, hfront⟩ := (Expression.of_outcome he).split
      dsimp only at h
      split at h
      · next hc =>
        cases mid with
        | nil => simp [operatorAhead] at hc
        | cons c mid =>
            rw [List.drop_one, List.tail_cons] at h
            rw [List.length_cons] at hlen
            rw [bind_eq_error] at h
            rcases h with hmore | ⟨_, _, h⟩
            · have hrest := ih mid.length (by omega) mid s (Nat.le_refl _) (by omega) hmore
              refine hrest.within (front ++ [c]) [] (by simp) ?_
              rintro us rest ⟨args, hargs⟩
              have hhead := hfront (c :: us) (.mark (by decide) hc)
              exact ⟨e :: args, by simpa using ArgumentList.more hhead hc hargs⟩
            · cases h
      · rcases operator_bind_eq_error h with hrest | ⟨q, rest, rfl, hq, h⟩
        · refine Completable.here hrest front [.ofOperator ")"] rfl fun rest => ?_
          exact ⟨[e], .last (hfront _ (ends_close rest)) (Token.isOperator_ofOperator ")")⟩
        · cases h

theorem arguments_completable {n : Nat} (IH : ShorterCompletable n) {ts : List Token} {s : Stuck}
    (hn : ts.length < n) (h : (arguments ts).outcome = .error s) :
    Completable (fun us rest => ∃ args, Arguments us args rest) ts s := by
  rw [outcome_arguments] at h
  split at h
  · cases h
  · refine (argumentList_completable IH _ ts s (Nat.le_refl _) hn h).within [] [] rfl ?_
    rintro us rest ⟨args, hargs⟩
    exact ⟨args, .list hargs⟩

theorem primary_completable {n : Nat} (IH : ShorterCompletable n) {ts : List Token} {s : Stuck}
    (hn : ts.length ≤ n) (h : (primary ts).outcome = .error s) :
    Completable (fun us rest => ∃ e, Primary us e rest) ts s := by
  -- in front of a token that starts no operand, one is filled in
  have hmissing (hrest : s.rest = ts) :
      Completable (fun us rest => ∃ e, Primary us e rest) ts s :=
    .here hrest [] [operandToken] rfl fun rest => ⟨_, primary_operandToken rest⟩
  cases ts with
  | nil =>
      rw [outcome_primary_nil] at h
      cases h
      exact hmissing rfl
  | cons t ts =>
    rw [List.length_cons] at hn
    rw [outcome_primary_cons] at h
    split at h
    · split at h
      · cases h
      split at h
      · cases h
      split at h
      · next hname =>
        split at h
        · next hp =>
          cases ts with
          | nil => simp [operatorAhead] at hp
          | cons p ts =>
              rw [List.drop_one, List.tail_cons] at h
              rw [List.length_cons] at hn
              rw [bind_eq_error] at h
              rcases h with hargs | ⟨_, _, h⟩
              · refine (arguments_completable IH (by omega) hargs).within [t, p] [] rfl ?_
                rintro us rest ⟨args, hargs⟩
                exact ⟨_, .call hname hp hargs⟩
              · cases h
        · cases h
      · cases h; exact hmissing rfl
    · split at h
      · cases h
      · cases h; exact hmissing rfl
    · split at h
      · cases h
      · cases h; exact hmissing rfl
    · split at h
      · cases h; exact hmissing rfl
      · cases h
    · next hk =>
      split at h
      · next ht =>
        have hp : t.isOperator "(" = true := Token.isOperator_iff.mpr ⟨hk, ht⟩
        rw [bind_eq_error] at h
        rcases h with he | ⟨⟨e, mid⟩, he, h⟩
        · refine (IH ts s (by omega) he).within [t] [.ofOperator ")"] rfl ?_
          rintro us rest ⟨e, he⟩
          exact ⟨_, .group hp (.mk he (ends_close rest)) (Token.isOperator_ofOperator ")")⟩
        · obtain ⟨front, rfl, hfront⟩ := (Expression.of_outcome he).split
          rcases operator_bind_eq_error h with hrest | ⟨q, rest, rfl, hq, h⟩
          · refine Completable.here hrest (t :: front) [.ofOperator ")"] rfl fun rest => ?_
            exact ⟨_, .group hp (hfront _ (ends_close rest)) (Token.isOperator_ofOperator ")")⟩
          · cases h
      · cases h; exact hmissing rfl
    · cases h; exact hmissing rfl

/-- What is read as an operand of any tier is one. -/
theorem operandSound (n : Nat) (t : Tier) : OperandSound t n := by
  have hprimary := operandSound_multiplicative (expression_sound n)
  have hproduct := operandSound_additive (chain_sound hprimary)
  cases t with
  | multiplicative => exact hprimary
  | additive => exact hproduct
  | equality => exact operandSound_equality (chain_sound hproduct)

/-- A chain that stands in front of anything goes on, and can be completed from there. -/
theorem joined_completable {t : Tier} {n : Nat} (H : OperandCompletable t n) :
    ∀ (k : Nat) (front : List Token) (left : Expr) (ts : List Token) (s : Stuck), ts.length ≤ k →
      ts.length ≤ n → (∀ more, Chain t (front ++ more) left more) →
      (joined t left ts).outcome = .error s → Completable (IsChain t) (front ++ ts) s := by
  intro k
  induction k using Nat.strongRecOn with
  | ind k ih =>
    intro front left ts s hk hn hfront h
    cases ts with
    | nil => rw [outcome_joined_nil] at h; cases h
    | cons op ts =>
        rw [List.length_cons] at hk hn
        rw [outcome_joined_cons] at h
        split at h
        · next hop =>
          rw [bind_eq_error] at h
          rcases h with hright | ⟨⟨right, mid⟩, hright, h⟩
          · -- the operand behind the operator is open
            refine (H ts s (by omega) hright).within (front ++ [op]) [] (by simp) ?_
            rintro us rest ⟨e, he⟩
            exact ⟨_, by simpa using Chain.join (hfront (op :: us)) hop he⟩
          · have hlen := length_of_outcome hright
            have hoper := (operandSound ts.length t ts right mid (Nat.le_refl _) hright).1
            obtain ⟨last, rfl, hlast⟩ := hoper.split
            have hchain : ∀ more,
                Chain t (front ++ op :: last ++ more) (.binary op.text left right op.pos) more := by
              intro more
              simpa using Chain.join (hfront (op :: last ++ more)) hop (hlast more)
            have hall := ih mid.length (by omega) _ _ mid s (Nat.le_refl _) (by omega) hchain h
            simpa using hall
        · cases h

theorem tier_completable {t : Tier} {n : Nat} (H : OperandCompletable t n) {ts : List Token}
    {s : Stuck} (hn : ts.length ≤ n) (h : (tier t ts).outcome = .error s) :
    Completable (IsChain t) ts s := by
  rw [outcome_tier] at h
  rw [bind_eq_error] at h
  rcases h with hfirst | ⟨⟨first, mid⟩, hfirst, h⟩
  · refine (H ts s hn hfirst).within [] [] rfl ?_
    rintro us rest ⟨e, he⟩
    exact ⟨e, .single he⟩
  · have hlen := length_of_outcome hfirst
    have hoper := (operandSound ts.length t ts first mid (Nat.le_refl _) hfirst).1
    obtain ⟨front, rfl, hfront⟩ := hoper.split
    exact joined_completable H _ front first mid s (Nat.le_refl _) (by omega)
      (fun more => .single (hfront more)) h

theorem operand_completable {n : Nat} (IH : ShorterCompletable n) (t : Tier) :
    OperandCompletable t n := by
  have hprimary : OperandCompletable .multiplicative n := by
    intro ts s hn h
    rw [outcome_operand_multiplicative] at h
    rw [bind_eq_error] at h
    rcases h with hp | ⟨⟨e, mid⟩, hp, h⟩
    · refine (primary_completable IH hn hp).within [] [] rfl ?_
      rintro us rest ⟨e, he⟩
      exact ⟨e, .primary he⟩
    · -- the operand was complete, but what follows it cannot stand there
      obtain ⟨front, rfl, hfront⟩ := (primary_sound (expression_sound _) (Nat.le_refl _) hp).split
      dsimp only at h
      split at h
      · cases h
      · cases h
        refine Completable.here rfl front [] rfl fun rest => ⟨e, .primary (hfront rest)⟩
  have hproduct : OperandCompletable .additive n := by
    intro ts s hn h
    rw [outcome_operand_additive] at h
    refine (tier_completable hprimary hn h).within [] [] rfl ?_
    rintro us rest ⟨e, he⟩
    exact ⟨e, .product he⟩
  cases t with
  | multiplicative => exact hprimary
  | additive => exact hproduct
  | equality =>
      intro ts s hn h
      rw [outcome_operand_equality] at h
      refine (tier_completable hproduct hn h).within [] [] rfl ?_
      rintro us rest ⟨e, he⟩
      exact ⟨e, .sum he⟩

theorem expression_shorter_completable : ∀ n : Nat, ShorterCompletable n := by
  intro n
  induction n with
  | zero => intro ts s hn; exact absurd hn (by simp)
  | succ n ih =>
      intro ts s hn h
      exact tier_completable (operand_completable ih .equality) (by omega) h

/-- **An expression that was begun can be completed.** -/
theorem expression_completable {ts : List Token} {s : Stuck}
    (h : (expression ts).outcome = .error s) : Completable (IsChain .equality) ts s :=
  expression_shorter_completable (ts.length + 1) ts s (Nat.lt_succ_self _) h

/-! ## Statements -/

/-- Where a statement or a block was begun, statements can be completed. In front of something that
ends an expression they are a block, and they can stand behind an expression if the input could. -/
def BlockCompletable (ts : List Token) (s : Stuck) : Prop :=
  Completable
    (fun us rest => Ends rest → (∃ ss, Block us ss rest) ∧ (Ends ts → Ends us)) ts s

/-- A word that ends an expression does so whatever follows. -/
theorem ends_ofWord {w : String} (hw : w ∈ ["DO", "THEN", "ELSE", "END", "LET", "IF", "WHILE"])
    (rest : List Token) : Ends (.ofWord w :: rest) :=
  .word hw (Token.isWord_ofWord w)

theorem isName_ofWord {w : String} (hw : w ∉ Token.keywords) : (Token.ofWord w).isName = true :=
  Token.isName_iff.mpr ⟨rfl, hw⟩

theorem declaration_completable {t : Token} {ts : List Token} {s : Stuck}
    (ht : t.isWord "LET" = true) (h : (statement (t :: ts)).outcome = .error s) :
    BlockCompletable (t :: ts) s := by
  have hname : (Token.ofWord "X").isName = true := isName_ofWord (by decide)
  have hcolon := Token.isOperator_ofOperator ":"
  rw [outcome_statement_cons, if_pos ht] at h
  -- up to the type, the parts of the declaration that are still to come are filled in
  rcases name_bind_eq_error h with hrest | ⟨x, ts₁, rfl, hx, h⟩
  · refine Completable.here hrest [t] [.ofWord "X", .ofOperator ":", .ofWord "X"] rfl ?_
    exact fun rest _ => ⟨⟨_, .cons (.declare ht hname hcolon hname) .done⟩,
      fun _ => .word (by decide) ht⟩
  rcases operator_bind_eq_error h with hrest | ⟨c, ts₂, rfl, hc, h⟩
  · refine Completable.here hrest [t, x] [.ofOperator ":", .ofWord "X"] rfl ?_
    exact fun rest _ => ⟨⟨_, .cons (.declare ht hx hcolon hname) .done⟩,
      fun _ => .word (by decide) ht⟩
  rcases name_bind_eq_error h with hrest | ⟨y, ts₃, rfl, hy, h⟩
  · refine Completable.here hrest [t, x, c] [.ofWord "X"] rfl ?_
    exact fun rest _ => ⟨⟨_, .cons (.declare ht hx hc hname) .done⟩, fun _ => .word (by decide) ht⟩
  dsimp only at h
  split at h
  · next heq =>
    cases ts₃ with
    | nil => simp [operatorAhead] at heq
    | cons eq ts₄ =>
        rw [List.drop_one, List.tail_cons] at h
        rw [bind_eq_error] at h
        rcases h with he | ⟨_, _, h⟩
        · refine (expression_completable he).within [t, x, c, y, eq] [] rfl ?_
          rintro us rest ⟨e, he⟩ hends
          exact ⟨⟨_, .cons (.declareInit ht hx hc hy heq (.mk he hends)) .done⟩,
            fun _ => .word (by decide) ht⟩
        · cases h
  · cases h

/-- A condition, the word `w` behind it, and an `N`: what a branch or a loop has behind its first
word. -/
def Guarded (w : String) (N : List Token → List Token → Prop) (ts rest : List Token) : Prop :=
  ∃ cond v tail, Expression ts cond (v :: tail) ∧ v.isWord w = true ∧ N tail rest

/-- A block and the word that closes it. -/
def ClosedBlock (ts rest : List Token) : Prop :=
  ∃ ss close, Block ts ss (close :: rest) ∧ close.isWord "END" = true

/-- The one or two blocks of a branch and the word that closes the last of them. -/
def Alternatives (ts rest : List Token) : Prop :=
  ClosedBlock ts rest ∨
    ∃ yes v tail, Block ts yes (v :: tail) ∧ v.isWord "ELSE" = true ∧ ClosedBlock tail rest

/-- An empty block needs nothing but the word that closes it. -/
theorem closedBlock_end (rest : List Token) : ClosedBlock (.ofWord "END" :: rest) rest :=
  ⟨[], _, .done, Token.isWord_ofWord "END"⟩

theorem guarded_completable {α : Type} {N : List Token → List Token → Prop} {w : String}
    {k : Expr × List Token → Token × List Token → Except Stuck (α × List Token)} {ts : List Token}
    {s : Stuck} (hw : w ∈ ["THEN", "DO"]) (hempty : ∀ rest, N (.ofWord "END" :: rest) rest)
    (hk : ∀ c x, x.2.length < ts.length → k c x = .error s → Completable N x.2 s)
    (h : ((expression ts).outcome >>= fun c =>
      (word w c.2).outcome >>= fun x => k c x) = .error s) :
    Completable (Guarded w N) ts s := by
  have hends : w ∈ ["DO", "THEN", "ELSE", "END", "LET", "IF", "WHILE"] := by
    simp only [List.mem_cons, List.not_mem_nil, or_false] at hw
    rcases hw with rfl | rfl <;> decide
  rw [bind_eq_error] at h
  rcases h with hcond | ⟨⟨cond, ts₁⟩, hcond, h⟩
  · -- the condition is open, and all else is still to come
    refine (expression_completable hcond).within [] [.ofWord w, .ofWord "END"] rfl ?_
    rintro us rest ⟨c, hc⟩
    exact ⟨c, _, _, .mk hc (ends_ofWord hends _), Token.isWord_ofWord w, hempty rest⟩
  have hlen := length_of_outcome hcond
  obtain ⟨front, rfl, hfront⟩ := (Expression.of_outcome hcond).split
  rcases word_bind_eq_error h with hrest | ⟨v, ts₂, rfl, hv, hnext⟩
  · refine Completable.here hrest front [.ofWord w, .ofWord "END"] rfl fun rest => ?_
    exact ⟨cond, _, _, hfront _ (ends_ofWord hends _), Token.isWord_ofWord w, hempty rest⟩
  · rw [List.length_cons] at hlen
    have htail := hk (cond, v :: ts₂) (v, ts₂) (by dsimp only; omega) hnext
    refine htail.within (front ++ [v]) [] (by simp) ?_
    intro us rest hus
    have hcond := hfront (v :: us) (.word hends hv)
    exact ⟨cond, v, us, by simpa using hcond, hv, hus⟩

/-- Where a block was begun in fewer than `n` tokens, it can be completed. -/
def ShorterBlocksCompletable (n : Nat) : Prop :=
  ∀ (closers : List String) (ts : List Token) (s : Stuck), ts.length < n →
    (block closers ts).outcome = .error s → BlockCompletable ts s

theorem ShorterBlocksCompletable.closedBlock {n : Nat} (IH : ShorterBlocksCompletable n)
    {closers : List String} {ts : List Token} {s : Stuck} (hn : ts.length < n)
    (h : (block closers ts).outcome = .error s) : Completable ClosedBlock ts s := by
  refine (IH closers ts s hn h).within [] [.ofWord "END"] rfl ?_
  intro us rest hus
  obtain ⟨⟨ss, hss⟩, -⟩ := hus (ends_ofWord (by decide) rest)
  exact ⟨ss, _, hss, Token.isWord_ofWord "END"⟩

/-- A block that was read, but not closed. -/
theorem Block.closed_completable {ts mid : List Token} {ss : List Stmt} {s : Stuck}
    (h : Block ts ss mid) (hrest : s.rest = mid) : Completable ClosedBlock ts s := by
  obtain ⟨front, hts, hfront⟩ := h.split
  refine Completable.here hrest front [.ofWord "END"] hts fun rest => ?_
  have hss := (hfront (.ofWord "END" :: rest) fun _ => ends_ofWord (by decide) rest).1
  exact ⟨ss, _, hss, Token.isWord_ofWord "END"⟩

theorem closedBlock_completable {α : Type} {n : Nat} (IH : ShorterBlocksCompletable n)
    {closers : List String} {f : List Stmt × List Token → α} {ts : List Token} {s : Stuck}
    (hn : ts.length < n)
    (h : ((block closers ts).outcome >>= fun b =>
      (word "END" b.2).outcome >>= fun close => .ok (f b, close.2)) = .error s) :
    Completable ClosedBlock ts s := by
  rw [bind_eq_error] at h
  rcases h with hopen | ⟨⟨ss, mid⟩, hread, h⟩
  · exact IH.closedBlock hn hopen
  · have hblock := (block_sound _ _ ts ss mid (Nat.lt_succ_self _) hread).1
    rcases word_bind_eq_error h with hrest | ⟨_, _, _, _, h⟩
    · exact hblock.closed_completable hrest
    · cases h

theorem alternatives_completable {n : Nat} (IH : ShorterBlocksCompletable n)
    {cond : Expr} {pos : Position} {ts : List Token} {s : Stuck} (hn : ts.length < n)
    (h : ((block ["ELSE", "END"] ts).outcome >>= fun yes =>
      if wordAhead "ELSE" yes.2 then
        (block ["END"] (yes.2.drop 1)).outcome >>= fun no =>
        (word "END" no.2).outcome >>= fun close =>
          .ok (Stmt.branch cond yes.1 no.1 pos, close.2)
      else (word "END" yes.2).outcome >>= fun close =>
        .ok (Stmt.branch cond yes.1 [] pos, close.2)) = .error s) :
    Completable Alternatives ts s := by
  rw [bind_eq_error] at h
  rcases h with hopen | ⟨⟨yes, mid⟩, hread, h⟩
  · exact (IH.closedBlock hn hopen).within [] [] rfl fun us rest hus => .inl hus
  have hlen : mid.length < ts.length + 1 := length_of_outcome hread
  have hyes := (block_sound _ _ ts yes mid (Nat.lt_succ_self _) hread).1
  dsimp only at h
  split at h
  · next hv =>
    cases mid with
    | nil => simp [wordAhead] at hv
    | cons v tail =>
        rw [List.drop_one, List.tail_cons] at h
        rw [List.length_cons] at hlen
        have htail := closedBlock_completable IH (by omega) h
        obtain ⟨front, rfl, hfront⟩ := hyes.split
        refine htail.within (front ++ [v]) [] (by simp) ?_
        intro us rest hus
        have hfirst := (hfront (v :: us) fun _ => .word (by decide) hv).1
        exact .inr ⟨yes, v, us, by simpa using hfirst, hv, hus⟩
  · rcases word_bind_eq_error h with hrest | ⟨_, _, _, _, h⟩
    · exact (hyes.closed_completable hrest).within [] [] rfl fun us rest hus => .inl hus
    · cases h

theorem branch_completable {n : Nat} (IH : ShorterBlocksCompletable n) {t : Token}
    {ts : List Token} {s : Stuck} (hn : ts.length < n) (ht : t.isWord "IF" = true)
    (h : (statement (t :: ts)).outcome = .error s) : BlockCompletable (t :: ts) s := by
  rw [outcome_statement_cons, Token.isWord_ne ht (by decide), if_neg (by decide), if_pos ht] at h
  have hrest : Completable (Guarded "THEN" Alternatives) ts s := by
    refine guarded_completable (by decide) (fun rest => .inl (closedBlock_end rest)) ?_ h
    intro c x hlen hx
    exact alternatives_completable IH (by omega) hx
  refine hrest.within [t] [] rfl ?_
  rintro us rest ⟨cond, v, tail, hcond, hv, hyes | ⟨yes, v', tail', hyes, hv', hno⟩⟩ _
  · obtain ⟨ss, close, hss, hclose⟩ := hyes
    exact ⟨⟨_, .cons (.branch ht hcond hv hss hclose) .done⟩, fun _ => .word (by decide) ht⟩
  · obtain ⟨ss, close, hss, hclose⟩ := hno
    exact ⟨⟨_, .cons (.branchElse ht hcond hv hyes hv' hss hclose) .done⟩,
      fun _ => .word (by decide) ht⟩

theorem loop_completable {n : Nat} (IH : ShorterBlocksCompletable n) {t : Token}
    {ts : List Token} {s : Stuck} (hn : ts.length < n) (ht : t.isWord "WHILE" = true)
    (h : (statement (t :: ts)).outcome = .error s) : BlockCompletable (t :: ts) s := by
  rw [outcome_statement_cons, Token.isWord_ne ht (by decide), if_neg (by decide),
    Token.isWord_ne ht (by decide), if_neg (by decide), if_pos ht] at h
  have hrest : Completable (Guarded "DO" ClosedBlock) ts s := by
    refine guarded_completable (by decide) closedBlock_end ?_ h
    intro c x hlen hx
    exact closedBlock_completable IH (by omega) hx
  refine hrest.within [t] [] rfl ?_
  rintro us rest ⟨cond, v, tail, hcond, hv, ss, close, hss, hclose⟩ _
  exact ⟨⟨_, .cons (.loop ht hcond hv hss hclose) .done⟩, fun _ => .word (by decide) ht⟩

theorem statement_completable {n : Nat} (IH : ShorterBlocksCompletable n) {t : Token}
    {ts : List Token} {s : Stuck} (hn : ts.length < n)
    (h : (statement (t :: ts)).outcome = .error s) : BlockCompletable (t :: ts) s := by
  by_cases hlet : t.isWord "LET" = true
  · exact declaration_completable hlet h
  by_cases hif : t.isWord "IF" = true
  · exact branch_completable IH hn hif h
  by_cases hwhile : t.isWord "WHILE" = true
  · exact loop_completable IH hn hwhile h
  rw [outcome_statement_cons, if_neg hlet, if_neg hif, if_neg hwhile] at h
  split at h
  · next ha =>
    simp only [Parser.assignmentAhead, Bool.and_eq_true] at ha
    obtain ⟨hx, heq⟩ := ha
    cases ts with
    | nil => simp [operatorAhead] at heq
    | cons eq ts =>
        rw [List.drop_one, List.tail_cons, bind_eq_error] at h
        rcases h with he | ⟨_, _, h⟩
        · refine (expression_completable he).within [t, eq] [] rfl ?_
          rintro us rest ⟨e, he⟩ hends
          exact ⟨⟨_, .cons (.assign hx heq (.mk he hends)) .done⟩, fun _ => .assignment hx heq⟩
        · cases h
  · next ha =>
    rw [bind_eq_error] at h
    rcases h with he | ⟨_, _, h⟩
    · obtain ⟨front, more, hall, hchain⟩ := expression_completable he
      cases front with
      | nil =>
          -- nothing of the statement was read, so it is left out
          exact ⟨[], [], hall, fun rest hrest => ⟨⟨[], .done⟩, fun _ => hrest⟩⟩
      | cons t' front =>
          obtain rfl : t = t' := (List.cons.inj hall).1
          refine ⟨t :: front, more, hall, fun rest hends => ?_⟩
          obtain ⟨e, hchain⟩ := hchain rest
          have he : Expression (t :: front ++ more ++ rest) e rest := .mk hchain hends
          refine ⟨⟨_, .cons (.expr he) .done⟩, fun hts => ?_⟩
          -- what the input has behind `t` could make it the start of an assignment only
          refine absurd ?_ he.not_ends
          cases hts with
          | mark hop ht => exact .mark hop ht
          | word hw ht => exact .word hw ht
          | assignment hx heq =>
              exact absurd (by simp [Parser.assignmentAhead, operatorAhead_cons, hx, heq]) ha
    · cases h

theorem block_shorter_completable : ∀ n : Nat, ShorterBlocksCompletable n := by
  intro n
  induction n with
  | zero => intro closers ts s hn; exact absurd hn (by simp)
  | succ n ih =>
      intro closers ts s hn h
      cases ts with
      | nil =>
          rw [outcome_block_nil] at h
          split at h
          · cases h
          · cases h
            exact ⟨[], [], rfl, fun rest hrest => ⟨⟨[], .done⟩, fun _ => hrest⟩⟩
      | cons t ts =>
          have hn' : ts.length < n := by rw [List.length_cons] at hn; omega
          rw [outcome_block_cons] at h
          split at h
          · next ht =>
            refine (ih closers ts s hn' h).within [t] [] rfl ?_
            intro us rest hus hends
            obtain ⟨⟨ss, hss⟩, -⟩ := hus hends
            exact ⟨⟨ss, .separator ht hss⟩, fun _ => .mark (by decide) ht⟩
          split at h
          · cases h
          · rw [bind_eq_error] at h
            rcases h with hs | ⟨⟨st, mid⟩, hs, h⟩
            · exact statement_completable ih hn' hs
            · have hlen := length_of_outcome hs
              rw [List.length_cons] at hlen
              rw [bind_eq_error] at h
              rcases h with hmore | ⟨_, _, h⟩
              · have hst := statement_sound (block_sound _) (Nat.le_refl _) hs
                obtain ⟨front, hall, hfront⟩ := hst.split
                have hopen := ih closers mid s (by omega) hmore
                refine hopen.within front [] hall ?_
                intro us rest hus hends
                -- the statement in front ends where it did, as the others still start there
                obtain ⟨⟨ss, hss⟩, hstart⟩ := hus hends
                obtain ⟨hst', hfirst⟩ := hfront us hstart
                exact ⟨⟨_, .cons hst' hss⟩, hfirst⟩
              · cases h

/-- **What was read before the parser got stuck is the beginning of a program.** -/
theorem block_completable {closers : List String} {ts : List Token} {s : Stuck}
    (h : (block closers ts).outcome = .error s) :
    ∃ front more p, ts = front ++ s.rest ∧ Derives (front ++ more) p := by
  obtain ⟨front, more, hts, hblock⟩ :=
    block_shorter_completable (ts.length + 1) closers ts s (Nat.lt_succ_self _) h
  obtain ⟨⟨p, hp⟩, -⟩ := hblock [] .input
  rw [List.append_nil] at hp
  exact ⟨front, more, p, hts, hp⟩

end Grammar

namespace Grammar

/-- The index of an error is the number of tokens in front of what was left. -/
theorem index_errorAt (front rest : List Token) (fault : ParseFault) :
    (Parser.errorAt (front ++ rest) rest fault).index = front.length := by
  show (front ++ rest).length - rest.length = front.length
  rw [List.length_append]
  omega

/--
**A parse error stands at the earliest possible token.** The index of an error is at most the number
of tokens, and it is that number exactly if the error is reported as incomplete. The tokens in front
of it can be completed to a program. In particular so can an input that is reported as incomplete.
-/
theorem ofTokens_error_earliest (ts : List Token) (e : ParseError)
    (h : Program.ofTokens ts = .error (.refused e)) :
    e.index ≤ ts.length ∧ (e.incomplete = true ↔ e.index = ts.length) ∧
      (∃ more p, Program.ofTokens (ts.take e.index ++ more) = .ok p) ∧
      (e.incomplete = true → ∃ more p, Program.ofTokens (ts ++ more) = .ok p) := by
  obtain ⟨rest, fault, hs, rfl⟩ := Program.ofTokens_eq_refused.mp h
  obtain ⟨front, more, p, hts, hp⟩ := block_completable hs
  dsimp only at hts
  subst hts
  have hmore := ofTokens_of_derives hp
  have hincomplete : (Parser.errorAt (front ++ rest) rest fault).incomplete = true ↔ rest = [] :=
    List.isEmpty_iff
  rw [index_errorAt, hincomplete]
  refine ⟨?_, ?_, ⟨more, p, ?_⟩, ?_⟩
  · rw [List.length_append]; omega
  · rw [List.length_append, ← List.length_eq_zero_iff]; omega
  · rw [List.take_left]; exact hmore
  · intro hnil
    rw [hnil, List.append_nil]
    exact ⟨more, p, hmore⟩

/-- An input that ends behind an operator, inside a call, inside the condition of a branch. -/
def openCall : List Token :=
  [.ofWord "x", .ofOperator "=", operandToken, .ofWord "IF", .ofWord "f", .ofOperator "(",
    operandToken, .ofOperator "+"]

/-- The error of that input. -/
def openCallError : ParseError :=
  { pos := ⟨1, 0, 1⟩, index := 8, fault := .expectedExpression, incomplete := true }

/-- The theorem above, of that input: it is incomplete, and it can be completed. -/
theorem openCall_error_earliest :
    Program.ofTokens openCall = .error (.refused openCallError) ∧ openCallError.incomplete = true ∧
      openCallError.index ≤ openCall.length ∧
      (openCallError.incomplete = true ↔ openCallError.index = openCall.length) ∧
      (∃ more p, Program.ofTokens (openCall.take openCallError.index ++ more) = .ok p) ∧
      (openCallError.incomplete = true →
        ∃ more p, Program.ofTokens (openCall ++ more) = .ok p) := by
  have hstuck : Program.ofTokens openCall = .error (.refused openCallError) := by
    with_unfolding_all rfl
  exact ⟨hstuck, rfl, ofTokens_error_earliest openCall openCallError hstuck⟩

end Grammar

end LetWhile
