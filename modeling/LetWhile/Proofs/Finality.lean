import LetWhile.Proofs.Completion

/-!
# Errors that more input does not mend

A dialogue reads on when an error is reported as incomplete, and reports every other error at once.
That is right only if no further tokens could have changed such an error. They cannot, with one
exception. The parser never looks further than one token behind the one that it stands at, and what
it saw there it sees again when more tokens follow. The exception is a name that is the last token
and stands where an expression should have ended: with `=` behind it, it starts an assignment, and
an expression may end in front of one.

`Stable` says this of one step of the parser. A step that leaves something goes on in the same way
when more follows. A step that leaves nothing is not compared at all: whatever comes behind it has
no token left to get stuck at, which is what `Exhausted` says.
-/

namespace LetWhile

namespace Parser

variable {α β : Type} {more : List Token}

/-- A complaint about what stands behind an operand is made only where such a thing may not
stand. -/
def Stuck.Fits (s : Stuck) : Prop :=
  ∀ found, s.obstacle = .fault (.expectedExpressionEnd found) → mayFollow s.rest = false

/-- The last token is a name in the place of an expression's end, and `more` makes it the target of
an assignment. -/
def Stuck.MendedBy (s : Stuck) (more : List Token) : Prop :=
  (∃ x, s.rest = [x] ∧ x.isName = true) ∧
    (∃ found, s.obstacle = .fault (.expectedExpressionEnd found)) ∧ operatorAhead "=" more = true

/-- No token is left, whether the step succeeded or not. -/
def Exhausted (x : Except Stuck (α × List Token)) : Prop :=
  match x with
  | .ok y => y.2 = []
  | .error s => s.rest = [] ∧ s.Fits

/-- What a step does with some tokens, `x`, it does in the same way when `more` stands behind them,
`y`. Nothing is said of a step that has no token left. -/
def Stable (more : List Token) (x y : Except Stuck (α × List Token)) : Prop :=
  match x with
  | .ok (a, rest) => rest ≠ [] → y = .ok (a, rest ++ more)
  | .error s =>
    s.Fits ∧ (s.rest ≠ [] → ¬ s.MendedBy more → y = .error { s with rest := s.rest ++ more })

theorem Exhausted.stable {x y : Except Stuck (α × List Token)} (h : Exhausted x) :
    Stable more x y := by
  cases x with
  | ok a => exact fun hne => absurd h hne
  | error s => exact ⟨h.2, fun hne => absurd h.1 hne⟩

/-- An obstacle that is no complaint about what stands behind an operand. -/
theorem Stuck.fits_of_obstacle {s : Stuck}
    (h : ∀ found, s.obstacle ≠ .fault (.expectedExpressionEnd found)) : s.Fits :=
  fun found hobstacle => absurd hobstacle (h found)

/-- **Two steps that are stable are stable together.** When the first one leaves nothing, the second
one must not find anything either. -/
theorem Stable.bind {x y : Except Stuck (α × List Token)}
    {k : α × List Token → Except Stuck (β × List Token)} (hx : Stable more x y)
    (hend : ∀ a, Exhausted (k (a, [])))
    (hk : ∀ a t rest, x = .ok (a, t :: rest) →
      Stable more (k (a, t :: rest)) (k (a, t :: (rest ++ more)))) :
    Stable more (x >>= k) (y >>= k) := by
  rcases x with s | ⟨a, _ | ⟨t, rest⟩⟩
  · refine ⟨hx.1, fun hne hmended => ?_⟩
    rw [hx.2 hne hmended]
    rfl
  · exact (hend a).stable
  · have hy : y = .ok (a, t :: rest ++ more) := hx (List.cons_ne_nil t rest)
    rw [hy, ok_bind, ok_bind, List.cons_append]
    exact hk a t rest rfl

/-- A step that returns what the step before it left. -/
theorem stable_ok {a : α} {rest : List Token} :
    Stable more (.ok (a, rest)) (.ok (a, rest ++ more)) :=
  fun _ => rfl

/-! ## One token -/

theorem oneToken_stable {p : Token → Bool} {fault : Found → ParseFault}
    (hfault : ∀ f found, Obstacle.fault (fault f) ≠ .fault (.expectedExpressionEnd found))
    (ts : List Token) :
    Stable more (oneToken p fault ts) (oneToken p fault (ts ++ more)) := by
  cases ts with
  | nil => exact ⟨Stuck.fits_of_obstacle (hfault _), fun hne => absurd rfl hne⟩
  | cons t ts =>
      rw [List.cons_append, oneToken, oneToken]
      split
      · exact stable_ok
      · exact ⟨Stuck.fits_of_obstacle (hfault _), fun _ _ => rfl⟩

theorem operator_stable (op : String) (ts : List Token) :
    Stable more (operator op ts).outcome (operator op (ts ++ more)).outcome := by
  rw [outcome_operator, outcome_operator]
  refine oneToken_stable ?_ ts
  nofun

theorem word_stable (w : String) (ts : List Token) :
    Stable more (word w ts).outcome (word w (ts ++ more)).outcome := by
  rw [outcome_word, outcome_word]
  refine oneToken_stable ?_ ts
  nofun

theorem name_stable (role : String) (ts : List Token) :
    Stable more (name role ts).outcome (name role (ts ++ more)).outcome := by
  rw [outcome_name, outcome_name]
  refine oneToken_stable ?_ ts
  nofun

/-- A step that needs a token and finds none. -/
theorem exhausted_error {obstacle : Obstacle}
    (h : ∀ found, obstacle ≠ .fault (.expectedExpressionEnd found)) :
    Exhausted (.error ⟨[], obstacle⟩ : Except Stuck (α × List Token)) :=
  ⟨rfl, Stuck.fits_of_obstacle h⟩

theorem Exhausted.bind {x : Except Stuck (α × List Token)}
    {k : α × List Token → Except Stuck (β × List Token)} (hx : Exhausted x)
    (hk : ∀ a, Exhausted (k (a, []))) : Exhausted (x >>= k) := by
  rcases x with s | ⟨a, rest⟩
  · exact hx
  · obtain rfl : rest = [] := hx
    exact hk a

theorem operator_exhausted (op : String) : Exhausted (operator op []).outcome :=
  exhausted_error nofun

theorem word_exhausted (w : String) : Exhausted (word w []).outcome :=
  exhausted_error nofun

theorem name_exhausted (role : String) : Exhausted (name role []).outcome :=
  exhausted_error nofun

/-! ## What may follow an operand -/

/-- What is seen behind an operand does not change with what comes later, unless it is a last name
that becomes the target of an assignment. -/
theorem mayFollow_append {t : Token} {rest : List Token}
    (h : ¬ (rest = [] ∧ t.isName = true ∧ operatorAhead "=" more = true)) :
    mayFollow (t :: (rest ++ more)) = mayFollow (t :: rest) := by
  have hahead : assignmentAhead (t :: (rest ++ more)) = assignmentAhead (t :: rest) := by
    cases rest with
    | cons u rest => rfl
    | nil =>
        simp only [true_and, not_and, Bool.not_eq_true] at h
        show (t.isName && operatorAhead "=" more) = (t.isName && false)
        cases hname : t.isName with
        | false => rfl
        | true => rw [h hname]
  rw [mayFollow, mayFollow, hahead]

theorem mayFollow_append_of_true {t : Token} {rest : List Token}
    (h : mayFollow (t :: rest) = true) : mayFollow (t :: (rest ++ more)) = true := by
  by_cases hmended : rest = [] ∧ t.isName = true ∧ operatorAhead "=" more = true
  · obtain ⟨rfl, hname, heq⟩ := hmended
    have hahead : assignmentAhead (t :: ([] ++ more)) = true := by
      rw [assignmentAhead, hname]
      exact heq
    rw [mayFollow, hahead, Bool.or_true]
  · rw [mayFollow_append hmended]
    exact h

/-! ## Expressions -/

/-- Fewer than `n` tokens are read in the same way as an expression when more follow. -/
def ShorterStable (more : List Token) (n : Nat) : Prop :=
  ∀ ts : List Token, ts.length < n →
    Stable more (expression ts).outcome (expression (ts ++ more)).outcome

/-- At most `n` tokens are read in the same way as an operand when more follow. -/
def OperandStable (more : List Token) (t : Tier) (n : Nat) : Prop :=
  ∀ ts : List Token, ts.length ≤ n →
    Stable more (operand t ts).outcome (operand t (ts ++ more)).outcome

theorem primary_exhausted : Exhausted (primary []).outcome := by
  rw [outcome_primary_nil]
  exact exhausted_error nofun

theorem joined_exhausted (t : Tier) (left : Expr) : Exhausted (joined t left []).outcome := by
  rw [outcome_joined_nil]
  rfl

theorem operand_exhausted (t : Tier) : Exhausted (operand t []).outcome := by
  have hprimary : Exhausted (operand .multiplicative []).outcome := by
    rw [outcome_operand_multiplicative]
    exact primary_exhausted.bind fun a => rfl
  have hproduct : Exhausted (operand .additive []).outcome := by
    rw [outcome_operand_additive, outcome_tier]
    exact hprimary.bind fun a => joined_exhausted _ a
  cases t with
  | multiplicative => exact hprimary
  | additive => exact hproduct
  | equality =>
      rw [outcome_operand_equality, outcome_tier]
      exact hproduct.bind fun a => joined_exhausted _ a

theorem expression_exhausted : Exhausted (expression []).outcome := by
  rw [expression, outcome_tier]
  exact (operand_exhausted .equality).bind fun a => joined_exhausted _ a

theorem argumentList_stable {n : Nat} (IH : ShorterStable more n) :
    ∀ (k : Nat) (ts : List Token), ts.length ≤ k → ts.length < n →
      Stable more (argumentList ts).outcome (argumentList (ts ++ more)).outcome := by
  intro k
  induction k using Nat.strongRecOn with
  | ind k ih =>
    intro ts hk hn
    rw [outcome_argumentList, outcome_argumentList]
    refine (IH ts hn).bind (fun e => ?_) fun e t rest he => ?_
    · exact (operator_exhausted ")").bind fun _ => rfl
    · have hlen : (t :: rest).length < ts.length := length_of_outcome he
      rw [List.length_cons] at hlen
      dsimp only
      rw [operatorAhead_cons, operatorAhead_cons, List.drop_one, List.drop_one, List.tail_cons,
        List.tail_cons]
      split
      · exact (ih rest.length (by omega) rest (Nat.le_refl _) (by omega)).bind (fun _ => rfl)
          fun _ _ _ _ => stable_ok
      · exact (operator_stable ")" (t :: rest)).bind (fun _ => rfl) fun _ _ _ _ => stable_ok

theorem arguments_stable {n : Nat} (IH : ShorterStable more n) {ts : List Token}
    (hn : ts.length < n) :
    Stable more (arguments ts).outcome (arguments (ts ++ more)).outcome := by
  have hlist := argumentList_stable IH _ ts (Nat.le_refl _) hn
  cases ts with
  | nil =>
      have hnone : Exhausted (arguments []).outcome := by
        rw [outcome_arguments, outcome_argumentList]
        exact expression_exhausted.bind fun _ => (operator_exhausted ")").bind fun _ => rfl
      exact hnone.stable
  | cons t ts =>
      rw [outcome_arguments, List.cons_append, outcome_arguments, operatorAhead_cons,
        operatorAhead_cons]
      split
      · exact stable_ok
      · exact hlist

theorem primary_stable {n : Nat} (IH : ShorterStable more n) {ts : List Token}
    (hn : ts.length ≤ n) :
    Stable more (primary ts).outcome (primary (ts ++ more)).outcome := by
  cases ts with
  | nil => exact primary_exhausted.stable
  | cons t ts =>
    rw [List.length_cons] at hn
    have hstuck {obstacle : Obstacle}
        (hobstacle : ∀ found, obstacle ≠ .fault (.expectedExpressionEnd found)) :
        Stable more (.error ⟨t :: ts, obstacle⟩ : Except Stuck (Expr × List Token))
          (.error ⟨t :: (ts ++ more), obstacle⟩) :=
      ⟨Stuck.fits_of_obstacle hobstacle, fun _ _ => rfl⟩
    rw [List.cons_append, outcome_primary_cons, outcome_primary_cons]
    cases t.kind with
    | identifier =>
        dsimp only
        split
        · exact stable_ok
        split
        · exact stable_ok
        split
        · cases ts with
          | nil =>
              -- a name at the end of the input may become a call, but it leaves nothing
              exact Exhausted.stable (x := .ok (Expr.var t.text t.pos, [])) rfl
          | cons p ts =>
              rw [List.length_cons] at hn
              rw [List.cons_append, operatorAhead_cons, operatorAhead_cons, List.drop_one,
                List.drop_one, List.tail_cons, List.tail_cons]
              split
              · exact (arguments_stable IH (by omega)).bind (fun _ => rfl)
                  fun _ _ _ _ => stable_ok
              · exact stable_ok
        · exact hstuck nofun
    | integer =>
        dsimp only
        cases Numeral.integer? t.text with
        | some n => exact stable_ok
        | none => exact hstuck nofun
    | decimal =>
        dsimp only
        cases Notation.decimal? t.text with
        | some q => exact stable_ok
        | none => exact hstuck nofun
    | string =>
        dsimp only
        split
        · exact hstuck nofun
        · exact stable_ok
    | operator =>
        dsimp only
        split
        · refine (IH ts (by omega)).bind (fun _ => ?_) fun e u rest _ => ?_
          · exact (operator_exhausted ")").bind fun _ => rfl
          · exact (operator_stable ")" (u :: rest)).bind (fun _ => rfl) fun _ _ _ _ => stable_ok
        · exact hstuck nofun
    | unknown => exact hstuck nofun

theorem joined_stable {t : Tier} {n : Nat} (H : OperandStable more t n) :
    ∀ (k : Nat) (left : Expr) (ts : List Token), ts.length ≤ k → ts.length ≤ n →
      Stable more (joined t left ts).outcome (joined t left (ts ++ more)).outcome := by
  intro k
  induction k using Nat.strongRecOn with
  | ind k ih =>
    intro left ts hk hn
    cases ts with
    | nil => exact (joined_exhausted t left).stable
    | cons op ts =>
        rw [List.length_cons] at hk hn
        rw [List.cons_append, outcome_joined_cons, outcome_joined_cons]
        split
        · refine (H ts (by omega)).bind (fun _ => joined_exhausted t _) ?_
          intro right u rest hright
          have hlen : (u :: rest).length < ts.length := length_of_outcome hright
          exact ih (u :: rest).length (by omega) _ (u :: rest) (Nat.le_refl _) (by omega)
        · exact stable_ok

theorem tier_stable {t : Tier} {n : Nat} (H : OperandStable more t n) {ts : List Token}
    (hn : ts.length ≤ n) : Stable more (tier t ts).outcome (tier t (ts ++ more)).outcome := by
  rw [outcome_tier, outcome_tier]
  refine (H ts hn).bind (fun _ => joined_exhausted t _) fun first u rest hfirst => ?_
  have hlen : (u :: rest).length < ts.length := length_of_outcome hfirst
  exact joined_stable H _ first (u :: rest) (Nat.le_refl _) (by omega)

/-- The follow check is the one place where later tokens can make a difference. -/
theorem followed_stable (e : Expr) (t : Token) (rest : List Token) :
    Stable more
      (if mayFollow (t :: rest) then .ok (e, t :: rest)
        else .error ⟨t :: rest, .fault (.expectedExpressionEnd (.ofTokens (t :: rest)))⟩)
      (if mayFollow (t :: (rest ++ more)) then .ok (e, t :: (rest ++ more))
        else .error ⟨t :: (rest ++ more),
          .fault (.expectedExpressionEnd (.ofTokens (t :: (rest ++ more))))⟩) := by
  cases hfollow : mayFollow (t :: rest) with
  | true =>
      rw [mayFollow_append_of_true hfollow]
      exact stable_ok
  | false =>
      refine ⟨fun _ _ => hfollow, fun _ hmended => ?_⟩
      have hsame : mayFollow (t :: (rest ++ more)) = mayFollow (t :: rest) := by
        refine mayFollow_append ?_
        rintro ⟨rfl, hname, heq⟩
        exact hmended ⟨⟨t, rfl, hname⟩, ⟨_, rfl⟩, heq⟩
      rw [hsame, hfollow]
      rfl

theorem operand_stable {n : Nat} (IH : ShorterStable more n) (t : Tier) :
    OperandStable more t n := by
  have hprimary : OperandStable more .multiplicative n := by
    intro ts hn
    rw [outcome_operand_multiplicative, outcome_operand_multiplicative]
    exact (primary_stable IH hn).bind (fun _ => rfl) fun e u rest _ => followed_stable e u rest
  have hproduct : OperandStable more .additive n := by
    intro ts hn
    rw [outcome_operand_additive, outcome_operand_additive]
    exact tier_stable hprimary hn
  cases t with
  | multiplicative => exact hprimary
  | additive => exact hproduct
  | equality =>
      intro ts hn
      rw [outcome_operand_equality, outcome_operand_equality]
      exact tier_stable hproduct hn

theorem expression_shorter_stable : ∀ n : Nat, ShorterStable more n := by
  intro n
  induction n with
  | zero => intro ts hn; exact absurd hn (by simp)
  | succ n ih =>
      intro ts hn
      exact tier_stable (operand_stable ih .equality) (by omega)

/-- **An expression is read in the same way whatever follows it.** -/
theorem expression_stable (ts : List Token) :
    Stable more (expression ts).outcome (expression (ts ++ more)).outcome :=
  expression_shorter_stable (ts.length + 1) ts (Nat.lt_succ_self _)

/-! ## Statements -/

/-- Fewer than `n` tokens are read in the same way as a block when more follow. -/
def ShorterBlocksStable (more : List Token) (n : Nat) : Prop :=
  ∀ (closers : List String) (ts : List Token), ts.length < n →
    Stable more (block closers ts).outcome (block closers (ts ++ more)).outcome

theorem block_exhausted (closers : List String) : Exhausted (block closers []).outcome := by
  rw [outcome_block_nil]
  split
  · rfl
  · exact exhausted_error nofun

/-- A name alone is a complete expression. -/
theorem expression_name {x : Token} (hx : x.isName = true) :
    (expression [x]).outcome = .ok (.var x.text x.pos, []) :=
  Grammar.Expression.complete
    (.mk (.single (.sum (.single (.product (.single (.primary (.var hx))))))) .input)

theorem declaration_stable {t : Token} {ts : List Token} (ht : t.isWord "LET" = true) :
    Stable more (statement (t :: ts)).outcome (statement (t :: (ts ++ more))).outcome := by
  rw [outcome_statement_cons, outcome_statement_cons, if_pos ht, if_pos ht]
  have htype (x : Token) : Exhausted ((name "type name" []).outcome >>= fun y =>
      if operatorAhead "=" y.2 then
        (expression (y.2.drop 1)).outcome >>= fun e =>
          .ok (Stmt.declare x.text y.1.text (some e.1) t.pos, e.2)
      else .ok (.declare x.text y.1.text none t.pos, y.2)) :=
    (name_exhausted "type name").bind fun y => rfl
  refine (name_stable _ ts).bind (fun x => ?_) fun x t₁ ts₁ _ => ?_
  · exact (operator_exhausted ":").bind fun _ => htype x
  refine (operator_stable _ (t₁ :: ts₁)).bind (fun c => htype x) fun c t₂ ts₂ _ => ?_
  refine (name_stable _ (t₂ :: ts₂)).bind (fun y => rfl) fun y t₃ ts₃ _ => ?_
  dsimp only
  rw [operatorAhead_cons, operatorAhead_cons, List.drop_one, List.drop_one, List.tail_cons,
    List.tail_cons]
  split
  · exact (expression_stable ts₃).bind (fun _ => rfl) fun _ _ _ _ => stable_ok
  · exact stable_ok

/-- A block and the word that closes it. -/
theorem closedBlock_stable {γ : Type} {n : Nat} (IH : ShorterBlocksStable more n)
    {closers : List String} {f : List Stmt → γ} {ts : List Token} (hn : ts.length < n) :
    Stable more
      ((block closers ts).outcome >>= fun b =>
        (word "END" b.2).outcome >>= fun close => .ok (f b.1, close.2))
      ((block closers (ts ++ more)).outcome >>= fun b =>
        (word "END" b.2).outcome >>= fun close => .ok (f b.1, close.2)) := by
  refine (IH closers ts hn).bind (fun _ => ?_) fun b u rest _ => ?_
  · exact (word_exhausted "END").bind fun _ => rfl
  · exact (word_stable "END" (u :: rest)).bind (fun _ => rfl) fun _ _ _ _ => stable_ok

theorem branch_stable {n : Nat} (IH : ShorterBlocksStable more n) {t : Token} {ts : List Token}
    (hn : ts.length < n) (ht : t.isWord "IF" = true) :
    Stable more (statement (t :: ts)).outcome (statement (t :: (ts ++ more))).outcome := by
  have hlet : ¬ t.isWord "LET" = true := Bool.eq_false_iff.mp (Token.isWord_ne ht (by decide))
  rw [outcome_statement_cons, outcome_statement_cons, if_neg hlet, if_pos ht, if_neg hlet,
    if_pos ht]
  have hblocks (c : Expr) : Exhausted ((block ["ELSE", "END"] []).outcome >>= fun yes =>
      if wordAhead "ELSE" yes.2 then
        (block ["END"] (yes.2.drop 1)).outcome >>= fun no =>
        (word "END" no.2).outcome >>= fun close =>
          .ok (Stmt.branch c yes.1 no.1 t.pos, close.2)
      else (word "END" yes.2).outcome >>= fun close =>
        .ok (.branch c yes.1 [] t.pos, close.2)) :=
    (block_exhausted _).bind fun yes => (word_exhausted "END").bind fun _ => rfl
  refine (expression_stable ts).bind (fun c => ?_) fun c t₁ ts₁ hcond => ?_
  · exact (word_exhausted "THEN").bind fun _ => hblocks c
  have hlen : (t₁ :: ts₁).length < ts.length := length_of_outcome hcond
  refine (word_stable _ (t₁ :: ts₁)).bind (fun w => hblocks c) fun w t₂ ts₂ hw => ?_
  have hlen₁ : (t₂ :: ts₂).length < (t₁ :: ts₁).length := length_of_outcome hw
  refine (IH _ (t₂ :: ts₂) (by omega)).bind (fun yes => ?_) fun yes t₃ ts₃ hyes => ?_
  · exact (word_exhausted "END").bind fun _ => rfl
  have hlen₂ : (t₃ :: ts₃).length < (t₂ :: ts₂).length + 1 := length_of_outcome hyes
  dsimp only
  rw [wordAhead_cons, wordAhead_cons, List.drop_one, List.drop_one, List.tail_cons, List.tail_cons]
  rw [List.length_cons] at hlen₂
  split
  · exact closedBlock_stable (f := fun no => Stmt.branch c yes no t.pos) IH (by omega)
  · exact (word_stable "END" (t₃ :: ts₃)).bind (fun _ => rfl) fun _ _ _ _ => stable_ok

theorem loop_stable {n : Nat} (IH : ShorterBlocksStable more n) {t : Token} {ts : List Token}
    (hn : ts.length < n) (ht : t.isWord "WHILE" = true) :
    Stable more (statement (t :: ts)).outcome (statement (t :: (ts ++ more))).outcome := by
  have hlet : ¬ t.isWord "LET" = true := Bool.eq_false_iff.mp (Token.isWord_ne ht (by decide))
  have hif : ¬ t.isWord "IF" = true := Bool.eq_false_iff.mp (Token.isWord_ne ht (by decide))
  rw [outcome_statement_cons, outcome_statement_cons, if_neg hlet, if_neg hif, if_pos ht,
    if_neg hlet, if_neg hif, if_pos ht]
  have hbody (c : Expr) : Exhausted ((block ["END"] []).outcome >>= fun body =>
      (word "END" body.2).outcome >>= fun close => .ok (Stmt.loop c body.1 t.pos, close.2)) :=
    (block_exhausted _).bind fun body => (word_exhausted "END").bind fun _ => rfl
  refine (expression_stable ts).bind (fun c => ?_) fun c t₁ ts₁ hcond => ?_
  · exact (word_exhausted "DO").bind fun _ => hbody c
  have hlen : (t₁ :: ts₁).length < ts.length := length_of_outcome hcond
  refine (word_stable _ (t₁ :: ts₁)).bind (fun w => hbody c) fun w t₂ ts₂ hw => ?_
  have hlen₁ : (t₂ :: ts₂).length < (t₁ :: ts₁).length := length_of_outcome hw
  dsimp only
  exact closedBlock_stable (f := fun body => Stmt.loop c body t.pos) IH (by omega)

theorem statement_stable {n : Nat} (IH : ShorterBlocksStable more n) {t : Token} {ts : List Token}
    (hn : ts.length < n) :
    Stable more (statement (t :: ts)).outcome (statement (t :: (ts ++ more))).outcome := by
  by_cases hlet : t.isWord "LET" = true
  · exact declaration_stable hlet
  by_cases hif : t.isWord "IF" = true
  · exact branch_stable IH hn hif
  by_cases hwhile : t.isWord "WHILE" = true
  · exact loop_stable IH hn hwhile
  rw [outcome_statement_cons, outcome_statement_cons, if_neg hlet, if_neg hif, if_neg hwhile,
    if_neg hlet, if_neg hif, if_neg hwhile]
  cases ts with
  | cons eq ts =>
      -- whether an assignment stands here is seen from two tokens
      have hahead : assignmentAhead (t :: eq :: (ts ++ more)) = assignmentAhead (t :: eq :: ts) :=
        rfl
      rw [List.cons_append, hahead, List.drop_one, List.drop_one, List.tail_cons, List.tail_cons]
      split
      · exact (expression_stable ts).bind (fun _ => rfl) fun _ _ _ _ => stable_ok
      · exact (expression_stable (t :: eq :: ts)).bind (fun _ => rfl) fun _ _ _ _ => stable_ok
  | nil =>
      have hnone : ¬ assignmentAhead [t] = true := by simp [assignmentAhead, operatorAhead]
      rw [if_neg hnone]
      by_cases hname : t.isName = true
      · -- a name alone is a statement, and it leaves nothing
        rw [expression_name hname]
        exact Exhausted.stable (x := .ok (Stmt.expr (.var t.text t.pos) t.pos, [])) rfl
      · have hmore : ¬ assignmentAhead (t :: ([] ++ more)) = true := by
          simp [assignmentAhead, hname]
        rw [if_neg hmore]
        exact (expression_stable [t]).bind (fun _ => rfl) fun _ _ _ _ => stable_ok

theorem block_shorter_stable : ∀ n : Nat, ShorterBlocksStable more n := by
  intro n
  induction n with
  | zero => intro closers ts hn; exact absurd hn (by simp)
  | succ n ih =>
      intro closers ts hn
      cases ts with
      | nil => exact (block_exhausted closers).stable
      | cons t ts =>
          rw [List.length_cons] at hn
          rw [List.cons_append, outcome_block_cons, outcome_block_cons]
          split
          · exact ih closers ts (by omega)
          split
          · exact stable_ok
          · refine (statement_stable ih (by omega)).bind (fun s => ?_) fun s u rest hs => ?_
            · exact (block_exhausted closers).bind fun _ => rfl
            · have hlen : (u :: rest).length < (t :: ts).length := length_of_outcome hs
              rw [List.length_cons (a := t)] at hlen
              exact (ih closers (u :: rest) (by omega)).bind (fun _ => rfl)
                fun _ _ _ _ => stable_ok

/-- **What the parser does with a block it does again when more tokens follow.** -/
theorem block_stable (closers : List String) (ts : List Token) :
    Stable more (block closers ts).outcome (block closers (ts ++ more)).outcome :=
  block_shorter_stable (ts.length + 1) closers ts (Nat.lt_succ_self _)

/-- A complaint about an expression's end is made only where none may stand. -/
theorem fits_of_block {closers : List String} {ts : List Token} {s : Stuck}
    (h : (block closers ts).outcome = .error s) : s.Fits := by
  have hstable : Stable [] _ _ := block_stable closers ts
  rw [h] at hstable
  exact hstable.1

/-- An error at a token is the same error when more tokens follow. -/
theorem errorAt_append {rest : List Token} (h : rest ≠ []) (ts more : List Token)
    (fault : ParseFault) : errorAt (ts ++ more) (rest ++ more) fault = errorAt ts rest fault := by
  cases rest with
  | nil => exact absurd rfl h
  | cons t rest =>
      simp only [errorAt, List.cons_append, List.length_append, List.length_cons,
        ParseError.mk.injEq, List.isEmpty_cons, and_self, and_true, true_and]
      omega

end Parser

open LetWhile.Parser

/-- The error stands at the last token, which is a name, and complains that no expression ends
there. -/
structure AwaitsAssignment (ts : List Token) (e : ParseError) : Prop where
  last : e.index + 1 = ts.length
  name : ∃ x, ts[e.index]? = some x ∧ x.isName = true
  fault : ∃ found, e.fault = .expectedExpressionEnd found

theorem Parser.Stuck.mendedBy_iff {rest ts more : List Token} {fault : ParseFault}
    (hts : rest <:+ ts) :
    Stuck.MendedBy ⟨rest, .fault fault⟩ more ↔
      AwaitsAssignment ts (errorAt ts rest fault) ∧ operatorAhead "=" more = true := by
  obtain ⟨front, rfl⟩ := hts
  have hindex := Grammar.index_errorAt front rest fault
  constructor
  · rintro ⟨⟨x, hrest, hx⟩, ⟨found, hfault⟩, heq⟩
    dsimp only at hrest
    refine ⟨⟨?_, ⟨x, ?_, hx⟩, found, Obstacle.fault.inj hfault⟩, heq⟩
    · rw [hindex, hrest, List.length_append, List.length_singleton]
    · rw [hindex, hrest, List.getElem?_concat_length]
  · rintro ⟨⟨hlast, ⟨x, hx, hname⟩, ⟨found, hfault⟩⟩, heq⟩
    rw [hindex, List.length_append] at hlast
    have hlen : rest.length = 1 := by omega
    obtain ⟨y, hrest⟩ := List.length_eq_one_iff.mp hlen
    rw [hindex, hrest, List.getElem?_concat_length] at hx
    cases hx
    exact ⟨⟨x, hrest, hname⟩, ⟨found, congrArg Obstacle.fault hfault⟩, heq⟩

namespace Grammar

/-- The exception is a true one: in front of an assignment the complaint is not made again. -/
theorem ofTokens_ne_of_mendedBy {ts rest more : List Token} {fault : ParseFault}
    (h : (block [] ts).outcome = .error ⟨rest, .fault fault⟩)
    (hmended : Stuck.MendedBy ⟨rest, .fault fault⟩ more) :
    Program.ofTokens (ts ++ more) ≠ .error (.refused (errorAt ts rest fault)) := by
  intro hsame
  obtain ⟨⟨x, hx, hname⟩, ⟨found, hfault⟩, heq⟩ := hmended
  obtain ⟨rest', fault', hs', herror⟩ := Program.ofTokens_eq_refused.mp hsame
  obtain ⟨front, -, -, hts, -⟩ := block_completable h
  obtain ⟨front', -, -, hts', -⟩ := block_completable hs'
  dsimp only at hx hts hts'
  -- the same complaint stands at the same place, which is now in front of an assignment
  have hrest : rest' = x :: more := by
    have hindex : ts.length - rest.length = (ts ++ more).length - rest'.length :=
      congrArg ParseError.index herror
    have hlen := congrArg List.length hts
    have hlen' := congrArg List.length hts'
    have hfront : front.length = front'.length := by
      simp only [List.length_append] at hindex hlen hlen'
      omega
    rw [hts, hx, List.append_assoc] at hts'
    exact (List.append_inj hts' hfront).2.symm
  have hsamefault : fault = fault' := congrArg ParseError.fault herror
  have hfollow : mayFollow rest' = false :=
    fits_of_block hs' found ((congrArg Obstacle.fault hsamefault).symm.trans hfault)
  have hahead : assignmentAhead (x :: more) = true := by
    rw [assignmentAhead, hname]
    exact heq
  rw [hrest, mayFollow, hahead, Bool.or_true] at hfollow
  cases hfollow

/-- Without it, the same error is reported. -/
theorem ofTokens_eq_of_not_mendedBy {ts rest more : List Token} {fault : ParseFault}
    (h : (block [] ts).outcome = .error ⟨rest, .fault fault⟩) (hne : rest ≠ [])
    (hmended : ¬ Stuck.MendedBy ⟨rest, .fault fault⟩ more) :
    Program.ofTokens (ts ++ more) = .error (.refused (errorAt ts rest fault)) := by
  have hstable : Stable more _ _ := block_stable [] ts
  rw [h] at hstable
  refine Program.ofTokens_eq_refused.mpr ⟨_, fault, hstable.2 hne hmended, ?_⟩
  exact (errorAt_append hne ts more fault).symm

/--
**An error that is not reported as incomplete is final.** Whatever tokens follow, it is reported
again, at the same place and with the same words. There is one exception, and it is a true one: the
error complains about a name at the very end, and the tokens that follow start with `=`.
-/
theorem ofTokens_error_final (ts : List Token) (e : ParseError)
    (h : Program.ofTokens ts = .error (.refused e)) (hfinal : e.incomplete = false)
    (more : List Token) :
    Program.ofTokens (ts ++ more) = .error (.refused e) ↔
      ¬ (AwaitsAssignment ts e ∧ operatorAhead "=" more = true) := by
  obtain ⟨rest, fault, hs, rfl⟩ := Program.ofTokens_eq_refused.mp h
  obtain ⟨front, -, -, hts, -⟩ := block_completable hs
  have hne : rest ≠ [] := by
    intro hnil
    simp [errorAt, hnil] at hfinal
  rw [← Stuck.mendedBy_iff ⟨front, hts.symm⟩]
  constructor
  · intro hsame hmended
    exact ofTokens_ne_of_mendedBy hs hmended hsame
  · intro hmended
    exact ofTokens_eq_of_not_mendedBy hs hne hmended

/-- The tokens of `x = 1 y`: an assignment, and a name where it should have ended. -/
def strayName : List Token :=
  [.ofWord "x", .ofOperator "=", operandToken, .ofWord "y"]

/-- The error of that input. -/
def strayNameError : ParseError :=
  { pos := {}, index := 3, fault := .expectedExpressionEnd (.token .identifier "y"),
    incomplete := false }

/-- The theorem above, of that input. Behind it, an operator changes nothing, and `=` does. -/
theorem strayName_error_final :
    Program.ofTokens strayName = .error (.refused strayNameError) ∧
      strayNameError.incomplete = false ∧
      Program.ofTokens (strayName ++ [.ofOperator "+", operandToken]) =
        .error (.refused strayNameError) ∧
      Program.ofTokens (strayName ++ [.ofOperator "=", operandToken]) ≠
        .error (.refused strayNameError) := by
  have hstuck : Program.ofTokens strayName = .error (.refused strayNameError) := by
    with_unfolding_all rfl
  have hfinal := ofTokens_error_final strayName strayNameError hstuck rfl
  have hawaits : AwaitsAssignment strayName strayNameError :=
    ⟨rfl, ⟨.ofWord "y", rfl, by decide⟩, _, rfl⟩
  refine ⟨hstuck, rfl, (hfinal _).mpr ?_, fun hsame => (hfinal _).mp hsame ⟨hawaits, rfl⟩⟩
  rintro ⟨-, heq⟩
  exact absurd heq (by decide)

end Grammar

end LetWhile
