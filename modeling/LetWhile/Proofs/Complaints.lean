import LetWhile.Proofs.Outcome
import LetWhile.Proofs.Shapes

/-!
# Complaints about literals

What stands in the way of the parser is of two sorts. Mostly something else should have stood where
the parser was. Else it is the token itself: it is a literal whose text spells none. A text cannot
lead to the second sort if its tokens are what the lexer made of it.

Every function of the parser is built from the same few steps, so what holds of these steps holds of
all of them. `Kept` lists what has to be shown of a relation between the tokens in front of a step
and its outcome, and `Kept.block` is the induction over the parser, done once.
-/

namespace LetWhile

/-- The obstacle that a token is as a literal, if its text does not spell one. -/
def Token.complaint? (t : Token) : Option Parser.Obstacle :=
  match t.kind with
  | .integer =>
    if (Numeral.integer? t.text).isNone then some (.fault (.invalidInteger t.text)) else none
  | .decimal =>
    if (Notation.decimal? t.text).isNone then some (.fault (.invalidDecimal t.text)) else none
  | .string => if t.text.utf8ByteSize < 2 then some (.missingQuotes t.text) else none
  | _ => none

/-- Whether an obstacle is the text of a literal. -/
def Parser.Obstacle.isComplaint : Parser.Obstacle → Bool
  | .fault (.invalidInteger _) => true
  | .fault (.invalidDecimal _) => true
  | .fault _ => false
  | .missingQuotes _ => true

namespace Parser

/-! ## What every step keeps -/

/-- A relation between tokens and what a step makes of them that no step breaks. -/
structure Kept (R : ∀ {α : Type}, List Token → Except Stuck (α × List Token) → Prop) : Prop where
  /-- Nothing is read. -/
  done {α : Type} (a : α) (ts : List Token) : R ts (.ok (a, ts))
  /-- A token is passed. -/
  skip {α : Type} {ts : List Token} {x : Except Stuck (α × List Token)} (t : Token) :
    R ts x → R (t :: ts) x
  /-- A step goes on where another one ended. -/
  bind {α β : Type} {ts : List Token} {x : Except Stuck (α × List Token)}
    {k : α × List Token → Except Stuck (β × List Token)} :
    R ts x → (∀ a rest, x = .ok (a, rest) → R rest (k (a, rest))) → R ts (x >>= k)
  /-- Something else should have stood here. -/
  stuck {α : Type} (ts : List Token) {obstacle : Obstacle} :
    obstacle.isComplaint = false → R ts (.error ⟨ts, obstacle⟩ : Except Stuck (α × List Token))
  /-- The text of a literal spells none. -/
  complain {α : Type} {t : Token} (ts : List Token) {obstacle : Obstacle} :
    t.complaint? = some obstacle →
    R (t :: ts) (.error ⟨t :: ts, obstacle⟩ : Except Stuck (α × List Token))

namespace Kept

variable {R : ∀ {α : Type}, List Token → Except Stuck (α × List Token) → Prop} (K : Kept R)

include K

theorem drop_one {α : Type} {ts : List Token} {x : Except Stuck (α × List Token)}
    (h : R (ts.drop 1) x) : R ts x := by
  cases ts with
  | nil => exact h
  | cons t ts => exact K.skip t h

/-- A step that only changes what was read. -/
theorem map {α β : Type} {ts : List Token} {x : Except Stuck (α × List Token)} (h : R ts x)
    (f : α → β) : R ts (x >>= fun y => .ok (f y.1, y.2)) :=
  K.bind h fun a rest _ => K.done (f a) rest

theorem oneToken {p : Token → Bool} {fault : Found → ParseFault}
    (hfault : ∀ found, (Obstacle.fault (fault found)).isComplaint = false) (ts : List Token) :
    R ts (oneToken p fault ts) := by
  cases ts with
  | nil => exact K.stuck [] (hfault _)
  | cons t ts =>
      rw [Parser.oneToken]
      split
      · exact K.skip t (K.done t ts)
      · exact K.stuck (t :: ts) (hfault _)

theorem operator (op : String) (ts : List Token) : R ts (operator op ts).outcome := by
  rw [outcome_operator]
  exact K.oneToken (fun _ => rfl) ts

theorem word (w : String) (ts : List Token) : R ts (word w ts).outcome := by
  rw [outcome_word]
  exact K.oneToken (fun _ => rfl) ts

theorem name (role : String) (ts : List Token) : R ts (name role ts).outcome := by
  rw [outcome_name]
  exact K.oneToken (fun _ => rfl) ts

/-! ## Expressions

By the number of tokens: what holds of fewer than `n` tokens as an expression holds of an operand
with `n` tokens, and then of the chains of each tier. -/

theorem argumentList {n : Nat} (IH : ∀ ts, ts.length < n → R ts (expression ts).outcome) :
    ∀ (k : Nat) (ts : List Token), ts.length ≤ k → ts.length < n →
      R ts (argumentList ts).outcome := by
  intro k
  induction k using Nat.strongRecOn with
  | ind k ih =>
    intro ts hk hn
    rw [outcome_argumentList]
    refine K.bind (IH ts hn) fun e rest he => ?_
    have hlen : rest.length < ts.length := length_of_outcome he
    dsimp only
    split
    · refine K.drop_one (K.map (ih (rest.drop 1).length ?_ _ (Nat.le_refl _) ?_) (e :: ·))
      · rw [List.length_drop]; omega
      · rw [List.length_drop]; omega
    · exact K.map (K.operator ")" rest) fun _ => [e]

theorem arguments {n : Nat} (IH : ∀ ts, ts.length < n → R ts (expression ts).outcome)
    {ts : List Token} (hn : ts.length < n) : R ts (arguments ts).outcome := by
  rw [outcome_arguments]
  split
  · exact K.drop_one (K.done [] _)
  · exact K.argumentList IH _ ts (Nat.le_refl _) hn

theorem primary {n : Nat} (IH : ∀ ts, ts.length < n → R ts (expression ts).outcome)
    {ts : List Token} (hn : ts.length ≤ n) : R ts (primary ts).outcome := by
  cases ts with
  | nil =>
      rw [outcome_primary_nil]
      exact K.stuck [] rfl
  | cons t ts =>
    rw [List.length_cons] at hn
    have hread (e : Expr) : R (t :: ts) (.ok (e, ts)) := K.skip t (K.done e ts)
    rw [outcome_primary_cons]
    cases hkind : t.kind with
    | identifier =>
        dsimp only
        split
        · exact hread _
        split
        · exact hread _
        split
        · split
          · have hargs : R (ts.drop 1) (Parser.arguments (ts.drop 1)).outcome :=
              K.arguments IH (by rw [List.length_drop]; omega)
            exact K.skip t (K.drop_one (K.map hargs fun args => Expr.call t.text args t.pos))
          · exact hread _
        · exact K.stuck (t :: ts) rfl
    | integer =>
        dsimp only
        split
        · exact hread _
        · next hnone =>
          exact K.complain ts (by simp [Token.complaint?, hkind, hnone])
    | decimal =>
        dsimp only
        split
        · exact hread _
        · next hnone =>
          exact K.complain ts (by simp [Token.complaint?, hkind, hnone])
    | string =>
        dsimp only
        split
        · next hshort =>
          exact K.complain ts (by simp [Token.complaint?, hkind, hshort])
        · exact hread _
    | operator =>
        dsimp only
        split
        · refine K.skip t (K.bind (IH ts (by omega)) fun e rest _ => ?_)
          exact K.map (K.operator ")" rest) fun _ => Expr.group e t.pos
        · exact K.stuck (t :: ts) rfl
    | unknown => exact K.stuck (t :: ts) rfl

theorem joined {t : Tier} {n : Nat}
    (H : ∀ ts : List Token, ts.length ≤ n → R ts (operand t ts).outcome) :
    ∀ (k : Nat) (left : Expr) (ts : List Token), ts.length ≤ k → ts.length ≤ n →
      R ts (joined t left ts).outcome := by
  intro k
  induction k using Nat.strongRecOn with
  | ind k ih =>
    intro left ts hk hn
    cases ts with
    | nil =>
        rw [outcome_joined_nil]
        exact K.done left []
    | cons op ts =>
        rw [List.length_cons] at hk hn
        rw [outcome_joined_cons]
        split
        · refine K.skip op (K.bind (H ts (by omega)) fun right rest hright => ?_)
          have hlen : rest.length < ts.length := length_of_outcome hright
          exact ih rest.length (by omega) _ rest (Nat.le_refl _) (by omega)
        · exact K.done left (op :: ts)

theorem tier {t : Tier} {n : Nat}
    (H : ∀ ts : List Token, ts.length ≤ n → R ts (operand t ts).outcome) {ts : List Token}
    (hn : ts.length ≤ n) : R ts (tier t ts).outcome := by
  rw [outcome_tier]
  refine K.bind (H ts hn) fun first rest hfirst => ?_
  have hlen : rest.length < ts.length := length_of_outcome hfirst
  exact K.joined H _ first rest (Nat.le_refl _) (by omega)

theorem operand {n : Nat} (IH : ∀ ts, ts.length < n → R ts (expression ts).outcome) (t : Tier) :
    ∀ ts : List Token, ts.length ≤ n → R ts (operand t ts).outcome := by
  have hprimary : ∀ ts : List Token, ts.length ≤ n →
      R ts (Parser.operand .multiplicative ts).outcome := by
    intro ts hn
    rw [outcome_operand_multiplicative]
    refine K.bind (K.primary IH hn) fun e rest _ => ?_
    dsimp only
    split
    · exact K.done e rest
    · exact K.stuck rest rfl
  have hproduct : ∀ ts : List Token, ts.length ≤ n →
      R ts (Parser.operand .additive ts).outcome := by
    intro ts hn
    rw [outcome_operand_additive]
    exact K.tier hprimary hn
  cases t with
  | multiplicative => exact hprimary
  | additive => exact hproduct
  | equality =>
      intro ts hn
      rw [outcome_operand_equality]
      exact K.tier hproduct hn

theorem expression_shorter :
    ∀ (n : Nat) (ts : List Token), ts.length < n → R ts (expression ts).outcome := by
  intro n
  induction n with
  | zero => intro ts hn; exact absurd hn (by simp)
  | succ n ih =>
      intro ts hn
      exact K.tier (K.operand ih .equality) (by omega)

theorem expression (ts : List Token) : R ts (expression ts).outcome :=
  K.expression_shorter (ts.length + 1) ts (Nat.lt_succ_self _)

/-! ## Statements -/

theorem statement {n : Nat}
    (IH : ∀ closers ts, ts.length < n → R ts (block closers ts).outcome) {ts : List Token}
    (hn : ts.length ≤ n) : R ts (statement ts).outcome := by
  cases ts with
  | nil =>
      rw [outcome_statement_nil]
      exact K.stuck [] rfl
  | cons t ts =>
    rw [List.length_cons] at hn
    rw [outcome_statement_cons]
    split
    · refine K.skip t (K.bind (K.name _ ts) fun x ts₁ _ => ?_)
      refine K.bind (K.operator ":" ts₁) fun c ts₂ _ => ?_
      refine K.bind (K.name _ ts₂) fun y ts₃ _ => ?_
      dsimp only
      split
      · exact K.drop_one (K.map (K.expression _) fun e => Stmt.declare x.text y.text (some e) t.pos)
      · exact K.done _ ts₃
    split
    · refine K.skip t (K.bind (K.expression ts) fun c ts₁ hc => ?_)
      have hlen₁ : ts₁.length < ts.length := length_of_outcome hc
      refine K.bind (K.word "THEN" ts₁) fun w ts₂ hw => ?_
      have hlen₂ : ts₂.length < ts₁.length := length_of_outcome hw
      refine K.bind (IH _ ts₂ (by omega)) fun yes ts₃ hyes => ?_
      have hlen₃ : ts₃.length < ts₂.length + 1 := length_of_outcome hyes
      dsimp only
      split
      · refine K.drop_one (K.bind (IH _ _ ?_) fun no ts₄ _ => ?_)
        · rw [List.length_drop]; omega
        · exact K.map (K.word "END" ts₄) fun _ => Stmt.branch c yes no t.pos
      · exact K.map (K.word "END" ts₃) fun _ => Stmt.branch c yes [] t.pos
    split
    · refine K.skip t (K.bind (K.expression ts) fun c ts₁ hc => ?_)
      have hlen₁ : ts₁.length < ts.length := length_of_outcome hc
      refine K.bind (K.word "DO" ts₁) fun w ts₂ hw => ?_
      have hlen₂ : ts₂.length < ts₁.length := length_of_outcome hw
      refine K.bind (IH _ ts₂ (by omega)) fun body ts₃ _ => ?_
      exact K.map (K.word "END" ts₃) fun _ => Stmt.loop c body t.pos
    split
    · exact K.skip t (K.drop_one (K.map (K.expression _) fun e => Stmt.assign t.text e t.pos))
    · exact K.map (K.expression (t :: ts)) fun e => Stmt.expr e e.pos

theorem block_shorter :
    ∀ (n : Nat) (closers : List String) (ts : List Token), ts.length < n →
      R ts (block closers ts).outcome := by
  intro n
  induction n with
  | zero => intro closers ts hn; exact absurd hn (by simp)
  | succ n ih =>
      intro closers ts hn
      cases ts with
      | nil =>
          rw [outcome_block_nil]
          split
          · exact K.done [] []
          · exact K.stuck [] rfl
      | cons t ts =>
          rw [List.length_cons] at hn
          rw [outcome_block_cons]
          split
          · exact K.skip t (ih closers ts (by omega))
          split
          · exact K.done [] (t :: ts)
          · refine K.bind (K.statement ih (by rw [List.length_cons]; omega)) fun s rest hs => ?_
            have hlen : rest.length < (t :: ts).length := length_of_outcome hs
            rw [List.length_cons] at hlen
            exact K.map (ih closers rest (by omega)) (s :: ·)

/-- **What every step keeps, the parser keeps.** -/
theorem block (closers : List String) (ts : List Token) : R ts (block closers ts).outcome :=
  K.block_shorter (ts.length + 1) closers ts (Nat.lt_succ_self _)

end Kept

/-! ## Complaints are about tokens -/

/-- What is left is part of what was there, and a complaint is about a token that was there. -/
def Justified {α : Type} (ts : List Token) (x : Except Stuck (α × List Token)) : Prop :=
  match x with
  | .ok y => y.2 ⊆ ts
  | .error s => s.obstacle.isComplaint = true → ∃ t ∈ ts, t.complaint? = some s.obstacle

theorem kept_justified : Kept @Justified where
  done _ ts := List.Subset.refl ts
  skip {α ts x} t h := by
    cases x with
    | ok y => exact List.subset_cons_of_subset t h
    | error s =>
        intro hs
        obtain ⟨u, hu, hcomplaint⟩ := h hs
        exact ⟨u, List.mem_cons_of_mem t hu, hcomplaint⟩
  bind {α β ts x k} hx hk := by
    rcases x with s | ⟨a, rest⟩
    · exact hx
    · have hnext := hk a rest rfl
      rw [ok_bind]
      cases hy : k (a, rest) with
      | ok y =>
          rw [hy] at hnext
          exact List.Subset.trans hnext hx
      | error s =>
          rw [hy] at hnext
          intro hs
          obtain ⟨t, ht, hcomplaint⟩ := hnext hs
          exact ⟨t, hx ht, hcomplaint⟩
  stuck ts obstacle h := fun hcomplaint => absurd hcomplaint (by rw [h]; decide)
  complain ts obstacle h := fun _ => ⟨_, List.mem_cons_self, h⟩

/-- **A complaint about a literal is about one of the tokens.** -/
theorem exists_complaint {ts : List Token} {s : Stuck} (h : (block [] ts).outcome = .error s)
    (hs : s.obstacle.isComplaint = true) : ∃ t ∈ ts, t.complaint? = some s.obstacle := by
  have hblock := kept_justified.block [] ts
  rw [h] at hblock
  exact hblock hs

end Parser

/-! ## The tokens of a text -/

open Lexer in
/-- Every token of a text has the shape of its kind. -/
theorem Lexer.shape_of_mem_tokens {pos : Position} {gs : List Glyph} {ts : List Token}
    (h : tokens pos gs = .ok ts) : ∀ t ∈ ts, ∃ rest, Shape t.kind t.text.toList rest := by
  induction pos, gs using lexing_induction generalizing ts with
  | nil pos => rw [tokens_nil] at h; cases h; simp
  | stray pos b gs => rw [tokens_stray] at h; cases h
  | space pos c gs hc ih => rw [tokens_space hc] at h; exact ih h
  | broken pos c gs e hc hl => rw [tokens_char hc, hl] at h; cases h
  | token pos c gs l hc hl ih =>
      rw [tokens_char hc, hl, ok_bind, bind_eq_ok] at h
      obtain ⟨us, hus, h⟩ := h
      cases h
      intro t ht
      rcases List.mem_cons.mp ht with rfl | ht
      · refine ⟨l.rest, ?_⟩
        rw [String.toList_ofList]
        exact lexeme_shape hc hl
      · exact ih hus t ht

/-- A string token of a text has its two quotes. -/
theorem Token.quoted_of_lex {source : List UInt8} {ts : List Token} (h : Token.lex source = .ok ts)
    {t : Token} (ht : t ∈ ts) (hkind : t.kind = .string) :
    ∃ body, t.text.toList = '"' :: body ++ ['"'] := by
  obtain ⟨rest, hshape⟩ := Lexer.shape_of_mem_tokens h t ht
  rw [hkind] at hshape
  generalize htext : t.text.toList = text at hshape
  cases hshape with
  | string _ => exact ⟨_, rfl⟩

/-- **No text makes the parser break off.** -/
theorem Program.not_panicked {source : List UInt8} {ts : List Token}
    (hlex : Token.lex source = .ok ts) (text : String) :
    Program.ofTokens ts ≠ .error (.panicked text) := by
  intro h
  obtain ⟨rest, hs⟩ := Program.ofTokens_eq_panicked.mp h
  obtain ⟨t, ht, hcomplaint⟩ := Parser.exists_complaint hs rfl
  rw [Token.complaint?] at hcomplaint
  split at hcomplaint
  · split at hcomplaint <;> simp at hcomplaint
  · split at hcomplaint <;> simp at hcomplaint
  · next hkind =>
    obtain ⟨body, htext⟩ := Token.quoted_of_lex hlex ht hkind
    rw [if_neg (two_le_of_quoted htext)] at hcomplaint
    cases hcomplaint
  · cases hcomplaint

end LetWhile
