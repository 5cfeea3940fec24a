import LetWhile.Program.Parser
import LetWhile.Proofs.Steps

/-!
# What the parser does, without its bounds

A reading carries the proof that it left fewer tokens than it was given, which is what makes the
parser's recursion end. Nothing that is proved about programs cares for that proof, and it gets in
the way of every equation. `Result.outcome` forgets it, and each function of the parser is unfolded
here once, into an equation between outcomes. The modules behind this one use these equations and
never the definitions.
-/

namespace LetWhile

/-! ## Classes of tokens -/

theorem Token.isOperator_iff {t : Token} {op : String} :
    t.isOperator op = true ↔ t.kind = .operator ∧ t.text = op := by
  simp [Token.isOperator]

theorem Token.isWord_iff {t : Token} {w : String} :
    t.isWord w = true ↔ t.kind = .identifier ∧ t.text = w := by
  simp [Token.isWord]

theorem Token.isName_iff {t : Token} :
    t.isName = true ↔ t.kind = .identifier ∧ t.text ∉ Token.keywords := by
  simp [Token.isName]

/-- A token is at most one operator. -/
theorem Token.isOperator_ne {t : Token} {op op' : String} (h : t.isOperator op = true)
    (hne : op ≠ op') : t.isOperator op' = false := by
  rw [Bool.eq_false_iff]
  intro h'
  exact hne ((Token.isOperator_iff.mp h).2.symm.trans (Token.isOperator_iff.mp h').2)

/-- A token is at most one word. -/
theorem Token.isWord_ne {t : Token} {w w' : String} (h : t.isWord w = true) (hne : w ≠ w') :
    t.isWord w' = false := by
  rw [Bool.eq_false_iff]
  intro h'
  exact hne ((Token.isWord_iff.mp h).2.symm.trans (Token.isWord_iff.mp h').2)

/-- A word is no operator. -/
theorem Token.isOperator_eq_false_of_isWord {t : Token} {w op : String} (h : t.isWord w = true) :
    t.isOperator op = false := by
  simp [Token.isOperator, (Token.isWord_iff.mp h).1]

/-- A keyword is no name. -/
theorem Token.isWord_eq_false_of_isName {t : Token} {w : String} (h : t.isName = true)
    (hw : w ∈ Token.keywords) : t.isWord w = false := by
  rw [Bool.eq_false_iff]
  intro h'
  exact (Token.isName_iff.mp h).2 ((Token.isWord_iff.mp h').2 ▸ hw)

/-- The operator `op` as a token, at no place in particular. -/
def Token.ofOperator (op : String) : Token := { kind := .operator, text := op, pos := {} }

/-- The identifier `word` as a token, at no place in particular. -/
def Token.ofWord (word : String) : Token := { kind := .identifier, text := word, pos := {} }

@[simp]
theorem Token.isOperator_ofOperator (op : String) : (Token.ofOperator op).isOperator op = true :=
  Token.isOperator_iff.mpr ⟨rfl, rfl⟩

@[simp]
theorem Token.isWord_ofWord (w : String) : (Token.ofWord w).isWord w = true :=
  Token.isWord_iff.mpr ⟨rfl, rfl⟩

namespace Parser

variable {α β : Type} {n m : Nat}

/-- What was read and what is left, without the bound. -/
def Result.outcome (r : Result α n) : Except Stuck (α × List Token) :=
  match r with
  | .ok x => .ok (x.value, x.rest)
  | .error s => .error s

@[simp]
theorem outcome_ok (x : Reading α n) : Result.outcome (.ok x) = .ok (x.value, x.rest) := rfl

@[simp]
theorem outcome_error (s : Stuck) : Result.outcome (.error s : Result α n) = .error s := rfl

@[simp]
theorem outcome_stuck (ts : List Token) (fault : ParseFault) :
    Result.outcome (stuck ts fault : Result α n) =
      .error { rest := ts, obstacle := .fault fault } := rfl

/-- The bound that `outcome` forgets. -/
theorem length_of_outcome {r : Result α n} {a : α} {rest : List Token}
    (h : r.outcome = .ok (a, rest)) : rest.length < n := by
  cases r with
  | error s => exact absurd h (by simp)
  | ok x =>
      rw [outcome_ok] at h
      injection h with h
      injection h with _ hr
      rw [← hr]
      exact x.fits

/-- Besides the bound, `outcome` forgets nothing. -/
theorem eq_of_outcome {r : Result α n} {a : α} {rest : List Token}
    (h : r.outcome = .ok (a, rest)) : ∃ fits, r = .ok ⟨a, rest, fits⟩ := by
  cases r with
  | error s => exact absurd h (by simp)
  | ok x =>
      rw [outcome_ok] at h
      injection h with h
      injection h with ha hrest
      subst ha
      subst hrest
      exact ⟨x.fits, rfl⟩

/-- Steps of the parser are chained by what they leave, so their outcomes are too. -/
theorem outcome_bind {r : Result α n} {f : Reading α n → Result β m}
    {g : α × List Token → Except Stuck (β × List Token)}
    (h : ∀ x : Reading α n, (f x).outcome = g (x.value, x.rest)) :
    Result.outcome (r >>= f) = r.outcome >>= g := by
  cases r with
  | error s => rfl
  | ok x => exact h x

/-! ## One token -/

/-- The outcome of reading a single token that has to satisfy `p`. -/
def oneToken (p : Token → Bool) (fault : Found → ParseFault) (ts : List Token) :
    Except Stuck (Token × List Token) :=
  match ts with
  | [] => .error { rest := [], obstacle := .fault (fault .endOfInput) }
  | t :: rest =>
    if p t then .ok (t, rest)
    else .error { rest := t :: rest, obstacle := .fault (fault (.ofTokens (t :: rest))) }

theorem oneToken_eq_ok {p : Token → Bool} {fault : Found → ParseFault} {ts : List Token}
    {t : Token} {rest : List Token} :
    oneToken p fault ts = .ok (t, rest) ↔ ts = t :: rest ∧ p t = true := by
  cases ts with
  | nil => simp [oneToken]
  | cons u us =>
      rw [oneToken]
      split
      · next hu =>
        constructor
        · intro h; injection h with h; injection h with h1 h2; subst h1; subst h2
          exact ⟨rfl, hu⟩
        · rintro ⟨h, _⟩; injection h with h1 h2; rw [h1, h2]
      · next hu =>
        constructor
        · intro h; exact absurd h (by simp)
        · rintro ⟨h, ht⟩; injection h with h1 h2; exact absurd (h1 ▸ ht) hu

theorem outcome_operator (op : String) (ts : List Token) :
    (operator op ts).outcome = oneToken (·.isOperator op) (.expectedOperator op) ts := by
  cases ts with
  | nil => rfl
  | cons t rest =>
      rw [operator, oneToken]
      split <;> rfl

theorem outcome_word (w : String) (ts : List Token) :
    (word w ts).outcome = oneToken (·.isWord w) (.expectedWord w) ts := by
  cases ts with
  | nil => rfl
  | cons t rest =>
      rw [word, oneToken]
      split <;> rfl

theorem outcome_name (role : String) (ts : List Token) :
    (name role ts).outcome = oneToken Token.isName (.expectedName role) ts := by
  cases ts with
  | nil => rfl
  | cons t rest =>
      rw [name, oneToken]
      split <;> rfl

section OneToken

variable {t : Token} {ts rest : List Token}

theorem outcome_operator_of {op : String} (h : t.isOperator op = true) :
    (operator op (t :: rest)).outcome = .ok (t, rest) := by
  rw [outcome_operator]; exact oneToken_eq_ok.mpr ⟨rfl, h⟩

theorem outcome_word_of {w : String} (h : t.isWord w = true) :
    (word w (t :: rest)).outcome = .ok (t, rest) := by
  rw [outcome_word]; exact oneToken_eq_ok.mpr ⟨rfl, h⟩

theorem outcome_name_of {role : String} (h : t.isName = true) :
    (name role (t :: rest)).outcome = .ok (t, rest) := by
  rw [outcome_name]; exact oneToken_eq_ok.mpr ⟨rfl, h⟩

variable {f : Token × List Token → Except Stuck (β × List Token)} {b : β × List Token}

theorem oneToken_bind_eq_ok {p : Token → Bool} {fault : Found → ParseFault}
    (h : oneToken p fault ts >>= f = .ok b) :
    ∃ t rest, ts = t :: rest ∧ p t = true ∧ f (t, rest) = .ok b := by
  obtain ⟨⟨t, rest⟩, hread, hf⟩ := bind_eq_ok.mp h
  obtain ⟨hts, ht⟩ := oneToken_eq_ok.mp hread
  exact ⟨t, rest, hts, ht, hf⟩

/-- Reading a single token fails in front of it, or something fails behind it. -/
theorem oneToken_bind_eq_error {p : Token → Bool} {fault : Found → ParseFault} {s : Stuck}
    (h : oneToken p fault ts >>= f = .error s) :
    s.rest = ts ∨ ∃ t rest, ts = t :: rest ∧ p t = true ∧ f (t, rest) = .error s := by
  rcases bind_eq_error.mp h with hread | ⟨⟨t, rest⟩, hread, hf⟩
  · left
    cases ts with
    | nil => cases hread; rfl
    | cons t ts =>
        rw [oneToken] at hread
        split at hread
        · cases hread
        · cases hread; rfl
  · obtain ⟨hts, ht⟩ := oneToken_eq_ok.mp hread
    exact .inr ⟨t, rest, hts, ht, hf⟩

theorem operator_bind_eq_ok {op : String} (h : (operator op ts).outcome >>= f = .ok b) :
    ∃ t rest, ts = t :: rest ∧ t.isOperator op = true ∧ f (t, rest) = .ok b := by
  rw [outcome_operator] at h; exact oneToken_bind_eq_ok h

theorem word_bind_eq_ok {w : String} (h : (word w ts).outcome >>= f = .ok b) :
    ∃ t rest, ts = t :: rest ∧ t.isWord w = true ∧ f (t, rest) = .ok b := by
  rw [outcome_word] at h; exact oneToken_bind_eq_ok h

theorem name_bind_eq_ok {role : String} (h : (name role ts).outcome >>= f = .ok b) :
    ∃ t rest, ts = t :: rest ∧ t.isName = true ∧ f (t, rest) = .ok b := by
  rw [outcome_name] at h; exact oneToken_bind_eq_ok h

theorem operator_bind_eq_error {op : String} {s : Stuck}
    (h : (operator op ts).outcome >>= f = .error s) :
    s.rest = ts ∨ ∃ t rest, ts = t :: rest ∧ t.isOperator op = true ∧ f (t, rest) = .error s := by
  rw [outcome_operator] at h; exact oneToken_bind_eq_error h

theorem word_bind_eq_error {w : String} {s : Stuck}
    (h : (word w ts).outcome >>= f = .error s) :
    s.rest = ts ∨ ∃ t rest, ts = t :: rest ∧ t.isWord w = true ∧ f (t, rest) = .error s := by
  rw [outcome_word] at h; exact oneToken_bind_eq_error h

theorem name_bind_eq_error {role : String} {s : Stuck}
    (h : (name role ts).outcome >>= f = .error s) :
    s.rest = ts ∨ ∃ t rest, ts = t :: rest ∧ t.isName = true ∧ f (t, rest) = .error s := by
  rw [outcome_name] at h; exact oneToken_bind_eq_error h

end OneToken

/-! ## Expressions -/

theorem outcome_tier (t : Tier) (ts : List Token) :
    (tier t ts).outcome = (operand t ts).outcome >>= fun x => (joined t x.1 x.2).outcome := by
  rw [tier]
  refine outcome_bind fun x => ?_
  cases joined t x.value x.rest <;> rfl

theorem outcome_operand_equality (ts : List Token) :
    (operand .equality ts).outcome = (tier .additive ts).outcome := by
  rw [operand]

theorem outcome_operand_additive (ts : List Token) :
    (operand .additive ts).outcome = (tier .multiplicative ts).outcome := by
  rw [operand]

theorem outcome_operand_multiplicative (ts : List Token) :
    (operand .multiplicative ts).outcome = (primary ts).outcome >>= fun x =>
      if mayFollow x.2 then .ok x
      else .error { rest := x.2, obstacle := .fault (.expectedExpressionEnd (.ofTokens x.2)) } := by
  rw [operand]
  refine outcome_bind fun x => ?_
  dsimp only
  split <;> rfl

theorem outcome_joined_nil (t : Tier) (left : Expr) :
    (joined t left []).outcome = .ok (left, []) := by
  rw [joined]
  rfl

theorem outcome_joined_cons (t : Tier) (left : Expr) (op : Token) (rest : List Token) :
    (joined t left (op :: rest)).outcome =
      if t.has op then (operand t rest).outcome >>= fun x =>
        (joined t (.binary op.text left x.1 op.pos) x.2).outcome
      else .ok (left, op :: rest) := by
  rw [joined]
  split
  · refine outcome_bind fun x => ?_
    dsimp only
    cases joined t (.binary op.text left x.value op.pos) x.rest <;> rfl
  · rfl

theorem outcome_primary_nil :
    (primary []).outcome = .error { rest := [], obstacle := .fault .expectedExpression } := by
  rw [primary]
  rfl

/-- The equation of an operand, by the kind of its first token. A name is a call when a parenthesis
opens behind it. -/
theorem outcome_primary_cons (t : Token) (rest : List Token) :
    (primary (t :: rest)).outcome =
      match t.kind with
      | .identifier =>
        if t.text = "TRUE" then .ok (.literal (.bool true) t.pos, rest)
        else if t.text = "FALSE" then .ok (.literal (.bool false) t.pos, rest)
        else if t.isName then
          if operatorAhead "(" rest then
            (arguments (rest.drop 1)).outcome >>= fun x => .ok (.call t.text x.1 t.pos, x.2)
          else .ok (.var t.text t.pos, rest)
        else .error { rest := t :: rest, obstacle := .fault (.keywordInExpression t.text) }
      | .integer =>
        match Numeral.integer? t.text with
        | some n => .ok (.literal (.integer n) t.pos, rest)
        | none => .error { rest := t :: rest, obstacle := .fault (.invalidInteger t.text) }
      | .decimal =>
        match Notation.decimal? t.text with
        | some q => .ok (.literal (.ratio q) t.pos, rest)
        | none => .error { rest := t :: rest, obstacle := .fault (.invalidDecimal t.text) }
      | .string =>
        if t.text.utf8ByteSize < 2 then
          .error { rest := t :: rest, obstacle := .missingQuotes t.text }
        else .ok (.literal (.ofBytes (literalText t.text)) t.pos, rest)
      | .operator =>
        if t.text = "(" then
          (tier .equality rest).outcome >>= fun x =>
            (operator ")" x.2).outcome >>= fun y => .ok (.group x.1 t.pos, y.2)
        else .error
          { rest := t :: rest
            obstacle := .fault (.unexpectedInExpression (.ofTokens (t :: rest))) }
      | .unknown => .error
          { rest := t :: rest
            obstacle := .fault (.unexpectedInExpression (.ofTokens (t :: rest))) } := by
  rw [primary.eq_def]
  dsimp only
  cases t.kind with
  | identifier =>
      dsimp only
      split
      · rfl
      split
      · rfl
      split
      · cases rest with
        | nil => rfl
        | cons p inside =>
            by_cases hp : p.isOperator "(" = true
            · simp only [operatorAhead, hp, if_true]
              exact outcome_bind fun x => rfl
            · simp only [operatorAhead, hp]
              rfl
      · rfl
  | integer => dsimp only; cases Numeral.integer? t.text <;> rfl
  | decimal => dsimp only; cases Notation.decimal? t.text <;> rfl
  | string => dsimp only; split <;> rfl
  | operator =>
      dsimp only
      split
      · exact outcome_bind fun x => outcome_bind fun y => rfl
      · rfl
  | unknown => rfl

theorem outcome_primary_name {t : Token} (h : t.isName = true) (rest : List Token) :
    (primary (t :: rest)).outcome =
      if operatorAhead "(" rest then
        (arguments (rest.drop 1)).outcome >>= fun x => .ok (.call t.text x.1 t.pos, x.2)
      else .ok (.var t.text t.pos, rest) := by
  obtain ⟨hk, hw⟩ := Token.isName_iff.mp h
  have hne : ∀ w ∈ Token.keywords, t.text ≠ w := fun w hmem he => hw (he ▸ hmem)
  rw [outcome_primary_cons, hk]
  simp only [if_neg (hne "TRUE" (by decide)), if_neg (hne "FALSE" (by decide)), h, if_true]

theorem outcome_arguments (ts : List Token) :
    (arguments ts).outcome =
      if operatorAhead ")" ts then .ok ([], ts.drop 1) else (argumentList ts).outcome := by
  rw [arguments]
  split
  · rfl
  · cases argumentList ts <;> rfl

theorem outcome_argumentList (ts : List Token) :
    (argumentList ts).outcome = (tier .equality ts).outcome >>= fun x =>
      if operatorAhead "," x.2 then
        (argumentList (x.2.drop 1)).outcome >>= fun y => .ok (x.1 :: y.1, y.2)
      else (operator ")" x.2).outcome >>= fun y => .ok ([x.1], y.2) := by
  rw [argumentList]
  refine outcome_bind fun x => ?_
  dsimp only
  split
  · exact outcome_bind fun y => rfl
  · exact outcome_bind fun y => rfl

/-! ## Statements -/

/-- The equation of a statement, by the word that it starts with. -/
theorem outcome_statement_cons (t : Token) (rest : List Token) :
    (statement (t :: rest)).outcome =
      if t.isWord "LET" then
        (name "variable name" rest).outcome >>= fun x =>
        (operator ":" x.2).outcome >>= fun c =>
        (name "type name" c.2).outcome >>= fun y =>
        if operatorAhead "=" y.2 then
          (expression (y.2.drop 1)).outcome >>= fun e =>
            .ok (.declare x.1.text y.1.text (some e.1) t.pos, e.2)
        else .ok (.declare x.1.text y.1.text none t.pos, y.2)
      else if t.isWord "IF" then
        (expression rest).outcome >>= fun c =>
        (word "THEN" c.2).outcome >>= fun w =>
        (block ["ELSE", "END"] w.2).outcome >>= fun yes =>
        if wordAhead "ELSE" yes.2 then
          (block ["END"] (yes.2.drop 1)).outcome >>= fun no =>
          (word "END" no.2).outcome >>= fun close =>
            .ok (.branch c.1 yes.1 no.1 t.pos, close.2)
        else (word "END" yes.2).outcome >>= fun close =>
          .ok (.branch c.1 yes.1 [] t.pos, close.2)
      else if t.isWord "WHILE" then
        (expression rest).outcome >>= fun c =>
        (word "DO" c.2).outcome >>= fun w =>
        (block ["END"] w.2).outcome >>= fun body =>
        (word "END" body.2).outcome >>= fun close =>
          .ok (.loop c.1 body.1 t.pos, close.2)
      else if assignmentAhead (t :: rest) then
        (expression (rest.drop 1)).outcome >>= fun e => .ok (.assign t.text e.1 t.pos, e.2)
      else (expression (t :: rest)).outcome >>= fun e => .ok (.expr e.1 e.1.pos, e.2) := by
  rw [statement]
  split
  · refine outcome_bind fun x => outcome_bind fun c => outcome_bind fun y => ?_
    dsimp only
    split
    · exact outcome_bind fun e => rfl
    · rfl
  split
  · refine outcome_bind fun c => outcome_bind fun w => outcome_bind fun yes => ?_
    dsimp only
    split
    · exact outcome_bind fun no => outcome_bind fun close => rfl
    · exact outcome_bind fun close => rfl
  split
  · exact outcome_bind fun c => outcome_bind fun w => outcome_bind fun body =>
      outcome_bind fun close => rfl
  split
  · exact outcome_bind fun e => rfl
  · exact outcome_bind fun e => rfl

theorem outcome_statement_nil :
    (statement []).outcome = .error { rest := [], obstacle := .fault .expectedExpression } := by
  rw [statement]
  rfl

theorem outcome_block_nil (closers : List String) :
    (block closers []).outcome =
      if closers.isEmpty then .ok ([], [])
      else .error { rest := [], obstacle := .fault (.unclosedBlock closers) } := by
  rw [block]
  split <;> rfl

theorem outcome_block_cons (closers : List String) (t : Token) (rest : List Token) :
    (block closers (t :: rest)).outcome =
      if t.isOperator ";" then (block closers rest).outcome
      else if t.kind = .identifier && closers.contains t.text then .ok ([], t :: rest)
      else (statement (t :: rest)).outcome >>= fun s =>
        (block closers s.2).outcome >>= fun all => .ok (s.1 :: all.1, all.2) := by
  rw [block]
  split
  · cases block closers rest <;> rfl
  split
  · rfl
  · exact outcome_bind fun s => outcome_bind fun all => rfl

end Parser

/-- A program is what its tokens hold up to their end. -/
theorem Program.ofTokens_eq_ok {ts : List Token} {p : Program} :
    Program.ofTokens ts = .ok p ↔ ∃ rest, (Parser.block [] ts).outcome = .ok (p, rest) := by
  rw [Program.ofTokens]
  cases Parser.block [] ts with
  | error s => simp
  | ok x => simp

/-- An error is what the parser says of the fault that it found. -/
theorem Program.ofTokens_eq_refused {ts : List Token} {e : ParseError} :
    Program.ofTokens ts = .error (.refused e) ↔
      ∃ rest fault, (Parser.block [] ts).outcome = .error { rest, obstacle := .fault fault } ∧
        e = Parser.errorAt ts rest fault := by
  rw [Program.ofTokens]
  cases Parser.block [] ts with
  | ok x => simp
  | error s =>
      obtain ⟨rest, obstacle⟩ := s
      constructor
      · intro h
        cases obstacle with
        | fault fault => cases h; exact ⟨rest, fault, rfl, rfl⟩
        | missingQuotes text => cases h
      · rintro ⟨rest', fault, hs, rfl⟩
        cases hs
        rfl

/-- Reading breaks off where the parser met a string token without room for its quotes. -/
theorem Program.ofTokens_eq_panicked {ts : List Token} {text : String} :
    Program.ofTokens ts = .error (.panicked text) ↔
      ∃ rest, (Parser.block [] ts).outcome = .error { rest, obstacle := .missingQuotes text } := by
  rw [Program.ofTokens]
  cases Parser.block [] ts with
  | ok x => simp
  | error s =>
      obtain ⟨rest, obstacle⟩ := s
      constructor
      · intro h
        cases obstacle with
        | fault fault => cases h
        | missingQuotes text => cases h; exact ⟨rest, rfl⟩
      · rintro ⟨rest', hs⟩
        cases hs
        rfl

end LetWhile
