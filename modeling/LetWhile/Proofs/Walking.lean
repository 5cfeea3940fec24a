import LetWhile.Proofs.Completion

/-!
# The parser as loops over an index

The parser is written by recursion on the tokens that are left, and every reading carries the proof
that it left fewer. Here it is written a second time, the way a machine runs it. A walk moves an
index over tokens that stay where they are; its loops go on until a token tells them to stop; and a
walk that fails does not move the index back. Nothing in these definitions says that an index grows,
and nothing keeps a loop from going around for ever.

So a walk gets fuel, one unit for each time around a loop and for each level of nesting, and is left
`unfinished` without it. With more fuel than there are tokens ahead this does not happen: from every
index a walk ends, and tells what the recursive parser tells of the tokens behind that index. This
is `Reads`, and each function of the parser has its lemma. That fuel is never used up in vain comes
from the recursive parser, of which it is known that it takes a token whenever it succeeds.
-/

namespace LetWhile.Parser

/-! ## Walks -/

/-- How a walk ends: with a value or without one, and the index where it stands then. The last way
is not to end within the fuel that it was given. -/
inductive Ending (α : Type) where
  | done (value : α) (index : Nat)
  | failed (failure : ParseFailure) (index : Nat)
  | unfinished

/-- A walk can start at any index. -/
structure Walk (α : Type) where
  run : (i : Nat) → Ending α

instance : Monad Walk where
  pure a := ⟨fun i => .done a i⟩
  bind walk next := ⟨fun i =>
    match walk.run i with
    | .done a j => (next a).run j
    | .failed e j => .failed e j
    | .unfinished => .unfinished⟩

namespace Walk

variable {α β : Type} (ts : List Token)

/-- The token at an index. Behind the last one stands a token without text. -/
def tokenAt (i : Nat) : Token :=
  ts[i]?.getD { kind := .identifier, text := "", pos := endOf ts }

/-- The error of a fault that is found at an index. -/
def errorAt (i : Nat) (fault : ParseFault) : ParseError where
  pos := (tokenAt ts i).pos
  index := i
  fault := fault
  incomplete := decide (ts.length ≤ i)

/-- How a walk fails that meets an obstacle at an index. -/
def failureAt (i : Nat) : Obstacle → ParseFailure
  | .fault fault => .refused (errorAt ts i fault)
  | .missingQuotes text => .panicked text

/-- Gives up for want of fuel. -/
def unfinished : Walk α := ⟨fun _ => .unfinished⟩

/-- The tokens from the index on. -/
def ahead : Walk (List Token) := ⟨fun i => .done (ts.drop i) i⟩

/-- Moves behind the token at the index, and stays if there is none. -/
def advance : Walk Token := ⟨fun i => .done (tokenAt ts i) (if i < ts.length then i + 1 else i)⟩

/-- Stops at the index, where an obstacle stands. -/
def stop (obstacle : Obstacle) : Walk α := ⟨fun i => .failed (failureAt ts i obstacle) i⟩

def fail (fault : ParseFault) : Walk α := stop ts (.fault fault)

/-- Moves behind a token that has to satisfy `p`. -/
def expect (p : Token → Bool) (fault : Found → ParseFault) : Walk Token := do
  let us ← ahead ts
  if us.head?.any p then advance ts else fail ts (fault (.ofTokens us))

def operator (op : String) : Walk Token := expect ts (·.isOperator op) (.expectedOperator op)

def word (w : String) : Walk Token := expect ts (·.isWord w) (.expectedWord w)

def name (role : String) : Walk Token := expect ts Token.isName (.expectedName role)

/-- Moves behind the token at the index and returns `a`. -/
def take (a : α) : Walk α := do
  let _ ← advance ts
  return a

/-- Moves behind all semicolons at the index. -/
def skipSemicolons : (fuel : Nat) → Walk Unit
  | 0 => unfinished
  | fuel + 1 => do
    if operatorAhead ";" (← ahead ts) then
      let _ ← advance ts
      skipSemicolons fuel
    else return ()

/-! Inside an operand there can be expressions again, so the functions up to the tiers are given the
walk over an expression. -/

/-- One or more arguments with commas between them, and the closing parenthesis. -/
def argumentList (expression : Walk Expr) : (fuel : Nat) → Walk (List Expr)
  | 0 => unfinished
  | fuel + 1 => do
    let arg ← expression
    if operatorAhead "," (← ahead ts) then
      let _ ← advance ts
      let more ← argumentList expression fuel
      return arg :: more
    else
      let _ ← operator ts ")"
      return [arg]

/-- A call, with the index at its name. -/
def call (expression : Walk Expr) (fuel : Nat) : Walk Expr := do
  let f ← advance ts
  let _ ← advance ts
  if operatorAhead ")" (← ahead ts) then take ts (.call f.text [] f.pos)
  else
    let args ← argumentList ts expression fuel
    return .call f.text args f.pos

/-- An expression in parentheses, with the index at the opening one. -/
def group (expression : Walk Expr) : Walk Expr := do
  let start ← advance ts
  let inner ← expression
  let _ ← operator ts ")"
  return .group inner start.pos

/-- An operand without operators outside parentheses. -/
def primary (expression : Walk Expr) (fuel : Nat) : Walk Expr := do
  match ← ahead ts with
  | [] => fail ts .expectedExpression
  | t :: rest =>
    match t.kind with
    | .identifier =>
      if t.text = "TRUE" then take ts (.literal (.bool true) t.pos)
      else if t.text = "FALSE" then take ts (.literal (.bool false) t.pos)
      else if t.isName then
        if operatorAhead "(" rest then call ts expression fuel
        else take ts (.var t.text t.pos)
      else fail ts (.keywordInExpression t.text)
    | .integer =>
      match Numeral.integer? t.text with
      | some n => take ts (.literal (.integer n) t.pos)
      | none => fail ts (.invalidInteger t.text)
    | .decimal =>
      match Notation.decimal? t.text with
      | some q => take ts (.literal (.ratio q) t.pos)
      | none => fail ts (.invalidDecimal t.text)
    | .string =>
      if t.text.utf8ByteSize < 2 then stop ts (.missingQuotes t.text)
      else take ts (.literal (.ofBytes (literalText t.text)) t.pos)
    | .operator =>
      if t.text = "(" then group ts expression
      else fail ts (.unexpectedInExpression (.ofTokens (t :: rest)))
    | .unknown => fail ts (.unexpectedInExpression (.ofTokens (t :: rest)))

/-- Goes on behind a left operand as long as operators of the tier follow. What follows then has to
be something that may stand behind an operand. -/
def joined (operand : Walk Expr) (t : Tier) : (fuel : Nat) → (left : Expr) → Walk Expr
  | 0, _ => unfinished
  | fuel + 1, left => do
    match ← ahead ts with
    | op :: rest =>
      if t.has op then
        let _ ← advance ts
        let right ← operand
        joined operand t fuel (.binary op.text left right op.pos)
      else if mayFollow (op :: rest) then return left
      else fail ts (.expectedExpressionEnd (.ofTokens (op :: rest)))
    | [] => return left

/-- Operands joined by the operators of a tier. -/
def binary (operand : Walk Expr) (t : Tier) (fuel : Nat) : Walk Expr := do
  let left ← operand
  joined ts operand t fuel left

/-- An operand of a tier: an expression of the next tier, and in the last one a primary
expression. -/
def operand (expression : Walk Expr) (fuel : Nat) : Tier → Walk Expr
  | .multiplicative => primary ts expression fuel
  | .additive => binary ts (primary ts expression fuel) .multiplicative fuel
  | .equality =>
    binary ts (binary ts (primary ts expression fuel) .multiplicative fuel) .additive fuel

/-- An expression of a tier. -/
def tier (expression : Walk Expr) (fuel : Nat) (t : Tier) : Walk Expr :=
  binary ts (operand ts expression fuel t) t fuel

/-- An expression. -/
def expression : (fuel : Nat) → Walk Expr
  | 0 => unfinished
  | fuel + 1 => tier ts (expression fuel) fuel .equality

/-- Statements, with no semicolon at the index, up to one of the words `closers`. Without closers
they go up to the end of the input. -/
def statements (statement : Walk Stmt) (closers : List String) : (fuel : Nat) → Walk (List Stmt)
  | 0 => unfinished
  | fuel + 1 => do
    match ← ahead ts with
    | [] => if closers.isEmpty then return [] else fail ts (.unclosedBlock closers)
    | t :: _ =>
      if t.kind = .identifier && closers.contains t.text then return []
      else
        let first ← statement
        skipSemicolons ts fuel
        let more ← statements statement closers fuel
        return first :: more

/-- Statements with semicolons between them and around them. -/
def block (statement : Walk Stmt) (closers : List String) (fuel : Nat) : Walk (List Stmt) := do
  skipSemicolons ts fuel
  statements ts statement closers fuel

/-- A declaration, with the index at its first word. -/
def declaration (fuel : Nat) : Walk Stmt := do
  let start ← advance ts
  let x ← name ts "variable name"
  let _ ← operator ts ":"
  let type ← name ts "type name"
  if operatorAhead "=" (← ahead ts) then
    let _ ← advance ts
    let init ← expression ts fuel
    return .declare x.text type.text (some init) start.pos
  else return .declare x.text type.text none start.pos

/-- A branch, with the index at its first word. -/
def branch (statement : Walk Stmt) (fuel : Nat) : Walk Stmt := do
  let start ← advance ts
  let cond ← expression ts fuel
  let _ ← word ts "THEN"
  let yes ← block ts statement ["ELSE", "END"] fuel
  if wordAhead "ELSE" (← ahead ts) then
    let _ ← advance ts
    let no ← block ts statement ["END"] fuel
    let _ ← word ts "END"
    return .branch cond yes no start.pos
  else
    let _ ← word ts "END"
    return .branch cond yes [] start.pos

/-- A loop, with the index at its first word. -/
def loop (statement : Walk Stmt) (fuel : Nat) : Walk Stmt := do
  let start ← advance ts
  let cond ← expression ts fuel
  let _ ← word ts "DO"
  let body ← block ts statement ["END"] fuel
  let _ ← word ts "END"
  return .loop cond body start.pos

/-- An assignment, with the index at its name. -/
def assignment (fuel : Nat) : Walk Stmt := do
  let x ← advance ts
  let _ ← advance ts
  let value ← expression ts fuel
  return .assign x.text value x.pos

/-- A statement. -/
def statement : (fuel : Nat) → Walk Stmt
  | 0 => unfinished
  | fuel + 1 => do
    let us ← ahead ts
    if wordAhead "LET" us then declaration ts fuel
    else if wordAhead "IF" us then branch ts (statement fuel) fuel
    else if wordAhead "WHILE" us then loop ts (statement fuel) fuel
    else if assignmentAhead us then assignment ts fuel
    else
      let e ← expression ts (fuel + 1)
      return .expr e e.pos

/-- A whole program. -/
def source (fuel : Nat) : Walk Program := block ts (statement ts fuel) [] fuel

end Walk

/-! ## Walks and readings -/

/-- The ending of a walk that started at the index `i` tells what an outcome of the recursive parser
tells: the same value or obstacle, with the index in front of the tokens that are left. The index
has not moved back, nor behind the last token. -/
inductive Tracks (ts : List Token) (i : Nat) {α : Type} :
    Ending α → Except Stuck (α × List Token) → Prop where
  | done (a : α) {j : Nat} : i ≤ j → j ≤ max i ts.length →
      Tracks ts i (.done a j) (.ok (a, ts.drop j))
  | failed (obstacle : Obstacle) {j : Nat} : i ≤ j → j ≤ max i ts.length →
      Tracks ts i (.failed (Walk.failureAt ts j obstacle) j)
        (.error { rest := ts.drop j, obstacle })

/-- From every index, with more fuel than there are tokens ahead, a walk tells what the function
`read` of the recursive parser tells of these tokens. -/
def Reads {α : Type} {bound : List Token → Nat} (ts : List Token) (fuel : Nat) (walk : Walk α)
    (read : (us : List Token) → Result α (bound us)) : Prop :=
  ∀ i, ts.length - i < fuel → Tracks ts i (walk.run i) (read (ts.drop i)).outcome

section Tracking

variable {α β : Type} {ts : List Token} {i j n fuel : Nat}

theorem Reads.zero {bound : List Token → Nat} {walk : Walk α}
    {read : (us : List Token) → Result α (bound us)} : Reads ts 0 walk read :=
  fun _ hi => absurd hi (Nat.not_lt_zero _)

theorem Reads.less {bound : List Token → Nat} {walk : Walk α}
    {read : (us : List Token) → Result α (bound us)} (h : Reads ts (fuel + 1) walk read) :
    Reads ts fuel walk read :=
  fun i hi => h i (Nat.lt_succ_of_lt hi)

/-- A walk that starts later can be told from the start. -/
theorem Tracks.later {ending : Ending α} {x : Except Stuck (α × List Token)}
    (h : Tracks ts j ending x) (hij : i ≤ j) (hj : j ≤ max i ts.length) : Tracks ts i ending x := by
  cases h with
  | done a hjk hk => exact .done a (by omega) (by omega)
  | failed obstacle hjk hk => exact .failed obstacle (by omega) (by omega)

section Ahead

variable {us : List Token} (hus : ts.drop i = us)
include hus

theorem tracks_pure (a : α) : Tracks ts i ((pure a : Walk α).run i) (.ok (a, us)) := by
  rw [← hus]
  exact .done a (Nat.le_refl i) (Nat.le_max_left _ _)

theorem tracks_stop (obstacle : Obstacle) :
    Tracks ts i ((Walk.stop ts obstacle : Walk α).run i) (.error { rest := us, obstacle }) := by
  rw [← hus]
  exact .failed obstacle (Nat.le_refl i) (Nat.le_max_left _ _)

end Ahead

theorem run_ahead_bind (f : List Token → Walk β) :
    (Walk.ahead ts >>= f).run i = (f (ts.drop i)).run i := rfl

/-- Walks that are chained tell what chained readings tell. The second one has fewer tokens ahead
than the first one was bound to leave. -/
theorem Tracks.bind {walk : Walk α} {f : α → Walk β} {r : Result α n}
    {g : α × List Token → Except Stuck (β × List Token)} (h : Tracks ts i (walk.run i) r.outcome)
    (hf : ∀ a j, ts.length - j < n → Tracks ts j ((f a).run j) (g (a, ts.drop j))) :
    Tracks ts i ((walk >>= f).run i) (r.outcome >>= g) := by
  have hbind : (walk >>= f).run i = match walk.run i with
    | .done a j => (f a).run j
    | .failed e j => .failed e j
    | .unfinished => .unfinished := rfl
  rw [hbind]
  generalize hx : r.outcome = x at h
  generalize walk.run i = ending at h
  cases h with
  | done a hij hj =>
      have hleft := length_of_outcome hx
      rw [List.length_drop] at hleft
      exact (hf a _ hleft).later hij hj
  | failed fault hij hj => exact .failed fault hij hj

theorem Walk.tokenAt_of {t : Token} {rest : List Token} (hus : ts.drop i = t :: rest) :
    Walk.tokenAt ts i = t := by
  have hget : ts[i]? = some t := by rw [← List.head?_drop, hus]; rfl
  rw [Walk.tokenAt, hget]
  rfl

theorem length_of_drop_eq_cons {t : Token} {rest : List Token} (hus : ts.drop i = t :: rest) :
    ts.length - i = rest.length + 1 := by
  have hlength := congrArg List.length hus
  rwa [List.length_drop, List.length_cons] at hlength

/-- Moving on by a token leaves what stands behind it. -/
theorem Tracks.advance {f : Token → Walk β} {x : Except Stuck (β × List Token)}
    (hf : ∀ j, ts.drop j = (ts.drop i).drop 1 → ts.length - j = ts.length - i - 1 →
      Tracks ts j ((f (Walk.tokenAt ts i)).run j) x) :
    Tracks ts i ((Walk.advance ts >>= f).run i) x := by
  show Tracks ts i ((f (Walk.tokenAt ts i)).run (if i < ts.length then i + 1 else i)) x
  by_cases hi : i < ts.length
  · rw [if_pos hi]
    exact (hf (i + 1) List.drop_drop.symm (by omega)).later (by omega) (by omega)
  · rw [if_neg hi]
    refine hf i ?_ (by omega)
    rw [List.drop_eq_nil_of_le (by omega), List.drop_nil]

/-- Moving on by a token that is there. -/
theorem Tracks.advance_of {t : Token} {rest : List Token} (hus : ts.drop i = t :: rest)
    {f : Token → Walk β} {x : Except Stuck (β × List Token)}
    (hf : ∀ j, ts.drop j = rest → ts.length - j + 1 = ts.length - i →
      Tracks ts j ((f t).run j) x) :
    Tracks ts i ((Walk.advance ts >>= f).run i) x := by
  refine Tracks.advance fun j hj hleft => ?_
  have hlength := length_of_drop_eq_cons hus
  rw [hus, List.drop_one, List.tail_cons] at hj
  rw [Walk.tokenAt_of hus]
  exact hf j hj (by omega)

theorem tracks_take {t : Token} {rest : List Token} (hus : ts.drop i = t :: rest) (a : α) :
    Tracks ts i ((Walk.take ts a).run i) (.ok (a, rest)) :=
  Tracks.advance_of hus fun _ hj _ => tracks_pure hj a

/-! ## One token -/

theorem tracks_expect (p : Token → Bool) (fault : Found → ParseFault) :
    Tracks ts i ((Walk.expect ts p fault).run i) (oneToken p fault (ts.drop i)) := by
  rw [Walk.expect, run_ahead_bind]
  cases hus : ts.drop i with
  | nil => exact tracks_stop hus _
  | cons t rest =>
      rw [oneToken, List.head?_cons, Option.any_some]
      by_cases hp : p t = true
      · rw [if_pos hp, if_pos hp]
        show Tracks ts i ((Walk.advance ts >>= pure).run i) _
        exact Tracks.advance_of hus fun j hj _ => tracks_pure hj t
      · rw [if_neg hp, if_neg hp]
        exact tracks_stop hus _

theorem tracks_operator (op : String) :
    Tracks ts i ((Walk.operator ts op).run i) (operator op (ts.drop i)).outcome := by
  rw [outcome_operator]
  exact tracks_expect _ _

theorem tracks_word (w : String) :
    Tracks ts i ((Walk.word ts w).run i) (word w (ts.drop i)).outcome := by
  rw [outcome_word]
  exact tracks_expect _ _

theorem tracks_name (role : String) :
    Tracks ts i ((Walk.name ts role).run i) (name role (ts.drop i)).outcome := by
  rw [outcome_name]
  exact tracks_expect _ _

/-! ## Expressions -/

/-- An operand of a tier, before it is known that what follows may stand behind it. -/
def looseOperand (t : Tier) (us : List Token) : Result Expr us.length :=
  match t with
  | .multiplicative => primary us
  | .additive => tier .multiplicative us
  | .equality => tier .additive us

/-- Looks at what follows an operand. -/
def follow (us : List Token) : Except Stuck Unit :=
  if mayFollow us then .ok ()
  else .error { rest := us, obstacle := .fault (.expectedExpressionEnd (.ofTokens us)) }

/-- **Looking again finds nothing.** The walk looks at what follows behind the chain of every tier.
It need do so only behind an operand of the last one. -/
theorem outcome_operand (t : Tier) (us : List Token) :
    (operand t us).outcome = (looseOperand t us).outcome >>= fun x =>
      follow x.2 >>= fun _ => .ok x := by
  have htier : ∀ t', (tier t' us).outcome = (tier t' us).outcome >>= fun x =>
      follow x.2 >>= fun _ => .ok x := by
    intro t'
    cases h : (tier t' us).outcome with
    | error s => rfl
    | ok x =>
        have hfollow := (Grammar.chain_sound (Grammar.operandSound us.length t')
          us x.1 x.2 (Nat.le_refl _) h).2.1
        rw [ok_bind, follow, if_pos hfollow, ok_bind]
  cases t with
  | multiplicative =>
      rw [outcome_operand_multiplicative, looseOperand]
      congr 1
      funext x
      rw [follow]
      split <;> rfl
  | additive => rw [outcome_operand_additive]; exact htier .multiplicative
  | equality => rw [outcome_operand_equality]; exact htier .additive

section Expression

-- the walk over an expression inside an operand, which has one unit of fuel less
variable {expr : Walk Expr} (hexpr : Reads ts fuel expr expression)
include hexpr

theorem reads_argumentList : Reads ts fuel (Walk.argumentList ts expr fuel) argumentList := by
  induction fuel with
  | zero => exact .zero
  | succ fuel ih =>
      intro i hi
      rw [Walk.argumentList, outcome_argumentList]
      refine (hexpr i hi).bind fun arg j hj => ?_
      rw [List.length_drop] at hj
      rw [run_ahead_bind]
      dsimp only
      by_cases hcomma : operatorAhead "," (ts.drop j) = true
      · rw [if_pos hcomma, if_pos hcomma]
        refine Tracks.advance fun k hk hleft => ?_
        rw [← hk]
        exact (ih hexpr.less k (by omega)).bind fun more l _ => tracks_pure rfl _
      · rw [if_neg hcomma, if_neg hcomma]
        exact (tracks_operator ")").bind fun close k _ => tracks_pure rfl _

/-- A call can be read from any index. Where it is used, a name and a parenthesis stand there. -/
theorem tracks_call (hi : ts.length - (i + 1) < fuel) :
    Tracks ts i ((Walk.call ts expr fuel).run i)
      ((arguments (ts.drop (i + 2))).outcome >>= fun x =>
        .ok (.call (Walk.tokenAt ts i).text x.1 (Walk.tokenAt ts i).pos, x.2)) := by
  refine Tracks.advance fun j hj hleftj => ?_
  refine Tracks.advance fun k hk hleftk => ?_
  rw [hj, List.drop_drop, List.drop_drop] at hk
  rw [← hk, run_ahead_bind, outcome_arguments]
  by_cases hclose : operatorAhead ")" (ts.drop k) = true
  · rw [if_pos hclose, if_pos hclose, ok_bind]
    refine Tracks.advance fun l hl _ => ?_
    exact tracks_pure hl _
  · rw [if_neg hclose, if_neg hclose]
    exact (reads_argumentList hexpr k (by omega)).bind fun args l _ => tracks_pure rfl _

theorem reads_primary : Reads ts (fuel + 1) (Walk.primary ts expr fuel) primary := by
  intro i hi
  rw [Walk.primary, run_ahead_bind]
  cases hus : ts.drop i with
  | nil =>
      rw [outcome_primary_nil]
      exact tracks_stop hus _
  | cons t rest =>
      have hlength := length_of_drop_eq_cons hus
      rw [outcome_primary_cons]
      dsimp only
      -- one token, but for a call and for parentheses: their expressions start behind it
      cases t.kind with
      | identifier =>
          dsimp only
          by_cases htrue : t.text = "TRUE"
          · rw [if_pos htrue, if_pos htrue]
            exact tracks_take hus _
          rw [if_neg htrue, if_neg htrue]
          by_cases hfalse : t.text = "FALSE"
          · rw [if_pos hfalse, if_pos hfalse]
            exact tracks_take hus _
          rw [if_neg hfalse, if_neg hfalse]
          by_cases hname : t.isName = true
          · rw [if_pos hname, if_pos hname]
            by_cases hopen : operatorAhead "(" rest = true
            · have hcall := tracks_call hexpr (i := i) (by omega)
              have hinside : ts.drop (i + 2) = rest.drop 1 := by
                rw [← List.drop_drop, hus]
                rfl
              rw [Walk.tokenAt_of hus, hinside] at hcall
              rw [if_pos hopen, if_pos hopen]
              exact hcall
            · rw [if_neg hopen, if_neg hopen]
              exact tracks_take hus _
          · rw [if_neg hname, if_neg hname]
            exact tracks_stop hus _
      | integer =>
          dsimp only
          cases Numeral.integer? t.text with
          | some n => exact tracks_take hus _
          | none => exact tracks_stop hus _
      | decimal =>
          dsimp only
          cases Notation.decimal? t.text with
          | some q => exact tracks_take hus _
          | none => exact tracks_stop hus _
      | string =>
          dsimp only
          by_cases hshort : t.text.utf8ByteSize < 2
          · rw [if_pos hshort, if_pos hshort]
            exact tracks_stop hus _
          · rw [if_neg hshort, if_neg hshort]
            exact tracks_take hus _
      | operator =>
          dsimp only
          by_cases hopen : t.text = "("
          · rw [if_pos hopen, if_pos hopen]
            refine Tracks.advance_of hus fun j hj hleft => ?_
            rw [← hj]
            refine (hexpr j (by omega)).bind fun inner k _ => ?_
            exact (tracks_operator ")").bind fun close l _ => tracks_pure rfl _
          · rw [if_neg hopen, if_neg hopen]
            exact tracks_stop hus _
      | unknown => exact tracks_stop hus _

end Expression

/-- **The loop over the operators of a tier ends**, as each time around takes an operator. -/
theorem tracks_joined {t : Tier} {walk : Walk Expr} (hwalk : Reads ts fuel walk (looseOperand t))
    (left : Expr) (hi : ts.length - i < fuel) :
    Tracks ts i ((Walk.joined ts walk t fuel left).run i)
      (follow (ts.drop i) >>= fun _ => (joined t left (ts.drop i)).outcome) := by
  induction fuel generalizing i left with
  | zero => exact absurd hi (Nat.not_lt_zero _)
  | succ fuel ih =>
      rw [Walk.joined, run_ahead_bind]
      cases hus : ts.drop i with
      | nil =>
          have hfollow : follow [] = .ok () := rfl
          rw [hfollow, ok_bind, outcome_joined_nil]
          exact tracks_pure hus left
      | cons op rest =>
          dsimp only
          by_cases hop : t.has op = true
          · rw [if_pos hop, follow, if_pos (mayFollow_of_has hop), ok_bind, outcome_joined_cons,
              if_pos hop, outcome_operand]
            simp only [bind_assoc, ok_bind]
            refine Tracks.advance_of hus fun j hj hleft => ?_
            rw [← hj]
            refine (hwalk j (by omega)).bind fun right k hk => ?_
            rw [List.length_drop] at hk
            exact ih hwalk.less _ (i := k) (by omega)
          · rw [if_neg hop]
            by_cases hfollow : mayFollow (op :: rest) = true
            · rw [if_pos hfollow, follow, if_pos hfollow, ok_bind, outcome_joined_cons, if_neg hop]
              exact tracks_pure hus left
            · rw [if_neg hfollow, follow, if_neg hfollow, error_bind]
              exact tracks_stop hus _

theorem reads_binary {t : Tier} {walk : Walk Expr}
    (hwalk : Reads ts (fuel + 1) walk (looseOperand t)) :
    Reads ts (fuel + 1) (Walk.binary ts walk t fuel) (tier t) := by
  intro i hi
  rw [Walk.binary, outcome_tier, outcome_operand]
  simp only [bind_assoc, ok_bind]
  refine (hwalk i hi).bind fun left j hj => ?_
  rw [List.length_drop] at hj
  exact tracks_joined hwalk.less left (by omega)

theorem reads_tier {expr : Walk Expr} (hexpr : Reads ts fuel expr expression) (t : Tier) :
    Reads ts (fuel + 1) (Walk.tier ts expr fuel t) (tier t) := by
  have hprimary : Reads ts (fuel + 1) (Walk.operand ts expr fuel .multiplicative)
    (looseOperand .multiplicative) := reads_primary hexpr
  have hproduct : Reads ts (fuel + 1) (Walk.operand ts expr fuel .additive)
    (looseOperand .additive) := reads_binary hprimary
  have hsum : Reads ts (fuel + 1) (Walk.operand ts expr fuel .equality)
    (looseOperand .equality) := reads_binary hproduct
  cases t with
  | multiplicative => exact reads_binary hprimary
  | additive => exact reads_binary hproduct
  | equality => exact reads_binary hsum

theorem reads_expression (ts : List Token) (fuel : Nat) :
    Reads ts fuel (Walk.expression ts fuel) expression := by
  induction fuel with
  | zero => exact .zero
  | succ fuel ih => exact reads_tier ih .equality

/-! ## Statements -/

/-- Without a token there is no expression. -/
theorem outcome_expression_nil :
    (expression []).outcome = .error { rest := [], obstacle := .fault .expectedExpression } := by
  rw [expression, outcome_tier, outcome_operand_equality, outcome_tier, outcome_operand_additive,
    outcome_tier, outcome_operand_multiplicative, outcome_primary_nil]
  rfl

/-- **The loop over semicolons ends** in front of something else, and a block that starts behind
them is the block that starts in front of them. -/
theorem Tracks.skipSemicolons {f : Unit → Walk β} {x : Except Stuck (β × List Token)}
    (hi : ts.length - i < fuel)
    (hf : ∀ j, ts.length - j ≤ ts.length - i → operatorAhead ";" (ts.drop j) = false →
      (∀ closers, (block closers (ts.drop i)).outcome = (block closers (ts.drop j)).outcome) →
      Tracks ts j ((f ()).run j) x) :
    Tracks ts i ((Walk.skipSemicolons ts fuel >>= f).run i) x := by
  induction fuel generalizing i with
  | zero => exact absurd hi (Nat.not_lt_zero _)
  | succ fuel ih =>
      have hstep : (Walk.skipSemicolons ts (fuel + 1) >>= f).run i =
          (if operatorAhead ";" (ts.drop i) = true then
            Walk.advance ts >>= fun _ => Walk.skipSemicolons ts fuel >>= f
          else f ()).run i := by
        rw [Walk.skipSemicolons]
        show ((if operatorAhead ";" (ts.drop i) = true then _ else _) >>= f).run i = _
        split <;> rfl
      rw [hstep]
      by_cases hsemi : operatorAhead ";" (ts.drop i) = true
      · rw [if_pos hsemi]
        match hus : ts.drop i with
        | [] => rw [hus] at hsemi; cases hsemi
        | t :: rest =>
            refine Tracks.advance_of hus fun j hj hleft => ?_
            refine ih (by omega) fun k hk hother hblock => ?_
            refine hf k (by omega) hother fun closers => ?_
            rw [hus, operatorAhead_cons] at hsemi
            rw [hus, outcome_block_cons, if_pos hsemi, ← hj, hblock]
      · rw [if_neg hsemi]
        exact hf i (Nat.le_refl _) (Bool.eq_false_iff.mpr hsemi) fun _ => rfl

section Statement

-- the walk over a statement inside a block
variable {stmt : Walk Stmt} (hstmt : Reads ts fuel stmt statement)
include hstmt

/-- **The loop over the statements of a block ends**, as each time around takes a statement. -/
theorem tracks_statements (closers : List String) (hi : ts.length - i < fuel)
    (hsemi : operatorAhead ";" (ts.drop i) = false) :
    Tracks ts i ((Walk.statements ts stmt closers fuel).run i)
      (block closers (ts.drop i)).outcome := by
  induction fuel generalizing i with
  | zero => exact absurd hi (Nat.not_lt_zero _)
  | succ fuel ih =>
      have hread := hstmt i hi
      rw [Walk.statements, run_ahead_bind]
      cases hus : ts.drop i with
      | nil =>
          rw [outcome_block_nil]
          dsimp only
          by_cases hempty : closers.isEmpty = true
          · rw [if_pos hempty, if_pos hempty]
            exact tracks_pure hus []
          · rw [if_neg hempty, if_neg hempty]
            exact tracks_stop hus _
      | cons t rest =>
          have hlength := length_of_drop_eq_cons hus
          rw [hus] at hread
          rw [hus, operatorAhead_cons] at hsemi
          rw [outcome_block_cons, hsemi, if_neg Bool.false_ne_true]
          dsimp only
          by_cases hclose : (t.kind = .identifier && closers.contains t.text) = true
          · rw [if_pos hclose, if_pos hclose]
            exact tracks_pure hus []
          · rw [if_neg hclose, if_neg hclose]
            -- the statement took a token, so one unit of fuel less is still enough
            refine hread.bind fun first j hj => ?_
            rw [List.length_cons] at hj
            refine Tracks.skipSemicolons (by omega) fun k hk hother hblock => ?_
            rw [hblock closers]
            exact (ih hstmt.less (by omega) hother).bind fun more l _ => tracks_pure rfl _

theorem reads_block (closers : List String) :
    Reads ts fuel (Walk.block ts stmt closers fuel) (block closers) := by
  intro i hi
  refine Tracks.skipSemicolons hi fun j hj hother hblock => ?_
  rw [hblock closers]
  exact tracks_statements hstmt closers (by omega) hother

variable {t : Token} {rest : List Token} (hus : ts.drop i = t :: rest)
  (hi : ts.length - i < fuel + 1)
include hus hi

omit hstmt in
theorem tracks_declaration (ht : t.isWord "LET" = true) :
    Tracks ts i ((Walk.declaration ts fuel).run i) (statement (t :: rest)).outcome := by
  rw [outcome_statement_cons, if_pos ht]
  refine Tracks.advance_of hus fun j hj hleft => ?_
  rw [← hj]
  refine (tracks_name "variable name").bind fun x k hk => ?_
  refine (tracks_operator ":").bind fun colon l hl => ?_
  refine (tracks_name "type name").bind fun type m hm => ?_
  rw [List.length_drop] at hk hl hm
  rw [run_ahead_bind]
  dsimp only
  by_cases heq : operatorAhead "=" (ts.drop m) = true
  · rw [if_pos heq, if_pos heq]
    refine Tracks.advance fun n hn hleft' => ?_
    rw [← hn]
    exact (reads_expression ts fuel n (by omega)).bind fun init _ _ => tracks_pure rfl _
  · rw [if_neg heq, if_neg heq]
    exact tracks_pure rfl _

theorem tracks_branch (ht : t.isWord "IF" = true) :
    Tracks ts i ((Walk.branch ts stmt fuel).run i) (statement (t :: rest)).outcome := by
  rw [outcome_statement_cons, Token.isWord_ne ht (by decide), if_neg Bool.false_ne_true, if_pos ht]
  refine Tracks.advance_of hus fun j hj hleft => ?_
  rw [← hj]
  refine (reads_expression ts fuel j (by omega)).bind fun cond k hk => ?_
  refine (tracks_word "THEN").bind fun start l hl => ?_
  rw [List.length_drop] at hk hl
  refine (reads_block hstmt ["ELSE", "END"] l (by omega)).bind fun yes m hm => ?_
  dsimp only at hm
  rw [List.length_drop] at hm
  rw [run_ahead_bind]
  dsimp only
  by_cases helse : wordAhead "ELSE" (ts.drop m) = true
  · rw [if_pos helse, if_pos helse]
    refine Tracks.advance fun n hn hleft' => ?_
    rw [← hn]
    refine (reads_block hstmt ["END"] n (by omega)).bind fun no _ _ => ?_
    exact (tracks_word "END").bind fun close _ _ => tracks_pure rfl _
  · rw [if_neg helse, if_neg helse]
    exact (tracks_word "END").bind fun close _ _ => tracks_pure rfl _

theorem tracks_loop (ht : t.isWord "WHILE" = true) :
    Tracks ts i ((Walk.loop ts stmt fuel).run i) (statement (t :: rest)).outcome := by
  rw [outcome_statement_cons, Token.isWord_ne ht (by decide), if_neg Bool.false_ne_true,
    Token.isWord_ne ht (by decide), if_neg Bool.false_ne_true, if_pos ht]
  refine Tracks.advance_of hus fun j hj hleft => ?_
  rw [← hj]
  refine (reads_expression ts fuel j (by omega)).bind fun cond k hk => ?_
  refine (tracks_word "DO").bind fun start l hl => ?_
  rw [List.length_drop] at hk hl
  refine (reads_block hstmt ["END"] l (by omega)).bind fun body m hm => ?_
  exact (tracks_word "END").bind fun close _ _ => tracks_pure rfl _

end Statement

theorem reads_statement (ts : List Token) (fuel : Nat) :
    Reads ts fuel (Walk.statement ts fuel) statement := by
  induction fuel with
  | zero => exact .zero
  | succ fuel ih =>
      intro i hi
      have hexpr := reads_expression ts (fuel + 1) i hi
      rw [Walk.statement, run_ahead_bind]
      cases hus : ts.drop i with
      | nil =>
          -- no token is no word, so an expression is looked for
          have hnone : (statement []).outcome = (expression []).outcome >>= fun e =>
              .ok (.expr e.1 e.1.pos, e.2) := by
            rw [outcome_statement_nil, outcome_expression_nil, error_bind]
          rw [hus] at hexpr
          rw [hnone]
          exact hexpr.bind fun e _ _ => tracks_pure rfl _
      | cons t rest =>
          rw [wordAhead_cons, wordAhead_cons, wordAhead_cons]
          by_cases hlet : t.isWord "LET" = true
          · rw [if_pos hlet]
            exact tracks_declaration hus hi hlet
          rw [if_neg hlet]
          by_cases hif : t.isWord "IF" = true
          · rw [if_pos hif]
            exact tracks_branch ih hus hi hif
          rw [if_neg hif]
          by_cases hwhile : t.isWord "WHILE" = true
          · rw [if_pos hwhile]
            exact tracks_loop ih hus hi hwhile
          rw [if_neg hwhile, outcome_statement_cons, if_neg hlet, if_neg hif, if_neg hwhile]
          by_cases hassign : assignmentAhead (t :: rest) = true
          · rw [if_pos hassign, if_pos hassign]
            refine Tracks.advance_of hus fun j hj hleft => ?_
            rw [← hj]
            refine Tracks.advance fun k hk hleft' => ?_
            rw [← hk]
            exact (reads_expression ts fuel k (by omega)).bind fun value _ _ => tracks_pure rfl _
          · rw [if_neg hassign, if_neg hassign]
            rw [hus] at hexpr
            exact hexpr.bind fun e _ _ => tracks_pure rfl _

theorem reads_source (ts : List Token) (fuel : Nat) :
    Reads ts fuel (Walk.source ts fuel) (block []) :=
  reads_block (reads_statement ts fuel) []

end Tracking

end LetWhile.Parser
