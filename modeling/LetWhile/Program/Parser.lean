import LetWhile.Number.Notation
import LetWhile.Program.Basic
import LetWhile.Text.Quoted
import LetWhile.Token.Basic
import LetWhile.Token.Escape

/-!
# From tokens to programs

The grammar, with `;` allowed any number of times between statements and required nowhere:

* a statement is `LET name : name [= expr]`, `name = expr`, `IF expr THEN block [ELSE block] END`,
  `WHILE expr DO block END`, or an expression;
* an expression has three tiers of operators that group to the left, `==` and `!=` below `+` and
  `-` below `*` and `/`;
* an operand is `TRUE`, `FALSE`, a name, a call, an expression in parentheses, or a literal.

As statements need no separator, an expression must end where one can: at the end of the input, at
`;`, `)` or `,`, at a keyword other than `TRUE` and `FALSE`, or at a name with `=` behind it.

Each function reads a prefix of the tokens and returns what is left, with the proof that it is
less. A function that cannot go on says what stands in its way, and the tokens left at that point
tell where. That is a fault of the program with one exception: a string token without room for its
quotes, which no program text has, makes reading break off.
-/

namespace LetWhile

/-- What an error message found: the end of the input, or a token. -/
inductive Found where
  | endOfInput
  | token (kind : Kind) (text : String)
deriving DecidableEq, Repr

namespace Found

/-- What stands at the front of the tokens that are left. -/
def ofTokens : List Token → Found
  | [] => .endOfInput
  | t :: _ => .token t.kind t.text

/-- The wording of what was found. -/
def describe : Found → String
  | .endOfInput => "end of input"
  | .token kind text => kind.name ++ " " ++ quoted text

end Found

/-- Why tokens make no program. -/
inductive ParseFault where
  | expectedOperator (op : String) (found : Found)
  | expectedWord (word : String) (found : Found)
  | expectedName (role : String) (found : Found)
  /-- The input ends inside a block, which one of the words would close. -/
  | unclosedBlock (closers : List String)
  /-- An operand is followed by something that neither continues nor ends an expression. -/
  | expectedExpressionEnd (found : Found)
  /-- The input ends where an operand should stand. -/
  | expectedExpression
  | keywordInExpression (word : String)
  | unexpectedInExpression (found : Found)
  | invalidInteger (text : String)
  | invalidDecimal (text : String)
deriving DecidableEq, Repr

/-- The wording of a fault. -/
def ParseFault.message : ParseFault → String
  | .expectedOperator op found => "expected " ++ quoted op ++ ", found " ++ found.describe
  | .expectedWord word found => "expected " ++ word ++ ", found " ++ found.describe
  | .expectedName role found => "expected " ++ role ++ ", found " ++ found.describe
  | .unclosedBlock closers => "expected " ++ " or ".intercalate closers ++ ", found end of input"
  | .expectedExpressionEnd found =>
    "expected operator or end of expression, found " ++ found.describe
  | .expectedExpression => "expected expression, found end of input"
  | .keywordInExpression word => "unexpected " ++ word ++ " in expression"
  | .unexpectedInExpression found => "unexpected " ++ found.describe ++ " in expression"
  | .invalidInteger text => "invalid integer literal " ++ quoted text
  | .invalidDecimal text => "invalid decimal literal " ++ quoted text

/-- A fault with the index and the place of the token where it was found. -/
structure ParseError where
  pos : Position
  index : Nat
  fault : ParseFault
  /-- Whether the input ended too early, so that more of it could mend the error. -/
  incomplete : Bool
deriving DecidableEq, Repr

/-- The wording of an error, without its place. -/
def ParseError.detail (e : ParseError) : String :=
  e.fault.message

/-- The wording of an error. -/
def ParseError.message (e : ParseError) : String :=
  e.pos.label ++ e.detail

/-- How reading ends where tokens make no program: with an error, or by breaking off at a string
token that has no room for its two quotes. -/
inductive ParseFailure where
  | refused (error : ParseError)
  | panicked (text : String)
deriving DecidableEq, Repr

namespace Parser

/-- What stands in the way of reading on. -/
inductive Obstacle where
  | fault (fault : ParseFault)
  /-- A string token has no room for its two quotes. -/
  | missingQuotes (text : String)
deriving DecidableEq, Repr

/-- An obstacle and the tokens that were left when it was met. -/
structure Stuck where
  rest : List Token
  obstacle : Obstacle
deriving DecidableEq, Repr

/-- What was read, and the tokens left behind it: fewer than `bound`. -/
structure Reading (α : Type) (bound : Nat) where
  value : α
  rest : List Token
  fits : rest.length < bound

/-- The result of reading: fewer than `bound` tokens are left, or reading got stuck. -/
abbrev Result (α : Type) (bound : Nat) := Except Stuck (Reading α bound)

/-- What is left behind a call and its first two tokens is less than all of it. -/
theorem Reading.fits_call {α : Type} (t p : Token) (inside : List Token)
    (args : Reading α (inside.length + 1)) : args.rest.length < (t :: p :: inside).length := by
  have := args.fits
  simp only [List.length_cons]
  omega

/-- What is left behind a closing token is less than what an opening one stands in front of. -/
theorem Reading.fits_group {α β : Type} (t : Token) (rest : List Token)
    (inner : Reading α rest.length) (close : Reading β inner.rest.length) :
    close.rest.length < (t :: rest).length := by
  have := inner.fits
  have := close.fits
  simp only [List.length_cons]
  omega

/-- Gives up in front of the tokens `ts`. -/
def stuck {α : Type} {bound : Nat} (ts : List Token) (fault : ParseFault) : Result α bound :=
  .error { rest := ts, obstacle := .fault fault }

/-- Reads one operator. -/
def operator (op : String) (ts : List Token) : Result Token ts.length :=
  match ts with
  | [] => stuck [] (.expectedOperator op .endOfInput)
  | t :: rest =>
    if t.isOperator op then .ok ⟨t, rest, Nat.lt_succ_self _⟩
    else stuck (t :: rest) (.expectedOperator op (.ofTokens (t :: rest)))

/-- Reads one keyword. -/
def word (word : String) (ts : List Token) : Result Token ts.length :=
  match ts with
  | [] => stuck [] (.expectedWord word .endOfInput)
  | t :: rest =>
    if t.isWord word then .ok ⟨t, rest, Nat.lt_succ_self _⟩
    else stuck (t :: rest) (.expectedWord word (.ofTokens (t :: rest)))

/-- Reads one name; `role` says what it names. -/
def name (role : String) (ts : List Token) : Result Token ts.length :=
  match ts with
  | [] => stuck [] (.expectedName role .endOfInput)
  | t :: rest =>
    if t.isName then .ok ⟨t, rest, Nat.lt_succ_self _⟩
    else stuck (t :: rest) (.expectedName role (.ofTokens (t :: rest)))

/-- Whether the next token is the operator `op`. -/
def operatorAhead (op : String) : List Token → Bool
  | t :: _ => t.isOperator op
  | [] => false

/-- Whether the next token is the keyword `word`. -/
def wordAhead (word : String) : List Token → Bool
  | t :: _ => t.isWord word
  | [] => false

/-- Whether an assignment stands here: a name with `=` behind it. -/
def assignmentAhead : List Token → Bool
  | t :: rest => t.isName && operatorAhead "=" rest
  | [] => false

/-- The operators that may stand behind an operand. -/
def followingOperators : List String :=
  [";", ")", ",", "==", "!=", "+", "-", "*", "/"]

/-- The keywords that may stand behind an operand. -/
def followingWords : List String :=
  ["DO", "THEN", "ELSE", "END", "LET", "IF", "WHILE"]

/-- Whether these tokens may stand behind an operand: they go on with the expression, close it, or
start the next statement. -/
def mayFollow (ts : List Token) : Bool :=
  match ts with
  | [] => true
  | t :: _ =>
    (t.kind = .operator && followingOperators.contains t.text) ||
      (t.kind = .identifier && followingWords.contains t.text) || assignmentAhead ts

/-- The tiers of operators, from the one that binds least. -/
inductive Tier where
  | equality
  | additive
  | multiplicative
deriving DecidableEq, Repr

/-- The operators of a tier. -/
def Tier.operators : Tier → List String
  | .equality => ["==", "!="]
  | .additive => ["+", "-"]
  | .multiplicative => ["*", "/"]

/-- How far a tier is from the operands. -/
def Tier.rank : Tier → Nat
  | .equality => 3
  | .additive => 2
  | .multiplicative => 1

theorem Tier.rank_le (t : Tier) : t.rank ≤ 3 := by
  cases t <;> decide

/-- Whether a token is an operator of a tier. -/
def Tier.has (t : Tier) (token : Token) : Bool :=
  token.kind = .operator && t.operators.contains token.text

mutual

/-- Reads operands of a tier joined by its operators. -/
def tier (t : Tier) (ts : List Token) : Result Expr ts.length := do
  let first ← operand t ts
  let all ← joined t first.value first.rest
  return ⟨all.value, all.rest, by have := first.fits; have := all.fits; omega⟩
termination_by 10 * ts.length + 2 * t.rank + 1
decreasing_by
  · omega
  · have := first.fits; omega

/-- Reads one operand of a tier: an expression of the next tier, and in the last tier a primary
expression with something behind it that may stand there. -/
def operand (t : Tier) (ts : List Token) : Result Expr ts.length :=
  match t with
  | .equality => tier .additive ts
  | .additive => tier .multiplicative ts
  | .multiplicative => do
    let e ← primary ts
    if mayFollow e.rest then return e
    else stuck e.rest (.expectedExpressionEnd (.ofTokens e.rest))
termination_by 10 * ts.length + 2 * t.rank
decreasing_by all_goals simp only [Tier.rank]; omega

/-- Reads on behind the left operand `left` as long as operators of the tier follow. -/
def joined (t : Tier) (left : Expr) (ts : List Token) : Result Expr (ts.length + 1) :=
  match ts with
  | [] => .ok ⟨left, [], Nat.lt_succ_self _⟩
  | op :: rest =>
    if t.has op then do
      let right ← operand t rest
      let all ← joined t (.binary op.text left right.value op.pos) right.rest
      return ⟨all.value, all.rest, by
        have := right.fits; have := all.fits; simp only [List.length_cons]; omega⟩
    else .ok ⟨left, op :: rest, Nat.lt_succ_self _⟩
termination_by 10 * ts.length
decreasing_by
  · have := t.rank_le; simp only [List.length_cons]; omega
  · have := right.fits; simp only [List.length_cons]; omega

/-- Reads an operand without operators outside parentheses. -/
def primary (ts : List Token) : Result Expr ts.length :=
  match ts with
  | [] => stuck [] .expectedExpression
  | t :: rest =>
    match t.kind with
    | .identifier =>
      if t.text = "TRUE" then .ok ⟨.literal (.bool true) t.pos, rest, Nat.lt_succ_self _⟩
      else if t.text = "FALSE" then .ok ⟨.literal (.bool false) t.pos, rest, Nat.lt_succ_self _⟩
      else if t.isName then
        match rest with
        | p :: inside =>
          if p.isOperator "(" then do
            let args ← arguments inside
            return ⟨.call t.text args.value t.pos, args.rest, args.fits_call t p inside⟩
          else .ok ⟨.var t.text t.pos, p :: inside, Nat.lt_succ_self _⟩
        | [] => .ok ⟨.var t.text t.pos, [], Nat.lt_succ_self _⟩
      else stuck (t :: rest) (.keywordInExpression t.text)
    | .integer =>
      match Numeral.integer? t.text with
      | some n => .ok ⟨.literal (.integer n) t.pos, rest, Nat.lt_succ_self _⟩
      | none => stuck (t :: rest) (.invalidInteger t.text)
    | .decimal =>
      match Notation.decimal? t.text with
      | some q => .ok ⟨.literal (.ratio q) t.pos, rest, Nat.lt_succ_self _⟩
      | none => stuck (t :: rest) (.invalidDecimal t.text)
    | .string =>
      if t.text.utf8ByteSize < 2 then
        .error { rest := t :: rest, obstacle := .missingQuotes t.text }
      else .ok ⟨.literal (.ofBytes (literalText t.text)) t.pos, rest, Nat.lt_succ_self _⟩
    | .operator =>
      if t.text = "(" then do
        let inner ← tier .equality rest
        let close ← operator ")" inner.rest
        return ⟨.group inner.value t.pos, close.rest, inner.fits_group t rest close⟩
      else stuck (t :: rest) (.unexpectedInExpression (.ofTokens (t :: rest)))
    | .unknown => stuck (t :: rest) (.unexpectedInExpression (.ofTokens (t :: rest)))
termination_by 10 * ts.length + 1
decreasing_by
  · simp only [List.length_cons]; omega
  · simp only [List.length_cons, Tier.rank]; omega

/-- Reads the arguments of a call behind its opening parenthesis, and the closing one. -/
def arguments (ts : List Token) : Result (List Expr) (ts.length + 1) :=
  if operatorAhead ")" ts then
    .ok ⟨[], ts.drop 1, by simp only [List.length_drop]; omega⟩
  else do
    let all ← argumentList ts
    return ⟨all.value, all.rest, Nat.lt_succ_of_lt all.fits⟩
termination_by 10 * ts.length + 9
decreasing_by omega

/-- Reads one or more arguments with commas between them, and the closing parenthesis. -/
def argumentList (ts : List Token) : Result (List Expr) ts.length := do
  let first ← tier .equality ts
  if operatorAhead "," first.rest then do
    let more ← argumentList (first.rest.drop 1)
    return ⟨first.value :: more.value, more.rest, by
      have := first.fits; have := more.fits; simp only [List.length_drop] at *; omega⟩
  else do
    let close ← operator ")" first.rest
    return ⟨[first.value], close.rest, by have := first.fits; have := close.fits; omega⟩
termination_by 10 * ts.length + 8
decreasing_by
  · simp only [Tier.rank]; omega
  · have := first.fits; simp only [List.length_drop]; omega

end

/-- Reads an expression. -/
def expression (ts : List Token) : Result Expr ts.length :=
  tier .equality ts

mutual

/-- Reads a statement. -/
def statement (ts : List Token) : Result Stmt ts.length :=
  match ts with
  | [] => stuck [] .expectedExpression
  | t :: rest =>
    if t.isWord "LET" then do
      let var ← name "variable name" rest
      let colon ← operator ":" var.rest
      let type ← name "type name" colon.rest
      have fits : type.rest.length < rest.length := by
        have := var.fits; have := colon.fits; have := type.fits; omega
      if operatorAhead "=" type.rest then do
        let init ← expression (type.rest.drop 1)
        return ⟨.declare var.value.text type.value.text (some init.value) t.pos, init.rest, by
          have := init.fits; simp only [List.length_drop, List.length_cons] at *; omega⟩
      else
        return ⟨.declare var.value.text type.value.text none t.pos, type.rest, by
          simp only [List.length_cons]; omega⟩
    else if t.isWord "IF" then do
      let cond ← expression rest
      let start ← word "THEN" cond.rest
      let yes ← block ["ELSE", "END"] start.rest
      have fits : yes.rest.length < rest.length := by
        have := cond.fits; have := start.fits; have := yes.fits; omega
      if wordAhead "ELSE" yes.rest then do
        let no ← block ["END"] (yes.rest.drop 1)
        let close ← word "END" no.rest
        return ⟨.branch cond.value yes.value no.value t.pos, close.rest, by
          have := no.fits; have := close.fits
          simp only [List.length_drop, List.length_cons] at *; omega⟩
      else do
        let close ← word "END" yes.rest
        return ⟨.branch cond.value yes.value [] t.pos, close.rest, by
          have := close.fits; simp only [List.length_cons]; omega⟩
    else if t.isWord "WHILE" then do
      let cond ← expression rest
      let start ← word "DO" cond.rest
      let body ← block ["END"] start.rest
      let close ← word "END" body.rest
      return ⟨.loop cond.value body.value t.pos, close.rest, by
        have := cond.fits; have := start.fits; have := body.fits; have := close.fits
        simp only [List.length_cons]; omega⟩
    else if assignmentAhead (t :: rest) then do
      let value ← expression (rest.drop 1)
      return ⟨.assign t.text value.value t.pos, value.rest, by
        have := value.fits; simp only [List.length_drop, List.length_cons] at *; omega⟩
    else do
      let e ← expression (t :: rest)
      return ⟨.expr e.value e.value.pos, e.rest, e.fits⟩
termination_by 10 * ts.length
decreasing_by
  · have := cond.fits; have := start.fits; simp only [List.length_cons]; omega
  · simp only [List.length_drop, List.length_cons]; omega
  · have := cond.fits; have := start.fits; simp only [List.length_cons]; omega

/-- Reads statements up to one of the words `closers`, which stays. Without closers it reads up to
the end of the input. -/
def block (closers : List String) (ts : List Token) : Result (List Stmt) (ts.length + 1) :=
  match ts with
  | [] =>
    if closers.isEmpty then .ok ⟨[], [], Nat.lt_succ_self _⟩
    else stuck [] (.unclosedBlock closers)
  | t :: rest =>
    if t.isOperator ";" then do
      let all ← block closers rest
      return ⟨all.value, all.rest, Nat.lt_succ_of_lt all.fits⟩
    else if t.kind = .identifier && closers.contains t.text then
      .ok ⟨[], t :: rest, Nat.lt_succ_self _⟩
    else do
      let first ← statement (t :: rest)
      let all ← block closers first.rest
      return ⟨first.value :: all.value, all.rest, by
        have := first.fits; have := all.fits; omega⟩
termination_by 10 * ts.length + 1
decreasing_by
  · simp only [List.length_cons]; omega
  · omega
  · have := first.fits; omega

end

/-- The error of a fault that was found while reading the tokens `ts`, with the tokens `rest` left
to be read. -/
def errorAt (ts rest : List Token) (fault : ParseFault) : ParseError where
  pos := match rest with
    | t :: _ => t.pos
    | [] => endOf ts
  index := ts.length - rest.length
  fault := fault
  incomplete := rest.isEmpty

/-- How reading the tokens `ts` ends where it got stuck. -/
def Stuck.toFailure (s : Stuck) (ts : List Token) : ParseFailure :=
  match s.obstacle with
  | .fault fault => .refused (errorAt ts s.rest fault)
  | .missingQuotes text => .panicked text

end Parser

/-- Reads a program from its tokens. -/
def Program.ofTokens (ts : List Token) : Except ParseFailure Program :=
  match Parser.block [] ts with
  | .ok all => .ok all.value
  | .error s => .error (s.toFailure ts)

end LetWhile
