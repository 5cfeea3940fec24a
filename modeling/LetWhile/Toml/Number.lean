/-!
# Numbers and times in TOML

Each function gives what follows the thing it is named for at the front of a text, if it stands
there. Digits may be divided by single underscores. A number other than zero has no leading zero.
-/

namespace LetWhile.Toml

/-- What follows digits divided by single underscores. -/
def afterDigits : List Char → List Char
  | '_' :: d :: cs => if d.isDigit then afterDigits cs else '_' :: d :: cs
  | c :: cs => if c.isDigit then afterDigits cs else c :: cs
  | [] => []

/-- What follows at least one digit. -/
def afterSomeDigits? : List Char → Option (List Char)
  | c :: cs => if c.isDigit then some (afterDigits cs) else none
  | [] => none

/-- What follows an optional sign. -/
def afterSign : List Char → List Char
  | '+' :: cs => cs
  | '-' :: cs => cs
  | cs => cs

/-- What follows an integer. -/
def afterInteger? (cs : List Char) : Option (List Char) :=
  match afterSign cs with
  | '0' :: rest => some rest
  | rest => afterSomeDigits? rest

/-- What follows a fraction with its point. -/
def afterFraction? : List Char → Option (List Char)
  | '.' :: cs => afterSomeDigits? cs
  | _ => none

/-- What follows an exponent. -/
def afterExponent? : List Char → Option (List Char)
  | c :: cs => if c = 'e' || c = 'E' then afterSomeDigits? (afterSign cs) else none
  | [] => none

/-- What follows a number with a fraction, an exponent or both. -/
def afterFloat? (cs : List Char) : Option (List Char) := do
  let rest ← afterInteger? cs
  match afterFraction? rest with
  | some rest => some ((afterExponent? rest).getD rest)
  | none => afterExponent? rest

/-- What follows the character `c`. -/
def afterChar? (c : Char) : List Char → Option (List Char)
  | d :: cs => if c = d then some cs else none
  | [] => none

/-- What follows `count` digits. -/
def afterExactly? : (count : Nat) → List Char → Option (List Char)
  | 0, cs => some cs
  | count + 1, c :: cs => if c.isDigit then afterExactly? count cs else none
  | _ + 1, [] => none

/-- What follows a date. -/
def afterDate? (cs : List Char) : Option (List Char) := do
  let cs ← afterExactly? 4 cs
  let cs ← afterChar? '-' cs
  let cs ← afterExactly? 2 cs
  let cs ← afterChar? '-' cs
  afterExactly? 2 cs

/-- What follows hours and minutes. -/
def afterMinutes? (cs : List Char) : Option (List Char) := do
  let cs ← afterExactly? 2 cs
  let cs ← afterChar? ':' cs
  afterExactly? 2 cs

/-- What follows a time of the day, which may have a fraction of a second. -/
def afterTime? (cs : List Char) : Option (List Char) := do
  let cs ← afterMinutes? cs
  let cs ← afterChar? ':' cs
  let cs ← afterExactly? 2 cs
  match cs with
  | '.' :: d :: more => if d.isDigit then some (more.dropWhile Char.isDigit) else some cs
  | _ => some cs

/-- What follows an optional distance from universal time. -/
def afterOffset (cs : List Char) : List Char :=
  match cs with
  | 'Z' :: rest => rest
  | c :: rest => if c = '+' || c = '-' then (afterMinutes? rest).getD cs else cs
  | [] => cs

/-- What follows a date, a date and a time, or a time. -/
def afterDatetime? (cs : List Char) : Option (List Char) :=
  match afterDate? cs with
  | some rest =>
    match rest with
    | 'T' :: time => some (((afterTime? time).map afterOffset).getD rest)
    | _ => some rest
  | none => afterTime? cs

end LetWhile.Toml
