import LetWhile.Proofs.Tiling

/-!
# The lexer as loops over a text

The lexer is written by recursion on what is left of a text, and such a function ends because what
is left gets shorter. Here it is written a second time, the way a machine runs it. A cursor moves
over the bytes of a text, and loops move it on until what is ahead of it tells them to stop. A loop
that asks for a character and gets none stays where it is. So nothing but its condition keeps it
from staying there for ever: it must not hold where no character can be read, that is, behind the
last byte and in front of a stray one.

The loops get fuel, one unit for each time around, and give up without it. They never have to. With
more fuel than there are bytes ahead, they come out where the recursive lexer comes out, which is
what `next_eq` says of one token and `scan_eq` of all.
-/

namespace LetWhile.Lexer

/-! ## Cursors -/

/-- A place in a text, as it is counted along the way. -/
structure Cursor where
  offset : Nat := 0
  line : Nat := 1
  column : Nat := 1
deriving DecidableEq, Repr

namespace Cursor

variable {source : List UInt8} {k : Cursor} {rest : List Glyph}

/-- The place of a cursor. -/
def pos (k : Cursor) : Position := ⟨k.offset, k.line, k.column⟩

/-- The cursor behind the character `c`. -/
def step (k : Cursor) (c : Char) : Cursor :=
  if c = '\n' then ⟨k.offset + c.utf8Size, k.line + 1, 1⟩
  else ⟨k.offset + c.utf8Size, k.line, k.column + 1⟩

/-- The cursor behind a run of characters. -/
def advance (k : Cursor) (cs : List Char) : Cursor := cs.foldl step k

/-- What stands ahead of a cursor. -/
def ahead (source : List UInt8) (k : Cursor) : List Glyph := Glyph.decode (source.drop k.offset)

theorem offset_step (k : Cursor) (c : Char) : (k.step c).offset = k.offset + c.utf8Size := by
  unfold step
  split <;> rfl

theorem pos_step (k : Cursor) (c : Char) : (k.step c).pos = k.pos.step c := by
  unfold step Position.step
  split <;> rfl

theorem advance_cons (k : Cursor) (c : Char) (cs : List Char) :
    k.advance (c :: cs) = (k.step c).advance cs := rfl

theorem advance_append (k : Cursor) (cs ds : List Char) :
    k.advance (cs ++ ds) = (k.advance cs).advance ds :=
  List.foldl_append

theorem pos_advance (k : Cursor) (cs : List Char) : (k.advance cs).pos = k.pos.advance cs := by
  induction cs generalizing k with
  | nil => rfl
  | cons c cs ih => rw [advance_cons, ih, pos_step, Position.advance_cons]

theorem offset_advance (k : Cursor) (cs : List Char) :
    (k.advance cs).offset = k.offset + (cs.flatMap String.utf8EncodeChar).length := by
  induction cs generalizing k with
  | nil => rfl
  | cons c cs ih =>
      rw [advance_cons, ih, offset_step, List.flatMap_cons, List.length_append,
        String.length_utf8EncodeChar]
      omega

/-- Behind the characters ahead stands what stood behind them. -/
theorem ahead_advance (cs : List Char) (h : k.ahead source = cs.map Glyph.char ++ rest) :
    (k.advance cs).ahead source = rest := by
  rw [ahead, offset_advance]
  exact (Glyph.cut_of_decode cs h).2

theorem ahead_step {c : Char} (h : k.ahead source = .char c :: rest) :
    (k.step c).ahead source = rest :=
  ahead_advance [c] h

/-- The characters ahead are in the text. -/
theorem offset_advance_le (c : Char) (cs : List Char)
    (h : k.ahead source = (c :: cs).map Glyph.char ++ rest) :
    k.offset < (k.advance (c :: cs)).offset ∧ (k.advance (c :: cs)).offset ≤ source.length := by
  have hpos := c.utf8Size_pos
  have hlength := congrArg List.length (Glyph.cut_of_decode (c :: cs) h).1
  rw [offset_advance]
  simp only [List.flatMap_cons, List.length_append, List.length_take,
    String.length_utf8EncodeChar] at hlength ⊢
  omega

end Cursor

theorem length_decode_le (bs : List UInt8) : (Glyph.decode bs).length ≤ bs.length := by
  induction bs using Glyph.decode.induct with
  | case1 => simp [Glyph.decode]
  | case2 b rest c hc ih =>
      rw [Glyph.decode, hc]
      simp only [List.length_cons, List.length_drop] at ih ⊢
      omega
  | case3 b rest hc ih =>
      rw [Glyph.decode, hc]
      simp only [List.length_cons]
      omega

theorem length_ahead_le (source : List UInt8) (k : Cursor) :
    (k.ahead source).length ≤ source.length - k.offset := by
  rw [← List.length_drop]
  exact length_decode_le _

/-! ## Reading and peeking -/

variable {source : List UInt8} {k : Cursor}

/-- Reads a character. There is none at the end of the text (`none`) and in front of a stray byte,
and then the cursor stays where it is. -/
def read (source : List UInt8) (k : Cursor) : Except (Option LexError) (Char × Cursor) :=
  match k.ahead source with
  | [] => .error none
  | .stray _ :: _ => .error (some { pos := k.pos, fault := .invalidEncoding })
  | .char c :: _ => .ok (c, k.step c)

/-- The character `n` places ahead. A stray byte is shown as the replacement character. -/
def peek (source : List UInt8) (n : Nat) (k : Cursor) : Option Char :=
  (k.ahead source)[n]?.map Glyph.shown

/-- Whether a space is ahead. -/
def spaceAt (source : List UInt8) (k : Cursor) : Bool := (peek source 0 k).any isSpace

/-- Whether a digit is `n` places ahead. -/
def digitAt (source : List UInt8) (n : Nat) (k : Cursor) : Bool := (peek source n k).any isDigit

/-- Whether what is ahead goes on with a name. -/
def nameAt (source : List UInt8) (k : Cursor) : Bool := (peek source 0 k).any isNamePart

/-- Whether what is ahead goes on with an operator: a symbolic character, but no sign with a digit
behind it. -/
def operatorAt (source : List UInt8) (k : Cursor) : Bool :=
  (peek source 0 k).any fun c => isSymbolic c && !(isSign c && digitAt source 1 k)

/-- Whether a run goes on with the first of the units. -/
def runsOn (p : Char → List Glyph → Bool) : List Glyph → Bool
  | .char c :: gs => p c gs
  | _ => false

/-- The replacement character goes on with nothing, so a stray byte never looks like a space, a
digit, an operator or a part of a name. -/
theorem runsOn_of_shown (p : Char → Bool) (hp : p (Glyph.stray 0).shown = false)
    (gs : List Glyph) : (gs[0]?.map Glyph.shown).any p = runsOn (fun c _ => p c) gs := by
  match gs with
  | [] => rfl
  | .char c :: gs => rfl
  | .stray b :: gs => exact hp

theorem spaceAt_eq (k : Cursor) :
    spaceAt source k = runsOn (fun c _ => isSpace c) (k.ahead source) :=
  runsOn_of_shown isSpace (by decide) _

theorem digitAt_eq (k : Cursor) :
    digitAt source 0 k = runsOn (fun c _ => isDigit c) (k.ahead source) :=
  runsOn_of_shown isDigit (by decide) _

theorem nameAt_eq (k : Cursor) :
    nameAt source k = runsOn (fun c _ => isNamePart c) (k.ahead source) :=
  runsOn_of_shown isNamePart (by decide +kernel) _

theorem digitAhead_eq (gs : List Glyph) : digitAhead gs = runsOn (fun c _ => isDigit c) gs := by
  match gs with
  | [] => rfl
  | .char c :: gs => rfl
  | .stray b :: gs => rfl

theorem digitAt_eq_digitAhead (k : Cursor) : digitAt source 0 k = digitAhead (k.ahead source) := by
  rw [digitAt_eq, digitAhead_eq]

theorem operatorAt_eq (k : Cursor) :
    operatorAt source k = runsOn continuesOperator (k.ahead source) := by
  unfold operatorAt peek
  match hgs : k.ahead source with
  | [] => rfl
  | .stray b :: gs => rfl
  | .char c :: gs =>
      have hdigit : digitAt source 1 k = digitAhead gs := by
        rw [digitAhead_eq, ← runsOn_of_shown isDigit (by decide), digitAt, peek, hgs]
        rfl
      show (isSymbolic c && !(isSign c && digitAt source 1 k)) = _
      rw [hdigit]
      rfl

theorem read_of_char {c : Char} {gs : List Glyph} (h : k.ahead source = .char c :: gs) :
    read source k = .ok (c, k.step c) := by
  rw [read, h]

/-- **Where a run goes on, a character can be read.** -/
theorem exists_read_of_runsOn {p : Char → List Glyph → Bool}
    (h : runsOn p (k.ahead source) = true) : ∃ c k', read source k = .ok (c, k') := by
  match hgs : k.ahead source with
  | [] => rw [hgs] at h; cases h
  | .stray b :: gs => rw [hgs] at h; cases h
  | .char c :: gs => exact ⟨c, k.step c, read_of_char hgs⟩

/-! ## Loops -/

/-- Moves on as long as the condition `more` holds. Whether a character was read is not looked
at. -/
def skip (source : List UInt8) (more : Cursor → Bool) : (fuel : Nat) → Cursor → Option Cursor
  | 0, _ => none
  | fuel + 1, k =>
    if more k then
      match read source k with
      | .ok (_, k') => skip source more fuel k'
      | .error _ => skip source more fuel k
    else some k

/-- Moves behind a name. -/
def skipName (source : List UInt8) :
    (fuel : Nat) → Cursor → Option (Except (Option LexError) Cursor)
  | 0, _ => none
  | fuel + 1, k =>
    if nameAt source k then
      match read source k with
      | .ok (_, k') => skipName source fuel k'
      | .error e => some (.error e)
    else some (.ok k)

/-- Moves behind the closing quote of the string literal that starts at `start`. -/
def skipString (source : List UInt8) (start : Cursor) :
    (fuel : Nat) → Cursor → Option (Except (Option LexError) Cursor)
  | 0, _ => none
  | fuel + 1, k =>
    match read source k with
    | .error none => some (.error (some { pos := start.pos, fault := .unterminatedString }))
    | .error (some e) => some (.error (some e))
    | .ok (c, k') =>
      if c = '"' then some (.ok k')
      else if c = '\\' then
        match read source k' with
        | .error none => some (.error (some { pos := start.pos, fault := .unterminatedString }))
        | .error (some e) => some (.error (some e))
        | .ok (e, k'') =>
          if (escaped? e).isSome then skipString source start fuel k''
          else some (.error (some { pos := k.pos, fault := .unknownEscape e }))
      else skipString source start fuel k'

/-- **A loop that skips ends, and skips the run ahead.** -/
theorem skip_eq {more : Cursor → Bool} {p : Char → List Glyph → Bool}
    (hmore : ∀ k, more k = runsOn p (k.ahead source)) {fuel : Nat}
    (hfuel : (k.ahead source).length < fuel) :
    skip source more fuel k = some (k.advance (takeRun p (k.ahead source))) := by
  induction fuel generalizing k with
  | zero => omega
  | succ fuel ih =>
      rw [skip, hmore k]
      match hgs : k.ahead source with
      | [] => rfl
      | .stray b :: gs => rfl
      | .char c :: gs =>
          rw [runsOn, takeRun]
          by_cases hp : p c gs = true
          · -- the character is read, and what is ahead is shorter
            have hahead := Cursor.ahead_step hgs
            rw [hgs, List.length_cons] at hfuel
            rw [if_pos hp, if_pos hp, read_of_char hgs, Cursor.advance_cons, ← hahead]
            exact ih (by rw [hahead]; omega)
          · rw [if_neg hp, if_neg hp]
            rfl

/-- A name is skipped like any other run: there is no error to look at. -/
theorem skipName_eq_skip (fuel : Nat) (k : Cursor) :
    skipName source fuel k = (skip source (nameAt source) fuel k).map .ok := by
  induction fuel generalizing k with
  | zero => rfl
  | succ fuel ih =>
      rw [skipName, skip]
      by_cases hname : nameAt source k = true
      · obtain ⟨c, k', hread⟩ := exists_read_of_runsOn ((nameAt_eq k).symm.trans hname)
        rw [if_pos hname, if_pos hname, hread]
        exact ih k'
      · rw [if_neg hname, if_neg hname]
        rfl

/-- What the end of a string literal means for the cursor: it stands behind the closing quote, or
there is an error, which is at the start of the literal if the literal is not closed. -/
def StringBody.ending (start k : Cursor) : StringBody → Except (Option LexError) Cursor
  | .closed text _ => .ok (k.advance text)
  | .broken _ .unterminatedString =>
    .error (some { pos := start.pos, fault := .unterminatedString })
  | .broken before fault => .error (some { pos := (k.advance before).pos, fault })

theorem StringBody.ending_prepend (start k : Cursor) (cs : List Char) (b : StringBody) :
    (b.prepend cs).ending start k = b.ending start (k.advance cs) := by
  cases b with
  | closed text rest => simp only [prepend, ending, Cursor.advance_append]
  | broken before fault => cases fault <;> simp only [prepend, ending, Cursor.advance_append]

/-- **The loop over a string literal ends** where the literal does, or at its fault. -/
theorem skipString_eq (start : Cursor) {fuel : Nat} (hfuel : (k.ahead source).length < fuel) :
    skipString source start fuel k = some ((stringBody (k.ahead source)).ending start k) := by
  induction fuel generalizing k with
  | zero => omega
  | succ fuel ih =>
      rw [skipString, read]
      match hgs : k.ahead source with
      | [] => rfl
      | .stray b :: gs => rfl
      | .char c :: gs =>
          have hahead := Cursor.ahead_step hgs
          rw [hgs, List.length_cons] at hfuel
          dsimp only
          by_cases hquote : c = '"'
          · subst hquote
            rw [if_pos rfl, stringBody_quote]
            rfl
          rw [if_neg hquote]
          by_cases hback : c = '\\'
          · subst hback
            rw [if_pos rfl, read, hahead]
            match gs with
            | [] => rfl
            | .stray b :: gs => rfl
            | .char e :: gs =>
                have hbehind := Cursor.ahead_step hahead
                dsimp only
                rw [stringBody]
                by_cases he : (escaped? e).isSome = true
                · rw [List.length_cons] at hfuel
                  rw [if_pos he, if_pos he, StringBody.ending_prepend, ← hbehind]
                  exact ih (by rw [hbehind]; omega)
                · rw [if_neg he, if_neg he]
                  rfl
          · rw [if_neg hback, stringBody_plain hback hquote, StringBody.ending_prepend, ← hahead]
            exact ih (by rw [hahead]; omega)

/-! ## Tokens -/

/-- The token between two cursors. -/
def tokenBetween (source : List UInt8) (kind : Kind) (start stop : Cursor) : Token where
  kind := kind
  text := shownText (source.extract start.offset stop.offset)
  pos := start.pos

/-- Moves behind a number whose sign or first digit is in front of the cursor `k`. The point is
read, and left again if there is no digit behind it. -/
def scanNumber (source : List UInt8) (fuel : Nat) (start k : Cursor) :
    Option (Token × Cursor) := do
  let point ← skip source (digitAt source 0) fuel k
  if peek source 0 point = some '.' then
    let behind := match read source point with
      | .ok (_, k') => k'
      | .error _ => point
    if digitAt source 0 behind then
      let stop ← skip source (digitAt source 0) fuel behind
      return (tokenBetween source .decimal start stop, stop)
  return (tokenBetween source .integer start point, point)

/-- Moves behind the token at `start`, whose first character `c` is in front of the cursor `k`. -/
def scanToken (source : List UInt8) (fuel : Nat) (start : Cursor) (c : Char) (k : Cursor) :
    Option (Except (Option LexError) (Token × Cursor)) := do
  if isSign c && digitAt source 0 k then
    return .ok (← scanNumber source fuel start k)
  else if isSymbolic c then
    let stop ← skip source (operatorAt source) fuel k
    return .ok (tokenBetween source .operator start stop, stop)
  else if isLetter c then
    return (← skipName source fuel k).map fun stop =>
      (tokenBetween source .identifier start stop, stop)
  else if isDigit c then
    return .ok (← scanNumber source fuel start k)
  else if c = '"' then
    return (← skipString source start fuel k).map fun stop =>
      (tokenBetween source .string start stop, stop)
  else return .ok (tokenBetween source .operator start k, k)

/-- Reads the next token, and moves behind it. -/
def next (source : List UInt8) (fuel : Nat) (k : Cursor) :
    Option (Except (Option LexError) (Token × Cursor)) := do
  let start ← skip source (spaceAt source) fuel k
  match read source start with
  | .error e => return .error e
  | .ok (c, k') => scanToken source fuel start c k'

/-- Reads tokens up to the end of the text. -/
def scan (source : List UInt8) : (fuel : Nat) → Cursor → Option (Except LexError (List Token))
  | 0, _ => none
  | fuel + 1, k => do
    match ← next source (fuel + 1) k with
    | .error none => return .ok []
    | .error (some e) => return .error e
    | .ok (t, k') => return (← scan source fuel k').map (t :: ·)

theorem tokenBetween_advance {kind : Kind} {rest : List Glyph} (cs : List Char)
    (h : k.ahead source = cs.map Glyph.char ++ rest) :
    tokenBetween source kind k (k.advance cs) =
      { kind, text := String.ofList cs, pos := k.pos } := by
  obtain ⟨more, hdrop, -⟩ := Glyph.exists_of_decode cs h
  have hbytes : source.extract k.offset (k.advance cs).offset =
      cs.flatMap String.utf8EncodeChar ++ [] := by
    rw [List.extract_eq_take_drop, Cursor.offset_advance, Nat.add_sub_cancel_left, hdrop,
      List.take_left, List.append_nil]
  have hchars : ((Glyph.decode (cs.flatMap String.utf8EncodeChar ++ [])).map Glyph.shown) = cs := by
    rw [Glyph.decode_encode_append_all, Glyph.decode, List.append_nil, List.map_map]
    exact List.map_id cs
  rw [tokenBetween, shownText, hbytes, hchars]

/-- What a lexeme at a cursor makes: its token, and the cursor behind it. -/
def Lexeme.placed (l : Lexeme) (start : Cursor) : Token × Cursor :=
  ({ kind := l.kind, text := String.ofList l.text, pos := start.pos }, start.advance l.text)

theorem Lexeme.placed_eq {l : Lexeme} {start : Cursor}
    (h : start.ahead source = l.text.map Glyph.char ++ l.rest) :
    l.placed start =
      (tokenBetween source l.kind start (start.advance l.text), start.advance l.text) := by
  rw [tokenBetween_advance l.text h]
  rfl

section Start

variable {start : Cursor} {c : Char} {gs : List Glyph} {fuel : Nat}
  (hstart : start.ahead source = .char c :: gs) (hfuel : gs.length < fuel)
include hstart hfuel

/-- A loop over the run behind the first character ends behind the run. -/
theorem skip_eq_advance {more : Cursor → Bool} {p : Char → List Glyph → Bool}
    (hmore : ∀ k, more k = runsOn p (k.ahead source)) :
    skip source more fuel (start.step c) = some (start.advance (c :: takeRun p gs)) := by
  have hahead := Cursor.ahead_step hstart
  rw [skip_eq hmore (by rw [hahead]; exact hfuel), hahead]
  rfl

theorem scanNumber_eq :
    scanNumber source fuel start (start.step c) = some ((number c gs).placed start) := by
  have hrun := takeRun_append_dropRun (fun c _ => isDigit c) gs
  have hpoint : (start.advance (c :: takeRun (fun c _ => isDigit c) gs)).ahead source =
      dropRun (fun c _ => isDigit c) gs := by
    refine Cursor.ahead_advance _ ?_
    rw [hstart, List.map_cons, List.cons_append, hrun]
  rw [Lexeme.placed_eq (hstart.trans (number_split c gs).symm), scanNumber,
    skip_eq_advance hstart hfuel digitAt_eq]
  generalize hk : start.advance (c :: takeRun (fun c _ => isDigit c) gs) = point at hpoint
  simp only [Option.bind_eq_bind, Option.bind_some]
  by_cases hdot : ∃ more, dropRun (fun c _ => isDigit c) gs = .char '.' :: more
  · obtain ⟨more, hmore⟩ := hdot
    rw [hmore] at hpoint
    have hpeek : peek source 0 point = some '.' := by rw [peek, hpoint]; rfl
    have hbehind := Cursor.ahead_step hpoint
    rw [if_pos hpeek, read_of_char hpoint, number_of_point hmore]
    dsimp only
    rw [digitAt_eq_digitAhead, hbehind]
    by_cases hdigit : digitAhead more = true
    · have hlength := length_dropRun_le (fun c _ => isDigit c) gs
      rw [hmore, List.length_cons] at hlength
      rw [if_pos hdigit, if_pos hdigit, skip_eq digitAt_eq (by rw [hbehind]; omega), hbehind,
        Cursor.advance_append, hk]
      rfl
    · rw [if_neg hdigit, if_neg hdigit, hk]
      rfl
  · have hpeek : peek source 0 point ≠ some '.' := by
      intro hpeek
      rw [peek, hpoint] at hpeek
      match hgs : dropRun (fun c _ => isDigit c) gs with
      | [] => rw [hgs] at hpeek; cases hpeek
      | .stray b :: more =>
          rw [hgs] at hpeek
          have hshown : '�' = '.' := Option.some.inj hpeek
          exact absurd hshown (by decide)
      | .char d :: more =>
          rw [hgs] at hpeek
          cases hpeek
          exact hdot ⟨more, hgs⟩
    rw [if_neg hpeek, number_of_no_point (not_exists.mp hdot), hk]
    rfl

/-- **One token.** The loops find the lexeme that the recursive lexer finds, or its error. -/
theorem scanToken_eq :
    scanToken source fuel start c (start.step c) =
      some (match lexeme start.pos c gs with
        | .ok l => .ok (l.placed start)
        | .error e => .error (some e)) := by
  have hahead := Cursor.ahead_step hstart
  have hrun : ∀ kind (p : Char → List Glyph → Bool),
      (Lexeme.mk kind (c :: takeRun p gs) (dropRun p gs)).placed start =
        (tokenBetween source kind start (start.advance (c :: takeRun p gs)),
          start.advance (c :: takeRun p gs)) := by
    intro kind p
    refine Lexeme.placed_eq ?_
    rw [hstart, List.map_cons, List.cons_append, takeRun_append_dropRun]
  unfold scanToken lexeme
  rw [digitAt_eq_digitAhead, hahead]
  by_cases hsigned : (isSign c && digitAhead gs) = true
  · rw [if_pos hsigned, if_pos hsigned, scanNumber_eq hstart hfuel]
    rfl
  rw [if_neg hsigned, if_neg hsigned]
  by_cases hsymbolic : isSymbolic c = true
  · rw [if_pos hsymbolic, if_pos hsymbolic, skip_eq_advance hstart hfuel operatorAt_eq]
    dsimp only
    rw [hrun]
    rfl
  rw [if_neg hsymbolic, if_neg hsymbolic]
  by_cases hletter : isLetter c = true
  · rw [if_pos hletter, if_pos hletter, skipName_eq_skip,
      skip_eq_advance hstart hfuel nameAt_eq]
    dsimp only
    rw [hrun]
    rfl
  rw [if_neg hletter, if_neg hletter]
  by_cases hdigit : isDigit c = true
  · rw [if_pos hdigit, if_pos hdigit, scanNumber_eq hstart hfuel]
    rfl
  rw [if_neg hdigit, if_neg hdigit]
  by_cases hquote : c = '"'
  · subst hquote
    rw [if_pos rfl, if_pos rfl, skipString_eq start (by rw [hahead]; exact hfuel), hahead]
    cases hbody : stringBody gs with
    | closed text rest =>
        have hsplit := (Quotation.of_stringBody hbody).split
        dsimp only
        rw [Lexeme.placed_eq (by rw [hstart, List.map_cons, List.cons_append, hsplit])]
        rfl
    | broken before fault =>
        have hplace : ((start.step '"').advance before).pos = start.pos.advance ('"' :: before) :=
          Cursor.pos_advance start ('"' :: before)
        cases fault <;> simp [StringBody.ending, Except.map, hplace]
  · rw [if_neg hquote, if_neg hquote]
    dsimp only
    rw [Lexeme.placed_eq hstart]
    rfl

end Start

/-- What the recursive lexer makes of the units ahead of the cursor `start`, the first of which is
no space. -/
def lexemeAt (start : Cursor) : List Glyph → Except (Option LexError) (Token × Cursor)
  | [] => .error none
  | .stray _ :: _ => .error (some { pos := start.pos, fault := .invalidEncoding })
  | .char c :: gs =>
    match lexeme start.pos c gs with
    | .ok l => .ok (l.placed start)
    | .error e => .error (some e)

/-- The cursor behind the spaces ahead. -/
def Cursor.behindSpaces (source : List UInt8) (k : Cursor) : Cursor :=
  k.advance (takeRun (fun c _ => isSpace c) (k.ahead source))

theorem ahead_behindSpaces (k : Cursor) :
    (k.behindSpaces source).ahead source = dropRun (fun c _ => isSpace c) (k.ahead source) :=
  Cursor.ahead_advance _ (takeRun_append_dropRun _ _).symm

/-- **Reading a token ends**, with what the recursive lexer finds behind the spaces. -/
theorem next_eq {fuel : Nat} (hfuel : (k.ahead source).length < fuel) :
    next source fuel k =
      some (lexemeAt (k.behindSpaces source) ((k.behindSpaces source).ahead source)) := by
  have hlength := length_dropRun_le (fun c _ => isSpace c) (k.ahead source)
  rw [← ahead_behindSpaces] at hlength
  have hskip : skip source (spaceAt source) fuel k = some (k.behindSpaces source) :=
    skip_eq spaceAt_eq hfuel
  rw [next, hskip, Option.bind_eq_bind, Option.bind_some, read]
  match hgs : (k.behindSpaces source).ahead source with
  | [] => rfl
  | .stray b :: gs => rfl
  | .char c :: gs =>
      rw [hgs, List.length_cons] at hlength
      exact scanToken_eq hgs (by omega)

/-- A lexeme is in the text, and at least one byte of it. -/
theorem offset_of_lexeme {start : Cursor} {c : Char} {gs : List Glyph} {l : Lexeme}
    (hstart : start.ahead source = .char c :: gs) (hl : lexeme start.pos c gs = .ok l) :
    start.offset < (start.advance l.text).offset ∧
      (start.advance l.text).offset ≤ source.length := by
  have hsplit := lexeme_split hl
  have hlength := length_rest_lexeme_le hl
  cases htext : l.text with
  | nil =>
      -- then nothing would be taken from the units
      rw [htext, List.map_nil, List.nil_append] at hsplit
      rw [hsplit, List.length_cons] at hlength
      omega
  | cons d cs =>
      rw [htext] at hsplit
      exact Cursor.offset_advance_le d cs (hstart.trans hsplit.symm)

/-- **A token that was read is at least one byte long.** -/
theorem offset_of_next {fuel : Nat} (hfuel : (k.ahead source).length < fuel) {t : Token}
    {k' : Cursor} (h : next source fuel k = some (.ok (t, k'))) :
    k.offset < k'.offset ∧ k'.offset ≤ source.length := by
  have hspaces : k.offset ≤ (k.behindSpaces source).offset := by
    rw [Cursor.behindSpaces, Cursor.offset_advance]
    exact Nat.le_add_right _ _
  rw [next_eq hfuel] at h
  match hgs : (k.behindSpaces source).ahead source with
  | [] => rw [hgs] at h; cases h
  | .stray b :: gs => rw [hgs] at h; cases h
  | .char c :: gs =>
      rw [hgs, lexemeAt] at h
      cases hl : lexeme (k.behindSpaces source).pos c gs with
      | error e => rw [hl] at h; cases h
      | ok l =>
          rw [hl] at h
          cases h
          obtain ⟨hlt, hle⟩ := offset_of_lexeme hgs hl
          exact ⟨Nat.lt_of_le_of_lt hspaces hlt, hle⟩

/-- **The loop over a whole text ends**, with the tokens that the recursive lexer finds. -/
theorem scan_eq {fuel : Nat} (hfuel : source.length - k.offset < fuel) :
    scan source fuel k = some (tokens k.pos (k.ahead source)) := by
  induction fuel generalizing k with
  | zero => omega
  | succ fuel ih =>
      have hahead : (k.ahead source).length < fuel + 1 :=
        Nat.lt_of_le_of_lt (length_ahead_le source k) hfuel
      have hnext := next_eq hahead
      have hplace : k.pos.advance (takeRun (fun c _ => isSpace c) (k.ahead source)) =
          (k.behindSpaces source).pos := (Cursor.pos_advance _ _).symm
      rw [scan, tokens_eq, hplace, ← ahead_behindSpaces]
      match hgs : (k.behindSpaces source).ahead source with
      | [] => rw [hnext, hgs]; rfl
      | .stray b :: gs => rw [hnext, hgs]; rfl
      | .char c :: gs =>
          rw [hgs, lexemeAt] at hnext
          dsimp only
          cases hl : lexeme (k.behindSpaces source).pos c gs with
          | error e =>
              rw [hl] at hnext
              rw [hnext]
              rfl
          | ok l =>
              rw [hl] at hnext
              -- behind the token there are fewer bytes, so there is fuel enough for the rest
              obtain ⟨hlt, hle⟩ := offset_of_next hahead hnext
              have hscan : scan source fuel ((k.behindSpaces source).advance l.text) = _ :=
                ih (by omega)
              have hrest := Cursor.ahead_advance l.text (hgs.trans (lexeme_split hl).symm)
              rw [hrest, Cursor.pos_advance] at hscan
              rw [hnext, Option.bind_eq_bind, Option.bind_some]
              dsimp only [Lexeme.placed]
              rw [hscan, Option.bind_eq_bind, Option.bind_some, ok_bind]
              cases tokens ((k.behindSpaces source).pos.advance l.text) l.rest <;> rfl

theorem length_tokens_le {pos : Position} {gs : List Glyph} {ts : List Token}
    (h : tokens pos gs = .ok ts) : ts.length ≤ gs.length := by
  induction pos, gs using lexing_induction generalizing ts with
  | nil pos => rw [tokens_nil] at h; cases h; exact Nat.le_refl _
  | stray pos b gs => rw [tokens_stray] at h; cases h
  | space pos c gs hc ih =>
      rw [tokens_space hc] at h
      exact Nat.le_succ_of_le (ih h)
  | broken pos c gs e hc hl => rw [tokens_char hc, hl] at h; cases h
  | token pos c gs l hc hl ih =>
      rw [tokens_char hc, hl, ok_bind, bind_eq_ok] at h
      obtain ⟨us, hus, h⟩ := h
      cases h
      have hle := ih hus
      have hlength := length_rest_lexeme_le hl
      rw [List.length_cons, List.length_cons]
      omega

end LetWhile.Lexer
