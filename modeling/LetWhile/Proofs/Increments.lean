import LetWhile.Proofs.Nodes
import LetWhile.Proofs.Sessions

/-!
# The answers of a session add up

For each piece a session checks all that it has accepted before once more, with the piece behind it,
and answers with the Java text of the piece alone. That is sound only if the old statements come out
of every check as before. They do: the checker goes from the front to the back, so checking a
program in two parts is checking it at once, and the second part is checked in the scope that the
first one leaves.

It follows that the texts which a session has returned since its last reset make up the text of its
whole history, and that an error is always one of the new piece.
-/

namespace LetWhile

/-! ## Checking in two parts -/

/-- **Behind statements that keep the rules, the checker goes on in the scope that they leave.** -/
theorem Check.block_append {lib : Library} {scope mid : Scope} {front : List Stmt}
    {typed : List Typed.Stmt} (h : block lib scope front = (.ok typed, mid)) (back : List Stmt) :
    block lib scope (front ++ back) =
      match block lib mid back with
      | (.error e, after) => (.error e, after)
      | (.ok typed', after) => (.ok (typed ++ typed'), after) := by
  induction front generalizing scope typed with
  | nil =>
      rw [block] at h
      cases h
      rw [List.nil_append]
      cases hback : block lib mid back with
      | mk result after => cases result <;> rfl
  | cons s front ih =>
      rw [block] at h
      cases hfirst : stmt lib scope s with
      | mk first scope₁ =>
        rw [hfirst] at h
        cases first with
        | error e => cases h
        | ok first =>
          dsimp only at h
          cases hrest : block lib scope₁ front with
          | mk rest scope₂ =>
            rw [hrest] at h
            cases rest with
            | error e => cases h
            | ok rest =>
              cases h
              rw [List.cons_append, block, hfirst]
              dsimp only
              rw [ih hrest]
              cases hback : block lib mid back with
              | mk result after => cases result <;> rfl

theorem Program.check_append {lib : Library} {scope mid : Scope} {front : Program}
    {typed : Typed.Program} (h : front.check lib scope = (.ok typed, mid)) (back : Program) :
    Program.check lib scope (front ++ back) =
      match back.check lib mid with
      | (.error e, after) => (.error e, after)
      | (.ok typed', after) => (.ok (typed ++ typed'), after) :=
  Check.block_append h back

theorem Typing.BlockTyped.length_eq {lib : Library} {Γ Γ' : Env} {ss : List Stmt}
    {ts : List Typed.Stmt} (h : BlockTyped lib Γ ss Γ' ts) : ts.length = ss.length := by
  induction ss generalizing Γ ts with
  | nil => cases h; rfl
  | cons s ss ih =>
      cases h with
      | cons _ hss => rw [List.length_cons, List.length_cons, ih hss]

theorem Program.length_of_check {lib : Library} {scope after : Scope} {p : Program}
    {typed : Typed.Program} (h : p.check lib scope = (.ok typed, after)) :
    typed.length = p.length :=
  (Typing.block_sound p h).length_eq

/-! ## Printing in two parts -/

theorem Java.stmts_append {width spaces : Nat} {front back : List Typed.Stmt}
    {lines lines' : List String} (h : stmts width spaces front = .ok lines)
    (h' : stmts width spaces back = .ok lines') :
    stmts width spaces (front ++ back) = .ok (lines ++ lines') := by
  induction front generalizing lines with
  | nil =>
      rw [stmts] at h
      cases h
      exact h'
  | cons s front ih =>
      rw [stmts, bind_eq_ok] at h
      obtain ⟨first, hfirst, h⟩ := h
      rw [bind_eq_ok] at h
      obtain ⟨rest, hrest, h⟩ := h
      cases h
      rw [List.cons_append, stmts, hfirst, ok_bind, ih hrest, ok_bind, pure_eq_ok,
        List.append_assoc]

theorem javaText_eq_ok {x : Except Gap (List String)} {text : String} :
    javaText x = .ok text ↔ ∃ lines, x = .ok lines ∧ String.join lines = text := by
  cases x with
  | error g => simp [javaText]
  | ok lines => simp [javaText, Java.text]

/-- **The text of statements is that of its parts.** -/
theorem Java.javaText_statements_append {o : Options} {front back : List Typed.Stmt}
    {text text' : String} (h : javaText (statements o front) = .ok text)
    (h' : javaText (statements o back) = .ok text') :
    javaText (statements o (front ++ back)) = .ok (text ++ text') := by
  obtain ⟨lines, hlines, rfl⟩ := javaText_eq_ok.mp h
  obtain ⟨lines', hlines', rfl⟩ := javaText_eq_ok.mp h'
  exact javaText_eq_ok.mpr ⟨_, stmts_append hlines hlines', String.join_append⟩

namespace Session

/-! ## One piece -/

/-- What a session does with a piece when its history is checked to `typed` and leaves `scope`. -/
inductive AddOutcome (s : Session) (scope : Scope) (source : List UInt8) :
    Except CompileError String × Session → Prop where
  /-- The piece is no program. -/
  | unreadable {e : CompileError} :
      Program.parse source = .error e → (∀ err, e ≠ .type err) →
      AddOutcome s scope source (.error e, s)
  /-- The piece breaks a rule behind the history. -/
  | broken {piece : Program} {err : TypeError} {after : Scope} :
      Program.parse source = .ok piece →
      piece.check s.options.library scope = (.error err, after) →
      AddOutcome s scope source (.error (.type err), s)
  /-- The piece keeps the rules, and its own text is returned. -/
  | taken {piece : Program} {typed : Typed.Program} {after : Scope} {java : String} :
      Program.parse source = .ok piece →
      piece.check s.options.library scope = (.ok typed, after) →
      javaText (Java.statements s.options.java typed) = .ok java →
      AddOutcome s scope source (.ok java, { s with history := s.history ++ piece })

theorem parse_error_ne_type {source : List UInt8} {e : CompileError}
    (h : Program.parse source = .error e) (err : TypeError) : e ≠ .type err := by
  unfold Program.parse at h
  rintro rfl
  split at h
  · cases h
  split at h
  · next failure _ => cases failure <;> cases h
  · cases h

/-- **A piece is checked in the scope that the history leaves.** -/
theorem add_outcome {s : Session} {typed : Typed.Program} {scope : Scope}
    (h : s.history.check s.options.library .empty = (.ok typed, scope)) (source : List UInt8) :
    AddOutcome s scope source (s.add source) := by
  unfold add
  cases hparse : Program.parse source with
  | error e => exact .unreadable hparse (parse_error_ne_type hparse)
  | ok piece =>
      dsimp only
      rw [Program.checkAlone, Program.check_append h piece]
      cases hcheck : piece.check s.options.library scope with
      | mk result after =>
        cases result with
        | error err => exact .broken hparse hcheck
        | ok typed' =>
            dsimp only
            -- what stands behind the history in the checked program is the checked piece
            have hwhole : ∀ t ∈ typed', t.Whole := (Typing.block_sound piece hcheck).whole
            obtain ⟨lines, hlines⟩ := Java.statements_total hwhole s.options.java
            have hjava : javaText (Java.statements s.options.java typed') =
                .ok (Java.text lines) := by
              rw [hlines]
              rfl
            rw [← Program.length_of_check h, List.drop_left, hjava]
            exact .taken hparse hcheck hjava

/-! ## Runs -/

/-- The texts returned for accepted pieces since the last reset, with those before a request given
as `texts`. -/
def returned (s : Session) (texts : List String) : Request → List String
  | .add source =>
    match (s.add source).1 with
    | .ok java => texts ++ [java]
    | .error _ => texts
  | .program => texts
  | .reset => []

/-- The session behind requests, and the texts that it has returned for accepted pieces since the
last reset. -/
def replay (s : Session) (texts : List String) : List Request → Session × List String
  | [] => (s, texts)
  | r :: rs => (s.handle r).2.replay (s.returned texts r) rs

/-- What a run keeps true: the history keeps the rules, and its text is what was returned. -/
structure AddsUp (o : CompileOptions) (s : Session) (texts : List String) : Prop where
  options : s.options = o
  whole : ∃ typed scope, s.history.check o.library .empty = (.ok typed, scope) ∧
    javaText (Java.statements o.java typed) = .ok (String.join texts)

theorem addsUp_nil {o : CompileOptions} {s : Session} (ho : s.options = o) (hs : s.history = []) :
    AddsUp o s [] := by
  refine ⟨ho, [], .empty, ?_, rfl⟩
  rw [hs]
  rfl

/-- **One step of a run preserves that the answers add up.** -/
theorem AddsUp.step {o : CompileOptions} {s : Session} {texts : List String}
    (h : AddsUp o s texts) (r : Request) : AddsUp o (s.handle r).2 (s.returned texts r) := by
  cases r with
  | program => exact h
  | reset => exact addsUp_nil h.options rfl
  | add source =>
      obtain ⟨rfl, typed, scope, hcheck, htext⟩ := h
      have hadd := add_outcome hcheck source
      rw [handle, returned]
      generalize s.add source = result at hadd ⊢
      cases hadd with
      | unreadable _ _ => exact ⟨rfl, typed, scope, hcheck, htext⟩
      | broken _ _ => exact ⟨rfl, typed, scope, hcheck, htext⟩
      | @taken piece typed' after java _ hpiece hjava =>
          -- the history grows by the piece, and the text by that of the piece
          refine ⟨rfl, typed ++ typed', after, ?_, ?_⟩
          · show Program.check _ _ (s.history ++ piece) = _
            rw [Program.check_append hcheck piece, hpiece]
          · have hjoin : String.join (texts ++ [java]) = String.join texts ++ java := by
              rw [String.join_append, String.join_cons, String.join_nil, String.append_empty]
            rw [hjoin]
            exact Java.javaText_statements_append htext hjava

theorem AddsUp.replay {o : CompileOptions} {s : Session} {texts : List String}
    (h : AddsUp o s texts) (rs : List Request) :
    AddsUp o (s.replay texts rs).1 (s.replay texts rs).2 := by
  induction rs generalizing s texts with
  | nil => exact h
  | cons r rs ih => exact ih (h.step r)

/-! ## What a run returns -/

/-- An error of the checker stands at a token of the text that was checked. -/
theorem exists_token_of_error {lib : Library} {scope after : Scope} {source : List UInt8}
    {piece : Program} {err : TypeError} (hparse : Program.parse source = .ok piece)
    (hcheck : piece.check lib scope = (.error err, after)) :
    ∃ ts, Token.lex source = .ok ts ∧ ∃ t ∈ ts, err.pos = t.pos := by
  obtain ⟨ts, hlex, hts⟩ := Program.parse_eq_ok.mp hparse
  have hpos : err.pos ∈ piece.places := Check.block_error_pos piece (congrArg Prod.fst hcheck)
  exact ⟨ts, hlex, Program.places_of_ofTokens hts (fun t ht => ht) _ hpos⟩

/-- **What is known of a piece that was taken.** It was checked behind the history, which came out
as before, and its own statements were printed. -/
theorem add_eq_ok {s : Session} {typed : Typed.Program} {scope : Scope}
    (h : s.history.check s.options.library .empty = (.ok typed, scope)) {source : List UInt8}
    {java : String} (hjava : (s.add source).1 = .ok java) :
    ∃ piece typed' after, Program.parse source = .ok piece ∧
      (s.add source).2.history = s.history ++ piece ∧
      (s.add source).2.length = s.length + piece.length ∧
      Program.check s.options.library .empty (s.history ++ piece) =
        (.ok (typed ++ typed'), after) ∧
      piece.check s.options.library scope = (.ok typed', after) ∧
      javaText (Java.statements s.options.java typed') = .ok java := by
  have hadd := add_outcome h source
  generalize s.add source = result at hadd hjava ⊢
  cases hadd with
  | unreadable _ _ => cases hjava
  | broken _ _ => cases hjava
  | @taken piece typed' after _ hparse hpiece hown =>
      cases hjava
      refine ⟨piece, typed', after, hparse, rfl, List.length_append, ?_, hpiece, hown⟩
      rw [Program.check_append h piece, hpiece]

/-- **What is known of a piece that was refused.** The session is as before, and a broken rule is
broken by the piece, at one of its tokens. -/
theorem add_eq_error {s : Session} {typed : Typed.Program} {scope : Scope}
    (h : s.history.check s.options.library .empty = (.ok typed, scope)) {source : List UInt8}
    {e : CompileError} (he : (s.add source).1 = .error e) :
    (s.add source).2.history = s.history ∧ (s.add source).2.length = s.length ∧
      ∀ err, e = .type err →
        (∃ piece after, Program.parse source = .ok piece ∧
          piece.check s.options.library scope = (.error err, after)) ∧
        ∃ ts, Token.lex source = .ok ts ∧ ∃ t ∈ ts, err.pos = t.pos := by
  have hadd := add_outcome h source
  generalize s.add source = result at hadd he ⊢
  cases hadd with
  | unreadable _ hno =>
      cases he
      exact ⟨rfl, rfl, fun err herr => absurd herr (hno err)⟩
  | @broken piece err after hparse hpiece =>
      cases he
      refine ⟨rfl, rfl, fun err' herr => ?_⟩
      cases herr
      exact ⟨⟨piece, after, hparse, hpiece⟩, exists_token_of_error hparse hpiece⟩
  | taken _ _ _ => cases he

/--
**The answers of a session add up.** Whatever was asked of a new session, let `typed` be its whole
history, checked at once. The texts returned for the pieces accepted since the last reset are, one
behind the other, the text of `typed`. A piece that is accepted is checked behind `typed`, which
stays as it is; its own statements are what is returned, and their number is what the session grows
by. A piece that is refused leaves the session as it was, and if it breaks a rule, then in one of
its own statements, at one of its own tokens.
-/
theorem replay_adds_up (o : CompileOptions) (rs : List Request) :
    let s := (replay { options := o } [] rs).1
    let texts := (replay { options := o } [] rs).2
    ∃ typed scope, s.history.check o.library .empty = (.ok typed, scope) ∧
      javaText (Java.statements o.java typed) = .ok (String.join texts) ∧
      (∀ source java, (s.add source).1 = .ok java →
        ∃ piece typed' after, Program.parse source = .ok piece ∧
          (s.add source).2.history = s.history ++ piece ∧
          (s.add source).2.length = s.length + piece.length ∧
          Program.check o.library .empty (s.history ++ piece) = (.ok (typed ++ typed'), after) ∧
          piece.check o.library scope = (.ok typed', after) ∧
          javaText (Java.statements o.java typed') = .ok java) ∧
      ∀ source e, (s.add source).1 = .error e →
        (s.add source).2.history = s.history ∧ (s.add source).2.length = s.length ∧
        ∀ err, e = .type err →
          (∃ piece after, Program.parse source = .ok piece ∧
            piece.check o.library scope = (.error err, after)) ∧
          ∃ ts, Token.lex source = .ok ts ∧ ∃ t ∈ ts, err.pos = t.pos := by
  intro s texts
  have hstart : AddsUp o { options := o } [] := addsUp_nil rfl rfl
  obtain ⟨hoptions, typed, scope, hcheck, htext⟩ : AddsUp o s texts := hstart.replay rs
  refine ⟨typed, scope, hcheck, htext, ?_, ?_⟩
  · rw [← hoptions] at hcheck ⊢
    exact fun source java hjava => add_eq_ok hcheck hjava
  · rw [← hoptions] at hcheck ⊢
    exact fun source e he => add_eq_error hcheck he

/-- A declaration, a piece that is refused, and a question for the program. -/
def counting : List Request :=
  [.add (utf8Bytes "LET n : INTEGER"), .add (utf8Bytes "m = 1"), .program]

/-- The session behind these requests. -/
def countingSession : Session := (replay { options := {} } [] counting).1

/-- The theorem above, of that session: it takes an assignment, and refuses another one at its own
first token. -/
theorem counting_adds_up :
    (replay { options := {} } [] counting).2 = ["int n;\n"] ∧
      (countingSession.add (utf8Bytes "n = 2")).1 = .ok "n = 2;\n" ∧
      (countingSession.add (utf8Bytes "n = 2")).2.length = countingSession.length + 1 ∧
      ∃ err, (countingSession.add (utf8Bytes " n = TRUE")).1 = .error (.type err) ∧
        (countingSession.add (utf8Bytes " n = TRUE")).2.length = countingSession.length ∧
        ∃ ts, Token.lex (utf8Bytes " n = TRUE") = .ok ts ∧ ∃ t ∈ ts, err.pos = t.pos := by
  obtain ⟨typed, scope, -, -, htaken, hrefused⟩ := replay_adds_up {} counting
  have htexts : (replay { options := {} } [] counting).2 = ["int n;\n"] := by
    decide +kernel
  have hjava : (countingSession.add (utf8Bytes "n = 2")).1 = .ok "n = 2;\n" := by
    decide +kernel
  have herror : (countingSession.add (utf8Bytes " n = TRUE")).1 = .error (.type
      { pos := ⟨1, 1, 2⟩,
        fault := .variableMismatch "n" { source := .boolean, target := .integer } }) := by
    decide +kernel
  obtain ⟨piece, typed', after, hparse, -, hlength, -⟩ := htaken _ _ hjava
  obtain ⟨-, hsame, htoken⟩ := hrefused _ _ herror
  have hone : piece.length = 1 := by
    have hpiece : Program.parse (utf8Bytes "n = 2") =
        .ok [.assign "n" (.literal (.integer 2) ⟨4, 1, 5⟩) ⟨0, 1, 1⟩] := by with_unfolding_all rfl
    rw [hpiece] at hparse
    cases hparse
    rfl
  rw [hone] at hlength
  exact ⟨htexts, hjava, hlength, _, herror, hsame, (htoken _ rfl).2⟩

end Session

end LetWhile
