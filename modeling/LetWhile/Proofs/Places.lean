import LetWhile.Proofs.Moving

/-!
# Places do not matter

`unplaced` forgets the places in a token or a tree, which is to move them all to one place. So the
stages behind the lexer go on in the same way when the places are forgotten: what they return is
what they return with the places, with the places forgotten.

Two texts whose tokens differ in nothing but their places therefore become the same Java.
-/

namespace LetWhile

/-- A token without its place. -/
def Token.unplaced (t : Token) : Token := { t with pos := {} }

mutual

/-- An expression without its places. -/
def Expr.unplaced : Expr → Expr
  | .missing => .missing
  | .literal value _ => .literal value {}
  | .group inner _ => .group inner.unplaced {}
  | .binary op left right _ => .binary op left.unplaced right.unplaced {}
  | .var name _ => .var name {}
  | .call name args _ => .call name (Expr.unplacedAll args) {}

/-- Expressions without their places. -/
def Expr.unplacedAll : List Expr → List Expr
  | [] => []
  | e :: es => e.unplaced :: Expr.unplacedAll es

end

mutual

/-- A statement without its places. -/
def Stmt.unplaced : Stmt → Stmt
  | .missing => .missing
  | .expr value _ => .expr value.unplaced {}
  | .declare name typeName init _ => .declare name typeName (init.map Expr.unplaced) {}
  | .assign name value _ => .assign name value.unplaced {}
  | .branch cond yes no _ =>
    .branch cond.unplaced (Stmt.unplacedAll yes) (Stmt.unplacedAll no) {}
  | .loop cond body _ => .loop cond.unplaced (Stmt.unplacedAll body) {}

/-- Statements without their places. -/
def Stmt.unplacedAll : List Stmt → List Stmt
  | [] => []
  | s :: ss => s.unplaced :: Stmt.unplacedAll ss

end

theorem Expr.unplacedAll_eq_map (es : List Expr) : Expr.unplacedAll es = es.map Expr.unplaced := by
  induction es with
  | nil => rfl
  | cons e es ih => rw [Expr.unplacedAll, ih, List.map_cons]

theorem Stmt.unplacedAll_eq_map (ss : List Stmt) : Stmt.unplacedAll ss = ss.map Stmt.unplaced := by
  induction ss with
  | nil => rfl
  | cons s ss ih => rw [Stmt.unplacedAll, ih, List.map_cons]

namespace Typed

mutual

/-- A typed expression without its places. -/
def Expr.unplaced : Expr → Expr
  | .missing => .missing
  | .literal ty value _ => .literal ty value {}
  | .group ty inner _ => .group ty inner.unplaced {}
  | .binary ty op left right _ => .binary ty op left.unplaced right.unplaced {}
  | .var ty name _ => .var ty name {}
  | .call function args _ => .call function (Expr.unplacedAll args) {}

/-- Typed expressions without their places. -/
def Expr.unplacedAll : List Expr → List Expr
  | [] => []
  | e :: es => e.unplaced :: Expr.unplacedAll es

end

mutual

/-- A typed statement without its places. -/
def Stmt.unplaced : Stmt → Stmt
  | .missing => .missing
  | .expr value _ => .expr value.unplaced {}
  | .declare name ty init _ => .declare name ty (init.map Expr.unplaced) {}
  | .assign name value _ => .assign name value.unplaced {}
  | .branch cond yes no _ =>
    .branch cond.unplaced (Stmt.unplacedAll yes) (Stmt.unplacedAll no) {}
  | .loop cond body _ => .loop cond.unplaced (Stmt.unplacedAll body) {}

/-- Typed statements without their places. -/
def Stmt.unplacedAll : List Stmt → List Stmt
  | [] => []
  | s :: ss => s.unplaced :: Stmt.unplacedAll ss

end

end Typed

/-! ## Forgetting is moving -/

/-- Everything goes to the place of a missing node. -/
def toNowhere (_ : Position) : Position := {}

mutual

theorem Expr.moved_toNowhere (e : Expr) : e.moved toNowhere = e.unplaced := by
  match e with
  | .missing => rfl
  | .literal _ _ => rfl
  | .group inner _ => rw [Expr.moved, Expr.unplaced, inner.moved_toNowhere, toNowhere]
  | .binary _ left right _ =>
      rw [Expr.moved, Expr.unplaced, left.moved_toNowhere, right.moved_toNowhere, toNowhere]
  | .var _ _ => rfl
  | .call _ args _ => rw [Expr.moved, Expr.unplaced, Expr.movedAll_toNowhere args, toNowhere]

theorem Expr.movedAll_toNowhere (es : List Expr) :
    Expr.movedAll toNowhere es = Expr.unplacedAll es := by
  match es with
  | [] => rfl
  | e :: es =>
      rw [Expr.movedAll, Expr.unplacedAll, e.moved_toNowhere, Expr.movedAll_toNowhere es]

end

mutual

theorem Stmt.moved_toNowhere (s : Stmt) : s.moved toNowhere = s.unplaced := by
  match s with
  | .missing => rfl
  | .expr value _ => rw [Stmt.moved, Stmt.unplaced, value.moved_toNowhere, toNowhere]
  | .declare _ _ init _ =>
      rw [Stmt.moved, Stmt.unplaced, funext Expr.moved_toNowhere, toNowhere]
  | .assign _ value _ => rw [Stmt.moved, Stmt.unplaced, value.moved_toNowhere, toNowhere]
  | .branch cond yes no _ =>
      rw [Stmt.moved, Stmt.unplaced, cond.moved_toNowhere, Stmt.movedAll_toNowhere yes,
        Stmt.movedAll_toNowhere no, toNowhere]
  | .loop cond body _ =>
      rw [Stmt.moved, Stmt.unplaced, cond.moved_toNowhere, Stmt.movedAll_toNowhere body, toNowhere]

theorem Stmt.movedAll_toNowhere (ss : List Stmt) :
    Stmt.movedAll toNowhere ss = Stmt.unplacedAll ss := by
  match ss with
  | [] => rfl
  | s :: ss =>
      rw [Stmt.movedAll, Stmt.unplacedAll, s.moved_toNowhere, Stmt.movedAll_toNowhere ss]

end

namespace Typed

mutual

theorem Expr.moved_toNowhere (e : Expr) : e.moved toNowhere = e.unplaced := by
  match e with
  | .missing => rfl
  | .literal _ _ _ => rfl
  | .group _ inner _ => rw [Expr.moved, Expr.unplaced, inner.moved_toNowhere, toNowhere]
  | .binary _ _ left right _ =>
      rw [Expr.moved, Expr.unplaced, left.moved_toNowhere, right.moved_toNowhere, toNowhere]
  | .var _ _ _ => rfl
  | .call _ args _ => rw [Expr.moved, Expr.unplaced, Expr.movedAll_toNowhere args, toNowhere]

theorem Expr.movedAll_toNowhere (es : List Expr) :
    Expr.movedAll toNowhere es = Expr.unplacedAll es := by
  match es with
  | [] => rfl
  | e :: es =>
      rw [Expr.movedAll, Expr.unplacedAll, e.moved_toNowhere, Expr.movedAll_toNowhere es]

end

mutual

theorem Stmt.moved_toNowhere (s : Stmt) : s.moved toNowhere = s.unplaced := by
  match s with
  | .missing => rfl
  | .expr value _ => rw [Stmt.moved, Stmt.unplaced, value.moved_toNowhere, toNowhere]
  | .declare _ _ init _ =>
      rw [Stmt.moved, Stmt.unplaced, funext Expr.moved_toNowhere, toNowhere]
  | .assign _ value _ => rw [Stmt.moved, Stmt.unplaced, value.moved_toNowhere, toNowhere]
  | .branch cond yes no _ =>
      rw [Stmt.moved, Stmt.unplaced, cond.moved_toNowhere, Stmt.movedAll_toNowhere yes,
        Stmt.movedAll_toNowhere no, toNowhere]
  | .loop cond body _ =>
      rw [Stmt.moved, Stmt.unplaced, cond.moved_toNowhere, Stmt.movedAll_toNowhere body, toNowhere]

theorem Stmt.movedAll_toNowhere (ss : List Stmt) :
    Stmt.movedAll toNowhere ss = Stmt.unplacedAll ss := by
  match ss with
  | [] => rfl
  | s :: ss =>
      rw [Stmt.movedAll, Stmt.unplacedAll, s.moved_toNowhere, Stmt.movedAll_toNowhere ss]

end

end Typed

/-! ## Whole programs -/

/-- **Tokens that differ in their places only are read alike:** as programs that differ in their
places only, or with the same fault at the same token, or reading breaks off at the same text. -/
theorem Program.ofTokens_alike {ts us : List Token}
    (hsame : us.map Token.unplaced = ts.map Token.unplaced) :
    (∃ p q, Program.ofTokens ts = .ok p ∧ Program.ofTokens us = .ok q ∧
      Stmt.unplacedAll q = Stmt.unplacedAll p) ∨
    (∃ e f, Program.ofTokens ts = .error (.refused e) ∧
      Program.ofTokens us = .error (.refused f) ∧
      f.fault = e.fault ∧ f.index = e.index ∧ f.incomplete = e.incomplete) ∨
    (∃ text, Program.ofTokens ts = .error (.panicked text) ∧
      Program.ofTokens us = .error (.panicked text)) := by
  have hlength : us.length = ts.length := by simpa using congrArg List.length hsame
  have hread : Parser.movedOutcome toNowhere Stmt.unplacedAll (Parser.block [] us).outcome =
      Parser.movedOutcome toNowhere Stmt.unplacedAll (Parser.block [] ts).outcome := by
    rw [← funext Stmt.movedAll_toNowhere, ← Parser.block_moved rfl, ← Parser.block_moved rfl]
    exact congrArg (fun vs => (Parser.block [] vs).outcome) hsame
  unfold Program.ofTokens
  cases hts : Parser.block [] ts with
  | ok p =>
      cases hus : Parser.block [] us with
      | error f => rw [hts, hus] at hread; cases hread
      | ok q =>
          rw [hts, hus] at hread
          injection hread with hpair
          injection hpair with hvalue _
          exact .inl ⟨p.value, q.value, rfl, rfl, hvalue⟩
  | error s =>
      cases hus : Parser.block [] us with
      | ok q => rw [hts, hus] at hread; cases hread
      | error s' =>
          rw [hts, hus] at hread
          injection hread with hstuck
          obtain ⟨rest, obstacle⟩ := s
          obtain ⟨rest', obstacle'⟩ := s'
          injection hstuck with hrest hobstacle
          cases hobstacle
          cases obstacle with
          | missingQuotes text => exact .inr (.inr ⟨text, rfl, rfl⟩)
          | fault fault =>
              have hleft : rest'.length = rest.length := by
                simpa using congrArg List.length hrest
              refine .inr (.inl ⟨_, _, rfl, rfl, rfl, ?_, ?_⟩)
              · show us.length - rest'.length = ts.length - rest.length
                rw [hlength, hleft]
              · show rest'.isEmpty = rest.isEmpty
                rw [← List.isEmpty_map (f := Token.moved toNowhere), hrest, List.isEmpty_map]

/-- Tokens that differ in their places only are programs that differ in their places only. -/
theorem Program.ofTokens_of_unplaced {ts us : List Token} {p : Program}
    (h : Program.ofTokens ts = .ok p) (hsame : us.map Token.unplaced = ts.map Token.unplaced) :
    ∃ q, Program.ofTokens us = .ok q ∧ Stmt.unplacedAll q = Stmt.unplacedAll p := by
  rcases Program.ofTokens_alike hsame with
    ⟨p', q, hp, hq, hunplaced⟩ | ⟨e, f, he, -, -⟩ | ⟨text, htext, -⟩
  · cases h.symm.trans hp
    exact ⟨q, hq, hunplaced⟩
  · cases h.symm.trans he
  · cases h.symm.trans htext

/-- **Programs that differ in their places only are checked alike:** what they become differs in its
places only, or both break the same rule. -/
theorem Program.checkAlone_alike (lib : Library) {p q : Program}
    (hsame : Stmt.unplacedAll q = Stmt.unplacedAll p) :
    (∃ typed typed', p.checkAlone lib = .ok typed ∧ q.checkAlone lib = .ok typed' ∧
      Typed.Stmt.unplacedAll typed' = Typed.Stmt.unplacedAll typed) ∨
    (∃ e f, p.checkAlone lib = .error (.type e) ∧ q.checkAlone lib = .error (.type f) ∧
      f.fault = e.fault) := by
  have hcheck : Check.movedPair toNowhere Typed.Stmt.unplacedAll (q.check lib .empty) =
      Check.movedPair toNowhere Typed.Stmt.unplacedAll (p.check lib .empty) := by
    unfold Program.check
    rw [← funext Typed.Stmt.movedAll_toNowhere, ← Check.block_moved rfl, ← Check.block_moved rfl,
      Stmt.movedAll_toNowhere, Stmt.movedAll_toNowhere, hsame]
  have hverdict := congrArg Prod.fst hcheck
  unfold Check.movedPair at hverdict
  unfold Program.checkAlone
  cases hp : (p.check lib .empty).1 with
  | ok typed =>
      cases hq : (q.check lib .empty).1 with
      | error f => rw [hp, hq] at hverdict; cases hverdict
      | ok typed' =>
          rw [hp, hq] at hverdict
          injection hverdict with htyped
          exact .inl ⟨typed, typed', rfl, rfl, htyped⟩
  | error e =>
      cases hq : (q.check lib .empty).1 with
      | ok typed' => rw [hp, hq] at hverdict; cases hverdict
      | error f =>
          rw [hp, hq] at hverdict
          injection hverdict with herror
          injection herror with _ hfault
          exact .inr ⟨e, f, rfl, rfl, hfault⟩

theorem Java.program_of_unplaced {p q : Typed.Program}
    (hsame : Typed.Stmt.unplacedAll q = Typed.Stmt.unplacedAll p) (o : Java.Options) :
    Java.program o q = Java.program o p := by
  rw [← @Java.program_moved toNowhere o q, Typed.Stmt.movedAll_toNowhere, hsame,
    ← Typed.Stmt.movedAll_toNowhere, Java.program_moved]

/-- Programs that differ in their places only print the same Java if one of them can be checked. -/
theorem Program.checkAlone_of_unplaced {lib : Library} {p q : Program} {typed : Typed.Program}
    (h : p.checkAlone lib = .ok typed) (hsame : Stmt.unplacedAll q = Stmt.unplacedAll p) :
    ∃ typed', q.checkAlone lib = .ok typed' ∧
      ∀ o, Java.program o typed' = Java.program o typed := by
  rcases Program.checkAlone_alike lib hsame with ⟨t, t', ht, ht', htyped⟩ | ⟨e, f, he, hf, -⟩
  · cases h.symm.trans ht
    exact ⟨t', ht', Java.program_of_unplaced htyped⟩
  · cases h.symm.trans he

end LetWhile
