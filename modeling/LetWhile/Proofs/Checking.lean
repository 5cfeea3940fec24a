import LetWhile.Proofs.Steps
import LetWhile.Proofs.Typing

/-!
# The checker decides the type system

`Program.check` accepts the programs that the rules of `Typing` derive, and no others. It returns
the typed tree of the derivation, and the scope that it leaves stands for the environment behind the
last statement.

The checker threads a scope through the program where the rules have environments, so the induction
carries one fact along: the scope in front of a statement stands for the environment in front of it.
-/

namespace LetWhile.Typing

/-! ## Scopes and environments -/

theorem find?_ofScope (s : Scope) (x : String) : (ofScope s).find? x = s.find? x := by
  unfold Scope.find? Scope.frames
  rw [List.findSome?_cons]
  show (s.frame.find? x).or _ = _
  cases s.frame.find? x <;> rfl

theorem lookup_eq_ok {s : Scope} {x : String} {τ : Ty} :
    s.lookup x = .ok τ ↔ (ofScope s).find? x = some τ := by
  rw [find?_ofScope]
  unfold Scope.lookup
  cases s.find? x <;> simp

theorem lookup_snoc {bs : List (String × Ty)} {x : String} (h : bs.lookup x = none) (y : String)
    (τ : Ty) : (bs ++ [(x, τ)]).lookup y = if y = x then some τ else bs.lookup y := by
  rw [List.lookup_append, List.lookup_cons]
  by_cases hy : y = x
  · subst hy
    rw [h, if_pos rfl, beq_self_eq_true]
    rfl
  · rw [if_neg hy, beq_eq_false_iff_ne.mpr hy]
    exact Option.or_none

/-- A name is defined exactly when the innermost frame does not bind it, and then its binding stands
last there. -/
theorem define_eq_ok_iff {s s' : Scope} {x : String} {τ : Ty} :
    s.define x τ = .ok s' ↔
      s.frame.find? x = none ∧ s' = ⟨⟨s.frame.bindings ++ [(x, τ)]⟩, s.outer⟩ := by
  unfold Scope.define Frame.define
  cases s.frame.find? x with
  | some _ => simp
  | none => simp [eq_comm]

theorem define_eq_ok {s s' : Scope} {x : String} {τ : Ty} (h : s.define x τ = .ok s') :
    (ofScope s).inner x = none ∧ ofScope s' = (ofScope s).bind x τ := by
  obtain ⟨hx, rfl⟩ := define_eq_ok_iff.mp h
  refine ⟨hx, ?_⟩
  unfold ofScope Env.bind
  congr 1
  funext y
  exact lookup_snoc hx y τ

theorem define_of_fresh {s : Scope} {x : String} {τ : Ty} (h : (ofScope s).inner x = none) :
    ∃ s', s.define x τ = .ok s' :=
  ⟨_, define_eq_ok_iff.mpr ⟨h, rfl⟩⟩

/-! ## Types -/

theorem assignable_iff {σ τ : Ty} : σ.assignable τ = true ↔ Assignable σ τ := by
  unfold Ty.assignable
  simp only [Bool.and_eq_true, Bool.or_eq_true, decide_eq_true_eq]
  constructor
  · rintro ⟨⟨hσ, _⟩, (rfl | ⟨rfl, rfl⟩) | ⟨rfl, hvoid⟩⟩
    · exact .same hσ
    · exact .widen
    · exact .any hσ hvoid
  · intro h
    cases h with
    | same hσ => exact ⟨⟨hσ, hσ⟩, .inl (.inl rfl)⟩
    | widen => exact ⟨⟨by decide, by decide⟩, .inl (.inr ⟨rfl, rfl⟩)⟩
    | any hσ hvoid => exact ⟨⟨hσ, by decide⟩, .inr ⟨rfl, hvoid⟩⟩

theorem mismatch?_eq_none {σ τ : Ty} : σ.mismatch? τ = none ↔ Assignable σ τ := by
  rw [← assignable_iff]
  unfold Ty.mismatch?
  cases σ.assignable τ <;> simp

theorem ofName?_eq_some {name : String} {τ : Ty} :
    Ty.ofName? name = some τ ↔ τ.name = name ∧ τ ≠ .invalid := by
  constructor
  · intro h
    unfold Ty.ofName? at h
    have hname := List.find?_some h
    rw [decide_eq_true_eq] at hname
    have hmem := List.mem_of_find?_eq_some h
    exact ⟨hname, fun hinv => absurd hmem (by rw [hinv]; decide)⟩
  · rintro ⟨rfl, hinv⟩
    cases τ with
    | invalid => exact absurd rfl hinv
    | _ => rfl

theorem isNumeric_iff {τ : Ty} : τ.isNumeric = true ↔ Numeric τ := by
  unfold Ty.isNumeric
  simp only [Bool.or_eq_true, decide_eq_true_eq]
  constructor
  · rintro (rfl | rfl)
    · exact .integer
    · exact .decimal
  · intro h
    cases h with
    | integer => exact .inl rfl
    | decimal => exact .inr rfl

theorem binaryType_sound {op : String} {σ τ ρ : Ty} (h : Check.binaryType op σ τ = .ok ρ) :
    BinaryTyped op σ τ ρ := by
  unfold Check.binaryType at h
  split at h
  · next hop => cases h; exact .compare (by simpa using hop)
  split at h
  · cases h
  next hop =>
  -- an operator that is neither a comparison nor unknown calculates
  have hop : op ∈ ["+", "-", "*", "/"] := by
    simp only [List.mem_cons, List.not_mem_nil, or_false]
    grind
  split at h
  · cases h
  next hσ =>
  split at h
  · cases h
  next hτ =>
  rw [not_or] at hσ hτ
  split at h
  · next htext =>
    split at h
    · next hplus =>
      cases h
      subst hplus
      rcases htext with rfl | rfl
      · exact .textLeft hτ.1 hτ.2
      · exact .textRight hσ.1 hσ.2
    · cases h
  split at h
  · cases h
  next hnσ =>
  split at h
  · cases h
  next hnτ =>
  -- both operands are numbers from here on
  simp only [Bool.not_eq_true', Bool.not_eq_false] at hnσ hnτ
  have hnσ := isNumeric_iff.mp hnσ
  have hnτ := isNumeric_iff.mp hnτ
  split at h
  · next hdec => cases h; exact .decimals hop hnσ hnτ hdec
  · next hdec =>
    cases h
    rw [not_or] at hdec
    cases hnσ with
    | decimal => exact absurd rfl hdec.1
    | integer =>
        cases hnτ with
        | decimal => exact absurd rfl hdec.2
        | integer => exact .integers hop

/-- There are six operators. -/
theorem BinaryTyped.mem_operators {op : String} {σ τ ρ : Ty} (h : BinaryTyped op σ τ ρ) :
    op ∈ ["==", "!=", "+", "-", "*", "/"] := by
  cases h with
  | compare hop => exact List.mem_append_left ["+", "-", "*", "/"] hop
  | integers hop => exact List.mem_append_right ["==", "!="] hop
  | decimals hop _ _ _ => exact List.mem_append_right ["==", "!="] hop
  | textLeft _ _ => decide
  | textRight _ _ => decide

theorem BinaryTyped.complete {op : String} {σ τ ρ : Ty} (h : BinaryTyped op σ τ ρ) :
    Check.binaryType op σ τ = .ok ρ := by
  cases h with
  | compare hop =>
      unfold Check.binaryType
      rw [if_pos (by simpa using hop)]
  | integers hop =>
      simp only [List.mem_cons, List.not_mem_nil, or_false] at hop
      rcases hop with rfl | rfl | rfl | rfl <;> rfl
  | decimals hop hσ hτ hdec =>
      simp only [List.mem_cons, List.not_mem_nil, or_false] at hop
      cases hσ <;> cases hτ
      · exact absurd hdec (by decide)
      all_goals rcases hop with rfl | rfl | rfl | rfl <;> rfl
  | textLeft hbool hvoid =>
      cases τ with
      | boolean => exact absurd rfl hbool
      | void => exact absurd rfl hvoid
      | _ => rfl
  | textRight hbool hvoid =>
      cases σ with
      | boolean => exact absurd rfl hbool
      | void => exact absurd rfl hvoid
      | _ => rfl

/-! ## Literals -/

theorem roundCode_le (num den : Nat) : Binary64.roundCode num den ≤ Binary64.infinityCode := by
  unfold Binary64.roundCode
  split
  · exact Nat.zero_le _
  · exact Nat.min_le_left _ _

theorem code_ofCode (negative : Bool) {c : Nat} (h : c ≤ Binary64.infinityCode) :
    (Binary64.ofCode negative c).code = c := by
  have hc : c < Binary64.signBit := Nat.lt_of_le_of_lt h (by decide)
  unfold Binary64.ofCode Binary64.code
  -- the sign is the top bit, and codes stay below it
  have hsign : Binary64.signBit = 2 ^ 63 := by decide
  rw [hsign] at hc ⊢
  cases negative with
  | false =>
      simp only [Bool.false_eq_true, if_false, UInt64.toNat_ofNat']
      omega
  | true =>
      simp only [if_true, UInt64.toNat_ofNat']
      omega

/-- Rounding never gives something that is no number. -/
theorem code_ofRat_le (q : Rat) : (Binary64.ofRat q).code ≤ Binary64.infinityCode := by
  unfold Binary64.ofRat
  rw [code_ofCode _ (roundCode_le _ _)]
  exact roundCode_le _ _

theorem isInfinite_ofRat_iff (q : Rat) :
    (Binary64.ofRat q).isInfinite = false ↔ (Binary64.ofRat q).code < Binary64.infinityCode := by
  have := code_ofRat_le q
  unfold Binary64.isInfinite
  rw [decide_eq_false_iff_not]
  omega

theorem literal_sound {pos : Position} {value : Constant} {t : Typed.Expr}
    (h : Check.literal pos value = .ok t) :
    ∃ τ value', LiteralTyped value τ value' ∧ t = .literal τ value' pos := by
  cases value with
  | bool b => cases h; exact ⟨_, _, .bool b, rfl⟩
  | text s => cases h; exact ⟨_, _, .text s, rfl⟩
  | stray s => cases h; exact ⟨_, _, .stray s, rfl⟩
  | integer n =>
      unfold Check.literal at h
      dsimp only at h
      split at h
      · next hn => cases h; exact ⟨_, _, .integer hn.1 (by omega), rfl⟩
      · cases h
  | ratio q =>
      unfold Check.literal at h
      dsimp only at h
      split at h
      · cases h
      next hinf =>
      split at h
      · cases h
      next hsmall =>
      cases h
      refine ⟨_, _, .decimal ⟨?_, ?_⟩, rfl⟩
      · exact (isInfinite_ofRat_iff q).mp (Bool.eq_false_iff.mpr hinf)
      · intro hq
        exact Nat.not_lt.mp fun hlt => hsmall ⟨hq, hlt⟩
  | absent => cases h
  | int32 n => cases h
  | double x => cases h

theorem LiteralTyped.complete {value value' : Constant} {τ : Ty} (h : LiteralTyped value τ value')
    (pos : Position) : Check.literal pos value = .ok (.literal τ value' pos) := by
  cases h with
  | bool b => rfl
  | text s => rfl
  | stray s => rfl
  | integer h1 h2 =>
      unfold Check.literal
      dsimp only
      rw [if_pos ⟨h1, by omega⟩]
  | @decimal q hq =>
      obtain ⟨hfin, hnorm⟩ := hq
      unfold Check.literal
      dsimp only
      rw [(isInfinite_ofRat_iff q).mpr hfin, if_neg (by decide), if_neg]
      rintro ⟨hq, hlt⟩
      exact Nat.not_lt.mpr (hnorm hq) hlt

/-! ## Expressions -/

theorem ArgsTyped.length_eq {lib : Library} {Γ : Env} {args : List Expr} {params : List Ty}
    {ts : List Typed.Expr} (h : ArgsTyped lib Γ args params ts) : args.length = params.length := by
  induction args generalizing params ts with
  | nil => cases h; rfl
  | cons e es ih =>
      cases h with
      | cons _ _ hrest => rw [List.length_cons, List.length_cons, ih hrest]

mutual

theorem expr_sound {lib : Library} {s : Scope} {t : Typed.Expr} :
    (e : Expr) → Check.expr lib s e = .ok t → ExprTyped lib (ofScope s) e t.ty t
  | .missing, h => by
      rw [Check.expr] at h
      cases h
  | .literal value pos, h => by
      rw [Check.expr] at h
      obtain ⟨τ, value', hv, rfl⟩ := literal_sound h
      exact .literal hv
  | .group inner pos, h => by
      rw [Check.expr, bind_eq_ok] at h
      obtain ⟨inner', hinner, h⟩ := h
      cases h
      exact .group (expr_sound inner hinner)
  | .binary op left right pos, h => by
      rw [Check.expr, bind_eq_ok] at h
      obtain ⟨left', hleft, h⟩ := h
      rw [bind_eq_ok] at h
      obtain ⟨right', hright, h⟩ := h
      split at h
      · next ty hty =>
        cases h
        exact .binary (expr_sound left hleft) (expr_sound right hright) (binaryType_sound hty)
      · cases h
  | .var name pos, h => by
      rw [Check.expr] at h
      split at h
      · next ty hty => cases h; exact .var (lookup_eq_ok.mp hty)
      · cases h
  | .call name args pos, h => by
      rw [Check.expr] at h
      split at h
      · cases h
      next f hf =>
      split at h
      · next hlen =>
        rw [bind_eq_ok] at h
        obtain ⟨args', hargs, h⟩ := h
        cases h
        exact .call hf (arguments_sound args f.params hlen hargs)
      · cases h

theorem arguments_sound {lib : Library} {s : Scope} {name : String} {index : Nat}
    {ts : List Typed.Expr} :
    (args : List Expr) → (params : List Ty) → args.length = params.length →
    Check.arguments lib s name index args params = .ok ts → ArgsTyped lib (ofScope s) args params ts
  | [], [], _, h => by
      rw [Check.arguments] at h
      cases h
      exact .nil
  | arg :: args, param :: params, hlen, h => by
      rw [Check.arguments, bind_eq_ok] at h
      obtain ⟨first, hfirst, h⟩ := h
      split at h
      · cases h
      next hm =>
      rw [bind_eq_ok] at h
      obtain ⟨rest, hrest, h⟩ := h
      cases h
      exact .cons (expr_sound arg hfirst) (mismatch?_eq_none.mp hm)
        (arguments_sound args params (Nat.succ.inj hlen) hrest)

end

mutual

theorem ExprTyped.complete {lib : Library} {s : Scope} {e : Expr} {τ : Ty} {t : Typed.Expr} :
    ExprTyped lib (ofScope s) e τ t → Check.expr lib s e = .ok t ∧ t.ty = τ
  | .literal hv => by
      rw [Check.expr]
      exact ⟨hv.complete _, rfl⟩
  | .group h => by
      obtain ⟨hinner, rfl⟩ := h.complete
      rw [Check.expr, hinner]
      exact ⟨rfl, rfl⟩
  | .binary hl hr hop => by
      obtain ⟨hleft, rfl⟩ := hl.complete
      obtain ⟨hright, rfl⟩ := hr.complete
      rw [Check.expr, hleft, ok_bind, hright, ok_bind, hop.complete]
      exact ⟨rfl, rfl⟩
  | .var hx => by
      rw [Check.expr, lookup_eq_ok.mpr hx]
      exact ⟨rfl, rfl⟩
  | .call hf hargs => by
      rw [Check.expr, hf]
      dsimp only
      rw [Function.arity, if_pos hargs.length_eq, hargs.complete]
      exact ⟨rfl, rfl⟩

theorem ArgsTyped.complete {lib : Library} {s : Scope} {args : List Expr} {params : List Ty}
    {ts : List Typed.Expr} {name : String} {index : Nat} :
    ArgsTyped lib (ofScope s) args params ts →
    Check.arguments lib s name index args params = .ok ts
  | .nil => by rw [Check.arguments]
  | .cons h ha hrest => by
      obtain ⟨hfirst, rfl⟩ := h.complete
      rw [Check.arguments, hfirst, ok_bind, mismatch?_eq_none.mpr ha]
      dsimp only
      rw [hrest.complete]
      rfl

end

/-! ## Statements -/

theorem condition_sound {lib : Library} {s : Scope} {c : Expr} {c' : Typed.Expr}
    (h : Check.condition lib s c = .ok c') : ExprTyped lib (ofScope s) c .boolean c' := by
  unfold Check.condition at h
  rw [bind_eq_ok] at h
  obtain ⟨t, ht, h⟩ := h
  split at h
  · next hty =>
    cases h
    rw [← hty]
    exact expr_sound c ht
  · cases h

theorem condition_complete {lib : Library} {s : Scope} {c : Expr} {c' : Typed.Expr}
    (h : ExprTyped lib (ofScope s) c .boolean c') : Check.condition lib s c = .ok c' := by
  obtain ⟨hc, hty⟩ := h.complete
  unfold Check.condition
  rw [hc, ok_bind, if_pos hty]
  rfl

/-- What a declaration that was accepted has passed, and what it leaves. The name is defined last,
in the scope in which the initial value was checked. -/
theorem declaration_eq_ok {lib : Library} {s s' : Scope} {x typeName : String}
    {init : Option Expr} {pos : Position} {t : Typed.Stmt}
    (h : Check.declaration lib s x typeName init pos = .ok (t, s')) :
    ∃ τ init', Ty.ofName? typeName = some τ ∧ τ ≠ .void ∧ Java.isReserved x = false ∧
      Check.initial lib s x τ pos init = .ok init' ∧ s.define x τ = .ok s' ∧
      t = .declare x τ init' pos := by
  unfold Check.declaration at h
  split at h
  · cases h
  next τ hτ =>
  split at h
  · cases h
  next hvoid =>
  split at h
  · cases h
  next hres =>
  rw [bind_eq_ok] at h
  obtain ⟨init', hinit, h⟩ := h
  split at h
  · next s'' hdef =>
    cases h
    exact ⟨τ, init', hτ, hvoid, Bool.eq_false_iff.mpr hres, hinit, hdef, rfl⟩
  · cases h

theorem declaration_sound {lib : Library} {s s' : Scope} {x typeName : String}
    {init : Option Expr} {pos : Position} {t : Typed.Stmt}
    (h : Check.declaration lib s x typeName init pos = .ok (t, s')) :
    StmtTyped lib (ofScope s) (.declare x typeName init pos) (ofScope s') t := by
  obtain ⟨τ, init', hτ, hvoid, hres, hinit, hdef, rfl⟩ := declaration_eq_ok h
  obtain ⟨hname, hknown⟩ := ofName?_eq_some.mp hτ
  obtain ⟨hfresh, henv⟩ := define_eq_ok hdef
  have hd : Declarable (ofScope s) x typeName τ := ⟨hname, hknown, hvoid, hres, hfresh⟩
  rw [henv]
  cases init with
  | none => cases hinit; exact .declare hd
  | some e =>
      rw [Check.initial, bind_eq_ok] at hinit
      obtain ⟨e', he, hinit⟩ := hinit
      split at hinit
      · cases hinit
      · next hm =>
        cases hinit
        exact .declareInit hd (expr_sound e he) (mismatch?_eq_none.mp hm)

theorem Declarable.complete {s : Scope} {x typeName : String} {τ : Ty}
    (h : Declarable (ofScope s) x typeName τ) {lib : Library} {init : Option Expr}
    {init' : Option Typed.Expr} {pos : Position}
    (hinit : Check.initial lib s x τ pos init = .ok init') :
    ∃ s', Check.declaration lib s x typeName init pos = .ok (.declare x τ init' pos, s') ∧
      ofScope s' = (ofScope s).bind x τ := by
  obtain ⟨s', hdef⟩ := define_of_fresh (τ := τ) h.fresh
  refine ⟨s', ?_, (define_eq_ok hdef).2⟩
  unfold Check.declaration
  rw [ofName?_eq_some.mpr ⟨h.named, h.known⟩]
  dsimp only
  rw [if_neg h.notVoid, h.notReserved, if_neg (by decide), hinit, ok_bind, hdef]
  rfl

theorem assignment_sound {lib : Library} {s : Scope} {x : String} {e : Expr} {pos : Position}
    {t : Typed.Stmt} (h : Check.assignment lib s x e pos = .ok t) :
    StmtTyped lib (ofScope s) (.assign x e pos) (ofScope s) t := by
  unfold Check.assignment at h
  split at h
  · cases h
  next τ hτ =>
  rw [bind_eq_ok] at h
  obtain ⟨e', he, h⟩ := h
  split at h
  · cases h
  · next hm =>
    cases h
    exact .assign (lookup_eq_ok.mp hτ) (expr_sound e he) (mismatch?_eq_none.mp hm)

mutual

theorem stmt_sound {lib : Library} {s s' : Scope} {t : Typed.Stmt} :
    (st : Stmt) → Check.stmt lib s st = (.ok t, s') → StmtTyped lib (ofScope s) st (ofScope s') t
  | .missing, h => by
      rw [Check.stmt] at h
      cases h
  | .expr value pos, h => by
      rw [Check.stmt] at h
      split at h
      · cases h
      · next hv => cases h; exact .expr (expr_sound value hv)
  | .declare name typeName init pos, h => by
      rw [Check.stmt] at h
      split at h
      · cases h
      · next hd => cases h; exact declaration_sound hd
  | .assign name value pos, h => by
      rw [Check.stmt] at h
      injection h with h hs
      subst hs
      exact assignment_sound h
  | .branch cond yes no pos, h => by
      rw [Check.stmt] at h
      split at h
      · cases h
      next hc =>
      split at h
      · cases h
      next hyes =>
      split at h
      · cases h
      next hno =>
      cases h
      exact .branch (condition_sound hc) (block_sound yes hyes) (block_sound no hno)
  | .loop cond body pos, h => by
      rw [Check.stmt] at h
      split at h
      · cases h
      next hc =>
      split at h
      · cases h
      next hbody =>
      cases h
      exact .loop (condition_sound hc) (block_sound body hbody)

theorem block_sound {lib : Library} {s s' : Scope} {ts : List Typed.Stmt} :
    (ss : List Stmt) → Check.block lib s ss = (.ok ts, s') →
    BlockTyped lib (ofScope s) ss (ofScope s') ts
  | [], h => by
      rw [Check.block] at h
      cases h
      exact .nil
  | first :: rest, h => by
      rw [Check.block] at h
      split at h
      · cases h
      next hfirst =>
      split at h
      · cases h
      next hrest =>
      cases h
      exact .cons (stmt_sound first hfirst) (block_sound rest hrest)

end

mutual

theorem StmtTyped.complete {lib : Library} {Γ Γ' : Env} {st : Stmt} {t : Typed.Stmt} :
    StmtTyped lib Γ st Γ' t → ∀ s : Scope, ofScope s = Γ →
    ∃ s', Check.stmt lib s st = (.ok t, s') ∧ ofScope s' = Γ'
  | .expr h, s, hs => by
      subst hs
      rw [Check.stmt, h.complete.1]
      exact ⟨s, rfl, rfl⟩
  | @StmtTyped.declare _ _ x _ τ pos hd, s, hs => by
      subst hs
      have hinit : Check.initial lib s x τ pos none = .ok none := rfl
      obtain ⟨s', hdecl, henv⟩ := hd.complete hinit
      rw [Check.stmt, hdecl]
      exact ⟨s', rfl, henv⟩
  | @StmtTyped.declareInit _ _ x _ e _ τ t pos hd h ha, s, hs => by
      subst hs
      have hinit : Check.initial lib s x τ pos (some e) = .ok (some t) := by
        obtain ⟨he, rfl⟩ := h.complete
        rw [Check.initial, he, ok_bind, mismatch?_eq_none.mpr ha]
        rfl
      obtain ⟨s', hdecl, henv⟩ := hd.complete hinit
      rw [Check.stmt, hdecl]
      exact ⟨s', rfl, henv⟩
  | .assign hx h ha, s, hs => by
      subst hs
      obtain ⟨he, rfl⟩ := h.complete
      rw [Check.stmt, Check.assignment, lookup_eq_ok.mpr hx]
      dsimp only
      rw [he, ok_bind, mismatch?_eq_none.mpr ha]
      exact ⟨s, rfl, rfl⟩
  | .branch hc hyes hno, s, hs => by
      subst hs
      obtain ⟨s₁, hyes, hs₁⟩ := hyes.complete s rfl
      obtain ⟨s₂, hno, hs₂⟩ := hno.complete s₁ hs₁
      rw [Check.stmt, condition_complete hc]
      dsimp only
      rw [hyes]
      dsimp only
      rw [hno]
      exact ⟨s₂, rfl, hs₂⟩
  | .loop hc hbody, s, hs => by
      subst hs
      obtain ⟨s₁, hbody, hs₁⟩ := hbody.complete s rfl
      rw [Check.stmt, condition_complete hc]
      dsimp only
      rw [hbody]
      exact ⟨s₁, rfl, hs₁⟩

theorem BlockTyped.complete {lib : Library} {Γ Γ' : Env} {ss : List Stmt} {ts : List Typed.Stmt} :
    BlockTyped lib Γ ss Γ' ts → ∀ s : Scope, ofScope s = Γ →
    ∃ s', Check.block lib s ss = (.ok ts, s') ∧ ofScope s' = Γ'
  | .nil, s, hs => by
      rw [Check.block]
      exact ⟨s, rfl, hs⟩
  | .cons h hrest, s, hs => by
      obtain ⟨s₁, hfirst, hs₁⟩ := h.complete s hs
      obtain ⟨s₂, hrest, hs₂⟩ := hrest.complete s₁ hs₁
      rw [Check.block, hfirst]
      dsimp only
      rw [hrest]
      exact ⟨s₂, rfl, hs₂⟩

end

/--
**The checker is sound and complete for the type system.** For every library, every scope and every
tree, the checker returns the typed tree `typed` and leaves a scope that stands for `Γ` if and only
if the rules derive `typed` and `Γ` from the environment of the scope it was given.
-/
theorem check_eq_ok_iff_typed (lib : Library) (s : Scope) (p : Program) (typed : Typed.Program)
    (Γ : Env) :
    (∃ s', p.check lib s = (.ok typed, s') ∧ ofScope s' = Γ) ↔
      BlockTyped lib (ofScope s) p Γ typed := by
  constructor
  · rintro ⟨s', h, rfl⟩
    exact block_sound p h
  · intro h
    exact h.complete s rfl

end LetWhile.Typing
