import LetWhile.Proofs.Literals

/-!
# The shapes of tokens

`Shape` says what a token of each kind looks like, from its characters and from what stands behind
them, and it says it without a lexer. A token must be as long as it can be, which is a condition on
what stands behind it: a name is not followed by a letter, an integer not by a digit and not by a
fraction.

The lexer takes a token of some shape, and where a token of some shape can be taken it takes that
one. So no text starts with two tokens of different kinds or lengths.
-/

namespace LetWhile.Lexer

/-! ## Runs -/

/-- `cs` is the longest run at the front of `gs` of characters that satisfy `p`, and `rest` is what
it leaves. -/
structure IsRun (p : Char → List Glyph → Bool) (gs : List Glyph) (cs : List Char)
    (rest : List Glyph) : Prop where
  split : gs = cs.map Glyph.char ++ rest
  all : ∀ front c back, cs = front ++ c :: back → p c (back.map Glyph.char ++ rest) = true
  stops : ∀ c more, rest = .char c :: more → p c more = false

theorem isRun_takeRun (p : Char → List Glyph → Bool) (gs : List Glyph) :
    IsRun p gs (takeRun p gs) (dropRun p gs) := by
  refine ⟨(takeRun_append_dropRun p gs).symm, ?_, ?_⟩
  · induction gs with
    | nil => intro front c back h; simp [takeRun] at h
    | cons g gs ih =>
        intro front c back h
        cases g with
        | stray b => simp [takeRun] at h
        | char d =>
            rw [takeRun] at h
            rw [dropRun]
            split at h
            · next hp =>
              rw [if_pos hp]
              cases front with
              | nil =>
                  obtain ⟨rfl, rfl⟩ := List.cons.inj h
                  rw [takeRun_append_dropRun]
                  exact hp
              | cons _ front => exact ih front c back (List.cons.inj h).2
            · simp at h
  · fun_induction dropRun p gs with
    | case1 c gs hp ih => exact ih
    | case2 c gs hp =>
        intro d more h
        cases h
        exact Bool.eq_false_iff.mpr hp
    | case3 gs h => intro c more heq; exact absurd heq (h c more)

/-- There is only one such run. -/
theorem IsRun.eq {p : Char → List Glyph → Bool} {gs rest : List Glyph} {cs : List Char}
    (h : IsRun p gs cs rest) : takeRun p gs = cs ∧ dropRun p gs = rest := by
  induction cs generalizing gs with
  | nil =>
      have hgs : gs = rest := h.split
      subst hgs
      rcases gs with _ | ⟨c | b, gs⟩
      · exact ⟨rfl, rfl⟩
      · have hc : p c gs = false := h.stops c gs rfl
        rw [takeRun, dropRun, hc]
        exact ⟨rfl, rfl⟩
      · exact ⟨rfl, rfl⟩
  | cons c cs ih =>
      have hc : p c (cs.map Glyph.char ++ rest) = true := h.all [] c cs rfl
      have htail : IsRun p (cs.map Glyph.char ++ rest) cs rest :=
        ⟨rfl, fun front d back hd => h.all (c :: front) d back (by rw [hd]; rfl), h.stops⟩
      obtain ⟨htake, hdrop⟩ := ih htail
      rw [h.split, List.map_cons, List.cons_append, takeRun, dropRun, if_pos hc, if_pos hc, htake,
        hdrop]
      exact ⟨rfl, rfl⟩

/-- The next unit is a character of the class. -/
def Ahead (p : Char → Bool) (gs : List Glyph) : Prop :=
  ∃ c more, gs = .char c :: more ∧ p c = true

theorem digitAhead_iff {gs : List Glyph} : digitAhead gs = true ↔ Ahead isDigit gs := by
  rcases gs with _ | ⟨c | b, gs⟩ <;> simp [digitAhead, Ahead]

/-- A run of characters of one class. -/
theorem isRun_class_iff {p : Char → Bool} {gs rest : List Glyph} {cs : List Char} :
    IsRun (fun c _ => p c) gs cs rest ↔
      gs = cs.map Glyph.char ++ rest ∧ (∀ c ∈ cs, p c = true) ∧ ¬ Ahead p rest := by
  constructor
  · rintro ⟨hsplit, hall, hstops⟩
    refine ⟨hsplit, fun c hc => ?_, ?_⟩
    · obtain ⟨front, back, hcs⟩ := List.append_of_mem hc
      exact hall front c back hcs
    · rintro ⟨c, more, hrest, hc⟩
      rw [hstops c more hrest] at hc
      cases hc
  · rintro ⟨hsplit, hall, hstops⟩
    refine ⟨hsplit, fun front c back hcs => ?_, fun c more hrest => ?_⟩
    · exact hall c (by rw [hcs]; simp)
    · exact Bool.eq_false_iff.mpr fun hc => hstops ⟨c, more, hrest, hc⟩

/-! ## Shapes -/

/-- One digit or more. -/
structure Digits (cs : List Char) : Prop where
  ne_nil : cs ≠ []
  all : ∀ c ∈ cs, isDigit c = true

/-- Digits, and perhaps a sign in front of them. -/
inductive Whole : List Char → Prop where
  | digits {cs : List Char} : Digits cs → Whole cs
  | signed {s : Char} {cs : List Char} : isSign s = true → Digits cs → Whole (s :: cs)

/-- The inside of a string literal: every backslash starts one of the seven escapes, and no quote
stands for itself. -/
inductive Quoted : List Char → Prop where
  | nil : Quoted []
  | escape {e : Char} {cs : List Char} :
      e ∈ ['"', '\'', '\\', 'r', 'n', 't', 'b'] → Quoted cs → Quoted ('\\' :: e :: cs)
  | plain {c : Char} {cs : List Char} : c ≠ '\\' → c ≠ '"' → Quoted cs → Quoted (c :: cs)

/-- **What a token looks like.** The characters of a token of each kind, and the units that may
stand behind it. -/
inductive Shape : Kind → List Char → List Glyph → Prop where
  /-- A letter and then letters, digits and underscores, as many as there are. -/
  | identifier {c : Char} {cs : List Char} {rest : List Glyph} :
      isLetter c = true → (∀ d ∈ cs, isNamePart d = true) → ¬ Ahead isNamePart rest →
      Shape .identifier (c :: cs) rest
  /-- All the digits that there are, and no fraction behind them. -/
  | integer {cs : List Char} {rest : List Glyph} :
      Whole cs → ¬ Ahead isDigit rest →
      (¬ ∃ more, rest = .char '.' :: more ∧ Ahead isDigit more) → Shape .integer cs rest
  /-- A point with digits on both sides, and all the digits that there are. -/
  | decimal {cs ds : List Char} {rest : List Glyph} :
      Whole cs → Digits ds → ¬ Ahead isDigit rest → Shape .decimal (cs ++ '.' :: ds) rest
  | string {body : List Char} {rest : List Glyph} :
      Quoted body → Shape .string ('"' :: body ++ ['"']) rest
  /-- Symbolic characters, as many as there are, but no sign of a number. -/
  | symbols {cs : List Char} {rest : List Glyph} :
      cs ≠ [] → (∀ c ∈ cs, isSymbolic c = true) →
      (∀ front c back, cs = front ++ c :: back → isSign c = true →
        ¬ Ahead isDigit (back.map Glyph.char ++ rest)) →
      (∀ c more, rest = .char c :: more → isSymbolic c = true →
        isSign c = true ∧ Ahead isDigit more) →
      Shape .operator cs rest
  /-- A character that starts nothing else. -/
  | mark {c : Char} {rest : List Glyph} :
      isSpace c = false → isSymbolic c = false → isLetter c = false → isDigit c = false →
      c ≠ '"' → Shape .operator [c] rest

/-! ## Numbers -/

theorem isRun_digits {cs : List Char} {rest : List Glyph} (hcs : ∀ c ∈ cs, isDigit c = true)
    (hrest : ¬ Ahead isDigit rest) :
    IsRun (fun c _ => isDigit c) (cs.map Glyph.char ++ rest) cs rest :=
  isRun_class_iff.mpr ⟨rfl, hcs, hrest⟩

theorem digits_takeRun {gs : List Glyph} (h : digitAhead gs = true) :
    Digits (takeRun (fun c _ => isDigit c) gs) := by
  refine ⟨?_, (isRun_class_iff.mp (isRun_takeRun _ gs)).2.1⟩
  obtain ⟨c, more, rfl, hc⟩ := digitAhead_iff.mp h
  rw [takeRun, if_pos hc]
  exact List.cons_ne_nil _ _

/-- A number has the shape of one when its first digits are there. -/
theorem number_shape {first : Char} {gs : List Glyph}
    (hwhole : Whole (first :: takeRun (fun c _ => isDigit c) gs)) :
    Shape (number first gs).kind (number first gs).text (number first gs).rest := by
  have hstops := (isRun_class_iff.mp (isRun_takeRun (fun c _ => isDigit c) gs)).2.2
  by_cases hpoint : ∃ more, dropRun (fun c _ => isDigit c) gs = .char '.' :: more
  · obtain ⟨more, hmore⟩ := hpoint
    rw [number_of_point hmore]
    by_cases hdigit : digitAhead more = true
    · rw [if_pos hdigit]
      have hfraction := (isRun_class_iff.mp (isRun_takeRun (fun c _ => isDigit c) more)).2.2
      exact .decimal hwhole (digits_takeRun hdigit) hfraction
    · rw [if_neg hdigit]
      rw [hmore] at hstops
      refine .integer hwhole hstops ?_
      rintro ⟨more', hmore', hahead⟩
      cases hmore'
      exact hdigit (digitAhead_iff.mpr hahead)
  · rw [number_of_no_point (not_exists.mp hpoint)]
    exact .integer hwhole hstops fun ⟨more, hmore, _⟩ => hpoint ⟨more, hmore⟩

theorem number_integer {first : Char} {cs : List Char} {rest : List Glyph}
    (hcs : ∀ c ∈ cs, isDigit c = true) (hdigit : ¬ Ahead isDigit rest)
    (hpoint : ¬ ∃ more, rest = .char '.' :: more ∧ Ahead isDigit more) :
    number first (cs.map Glyph.char ++ rest) =
      { kind := .integer, text := first :: cs, rest } := by
  obtain ⟨htake, hdrop⟩ := (isRun_digits hcs hdigit).eq
  by_cases hmore : ∃ more, rest = .char '.' :: more
  · obtain ⟨more, rfl⟩ := hmore
    have hno : ¬ digitAhead more = true := fun h => hpoint ⟨more, rfl, digitAhead_iff.mp h⟩
    rw [number_of_point hdrop, if_neg hno, htake]
  · have hnone : ∀ more, dropRun (fun c _ => isDigit c) (cs.map Glyph.char ++ rest) ≠
        .char '.' :: more := by
      rw [hdrop]
      exact not_exists.mp hmore
    rw [number_of_no_point hnone, htake, hdrop]

theorem number_decimal {first : Char} {cs ds : List Char} {rest : List Glyph}
    (hcs : ∀ c ∈ cs, isDigit c = true) (hds : Digits ds) (hdigit : ¬ Ahead isDigit rest) :
    number first (cs.map Glyph.char ++ (.char '.' :: (ds.map Glyph.char ++ rest))) =
      { kind := .decimal, text := first :: cs ++ '.' :: ds, rest } := by
  have hpoint : ¬ Ahead isDigit (.char '.' :: (ds.map Glyph.char ++ rest)) := by
    rintro ⟨c, more, h, hc⟩
    cases h
    cases hc
  have hahead : digitAhead (ds.map Glyph.char ++ rest) = true := by
    cases ds with
    | nil => exact absurd rfl hds.ne_nil
    | cons d ds => exact hds.all d (List.mem_cons_self ..)
  obtain ⟨htake, hdrop⟩ := (isRun_digits hcs hpoint).eq
  obtain ⟨htake', hdrop'⟩ := (isRun_digits hds.all hdigit).eq
  rw [number_of_point hdrop, if_pos hahead, htake, htake', hdrop']

/-- How a number starts, and that it is read as a number from there. -/
theorem Whole.lexeme_eq {cs : List Char} (h : Whole cs) :
    ∃ c ds, cs = c :: ds ∧ isSpace c = false ∧ (∀ d ∈ ds, isDigit d = true) ∧
      ∀ pos rest, lexeme pos c (ds.map Glyph.char ++ rest) =
        .ok (number c (ds.map Glyph.char ++ rest)) := by
  cases h with
  | digits hcs =>
      cases cs with
      | nil => exact absurd rfl hcs.ne_nil
      | cons d ds =>
          have hd := hcs.all d (List.mem_cons_self ..)
          obtain ⟨hspace, hsign, hsymbolic, hletter⟩ := digit_starts hd
          refine ⟨d, ds, rfl, hspace, fun c hc => hcs.all c (List.mem_cons_of_mem _ hc), ?_⟩
          intro pos rest
          rw [lexeme, hsign, hsymbolic, hletter, hd]
          rfl
  | @signed s cs hs hcs =>
      refine ⟨s, cs, rfl, ?_, hcs.all, fun pos rest => ?_⟩
      · unfold isSign at hs
        rcases Bool.or_eq_true_iff.mp hs with h | h
        · rw [of_decide_eq_true h]; rfl
        · rw [of_decide_eq_true h]; rfl
      · have hahead : digitAhead (cs.map Glyph.char ++ rest) = true := by
          cases cs with
          | nil => exact absurd rfl hcs.ne_nil
          | cons d ds => exact hcs.all d (List.mem_cons_self ..)
        rw [lexeme, hs, hahead]
        rfl

/-! ## String literals -/

theorem escaped?_isSome_iff {e : Char} :
    (escaped? e).isSome = true ↔ e ∈ ['"', '\'', '\\', 'r', 'n', 't', 'b'] := by
  constructor
  · intro h
    unfold escaped? at h
    split at h
    all_goals first | decide | cases h
  · intro h
    simp only [List.mem_cons, List.not_mem_nil, or_false] at h
    rcases h with rfl | rfl | rfl | rfl | rfl | rfl | rfl
    all_goals rfl

theorem Quotation.quoted {gs : List Glyph} {text : List Char} {rest : List Glyph}
    (h : Quotation gs text rest) : ∃ body, Quoted body ∧ text = body ++ ['"'] := by
  induction h with
  | close => exact ⟨[], .nil, rfl⟩
  | @escape e _ _ _ he _ ih =>
      obtain ⟨body, hbody, rfl⟩ := ih
      exact ⟨'\\' :: e :: body, .escape (escaped?_isSome_iff.mp he) hbody, rfl⟩
  | @plain c _ _ _ hc hq _ ih =>
      obtain ⟨body, hbody, rfl⟩ := ih
      exact ⟨c :: body, .plain hc hq hbody, rfl⟩

theorem Quoted.quotation {body : List Char} (h : Quoted body) (rest : List Glyph) :
    Quotation ((body ++ ['"']).map Glyph.char ++ rest) (body ++ ['"']) rest := by
  induction h with
  | nil => exact .close
  | escape he _ ih => exact .escape (escaped?_isSome_iff.mpr he) ih
  | plain hc hq _ ih => exact .plain hc hq ih

/-! ## Operators -/

theorem continuesOperator_eq_true {c : Char} {gs : List Glyph} :
    continuesOperator c gs = true ↔
      isSymbolic c = true ∧ (isSign c = true → ¬ Ahead isDigit gs) := by
  rw [continuesOperator, ← digitAhead_iff]
  cases isSymbolic c <;> cases isSign c <;> cases digitAhead gs <;> simp

theorem continuesOperator_eq_false {c : Char} {gs : List Glyph} :
    continuesOperator c gs = false ↔
      (isSymbolic c = true → isSign c = true ∧ Ahead isDigit gs) := by
  rw [continuesOperator, ← digitAhead_iff]
  cases isSymbolic c <;> cases isSign c <;> cases digitAhead gs <;> simp

/-- The conditions on symbolic characters are those on a longest run. -/
theorem symbols_iff {cs : List Char} {rest : List Glyph} :
    ((∀ c ∈ cs, isSymbolic c = true) ∧
      (∀ front c back, cs = front ++ c :: back → isSign c = true →
        ¬ Ahead isDigit (back.map Glyph.char ++ rest)) ∧
      (∀ c more, rest = .char c :: more → isSymbolic c = true →
        isSign c = true ∧ Ahead isDigit more)) ↔
      IsRun continuesOperator (cs.map Glyph.char ++ rest) cs rest := by
  constructor
  · rintro ⟨hsymbolic, hsign, hstops⟩
    refine ⟨rfl, fun front c back hcs => ?_, fun c more hrest => ?_⟩
    · have hc : isSymbolic c = true := hsymbolic c (by rw [hcs]; simp)
      exact continuesOperator_eq_true.mpr ⟨hc, hsign front c back hcs⟩
    · exact continuesOperator_eq_false.mpr (hstops c more hrest)
  · rintro ⟨-, hall, hstops⟩
    refine ⟨fun c hc => ?_, fun front c back hcs => ?_, fun c more hrest => ?_⟩
    · obtain ⟨front, back, hcs⟩ := List.append_of_mem hc
      exact (continuesOperator_eq_true.mp (hall front c back hcs)).1
    · exact (continuesOperator_eq_true.mp (hall front c back hcs)).2
    · exact continuesOperator_eq_false.mp (hstops c more hrest)

/-- A symbolic character stands for no space, letter or digit. -/
theorem symbolic_starts {c : Char} (h : isSymbolic c = true) :
    isSpace c = false ∧ isLetter c = false ∧ isDigit c = false := by
  simp only [isSymbolic, List.contains_eq_mem, List.mem_cons, List.not_mem_nil, or_false,
    decide_eq_true_eq] at h
  rcases h with rfl | rfl | rfl | rfl | rfl | rfl | rfl | rfl | rfl | rfl
  all_goals decide

/-! ## One token -/

/-- **The lexer takes a token of some shape.** -/
theorem lexeme_shape {pos : Position} {c : Char} {gs : List Glyph} {l : Lexeme}
    (hspace : isSpace c = false) (h : lexeme pos c gs = .ok l) : Shape l.kind l.text l.rest := by
  unfold lexeme at h
  split at h
  · next hsigned =>
    obtain ⟨hsign, hdigit⟩ := Bool.and_eq_true_iff.mp hsigned
    cases h
    exact number_shape (.signed hsign (digits_takeRun hdigit))
  next hsigned =>
  split at h
  · next hsymbolic =>
    cases h
    have hfirst : continuesOperator c gs = true := by
      rw [continuesOperator, hsymbolic, Bool.eq_false_iff.mpr hsigned]
      rfl
    -- the first character is part of the run that the others are
    have hrun := isRun_takeRun continuesOperator (.char c :: gs)
    rw [takeRun, dropRun, if_pos hfirst, if_pos hfirst] at hrun
    have hsplit := hrun.split
    rw [hsplit] at hrun
    obtain ⟨hall, hsign, hstops⟩ := symbols_iff.mpr hrun
    exact .symbols (List.cons_ne_nil _ _) hall hsign hstops
  next hsymbolic =>
  split at h
  · next hletter =>
    cases h
    obtain ⟨-, hall, hstops⟩ := isRun_class_iff.mp (isRun_takeRun (fun d _ => isNamePart d) gs)
    exact .identifier hletter hall hstops
  next hletter =>
  split at h
  · next hdigit =>
    cases h
    refine number_shape (.digits ⟨List.cons_ne_nil _ _, ?_⟩)
    exact List.forall_mem_cons.mpr
      ⟨hdigit, (isRun_class_iff.mp (isRun_takeRun (fun d _ => isDigit d) gs)).2.1⟩
  next hdigit =>
  split at h
  · split at h
    · next hbody =>
      cases h
      obtain ⟨body, hquoted, rfl⟩ := (Quotation.of_stringBody hbody).quoted
      exact .string hquoted
    · cases h
    · cases h
  · next hquote =>
    cases h
    exact .mark hspace (Bool.eq_false_iff.mpr hsymbolic) (Bool.eq_false_iff.mpr hletter)
      (Bool.eq_false_iff.mpr hdigit) hquote

/-- **Where a token of some shape stands, the lexer takes it.** -/
theorem Shape.lexeme_eq {kind : Kind} {text : List Char} {rest : List Glyph}
    (h : Shape kind text rest) :
    ∃ c cs, text = c :: cs ∧ isSpace c = false ∧
      ∀ pos, lexeme pos c (cs.map Glyph.char ++ rest) = .ok { kind, text, rest } := by
  cases h with
  | @identifier c cs _ hletter hall hstops =>
      have hsymbolic : isSymbolic c = false := by
        refine Bool.eq_false_iff.mpr fun h => ?_
        rw [(symbolic_starts h).2.1] at hletter
        cases hletter
      have hsign : isSign c = false := by
        refine Bool.eq_false_iff.mpr fun h => ?_
        rw [isSymbolic_of_isSign h] at hsymbolic
        cases hsymbolic
      have hspace : isSpace c = false := by
        refine Bool.eq_false_iff.mpr fun h => ?_
        have hname := (separates_of_isSpace h).noName
        rw [isNamePart, hletter] at hname
        cases hname
      refine ⟨c, cs, rfl, hspace, fun pos => ?_⟩
      obtain ⟨htake, hdrop⟩ := (isRun_class_iff.mpr ⟨rfl, hall, hstops⟩).eq
      rw [lexeme, hsign, hsymbolic, hletter, htake, hdrop]
      rfl
  | integer hwhole hdigit hpoint =>
      obtain ⟨c, ds, rfl, hspace, hds, hlexeme⟩ := hwhole.lexeme_eq
      refine ⟨c, ds, rfl, hspace, fun pos => ?_⟩
      rw [hlexeme, number_integer hds hdigit hpoint]
  | @decimal cs fraction _ hwhole hfraction hdigit =>
      obtain ⟨c, ds, rfl, hspace, hds, hlexeme⟩ := hwhole.lexeme_eq
      refine ⟨c, ds ++ '.' :: fraction, rfl, hspace, fun pos => ?_⟩
      rw [List.map_append, List.map_cons, List.append_assoc, List.cons_append, hlexeme,
        number_decimal hds hfraction hdigit]
  | @string body _ hbody =>
      refine ⟨'"', body ++ ['"'], rfl, rfl, fun pos => ?_⟩
      have hstring := (hbody.quotation rest).stringBody_eq
      rw [lexeme, hstring]
      rfl
  | symbols hne hall hsign hstops =>
      cases text with
      | nil => exact absurd rfl hne
      | cons c cs =>
          have hsymbolic : isSymbolic c = true := hall c (List.mem_cons_self ..)
          have hunsigned : (isSign c && digitAhead (cs.map Glyph.char ++ rest)) = false := by
            refine Bool.eq_false_iff.mpr fun h => ?_
            obtain ⟨hs, hd⟩ := Bool.and_eq_true_iff.mp h
            exact hsign [] c cs rfl hs (digitAhead_iff.mp hd)
          have hfirst : continuesOperator c (cs.map Glyph.char ++ rest) = true := by
            rw [continuesOperator, hsymbolic, hunsigned]
            rfl
          obtain ⟨htake, hdrop⟩ := (symbols_iff.mp ⟨hall, hsign, hstops⟩).eq
          rw [List.map_cons, List.cons_append, takeRun, if_pos hfirst] at htake
          rw [List.map_cons, List.cons_append, dropRun, if_pos hfirst] at hdrop
          refine ⟨c, cs, rfl, (symbolic_starts hsymbolic).1, fun pos => ?_⟩
          rw [lexeme, hunsigned, hsymbolic, htake, hdrop]
          rfl
  | @mark c _ hspace hsymbolic hletter hdigit hquote =>
      have hsign : isSign c = false := by
        refine Bool.eq_false_iff.mpr fun h => ?_
        rw [isSymbolic_of_isSign h] at hsymbolic
        cases hsymbolic
      refine ⟨c, [], rfl, hspace, fun pos => ?_⟩
      rw [lexeme, hsign, Bool.false_and, hsymbolic, hletter, hdigit, if_neg hquote]
      rfl

end LetWhile.Lexer
