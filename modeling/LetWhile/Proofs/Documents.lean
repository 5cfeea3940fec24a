import LetWhile.Proofs.Quoting
import LetWhile.Proofs.Steps
import LetWhile.Toml.Document

/-!
# Documents written line by line

A writer of TOML needs only a small part of the format: a line is a plain key, an equals sign and a
value, and a table is a header with lines behind it. This module shows that a document of this form
is read as what it was written from. The reader is far more liberal, so the argument goes through
everything that it tries before it settles on the right reading: a number might have been a date, a
text might have gone on over several lines, and the lines of a table might have gone on behind it.

Where a line of a table has no value that can be read, the whole document is refused.
-/

namespace LetWhile.Toml

/-! ## Numbers -/

theorem not_isDigit_feed : Char.isDigit '\n' = false := by decide

/-- Whatever is tried on digits at the end of a line, no other character follows them. -/
theorem afterExactly?_bind_afterChar? {ds : List Char} (h : ∀ d ∈ ds, d.isDigit = true) {c : Char}
    (hdigit : c.isDigit = false) (hfeed : c ≠ '\n') (count : Nat) (rest : List Char) :
    ((afterExactly? count (ds ++ '\n' :: rest)).bind (afterChar? c)) = none := by
  induction count generalizing ds with
  | zero =>
      cases ds with
      | nil => rw [afterExactly?, Option.bind_some, List.nil_append, afterChar?, if_neg hfeed]
      | cons d ds =>
          have hd : d.isDigit = true := h d List.mem_cons_self
          have hne : c ≠ d := by
            rintro rfl
            rw [hdigit] at hd
            cases hd
          rw [afterExactly?, Option.bind_some, List.cons_append, afterChar?, if_neg hne]
  | succ count ih =>
      cases ds with
      | nil => rw [List.nil_append, afterExactly?, not_isDigit_feed]; rfl
      | cons d ds =>
          obtain ⟨hd, hds⟩ := List.forall_mem_cons.mp h
          rw [List.cons_append, afterExactly?, if_pos hd, ih hds]

/-- Digits at the end of a line are no date and no time. -/
theorem afterDatetime?_digits {ds : List Char} (h : ∀ d ∈ ds, d.isDigit = true)
    (rest : List Char) : afterDatetime? (ds ++ '\n' :: rest) = none := by
  have hdash := afterExactly?_bind_afterChar? h (c := '-') (by decide) (by decide) 4 rest
  have hcolon := afterExactly?_bind_afterChar? h (c := ':') (by decide) (by decide) 2 rest
  have hdate : afterDate? (ds ++ '\n' :: rest) = none := by
    simp only [afterDate?, Option.bind_eq_bind, ← Option.bind_assoc]
    rw [hdash]
    rfl
  have htime : afterTime? (ds ++ '\n' :: rest) = none := by
    simp only [afterTime?, afterMinutes?, Option.bind_eq_bind, ← Option.bind_assoc]
    rw [hcolon]
    rfl
  rw [afterDatetime?, hdate]
  exact htime

theorem afterDigits_digits {ds : List Char} (h : ∀ d ∈ ds, d.isDigit = true) (rest : List Char) :
    afterDigits (ds ++ '\n' :: rest) = '\n' :: rest := by
  induction ds with
  | nil => rfl
  | cons d ds ih =>
      obtain ⟨hd, hds⟩ := List.forall_mem_cons.mp h
      rw [List.cons_append, afterDigits, if_pos hd, ih hds]
      rintro _ _ rfl
      cases hd

/-- A number other than zero does not start with a zero. -/
theorem toDigits_head {n : Nat} (hn : 0 < n) : ∃ d ds, Nat.toDigits 10 n = d :: ds ∧ d ≠ '0' := by
  induction n using Nat.strongRecOn with
  | ind n ih =>
      by_cases hsmall : n < 10
      · have hall : ∀ k < 10, 0 < k → Nat.digitChar k ≠ '0' := by decide
        exact ⟨_, [], Nat.toDigits_of_lt_base hsmall, hall n hsmall hn⟩
      · obtain ⟨d, ds, hfront, hd⟩ := ih (n / 10) (by omega) (by omega)
        refine ⟨d, ds ++ [Nat.digitChar (n % 10)], ?_, hd⟩
        rw [Nat.toDigits_of_base_le (by decide) (by omega), hfront, List.cons_append]

theorem afterSign_of_isDigit {d : Char} (hd : d.isDigit = true) (cs : List Char) :
    afterSign (d :: cs) = d :: cs := by
  unfold afterSign
  split
  · next h => cases h; cases hd
  · next h => cases h; cases hd
  · rfl

theorem afterInteger?_digits (n : Nat) (rest : List Char) :
    afterInteger? (Nat.toDigits 10 n ++ '\n' :: rest) = some ('\n' :: rest) := by
  by_cases hn : n = 0
  · subst hn
    rw [Nat.toDigits_zero]
    rfl
  · obtain ⟨d, ds, hdigits, hzero⟩ := toDigits_head (Nat.pos_of_ne_zero hn)
    have hall : ∀ c ∈ d :: ds, c.isDigit = true := fun c hc =>
      Nat.isDigit_of_mem_toDigits (by decide) (by decide) (hdigits ▸ hc)
    obtain ⟨hd, hds⟩ := List.forall_mem_cons.mp hall
    rw [hdigits, List.cons_append, afterInteger?, afterSign_of_isDigit hd]
    split
    · next h => exact absurd (List.cons.inj h).1 hzero
    · rw [afterSomeDigits?, if_pos hd, afterDigits_digits hds]

/-! ## Values -/

/-- A text that is read as a value where its line ends behind it. -/
structure Writes (value : Value) (text : List Char) : Prop where
  solid : ∃ c more, text = c :: more ∧ isGap c = false
  reads : ∀ breaks rest, ∃ raw,
    scalar? breaks (text ++ '\n' :: rest) = some (raw, '\n' :: rest) ∧
      ∀ path name fields, addRaw path name false fields raw = .ok { fields, values := [value] }

theorem writes_boolean (b : Bool) :
    Writes (.boolean b) (if b then "true".toList else "false".toList) := by
  cases b with
  | true => exact ⟨⟨'t', _, rfl, rfl⟩, fun breaks rest => ⟨.boolean true, rfl, fun _ _ _ => rfl⟩⟩
  | false => exact ⟨⟨'f', _, rfl, rfl⟩, fun breaks rest => ⟨.boolean false, rfl, fun _ _ _ => rfl⟩⟩

theorem writes_integer (n : Nat) :
    Writes (.integer (String.ofList (Nat.toDigits 10 n))) (Nat.toDigits 10 n) := by
  have hall : ∀ c ∈ Nat.toDigits 10 n, c.isDigit = true :=
    fun c hc => Nat.isDigit_of_mem_toDigits (by decide) (by decide) hc
  refine ⟨?_, fun breaks rest => ⟨.integer (Nat.toDigits 10 n), ?_, fun path name fields => ?_⟩⟩
  · obtain ⟨d, ds, hdigits⟩ := List.exists_cons_of_ne_nil (Nat.toDigits_ne_nil (b := 10) (n := n))
    have hd := hall d (hdigits ▸ List.mem_cons_self)
    refine ⟨d, ds, hdigits, ?_⟩
    rw [isGap, Bool.or_eq_false_iff, decide_eq_false_iff_not, decide_eq_false_iff_not]
    constructor
    · rintro rfl
      cases hd
    · rintro rfl
      cases hd
  · have hfloat : afterFloat? (Nat.toDigits 10 n ++ '\n' :: rest) = none := by
      rw [afterFloat?, afterInteger?_digits]
      rfl
    rw [scalar?, afterDatetime?_digits hall, hfloat, afterInteger?_digits]
    dsimp only
    rw [consumed_append]
  · have hplain : (Nat.toDigits 10 n).filter (· ≠ '_') = Nat.toDigits 10 n := by
      rw [List.filter_eq_self]
      intro c hc
      rw [decide_eq_true_eq]
      rintro rfl
      cases hall _ hc
    rw [addRaw, hplain]

/-- What starts with a quote is a text or nothing. -/
theorem scalar?_quote (breaks : Nat) (cs : List Char) :
    scalar? breaks ('"' :: cs) =
      (literal? ('"' :: cs)).map fun (text, rest) => (.string text (lineAt breaks rest), rest) := by
  have htime : afterDatetime? ('"' :: cs) = none := rfl
  have hfloat : afterFloat? ('"' :: cs) = none := rfl
  have hinteger : afterInteger? ('"' :: cs) = none := rfl
  rw [scalar?, htime, hfloat, hinteger]
  cases literal? ('"' :: cs) <;> rfl

theorem toList_quoted (s : String) : (quoted s).toList = '"' :: (spelled s.toList ++ ['"']) := by
  rw [quoted, String.toList_ofList]
  rfl

theorem writes_string {s : String} (h : ∀ c ∈ s.toList, isSpellable c = true) :
    Writes (.string s) (quoted s).toList := by
  rw [toList_quoted]
  refine ⟨⟨'"', _, rfl, rfl⟩, fun breaks rest => ?_⟩
  have hread : literal? ('"' :: (spelled s.toList ++ '"' :: '\n' :: rest)) =
      some (.basic (spelled s.toList), '\n' :: rest) := literal?_spelled h nofun
  refine ⟨.string (.basic (spelled s.toList)) (lineAt breaks ('\n' :: rest)), ?_, ?_⟩
  · rw [List.cons_append, List.append_assoc, List.singleton_append, scalar?_quote, hread]
    rfl
  · intro path name fields
    rw [addRaw, Literal.decode?, unescape?_spelled h, Option.map_some, String.ofList_toList]

/-! ## Lines -/

/-- Whether a key can be written without quotes. -/
def isBare (key : String) : Bool :=
  !key.toList.isEmpty && key.toList.all isBareKey

theorem isBare_iff {key : String} :
    isBare key = true ↔ key.toList ≠ [] ∧ ∀ c ∈ key.toList, isBareKey c = true := by
  rw [isBare, Bool.and_eq_true, Bool.not_eq_true', List.isEmpty_eq_false_iff, List.all_eq_true]

theorem key?_bare {key : String} (h : isBare key = true) {d : Char} (hd : isBareKey d = false)
    (rest : List Char) : key? (key.toList ++ d :: rest) = some (.bare key.toList, d :: rest) := by
  obtain ⟨hne, hall⟩ := isBare_iff.mp h
  have htake : (key.toList ++ d :: rest).takeWhile isBareKey = key.toList := by
    rw [List.takeWhile_append_of_pos hall, List.takeWhile_cons_of_neg (Bool.eq_false_iff.mp hd),
      List.append_nil]
  unfold key?
  rw [htake]
  dsimp only
  rw [List.isEmpty_eq_false_iff.mpr hne, List.drop_left]
  rfl

/-- A line of a document: a key, and a value with the text that it is written as. -/
structure Line where
  key : String
  value : Value
  text : List Char

/-- Whether a line says what it is meant to say. -/
structure Line.Good (l : Line) : Prop where
  key : isBare l.key = true
  text : Writes l.value l.text

/-- A line as it is written. -/
def Line.chars (l : Line) : List Char := l.key.toList ++ ' ' :: '=' :: ' ' :: l.text

theorem Line.exists_head {l : Line} (h : isBare l.key = true) :
    ∃ c more, l.chars = c :: more ∧ isBareKey c = true := by
  obtain ⟨hne, hall⟩ := isBare_iff.mp h
  obtain ⟨c, more, hkey⟩ := List.exists_cons_of_ne_nil hne
  exact ⟨c, _, by rw [Line.chars, hkey, List.cons_append], hall c (hkey ▸ List.mem_cons_self)⟩

/-- What is read behind a plain key and an equals sign. -/
theorem pair?_chars {l : Line} (hkey : isBare l.key = true)
    (htext : ∃ c more, l.text = c :: more ∧ isGap c = false) (breaks steps : Nat)
    (rest : List Char) :
    ∃ line, pair? breaks (steps + 1) (l.chars ++ rest) =
      (value? breaks steps (l.text ++ rest)).map fun (value, rest) =>
        (.mk (.bare l.key.toList) line value (lineAt breaks rest), rest) := by
  obtain ⟨c, more, htext, hgap⟩ := htext
  have hchars : l.chars ++ rest = l.key.toList ++ ' ' :: '=' :: ' ' :: (l.text ++ rest) := by
    rw [Line.chars, List.append_assoc]
    rfl
  have hskip : skipGaps (' ' :: (l.text ++ rest)) = l.text ++ rest := by
    rw [htext, List.cons_append, skipGaps, List.dropWhile_cons_of_pos rfl,
      List.dropWhile_cons_of_neg (Bool.eq_false_iff.mp hgap)]
  refine ⟨lineAt breaks (' ' :: '=' :: ' ' :: (l.text ++ rest)), ?_⟩
  rw [hchars, pair?, key?_bare hkey (by decide)]
  show (value? breaks steps (skipGaps (' ' :: (l.text ++ rest))) >>= _) = _
  rw [hskip]
  cases value? breaks steps (l.text ++ rest) <;> rfl

theorem value?_of_scalar? {breaks : Nat} {cs : List Char} {r : Raw × List Char}
    (h : scalar? breaks cs = some r) (steps : Nat) : value? breaks (steps + 1) cs = some r := by
  unfold value?
  rw [h]

/-- A pair that stands for a value with a name. -/
def Pair.Gives (p : Pair) (name : String) (value : Value) : Prop :=
  ∃ line, ∀ path fields, addPair path false fields p =
    atLine line (fields.within line path (Fields.addValue name line value))

/-- **A line is read as a pair.** -/
theorem topPair?_chars {l : Line} (h : l.Good) (breaks : Nat) (rest : List Char) :
    ∃ p, topPair? breaks (l.chars ++ '\n' :: rest) = some (p, '\n' :: rest) ∧
      p.Gives l.key l.value := by
  obtain ⟨raw, hraw, hadd⟩ := h.text.reads breaks rest
  have hsteps : (l.chars ++ '\n' :: rest).length = (l.chars.length + rest.length) + 1 := by
    rw [List.length_append, List.length_cons, Nat.add_assoc]
  obtain ⟨line, hpair⟩ := pair?_chars h.key h.text.solid breaks _ ('\n' :: rest)
  refine ⟨.mk (.bare l.key.toList) line raw (lineAt breaks ('\n' :: rest)), ?_,
    lineAt breaks ('\n' :: rest), fun path fields => ?_⟩
  · rw [topPair?, hpair, hsteps, value?_of_scalar? hraw]
    rfl
  · rw [addPair, keyName, Key.decode?, String.ofList_toList]
    dsimp only
    rw [ok_bind, hadd]
    rfl

/-- A line whose value starts with a quote and is no text is no pair. -/
theorem topPair?_unreadable {l : Line} (hkey : isBare l.key = true) {more rest : List Char}
    (htext : l.text = '"' :: more) (hnone : literal? ('"' :: (more ++ rest)) = none)
    (breaks : Nat) : topPair? breaks (l.chars ++ rest) = none := by
  have hvalue : ∀ steps, value? breaks steps (l.text ++ rest) = none := by
    intro steps
    cases steps with
    | zero => rw [value?]
    | succ steps =>
        unfold value?
        rw [htext, List.cons_append, scalar?_quote, hnone]
        rfl
  obtain ⟨line, hpair⟩ := pair?_chars hkey ⟨'"', more, htext, rfl⟩ breaks _ rest
  rw [topPair?, hpair, hvalue]
  rfl

/-! ## Tables -/

/-- What starts with a plain key is neither skipped nor taken for a header or a comment. -/
theorem isBareKey_starts {c : Char} (h : isBareKey c = true) :
    isGap c = false ∧ isBreak c = false ∧ c ≠ '[' ∧ c ≠ '#' := by
  have hne : ∀ d, isBareKey d = false → c ≠ d := by
    rintro d hd rfl
    rw [h] at hd
    cases hd
  refine ⟨?_, ?_, hne '[' rfl, hne '#' rfl⟩
  · rw [isGap, Bool.or_eq_false_iff, decide_eq_false_iff_not, decide_eq_false_iff_not]
    exact ⟨hne ' ' rfl, hne '\t' rfl⟩
  · rw [isBreak, Bool.or_eq_false_iff, decide_eq_false_iff_not, decide_eq_false_iff_not]
    exact ⟨hne '\n' rfl, hne '\r' rfl⟩

/-- Lines as they stand behind something else. -/
def block (ls : List Line) : List Char := ls.flatMap fun l => '\n' :: l.chars

/-- Pairs that stand for the values of lines. -/
inductive ReadsLines : List Line → List Item → Prop where
  | nil : ReadsLines [] []
  | cons {l : Line} {ls : List Line} {p : Pair} {items : List Item} (hp : p.Gives l.key l.value)
      (h : ReadsLines ls items) : ReadsLines (l :: ls) (.pair p :: items)

/-- What can follow a block: a line that is no pair. -/
structure Stops (breaks : Nat) (tail : List Char) : Prop where
  feed : ∃ more, tail = '\n' :: more
  stop : topPair? breaks (skipSpace tail) = none

theorem exists_feed (ls : List Line) {breaks : Nat} {tail : List Char} (h : Stops breaks tail) :
    ∃ more, block ls ++ tail = '\n' :: more := by
  cases ls with
  | nil => exact h.feed
  | cons l ls => exact ⟨_, rfl⟩

/-- White space in front of a line is skipped, and nothing of the line is. -/
theorem skipSpace_chars {l : Line} (h : isBare l.key = true) (rest : List Char) :
    skipSpace ('\n' :: (l.chars ++ rest)) = l.chars ++ rest := by
  obtain ⟨c, more, hchars, hc⟩ := l.exists_head h
  obtain ⟨hgap, hbreak, -, -⟩ := isBareKey_starts hc
  have hstop : ¬ (isGap c || isBreak c) = true := by
    rw [hgap, hbreak]
    exact Bool.false_ne_true
  rw [hchars, skipSpace, List.dropWhile_cons_of_pos rfl, List.cons_append]
  exact List.dropWhile_cons_of_neg (p := fun c => isGap c || isBreak c) hstop

/-- **The lines of a table are read up to the first that is no pair.** -/
theorem tablePairs_block {ls : List Line} (hls : ∀ l ∈ ls, l.Good) {breaks : Nat}
    {tail : List Char} (htail : Stops breaks tail) {steps : Nat} (hsteps : ls.length < steps) :
    ∃ items, tablePairs breaks steps (block ls ++ tail) = (items, tail) ∧ ReadsLines ls items := by
  induction ls generalizing steps with
  | nil =>
      obtain ⟨steps, rfl⟩ := Nat.exists_eq_add_of_lt hsteps
      refine ⟨[], ?_, .nil⟩
      show tablePairs breaks _ tail = _
      rw [tablePairs, htail.stop]
  | cons l ls ih =>
      cases steps with
      | zero => exact absurd hsteps (Nat.not_lt_zero _)
      | succ steps =>
          obtain ⟨hl, hls⟩ := List.forall_mem_cons.mp hls
          obtain ⟨rest, hrest⟩ := exists_feed ls htail
          obtain ⟨p, hp, hgives⟩ := topPair?_chars hl breaks rest
          obtain ⟨items, hitems, hreads⟩ := ih hls (Nat.lt_of_succ_lt_succ hsteps)
          refine ⟨.pair p :: items, ?_, .cons hgives hreads⟩
          have hblock : block (l :: ls) ++ tail = '\n' :: (l.chars ++ '\n' :: rest) := by
            rw [← hrest, block, List.flatMap_cons, List.append_assoc]
            rfl
          have hskip : skipComment (skipGaps ('\n' :: rest)) = '\n' :: rest := rfl
          rw [hblock, tablePairs, skipSpace_chars hl.key, hp]
          dsimp only
          rw [hskip, ← hrest, hitems]

/-- A table of a document. -/
structure Table where
  name : String
  lines : List Line

namespace Table

/-- Whether a table says what it is meant to say. -/
structure Good (t : Table) : Prop where
  name : isBare t.name = true
  lines : ∀ l ∈ t.lines, l.Good

/-- A table as it is written. -/
def chars (t : Table) : List Char := '[' :: t.name.toList ++ ']' :: block t.lines

end Table

/-- Headers and pairs that stand for tables. -/
inductive ReadsTables : List Table → List Item → Prop where
  | nil : ReadsTables [] []
  | cons {t : Table} {ts : List Table} {text : List Char} {line : Nat} {pairs items : List Item}
      (hlines : ReadsLines t.lines pairs) (h : ReadsTables ts items) :
      ReadsTables (t :: ts) (.header [.bare t.name.toList] text false line :: (pairs ++ items))

/-- Tables as they stand behind a line, with a text behind them. -/
def tablesText : List Table → List Char → List Char
  | [], tail => tail
  | t :: ts, tail => '\n' :: '\n' :: (t.chars ++ tablesText ts tail)

/-- For the reader a table can end in front of any of its lines. -/
theorem tablesText_cut (t : Table) (front : List Line) (l : Line) (back : List Line)
    (name : String) (tail : List Char) :
    tablesText [t, { name, lines := front ++ l :: back }] tail =
      tablesText [t, { name, lines := front }] ('\n' :: (l.chars ++ (block back ++ tail))) := by
  have hblock : block (front ++ l :: back) = block front ++ '\n' :: (l.chars ++ block back) := by
    rw [block, List.flatMap_append, List.flatMap_cons]
    rfl
  simp only [tablesText, Table.chars, hblock, List.append_assoc, List.cons_append]

theorem stops_tablesText (ts : List Table) {breaks : Nat} {tail : List Char}
    (h : Stops breaks tail) : Stops breaks (tablesText ts tail) := by
  cases ts with
  | nil => exact h
  | cons t ts => exact ⟨⟨_, rfl⟩, rfl⟩

theorem skipGaps_bare {name : String} (h : isBare name = true) (rest : List Char) :
    skipGaps (name.toList ++ rest) = name.toList ++ rest := by
  obtain ⟨hne, hall⟩ := isBare_iff.mp h
  obtain ⟨c, more, hname⟩ := List.exists_cons_of_ne_nil hne
  have hc : isBareKey c = true := hall c (hname ▸ List.mem_cons_self)
  rw [hname, List.cons_append, skipGaps,
    List.dropWhile_cons_of_neg (Bool.eq_false_iff.mp (isBareKey_starts hc).1)]

theorem header?_chars {name : String} (h : isBare name = true) (breaks : Nat) (rest : List Char) :
    ∃ line, header? breaks ('[' :: (name.toList ++ ']' :: rest)) =
      some (.header [.bare name.toList] name.toList false line, rest) := by
  have hkeys : headerKeys? (name.toList ++ ']' :: rest) =
      some ([.bare name.toList], name.toList, ']' :: rest) := by
    rw [headerKeys?, skipGaps_bare h, keys?, key?_bare h (by decide)]
    show some ([Key.bare name.toList], consumed _ (']' :: rest), _) = _
    rw [consumed_append]
    rfl
  refine ⟨lineAt breaks ('[' :: (name.toList ++ ']' :: rest)), ?_⟩
  have hinside : afterChar? '[' ('[' :: (name.toList ++ ']' :: rest)) =
      some (name.toList ++ ']' :: rest) := rfl
  rw [header?, hinside, Option.bind_eq_bind, Option.bind_some, hkeys]
  rfl

theorem length_le_block (ls : List Line) : ls.length ≤ (block ls).length := by
  induction ls with
  | nil => exact Nat.le_refl 0
  | cons l ls ih =>
      rw [block, List.flatMap_cons, List.length_append, List.length_cons, List.length_cons]
      have : (block ls).length = (ls.flatMap fun l => '\n' :: l.chars).length := rfl
      omega

/-- **A table is read with all of its lines.** -/
theorem expression_table {t : Table} (h : t.Good) {breaks : Nat} {tail : List Char}
    (htail : Stops breaks tail) :
    ∃ text line pairs, expression breaks (t.chars ++ tail) =
      (.header [.bare t.name.toList] text false line :: pairs, tail) ∧
        ReadsLines t.lines pairs := by
  obtain ⟨line, hheader⟩ := header?_chars h.name breaks (block t.lines ++ tail)
  obtain ⟨rest, hrest⟩ := exists_feed t.lines htail
  have hsteps : t.lines.length < (block t.lines ++ tail).length := by
    obtain ⟨more, rfl⟩ := htail.feed
    have := length_le_block t.lines
    rw [List.length_append, List.length_cons]
    omega
  obtain ⟨pairs, hpairs, hreads⟩ := tablePairs_block h.lines htail hsteps
  have hchars : t.chars ++ tail = '[' :: (t.name.toList ++ ']' :: (block t.lines ++ tail)) := by
    rw [Table.chars, List.cons_append, List.cons_append, List.append_assoc, List.cons_append]
  have hskip : skipGaps ('[' :: (t.name.toList ++ ']' :: (block t.lines ++ tail))) =
      '[' :: (t.name.toList ++ ']' :: (block t.lines ++ tail)) := rfl
  have hskip' : skipComment (skipGaps (block t.lines ++ tail)) = block t.lines ++ tail := by
    rw [hrest]
    rfl
  refine ⟨t.name.toList, line, pairs, ?_, hreads⟩
  rw [hchars, expression, hskip, hheader]
  dsimp only
  rw [hskip', hpairs]

/-- Where a line ends behind an expression, the reader goes on behind the line breaks. -/
theorem expressions?_of_expression {breaks : Nat} {cs rest : List Char} {first : List Item}
    (h : expression breaks cs = (first, rest)) (hrest : ∃ more, rest = '\n' :: more)
    (steps : Nat) :
    expressions? breaks (steps + 1) cs =
      (expressions? breaks steps (rest.dropWhile isBreak)).map (first ++ ·) := by
  obtain ⟨more, rfl⟩ := hrest
  rw [expressions?, h]
  rfl

/-- **Tables are read one after the other**, up to what stands behind them. -/
theorem expressions?_tables {ts : List Table} (hts : ∀ t ∈ ts, t.Good) {breaks : Nat}
    {tail : List Char} (htail : Stops breaks tail) (steps : Nat) :
    ∃ items, ReadsTables ts items ∧
      expressions? breaks (steps + ts.length) ((tablesText ts tail).dropWhile isBreak) =
        (expressions? breaks steps (tail.dropWhile isBreak)).map (items ++ ·) := by
  induction ts with
  | nil =>
      refine ⟨[], .nil, ?_⟩
      show expressions? breaks steps (tail.dropWhile isBreak) = _
      cases expressions? breaks steps (tail.dropWhile isBreak) <;> rfl
  | cons t ts ih =>
      obtain ⟨ht, hts⟩ := List.forall_mem_cons.mp hts
      have hrest := stops_tablesText ts htail
      obtain ⟨text, line, pairs, htable, hpairs⟩ := expression_table ht hrest
      obtain ⟨items, hitems, hmore⟩ := ih hts
      refine ⟨.header [.bare t.name.toList] text false line :: (pairs ++ items),
        .cons hpairs hitems, ?_⟩
      have hdrop : (tablesText (t :: ts) tail).dropWhile isBreak =
          t.chars ++ tablesText ts tail := rfl
      rw [hdrop, List.length_cons, ← Nat.add_assoc, expressions?_of_expression htable hrest.feed,
        hmore, Option.map_map]
      refine congrArg (Option.map · _) (funext fun later => ?_)
      rw [Function.comp_apply, List.cons_append, List.cons_append, List.append_assoc]

/-- A line is a pair or nothing, and never a header or a comment. -/
theorem expression_chars {l : Line} (hkey : isBare l.key = true) (breaks : Nat)
    (rest : List Char) :
    expression breaks (l.chars ++ rest) =
      match topPair? breaks (l.chars ++ rest) with
      | some (pair, rest) => ([.pair pair], skipComment (skipGaps rest))
      | none => ([], l.chars ++ rest) := by
  obtain ⟨c, more, hchars, hc⟩ := l.exists_head hkey
  obtain ⟨hgap, -, hopen, hcomment⟩ := isBareKey_starts hc
  rw [hchars, List.cons_append]
  have hskip : skipGaps (c :: (more ++ rest)) = c :: (more ++ rest) := by
    rw [skipGaps, List.dropWhile_cons_of_neg (Bool.eq_false_iff.mp hgap)]
  have hchar : afterChar? '[' (c :: (more ++ rest)) = none := by
    rw [afterChar?, if_neg hopen.symm]
  have hheader : header? breaks (c :: (more ++ rest)) = none := by
    rw [header?, hchar]
    rfl
  have hline : skipComment (c :: (more ++ rest)) = c :: (more ++ rest) := by
    rw [skipComment]
    rintro _ hhash
    exact hcomment (List.cons.inj hhash).1
  rw [expression, hskip, hheader]
  cases topPair? breaks (c :: (more ++ rest)) with
  | some r => rfl
  | none => exact congrArg (Prod.mk []) hline

/-- A line that is no pair ends the reading. -/
theorem expressions?_unreadable {l : Line} (hkey : isBare l.key = true) {breaks : Nat}
    {rest : List Char} (h : topPair? breaks (l.chars ++ rest) = none) (steps : Nat) :
    expressions? breaks steps (l.chars ++ rest) = none := by
  cases steps with
  | zero => rw [expressions?]
  | succ steps =>
      obtain ⟨c, more, hchars, hc⟩ := l.exists_head hkey
      obtain ⟨-, hbreak, -, -⟩ := isBareKey_starts hc
      rw [expressions?, expression_chars hkey, h]
      dsimp only
      rw [hchars, List.cons_append]
      dsimp only
      rw [hbreak]
      rfl

/-! ## Documents -/

/-- A document of one line and tables, up to a text that stands behind them. -/
def documentText (l : Line) (ts : List Table) (tail : List Char) : List Char :=
  l.chars ++ tablesText ts tail

theorem length_tablesText (ts : List Table) (tail : List Char) :
    ts.length + tail.length ≤ (tablesText ts tail).length := by
  induction ts with
  | nil => exact Nat.le_of_eq (Nat.zero_add _)
  | cons t ts ih =>
      rw [tablesText, List.length_cons, List.length_cons, List.length_cons, List.length_append]
      omega

/-- **A document is read as its line and its tables**, if what stands behind them can be read. -/
theorem items_document {l : Line} (hl : l.Good) {ts : List Table} (hts : ∀ t ∈ ts, t.Good)
    {tail : List Char} (htail : ∀ breaks, Stops breaks tail) :
    ∃ p items breaks steps, p.Gives l.key l.value ∧ ReadsTables ts items ∧
      Toml.items (String.ofList (documentText l ts tail)) =
        (expressions? breaks (steps + 1) (tail.dropWhile isBreak)).map (.pair p :: items ++ ·) := by
  let breaks := (documentText l ts tail).countP isBreak
  obtain ⟨rest, hrest⟩ := (stops_tablesText ts (htail breaks)).feed
  obtain ⟨p, hp, hgives⟩ := topPair?_chars hl breaks rest
  have hfirst : expression breaks (documentText l ts tail) = ([.pair p], tablesText ts tail) := by
    rw [documentText, expression_chars hl.key, hrest, hp]
    rfl
  -- the text is longer than the number of its tables, so there are steps enough for them
  obtain ⟨steps, hsteps⟩ : ∃ steps, (documentText l ts tail).length = steps + 1 + ts.length := by
    obtain ⟨more, rfl⟩ := (htail breaks).feed
    have hlength := length_tablesText ts ('\n' :: more)
    rw [List.length_cons] at hlength
    refine ⟨(documentText l ts ('\n' :: more)).length - 1 - ts.length, ?_⟩
    rw [documentText, List.length_append]
    omega
  obtain ⟨items, hitems, hmore⟩ := expressions?_tables hts (htail breaks) (steps + 1)
  refine ⟨p, items, breaks, steps, hgives, hitems, ?_⟩
  rw [Toml.items, String.toList_ofList]
  show expressions? breaks _ _ = _
  rw [expressions?_of_expression hfirst ⟨rest, hrest⟩, hsteps, hmore, Option.map_map]
  rfl

/-! ## The table that a document makes -/

theorem lookup_of_not_mem {fields : Fields} {name : String} (h : name ∉ fields.map Prod.fst) :
    fields.lookup name = none := by
  rw [List.lookup_eq_none_iff]
  intro f hf
  rw [bne_iff_ne]
  rintro rfl
  exact h (List.mem_map_of_mem hf)

theorem lookup_last {front : Fields} {name : String} (h : name ∉ front.map Prod.fst)
    (entry : Entry) : (front ++ [(name, entry)]).lookup name = some entry := by
  rw [List.lookup_append, lookup_of_not_mem h, List.lookup_cons_self]
  rfl

theorem set_of_not_mem {fields : Fields} {name : String} (h : name ∉ fields.map Prod.fst)
    (entry : Entry) : fields.set name entry = fields ++ [(name, entry)] := by
  rw [Fields.set, if_neg]
  rw [List.any_eq_true]
  rintro ⟨f, hf, hname⟩
  exact h (of_decide_eq_true hname ▸ List.mem_map_of_mem hf)

theorem set_last {front : Fields} {name : String} (h : name ∉ front.map Prod.fst)
    (old new : Entry) : Fields.set (front ++ [(name, old)]) name new = front ++ [(name, new)] := by
  have hfront : front.map (fun f => if f.1 = name then (name, new) else f) = front := by
    refine (List.map_congr_left fun f hf => if_neg ?_).trans (List.map_id front)
    rintro rfl
    exact h (List.mem_map_of_mem hf)
  rw [Fields.set, if_pos (by simp), List.map_append, hfront]
  simp

/-- Entries that stand for lines. -/
inductive HoldsLines : List Line → Fields → Prop where
  | nil : HoldsLines [] []
  | cons {l : Line} {ls : List Line} {line : Nat} {fields : Fields} (h : HoldsLines ls fields) :
      HoldsLines (l :: ls) ((l.key, .value l.value line) :: fields)

/-- Entries that stand for tables. -/
inductive HoldsTables : List Table → Fields → Prop where
  | nil : HoldsTables [] []
  | cons {t : Table} {ts : List Table} {line : Nat} {inner fields : Fields}
      (hlines : HoldsLines t.lines inner) (h : HoldsTables ts fields) :
      HoldsTables (t :: ts) ((t.name, .table line true inner) :: fields)

theorem addValue_of_not_mem {fields : Fields} {name : String} (h : name ∉ fields.map Prod.fst)
    (line : Nat) (value : Value) :
    Fields.addValue name line value fields = .ok (fields ++ [(name, .value value line)]) := by
  rw [Fields.addValue, lookup_of_not_mem h, set_of_not_mem h]

/-- A value with a new name is added to the last table. -/
theorem within_last {front inner : Fields} {table key : String}
    (htable : table ∉ front.map Prod.fst) (hkey : key ∉ inner.map Prod.fst) (line keyLine : Nat)
    (value : Value) :
    Fields.within keyLine [table] (Fields.addValue key keyLine value)
        (front ++ [(table, .table line true inner)]) =
      .ok (front ++ [(table, .table line true (inner ++ [(key, .value value keyLine)]))]) := by
  rw [Fields.within, lookup_last htable]
  dsimp only
  rw [Fields.within, addValue_of_not_mem hkey, ok_bind, pure_eq_ok, set_last htable]

theorem not_mem_of_nodup {names more : List String} {name : String}
    (h : (names ++ name :: more).Nodup) : name ∉ names :=
  fun hmem => (List.nodup_append.mp h).2.2 name hmem name List.mem_cons_self rfl

/-- **Pairs fill the last table.** -/
theorem addItem_lines {ls : List Line} {items : List Item} (h : ReadsLines ls items)
    {front : Fields} {name : String} (hname : name ∉ front.map Prod.fst) (line : Nat)
    (inner : Fields) (hkeys : (inner.map Prod.fst ++ ls.map Line.key).Nodup) :
    ∃ added, HoldsLines ls added ∧ ∀ rest,
      addItem [name] (front ++ [(name, .table line true inner)]) (items ++ rest) =
        addItem [name] (front ++ [(name, .table line true (inner ++ added))]) rest := by
  induction h generalizing inner with
  | nil => exact ⟨[], .nil, fun rest => by rw [List.append_nil, List.nil_append]⟩
  | @cons l ls p items hp _ ih =>
      obtain ⟨keyLine, hp⟩ := hp
      rw [List.map_cons] at hkeys
      let entry : String × Entry := (l.key, .value l.value keyLine)
      have hkeys' : ((inner ++ [entry]).map Prod.fst ++ ls.map Line.key).Nodup := by
        rw [List.map_append, List.append_assoc]
        exact hkeys
      obtain ⟨added, hadded, hrest⟩ := ih (inner ++ [entry]) hkeys'
      refine ⟨entry :: added, .cons hadded, fun rest => ?_⟩
      rw [List.cons_append, addItem, hp, within_last hname (not_mem_of_nodup hkeys)]
      show addItem [name] _ (items ++ rest) = _
      rw [hrest, List.append_assoc]
      rfl

/-- **Headers and pairs make up the tables.** -/
theorem addItem_tables {ts : List Table} {items : List Item} (h : ReadsTables ts items)
    (path : List String) (fields : Fields)
    (hnames : (fields.map Prod.fst ++ ts.map Table.name).Nodup)
    (hkeys : ∀ t ∈ ts, (t.lines.map Line.key).Nodup) :
    ∃ added, HoldsTables ts added ∧ addItem path fields items = .ok (fields ++ added) := by
  induction h generalizing path fields with
  | nil => exact ⟨[], .nil, by rw [List.append_nil, addItem]⟩
  | @cons t ts text line pairs items hlines _ ih =>
      obtain ⟨ht, hts⟩ := List.forall_mem_cons.mp hkeys
      rw [List.map_cons] at hnames
      have hname : t.name ∉ fields.map Prod.fst := not_mem_of_nodup hnames
      obtain ⟨inner, hinner, hpairs⟩ := addItem_lines hlines hname line [] ht
      let entry : String × Entry := (t.name, .table line true inner)
      have hnames' : ((fields ++ [entry]).map Prod.fst ++ ts.map Table.name).Nodup := by
        rw [List.map_append, List.append_assoc]
        exact hnames
      obtain ⟨added, hadded, hitems⟩ := ih [t.name] _ hnames' hts
      refine ⟨entry :: added, .cons hinner hadded, ?_⟩
      have hheader : Fields.addTable t.name (String.ofList text) line true fields =
          .ok (fields ++ [(t.name, .table line true [])]) := by
        rw [Fields.addTable, lookup_of_not_mem hname, set_of_not_mem hname]
      have hkey : keyNames line [.bare t.name.toList] = .ok [t.name] := by
        rw [keyNames, keyName, Key.decode?, String.ofList_toList]
        rfl
      rw [addItem, hkey, ok_bind]
      show atLine line (Fields.within line [] (Fields.addTable t.name _ line true) fields) >>= _ = _
      rw [Fields.within, hheader]
      show addItem [t.name] _ (pairs ++ items) = _
      rw [hpairs, List.nil_append]
      show addItem [t.name] (fields ++ [entry]) items = _
      rw [hitems, List.append_assoc]
      rfl

/-! ## Reading a document -/

/-- **A document written line by line is read as what it was written from.** -/
theorem read_document {l : Line} (hl : l.Good) {ts : List Table} (hts : ∀ t ∈ ts, t.Good)
    (hnames : (l.key :: ts.map Table.name).Nodup)
    (hkeys : ∀ t ∈ ts, (t.lines.map Line.key).Nodup) :
    ∃ line tables, HoldsTables ts tables ∧
      read (String.ofList (documentText l ts ['\n'])) =
        .ok ((l.key, .value l.value line) :: tables) := by
  have htail : ∀ breaks, Stops breaks ['\n'] := fun breaks => ⟨⟨[], rfl⟩, rfl⟩
  obtain ⟨p, items, breaks, steps, ⟨line, hp⟩, hitems, hread⟩ := items_document hl hts htail
  obtain ⟨tables, htables, hadd⟩ :=
    addItem_tables hitems [] [(l.key, .value l.value line)] hnames hkeys
  have hend : expressions? breaks (steps + 1) (['\n'].dropWhile isBreak) = some [] := rfl
  have hfirst : addPair [] false [] p = .ok [(l.key, .value l.value line)] := by
    rw [hp, Fields.within]
    rfl
  refine ⟨line, tables, htables, ?_⟩
  rw [read, hread, hend, Option.map_some]
  dsimp only
  rw [List.append_nil, addItem, hfirst, ok_bind, hadd]
  rfl

/-- **A document with a line that cannot be read is refused.** -/
theorem read_unreadable {l : Line} (hl : l.Good) {ts : List Table} (hts : ∀ t ∈ ts, t.Good)
    (bad : Line) (hkey : isBare bad.key = true) {rest : List Char}
    (hbad : ∀ breaks, topPair? breaks (bad.chars ++ rest) = none) :
    read (String.ofList (documentText l ts ('\n' :: (bad.chars ++ rest)))) =
      .error .malformed := by
  have htail : ∀ breaks, Stops breaks ('\n' :: (bad.chars ++ rest)) := fun breaks =>
    ⟨⟨_, rfl⟩, by rw [skipSpace_chars hkey, hbad]⟩
  obtain ⟨p, items, breaks, steps, -, -, hread⟩ := items_document hl hts htail
  have hdrop : ('\n' :: (bad.chars ++ rest)).dropWhile isBreak = bad.chars ++ rest := by
    obtain ⟨c, more, hchars, hc⟩ := bad.exists_head hkey
    rw [hchars, List.dropWhile_cons_of_pos rfl, List.cons_append,
      List.dropWhile_cons_of_neg (Bool.eq_false_iff.mp (isBareKey_starts hc).2.1)]
  rw [read, hread, hdrop, expressions?_unreadable hkey (hbad breaks), Option.map_none]

end LetWhile.Toml
