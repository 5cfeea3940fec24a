import LetWhile.Proofs.Quoting
import LetWhile.Sexpr

/-!
# Reading a dump

A dump is a text for people, and no part of the compiler reads one. This module reads it, to show
that nothing is lost in it. `Sexpr.read` goes over the text one character after the other. It keeps
the items of the list that is open, those of the lists around it, and the atom that it is in. An
atom is a bare word, which ends in front of a space, a line feed or a closing parenthesis, or a
quoted text, which ends at the first quote that no backslash stands in front of.

Reading is described by what one text does to the reader: it adds the S-expression of the text to
the items (`Sexpr.run_text`). For a list this is a statement about its items in the place where the
reader is then, so the induction is over S-expressions, for all readers at once.
-/

namespace LetWhile

/-! ## Quoted texts -/

namespace Quoted

/-- The escapes of one letter, each behind the character that it stands for. -/
def shortNames : List (Char × Char) :=
  [('"', '"'), ('\\', '\\'), ('\x07', 'a'), ('\x08', 'b'), ('\x0c', 'f'), ('\n', 'n'),
    ('\r', 'r'), ('\t', 't'), ('\x0b', 'v')]

/-- The escapes with a code point, each with the number of its digits. -/
def codeLengths : List (Char × Nat) := [('x', 2), ('u', 4), ('U', 8)]

/-- What stands for a character in a quoted text. -/
inductive Shape : Char → List Char → Prop where
  | plain {c : Char} (h : c ∉ ['"', '\\', '\n']) : Shape c [c]
  | short {c e : Char} (h : (c, e) ∈ shortNames) : Shape c ['\\', e]
  | code {c e : Char} {ds : List Char} (h : (e, ds.length) ∈ codeLengths)
      (hhex : ∀ d ∈ ds, isHex d = true) (hvalue : hexValue ds = c.toNat) :
      Shape c ('\\' :: e :: ds)

/-- The digits of a code point have the shape of one. -/
theorem shape_hex {c e : Char} {width : Nat} (h : (e, width) ∈ codeLengths) (hpos : 0 < width)
    (hc : c.toNat < Nat.pow 16 width) : Shape c ('\\' :: e :: hex width c.toNat) := by
  obtain ⟨hlength, hhex, hvalue⟩ := Toml.hex_spec hpos hc
  exact .code (by rw [hlength]; exact h) hhex hvalue

theorem shape_char (c : Char) : Shape c (char c) := by
  unfold char
  split
  · exact .short (by decide)
  · exact .short (by decide)
  · exact .short (by decide)
  · exact .short (by decide)
  · exact .short (by decide)
  · exact .short (by decide)
  · exact .short (by decide)
  · exact .short (by decide)
  · exact .short (by decide)
  · next hquote hslash _ _ _ hfeed _ _ _ =>
    split
    · refine .plain ?_
      simp only [List.mem_cons, List.not_mem_nil, or_false, not_or]
      exact ⟨hquote, hslash, hfeed⟩
    split
    · next hc => exact shape_hex (by decide) (by decide) (Nat.lt_trans hc (by decide))
    split
    · next hc => exact shape_hex (by decide) (by decide) hc
    · have hc : c.toNat < 0x100000000 := c.val.toNat_lt
      exact shape_hex (by decide) (by decide) hc

/-- The first character of a quoted text, and what stands behind it. There is none at the end of the
text. -/
def next : List Char → Option (Char × List Char)
  | [] => none
  | '"' :: _ => none
  | '\\' :: e :: cs =>
    match codeLengths.lookup e with
    | some width => some (Char.ofNat (hexValue (cs.take width)), cs.drop width)
    | none => some (((shortNames.find? (·.2 = e)).map Prod.fst).getD e, cs)
  | c :: cs => some (c, cs)

theorem length_next {cs rest : List Char} {c : Char} (h : next cs = some (c, rest)) :
    rest.length < cs.length := by
  unfold next at h
  split at h
  · cases h
  · cases h
  · split at h
    · cases h
      simp only [List.length_drop, List.length_cons]
      omega
    · cases h
      simp only [List.length_cons]
      omega
  · cases h
    simp

/-- The characters of a quoted text up to its end. -/
def unquoted (cs : List Char) : List Char :=
  match _h : next cs with
  | none => []
  | some (c, rest) => c :: unquoted rest
termination_by cs.length
decreasing_by exact length_next _h

/-- **What stands for a character is read as that character**, whatever stands behind it. -/
theorem Shape.next_eq {c : Char} {w : List Char} (h : Shape c w) (rest : List Char) :
    next (w ++ rest) = some (c, rest) := by
  cases h with
  | plain h =>
      simp only [List.mem_cons, List.not_mem_nil, or_false, not_or] at h
      obtain ⟨hquote, hslash, -⟩ := h
      rw [List.singleton_append, next]
      · exact hquote
      · intro e cs hc
        exact absurd hc hslash
  | @short e h =>
      simp only [shortNames, List.mem_cons, Prod.mk.injEq, List.not_mem_nil, or_false] at h
      rcases h with ⟨rfl, rfl⟩ | ⟨rfl, rfl⟩ | ⟨rfl, rfl⟩ | ⟨rfl, rfl⟩ | ⟨rfl, rfl⟩ | ⟨rfl, rfl⟩ |
        ⟨rfl, rfl⟩ | ⟨rfl, rfl⟩ | ⟨rfl, rfl⟩
      all_goals rfl
  | @code e ds h _ hvalue =>
      have hlookup : codeLengths.lookup e = some ds.length := by
        simp only [codeLengths, List.mem_cons, Prod.mk.injEq, List.not_mem_nil, or_false] at h
        rcases h with ⟨rfl, hlength⟩ | ⟨rfl, hlength⟩ | ⟨rfl, hlength⟩
        all_goals rw [hlength]; rfl
      rw [List.cons_append, List.cons_append, next, hlookup]
      dsimp only
      rw [List.take_left, List.drop_left, hvalue, Char.ofNat_toNat]

theorem unquoted_char (c : Char) (rest : List Char) :
    unquoted (char c ++ rest) = c :: unquoted rest := by
  rw [unquoted]
  split
  · next h => rw [(shape_char c).next_eq] at h; cases h
  · next d more h =>
    rw [(shape_char c).next_eq] at h
    cases h
    rfl

/-- **A quoted text is read as the text.** -/
theorem unquoted_flatMap (cs rest : List Char) :
    unquoted (cs.flatMap char ++ '"' :: rest) = cs := by
  induction cs with
  | nil =>
      rw [List.flatMap_nil, List.nil_append, unquoted]
      rfl
  | cons c cs ih => rw [List.flatMap_cons, List.append_assoc, unquoted_char, ih]

end Quoted

/-! ## S-expressions -/

namespace Sexpr

/-- What the reader is in the middle of. -/
inductive Mode where
  | between
  | word (front : List Char)
  | quotes (front : List Char)
  /-- Behind a backslash in quotes. -/
  | escape (front : List Char)

/-- A reader of S-expressions. -/
structure Reader where
  mode : Mode := .between
  /-- The items of the list that is open. -/
  items : List Sexpr := []
  /-- The items so far of the lists around it, from the inside. -/
  outer : List (List Sexpr) := []

namespace Reader

/-- The reader behind an S-expression. -/
def add (r : Reader) (s : Sexpr) : Reader :=
  { r with mode := .between, items := r.items ++ [s] }

/-- Goes over a character between two S-expressions. -/
def mark (r : Reader) (c : Char) : Reader :=
  if c = '(' then { mode := .between, items := [], outer := r.items :: r.outer }
  else if c = ')' then
    match r.outer with
    | [] => r
    | items :: outer => { mode := .between, items := items ++ [.list r.items], outer }
  else if c = ' ' ∨ c = '\n' then { r with mode := .between }
  else if c = '"' then { r with mode := .quotes [c] }
  else { r with mode := .word [c] }

/-- Goes over one character. -/
def step (r : Reader) (c : Char) : Reader :=
  match r.mode with
  | .between => r.mark c
  | .word front =>
    if c = ' ' ∨ c = '\n' ∨ c = ')' then (r.add (.atom (String.ofList front))).mark c
    else { r with mode := .word (front ++ [c]) }
  | .quotes front =>
    if c = '"' then r.add (.atom (String.ofList (front ++ [c])))
    else if c = '\\' then { r with mode := .escape (front ++ [c]) }
    else { r with mode := .quotes (front ++ [c]) }
  | .escape front => { r with mode := .quotes (front ++ [c]) }

/-- Goes over characters from the left to the right. -/
def run (r : Reader) (cs : List Char) : Reader := cs.foldl step r

@[simp]
theorem run_nil (r : Reader) : r.run [] = r := rfl

theorem run_cons (r : Reader) (c : Char) (cs : List Char) : r.run (c :: cs) = (r.step c).run cs :=
  rfl

theorem run_append (r : Reader) (cs ds : List Char) : r.run (cs ++ ds) = (r.run cs).run ds :=
  List.foldl_append

end Reader

/-- The S-expressions of a text. -/
def read (text : String) : List Sexpr := (Reader.run {} text.toList).items

/-- The characters that a bare word cannot have. -/
def marks : List Char := [' ', '\n', '(', ')', '"']

/-- The text of an atom without quotes. -/
structure IsWord (text : String) : Prop where
  ne_nil : text.toList ≠ []
  noMarks : ∀ c ∈ text.toList, c ∉ marks

instance (text : String) : Decidable (IsWord text) :=
  decidable_of_iff (text.toList ≠ [] ∧ text.toList.all (fun c => !marks.contains c) = true)
    ⟨fun h => ⟨h.1, by simpa using h.2⟩, fun h => ⟨h.ne_nil, by simpa using h.noMarks⟩⟩

/-- The atom is a bare word or a quoted text. -/
def TidyAtom (text : String) : Prop := IsWord text ∨ ∃ s, text = quoted s

mutual

/-- All atoms of the S-expression are words or quoted texts. -/
def Tidy : Sexpr → Prop
  | .atom text => TidyAtom text
  | .list items => TidyAll items

/-- All atoms of the S-expressions are words or quoted texts. -/
def TidyAll : List Sexpr → Prop
  | [] => True
  | s :: ss => s.Tidy ∧ TidyAll ss

end

/-! ### Atoms -/

theorem notMem_marks {c : Char} :
    c ∉ marks ↔ c ≠ ' ' ∧ c ≠ '\n' ∧ c ≠ '(' ∧ c ≠ ')' ∧ c ≠ '"' := by
  simp only [marks, List.mem_cons, List.not_mem_nil, or_false, not_or]

namespace Reader

variable {r : Reader}

theorem step_word {front : List Char} (hr : r.mode = .word front) {c : Char} (hc : c ∉ marks) :
    r.step c = { r with mode := .word (front ++ [c]) } := by
  obtain ⟨hspace, hfeed, -, hclose, -⟩ := notMem_marks.mp hc
  unfold step
  rw [hr]
  dsimp only
  rw [if_neg]
  simp [hspace, hfeed, hclose]

theorem run_word {front cs : List Char} (hr : r.mode = .word front) (hcs : ∀ c ∈ cs, c ∉ marks) :
    r.run cs = { r with mode := .word (front ++ cs) } := by
  induction cs generalizing r front with
  | nil =>
      rw [run_nil, List.append_nil, ← hr]
  | cons c cs ih =>
      obtain ⟨hc, hcs⟩ := List.forall_mem_cons.mp hcs
      rw [run_cons, step_word hr hc, ih rfl hcs]
      simp

/-- What ends a word does to the reader what it does behind the word. -/
theorem step_ended {front : List Char} (hr : r.mode = .word front) {c : Char}
    (hc : c ∈ [' ', '\n', ')']) :
    r.step c = (r.add (.atom (String.ofList front))).step c := by
  simp only [List.mem_cons, List.not_mem_nil, or_false] at hc
  unfold step
  rw [hr]
  dsimp only [add]
  rw [if_pos hc]

/-- **A word is read as an atom**, once something stands behind it that ends it. -/
theorem run_isWord (hr : r.mode = .between) {text : String} (h : IsWord text) {c : Char}
    (hc : c ∈ [' ', '\n', ')']) (cs : List Char) :
    r.run (text.toList ++ c :: cs) = (r.add (.atom text)).run (c :: cs) := by
  obtain ⟨hne, hmarks⟩ := h
  cases htext : text.toList with
  | nil => exact absurd htext hne
  | cons d ds =>
      rw [htext] at hmarks
      obtain ⟨hd, hds⟩ := List.forall_mem_cons.mp hmarks
      obtain ⟨hspace, hfeed, hopen, hclose, hquote⟩ := notMem_marks.mp hd
      have hfirst : r.step d = { r with mode := .word [d] } := by
        unfold step
        rw [hr]
        dsimp only [mark]
        rw [if_neg hopen, if_neg hclose, if_neg (by simp [hspace, hfeed]), if_neg hquote]
      rw [List.cons_append, run_cons, hfirst, run_append, run_word rfl hds, run_cons,
        step_ended rfl hc, ← run_cons, List.singleton_append, ← htext, String.ofList_toList]
      rfl

theorem step_quotes {front : List Char} (hr : r.mode = .quotes front) {c : Char}
    (hquote : c ≠ '"') (hslash : c ≠ '\\') :
    r.step c = { r with mode := .quotes (front ++ [c]) } := by
  unfold step
  rw [hr]
  dsimp only
  rw [if_neg hquote, if_neg hslash]

theorem run_digits {front ds : List Char} (hr : r.mode = .quotes front)
    (hds : ∀ d ∈ ds, isHex d = true) :
    r.run ds = { r with mode := .quotes (front ++ ds) } := by
  induction ds generalizing r front with
  | nil => rw [run_nil, List.append_nil, ← hr]
  | cons d ds ih =>
      obtain ⟨hd, hds⟩ := List.forall_mem_cons.mp hds
      have hquote : d ≠ '"' := by
        rintro rfl
        exact absurd hd (by decide)
      have hslash : d ≠ '\\' := by
        rintro rfl
        exact absurd hd (by decide)
      rw [run_cons, step_quotes hr hquote hslash, ih rfl hds]
      simp

theorem run_escape {front : List Char} (hr : r.mode = .quotes front) (e : Char) :
    r.run ['\\', e] = { r with mode := .quotes (front ++ ['\\', e]) } := by
  rw [run_cons, step, hr]
  dsimp only
  rw [if_neg (by decide), if_pos rfl, run_cons, step, run_nil]
  simp

/-- In quotes, the reader passes over what stands for a character. -/
theorem run_shape {front : List Char} (hr : r.mode = .quotes front) {c : Char} {w : List Char}
    (h : Quoted.Shape c w) : r.run w = { r with mode := .quotes (front ++ w) } := by
  cases h with
  | plain h =>
      simp only [List.mem_cons, List.not_mem_nil, or_false, not_or] at h
      rw [run_cons, step_quotes hr h.1 h.2.1, run_nil]
  | short _ => exact run_escape hr _
  | @code e ds _ hhex _ =>
      rw [show '\\' :: e :: ds = ['\\', e] ++ ds from rfl, run_append, run_escape hr,
        run_digits rfl hhex]
      simp

theorem run_flatMap {front : List Char} (hr : r.mode = .quotes front) (cs : List Char) :
    r.run (cs.flatMap Quoted.char) =
      { r with mode := .quotes (front ++ cs.flatMap Quoted.char) } := by
  induction cs generalizing r front with
  | nil => rw [List.flatMap_nil, run_nil, List.append_nil, ← hr]
  | cons c cs ih =>
      rw [List.flatMap_cons, run_append, run_shape hr (Quoted.shape_char c), ih rfl]
      simp

/-- **A quoted text is read as an atom**, whatever stands behind it. -/
theorem run_quoted (hr : r.mode = .between) (s : String) (cs : List Char) :
    r.run ((quoted s).toList ++ cs) = (r.add (.atom (quoted s))).run cs := by
  have hopen : r.step '"' = { r with mode := .quotes ['"'] } := by
    unfold step
    rw [hr]
    rfl
  have hclose {r : Reader} {front : List Char} (hr : r.mode = .quotes front) :
      r.step '"' = r.add (.atom (String.ofList (front ++ ['"']))) := by
    unfold step
    rw [hr]
    rfl
  rw [quoted, String.toList_ofList, List.cons_append, List.cons_append, run_cons, hopen,
    List.append_assoc, run_append, run_flatMap rfl, List.singleton_append, List.singleton_append,
    run_cons, hclose rfl]
  rfl

theorem run_atom (hr : r.mode = .between) {text : String} (h : TidyAtom text) {c : Char}
    (hc : c ∈ [' ', '\n', ')']) (cs : List Char) :
    r.run (text.toList ++ c :: cs) = (r.add (.atom text)).run (c :: cs) := by
  rcases h with hword | ⟨s, rfl⟩
  · exact run_isWord hr hword hc cs
  · exact run_quoted hr s (c :: cs)

end Reader

/-! ### Lists -/

/-- Between two S-expressions a space or a line feed leaves the reader as it is. -/
theorem Reader.run_blank {r : Reader} (hr : r.mode = .between) {c : Char}
    (hc : c = ' ' ∨ c = '\n') (cs : List Char) : r.run (c :: cs) = r.run cs := by
  obtain ⟨mode, items, outer⟩ := r
  cases hr
  rcases hc with rfl | rfl
  · rfl
  · rfl

theorem Reader.add_list (r : Reader) (items : List Sexpr) (cs : List Char) :
    Reader.run { items, outer := r.items :: r.outer } (')' :: cs) =
      (r.add (.list items)).run cs :=
  rfl

mutual

/-- **The text of an S-expression adds the S-expression to the reader**, once something stands
behind it. -/
theorem run_text (s : Sexpr) (h : s.Tidy) {r : Reader} (hr : r.mode = .between) {c : Char}
    (hc : c ∈ [' ', '\n', ')']) (cs : List Char) :
    r.run (s.text.toList ++ c :: cs) = (r.add s).run (c :: cs) := by
  match s with
  | .atom text => exact Reader.run_atom hr h hc cs
  | .list items =>
      have htext : (Sexpr.list items).text.toList ++ c :: cs =
          '(' :: ((" ".intercalate (texts items)).toList ++ ')' :: c :: cs) := by
        rw [text, String.toList_append, String.toList_append, List.append_assoc, List.append_assoc]
        rfl
      have hopen : r.step '(' = { items := [], outer := r.items :: r.outer } := by
        unfold Reader.step
        rw [hr]
        rfl
      rw [htext, Reader.run_cons, hopen, run_texts items h rfl]
      exact Reader.add_list r items (c :: cs)

/-- The texts of the items of a list add them one by one. -/
theorem run_texts (ss : List Sexpr) (h : TidyAll ss) {r : Reader} (hr : r.mode = .between)
    (cs : List Char) :
    r.run ((" ".intercalate (texts ss)).toList ++ ')' :: cs) =
      { r with items := r.items ++ ss }.run (')' :: cs) := by
  match ss with
  | [] =>
      rw [List.append_nil]
      rfl
  | [s] =>
      rw [texts, texts, String.intercalate_singleton, run_text s h.1 hr (by decide), Reader.add, hr]
  | s :: s' :: ss =>
      have htexts : (" ".intercalate (texts (s :: s' :: ss))).toList ++ ')' :: cs =
          s.text.toList ++ ' ' :: ((" ".intercalate (texts (s' :: ss))).toList ++ ')' :: cs) := by
        rw [texts, texts, String.intercalate_cons_cons, ← texts, String.toList_append,
          String.toList_append, List.append_assoc, List.append_assoc]
        rfl
      rw [htexts, run_text s h.1 hr (by decide), Reader.run_blank rfl (.inl rfl),
        run_texts (s' :: ss) h.2 rfl, Reader.add, List.append_assoc, hr]
      rfl

end

/-- **Lines are read as their S-expressions.** -/
theorem run_lines {ss : List Sexpr} (h : TidyAll ss) {r : Reader} (hr : r.mode = .between) :
    r.run (lines ss).toList = { r with items := r.items ++ ss } := by
  induction ss generalizing r with
  | nil =>
      rw [List.append_nil]
      rfl
  | cons s ss ih =>
      have hline : (lines (s :: ss)).toList = s.text.toList ++ '\n' :: (lines ss).toList := by
        rw [lines, List.map_cons, String.join_cons, String.toList_append, String.toList_append,
          List.append_assoc]
        rfl
      rw [hline, run_text s h.1 hr (by decide), Reader.run_blank rfl (.inr rfl), ih h.2 rfl,
        Reader.add, List.append_assoc, hr]
      rfl

theorem read_lines {ss : List Sexpr} (h : TidyAll ss) : read (lines ss) = ss := by
  rw [read, run_lines h rfl]
  rfl

/-! ### Line feeds -/

theorem feed_notMem_quoted (s : String) : '\n' ∉ (quoted s).toList := by
  have hchar (c : Char) : '\n' ∉ Quoted.char c := by
    have hshape := Quoted.shape_char c
    generalize Quoted.char c = w at hshape
    cases hshape with
    | plain h =>
        intro hmem
        rw [List.mem_singleton] at hmem
        exact h (by rw [← hmem]; decide)
    | short h =>
        have hall : ∀ p ∈ Quoted.shortNames, '\n' ∉ ['\\', p.2] := by decide
        exact hall _ h
    | code h hhex _ =>
        have hall : ∀ p ∈ Quoted.codeLengths, '\n' ∉ ['\\', p.1] := by decide
        intro hmem
        rcases List.mem_append.mp (show '\n' ∈ ['\\', _] ++ _ from hmem) with hmem | hmem
        · exact hall _ h hmem
        · exact absurd (hhex _ hmem) (by decide)
  rw [quoted, String.toList_ofList, List.cons_append, List.mem_cons, List.mem_append,
    List.mem_flatMap, List.mem_singleton]
  rintro (h | ⟨c, -, hc⟩ | h)
  · cases h
  · exact hchar c hc
  · cases h

mutual

/-- The text of an S-expression is a line. -/
theorem feed_notMem_text (s : Sexpr) (h : s.Tidy) : '\n' ∉ s.text.toList := by
  match s with
  | .atom text =>
      rcases h with hword | ⟨s, rfl⟩
      · exact fun hfeed => hword.noMarks _ hfeed (by decide)
      · exact feed_notMem_quoted s
  | .list items =>
      have hitems := feed_notMem_texts items h
      rw [text, String.toList_append, String.toList_append, List.mem_append, List.mem_append]
      rintro ((hfeed | hfeed) | hfeed)
      · exact absurd hfeed (by decide)
      · exact hitems hfeed
      · exact absurd hfeed (by decide)

theorem feed_notMem_texts (ss : List Sexpr) (h : TidyAll ss) :
    '\n' ∉ (" ".intercalate (texts ss)).toList := by
  match ss with
  | [] => exact List.not_mem_nil
  | [s] =>
      rw [texts, texts, String.intercalate_singleton]
      exact feed_notMem_text s h.1
  | s :: s' :: ss =>
      have hs := feed_notMem_text s h.1
      have hss := feed_notMem_texts (s' :: ss) h.2
      rw [texts, texts, String.intercalate_cons_cons, ← texts, String.toList_append,
        String.toList_append, List.mem_append, List.mem_append]
      rintro ((hfeed | hfeed) | hfeed)
      · exact hs hfeed
      · exact absurd hfeed (by decide)
      · exact hss hfeed

end

end Sexpr

end LetWhile
