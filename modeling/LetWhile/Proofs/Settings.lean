import LetWhile.Proofs.Decoding
import LetWhile.Proofs.Documents
import LetWhile.Proofs.Literals
import LetWhile.Settings.Load

/-!
# Settings that are written and loaded again

Settings are dumped in the form in which they are loaded, so that a dump can be used as a settings
file. It can, but for one defect: quoting gives some control characters a form that TOML does not
have. Loaded settings whose texts can be spelled are loaded again from their dump, all of them as
they were. A dump with any other text is refused.

Only settings that were loaded are written, and that is needed. Loading checks the name of the class
and the indent, and without these checks they could not be read back either.
-/

namespace LetWhile.Settings

open Toml

/-! ## What loading guarantees -/

/-- What a table can do to settings, each of its entries can do. -/
theorem setAll_keeps {P : Settings → Prop}
    {set : Settings → String → Entry → Except LoadError Settings}
    (hset : ∀ {s key e s'}, P s → set s key e = .ok s' → P s') {fields : Fields} {s s' : Settings}
    (hs : P s) (h : setAll set s fields = .ok s') : P s' := by
  induction fields generalizing s with
  | nil =>
      cases h
      exact hs
  | cons field fields ih =>
      obtain ⟨s₁, hfirst, hrest⟩ := bind_eq_ok.mp h
      exact ih (hset hs hfirst) hrest

/-- Whether an indent fits in 64 bits. -/
def IndentFits (s : Settings) : Prop := s.indent < 0x8000000000000000

theorem refuse_ne_ok {α : Type} {place : SettingPlace} {wanted : String} {e : Entry} {a : α} :
    refuse place wanted e ≠ .ok a := by
  cases e <;> exact nofun

theorem setGroup_keeps {P : Settings → Prop}
    {set : Settings → String → Entry → Except LoadError Settings}
    (hset : ∀ {s key e s'}, P s → set s key e = .ok s' → P s') {place : SettingPlace}
    {wanted : String} {e : Entry} {s s' : Settings} (hs : P s)
    (h : setGroup set s place wanted e = .ok s') : P s' := by
  unfold setGroup at h
  split at h
  · exact setAll_keeps hset hs h
  · exact absurd h refuse_ne_ok

theorem indentFits_of_whole {place : SettingPlace} {e : Entry} {n : Int}
    (h : whole place e = .ok n) : n < 0x8000000000000000 := by
  unfold whole at h
  split at h
  · dsimp only at h
    split at h
    · next hrange =>
      cases h
      exact hrange.2
    · cases h
  · exact absurd h refuse_ne_ok

theorem indentFits_setJava {s s' : Settings} {key : String} {e : Entry} (hs : s.IndentFits)
    (h : setJava s key e = .ok s') : s'.IndentFits := by
  unfold setJava at h
  split at h
  · obtain ⟨_, -, ⟨⟩⟩ := bind_eq_ok.mp h
    exact hs
  · obtain ⟨n, hn, ⟨⟩⟩ := bind_eq_ok.mp h
    exact indentFits_of_whole hn
  · cases h

theorem indentFits_setDialogue {s s' : Settings} {key : String} {e : Entry} (hs : s.IndentFits)
    (h : setDialogue s key e = .ok s') : s'.IndentFits := by
  unfold setDialogue at h
  split at h
  · obtain ⟨_, -, ⟨⟩⟩ := bind_eq_ok.mp h
    exact hs
  · obtain ⟨_, -, ⟨⟩⟩ := bind_eq_ok.mp h
    exact hs
  · obtain ⟨_, -, ⟨⟩⟩ := bind_eq_ok.mp h
    exact hs
  · cases h

theorem indentFits_setTop {s s' : Settings} {key : String} {e : Entry} (hs : s.IndentFits)
    (h : setTop s key e = .ok s') : s'.IndentFits := by
  unfold setTop at h
  split at h
  · exact setGroup_keeps indentFits_setDialogue hs h
  split at h
  · obtain ⟨_, -, ⟨⟩⟩ := bind_eq_ok.mp h
    exact hs
  · exact setGroup_keeps indentFits_setJava hs h
  · cases h

/-- What holds of loaded settings: the class has a name that a class can have, and the indent is a
number of 64 bits that is not negative. -/
structure Loaded (s : Settings) : Prop where
  className : isClassName s.className = true
  indent_nonneg : 0 ≤ s.indent
  indent_fits : s.IndentFits

theorem invalid?_eq_none {s : Settings} (h : s.invalid? = none) :
    isClassName s.className = true ∧ 0 ≤ s.indent := by
  unfold invalid? at h
  split at h
  · cases h
  next hname =>
  split at h
  · cases h
  next hindent =>
  exact ⟨by simpa using hname, Int.not_lt.mp hindent⟩

theorem invalid?_of_loaded {s : Settings} (h : s.Loaded) : s.invalid? = none := by
  rw [invalid?, h.className, if_neg (by decide), if_neg (Int.not_lt.mpr h.indent_nonneg)]

theorem ofText_eq_ok {t : String} {s : Settings} {fields : Fields}
    (hread : Toml.read t = .ok fields) (hset : setAll setTop {} fields = .ok s)
    (hvalid : s.invalid? = none) : ofText t = .ok s := by
  rw [ofText, hread]
  dsimp only
  rw [hset, ok_bind, hvalid]
  rfl

/-- **Loading gives settings that keep the rules.** -/
theorem loaded_of_ofText {t : String} {s : Settings} (h : ofText t = .ok s) : s.Loaded := by
  unfold ofText at h
  split at h
  · cases h
  · cases h
  next fields _ =>
  obtain ⟨s', hset, hvalid⟩ := bind_eq_ok.mp h
  split at hvalid
  · cases hvalid
  next hnone =>
  cases hvalid
  have hdefault : IndentFits {} := by
    unfold IndentFits
    decide
  obtain ⟨hname, hindent⟩ := invalid?_eq_none hnone
  exact ⟨hname, hindent, setAll_keeps indentFits_setTop hdefault hset⟩

theorem loaded_of_ofInput {input : Input} {s : Settings} (h : ofInput input = .ok s) :
    s.Loaded := by
  unfold ofInput at h
  split at h
  · cases h
  · exact loaded_of_ofText h

/-! ## A dump as a document -/

/-- A line for a text. -/
def textLine (key text : String) : Line :=
  { key, value := .string text, text := (quoted text).toList }

/-- The line in front of the tables. -/
def topLine (s : Settings) : Line where
  key := "color"
  value := .boolean s.color
  text := if s.color then "true".toList else "false".toList

/-- The table with the shape of the generated Java. -/
def javaTable (s : Settings) : Table where
  name := "generator"
  lines := [textLine "class_name" s.className,
    { key := "indent", value := .integer (toString s.indent), text := (toString s.indent).toList }]

/-- The texts of the dialogue with their keys. -/
def dialogueTexts (s : Settings) : List (String × String) :=
  [("prompt", s.prompt), ("continuation", s.continuation), ("history", s.history)]

/-- The lines of the dialogue. -/
def dialogueLines (s : Settings) : List Line :=
  s.dialogueTexts.map fun p => textLine p.1 p.2

/-- The table of the dialogue. -/
def dialogueTable (s : Settings) : Table where
  name := "repl"
  lines := s.dialogueLines

/-- **A dump is a document of one line and two tables.** -/
theorem dump_eq (s : Settings) :
    s.dump.toList = documentText s.topLine [s.javaTable, s.dialogueTable] ['\n'] := by
  have hcolor : s.topLine.text = (if s.color then "true" else "false").toList := by
    rw [topLine]
    split <;> rfl
  have hchars : ∀ l : Line, l.chars = l.key.toList ++ (" = ".toList ++ l.text) := fun _ => rfl
  simp only [documentText, tablesText, Table.chars, block, hchars, javaTable, dialogueTable,
    dialogueLines, dialogueTexts, List.map_cons, List.map_nil, List.flatMap_cons,
    List.flatMap_nil, hcolor, textLine]
  unfold dump topLine
  -- what is left to compare are the fixed parts
  generalize (if s.color then "true" else "false") = color
  generalize quoted s.className = className
  generalize toString s.indent = indent
  generalize quoted s.prompt = prompt
  generalize quoted s.continuation = continuation
  generalize quoted s.history = history
  simp only [String.toList_append, List.append_assoc, List.cons_append, List.nil_append]
  rfl

theorem good_topLine (s : Settings) : s.topLine.Good := by
  have hkey : s.topLine.key = "color" := rfl
  refine ⟨?_, writes_boolean s.color⟩
  rw [hkey]
  decide

theorem good_textLine {key text : String} (hkey : isBare key = true)
    (htext : ∀ c ∈ text.toList, Toml.isSpellable c = true) : (textLine key text).Good := by
  refine ⟨hkey, ?_⟩
  dsimp only [textLine]
  exact writes_string htext

theorem range_of_isAlpha {c : Char} (h : c.isAlpha = true) : 65 ≤ c.toNat ∧ c.toNat ≤ 122 := by
  have hcases : c.isUpper = true ∨ c.isLower = true := Bool.or_eq_true_iff.mp h
  rcases hcases with hupper | hlower
  · have hrange : 'A'.val ≤ c.val ∧ c.val ≤ 'Z'.val := of_decide_eq_true hupper
    exact ⟨hrange.1, Nat.le_trans hrange.2 (by decide : 'Z'.val.toNat ≤ 122)⟩
  · have hrange := Bool.and_eq_true_iff.mp hlower
    have hlow : 'a'.val ≤ c.val := of_decide_eq_true hrange.1
    have hhigh : c.val ≤ 'z'.val := of_decide_eq_true hrange.2
    exact ⟨Nat.le_trans (by decide : 65 ≤ 'a'.val.toNat) hlow, hhigh⟩

theorem isSpellable_of_isClassName {name : String} (h : isClassName name = true) :
    ∀ c ∈ name.toList, Toml.isSpellable c = true := by
  have hletter : ∀ c, startsName c = true ∨ c.isDigit = true → Toml.isSpellable c = true := by
    intro c hc
    simp only [startsName, Bool.or_eq_true, decide_eq_true_eq] at hc
    rcases hc with ((hletter | rfl) | rfl) | hdigit
    · have hrange := range_of_isAlpha hletter
      exact (isSpellable_iff c).mpr (.inr (by omega))
    · decide
    · decide
    · have hrange : 48 ≤ c.toNat ∧ c.toNat ≤ 57 := Char.isDigit_iff_toNat.mp hdigit
      exact (isSpellable_iff c).mpr (.inr (by omega))
  unfold isClassName at h
  split at h
  · cases h
  next c cs hname =>
  rw [hname]
  simp only [Bool.and_eq_true, List.all_eq_true, Bool.or_eq_true] at h
  obtain ⟨⟨⟨hfirst, hrest⟩, -⟩, -⟩ := h
  intro d hd
  rcases List.mem_cons.mp hd with rfl | hd
  · exact hletter d (.inl hfirst)
  · exact hletter d (hrest d hd)

theorem good_javaTable {s : Settings} (h : s.Loaded) : s.javaTable.Good := by
  have hindent : (toString s.indent).toList = Nat.toDigits 10 s.indent.natAbs := by
    rw [toList_toString, if_neg (Int.not_lt.mpr h.indent_nonneg), List.nil_append]
  have hname : s.javaTable.name = "generator" := rfl
  refine ⟨by rw [hname]; decide, ?_⟩
  rintro l (_ | ⟨_, _ | ⟨_, hl⟩⟩)
  · exact good_textLine (by decide) (isSpellable_of_isClassName h.className)
  · refine ⟨(by decide : isBare "indent" = true), ?_⟩
    show Writes (.integer (toString s.indent)) (toString s.indent).toList
    rw [← String.ofList_toList (s := toString s.indent), String.toList_ofList, hindent]
    exact writes_integer _
  · cases hl

/-! ## Settings from a document -/

theorem whole_toString {n : Int} (hlow : 0 ≤ n) (hhigh : n < 0x8000000000000000)
    (place : SettingPlace) (line : Nat) :
    whole place (.value (.integer (toString n)) line) = .ok n := by
  rw [whole, integer?_toString]
  exact if_pos ⟨Int.le_trans (by decide) hlow, hhigh⟩

theorem setAll_javaTable {s : Settings} (h : s.Loaded) {fields : Fields}
    (hfields : HoldsLines s.javaTable.lines fields) (before : Settings) :
    setAll setJava before fields =
      .ok { before with className := s.className, indent := s.indent } := by
  obtain _ | @⟨_, _, l₁, _, _ | @⟨_, _, l₂, _, _ | _⟩⟩ := hfields
  have hname : setJava before "class_name" (.value (.string s.className) l₁) =
      .ok { before with className := s.className } := rfl
  have hindent : ∀ s' : Settings, setJava s' "indent" (.value (.integer (toString s.indent)) l₂) =
      .ok { s' with indent := s.indent } := by
    intro s'
    show whole _ (.value (.integer (toString s.indent)) l₂) >>= _ = _
    rw [whole_toString h.indent_nonneg h.indent_fits]
    rfl
  show setAll setJava before [("class_name", .value (.string s.className) l₁),
    ("indent", .value (.integer (toString s.indent)) l₂)] = _
  rw [setAll, hname, ok_bind, setAll, hindent, ok_bind, setAll]

theorem setAll_dialogueTable {s : Settings} {fields : Fields}
    (hfields : HoldsLines s.dialogueTable.lines fields) (before : Settings) :
    setAll setDialogue before fields =
      .ok { before with
        prompt := s.prompt, continuation := s.continuation, history := s.history } := by
  obtain _ | @⟨_, _, l₁, _, _ | @⟨_, _, l₂, _, _ | @⟨_, _, l₃, _, _ | _⟩⟩⟩ := hfields
  have hprompt : ∀ s' : Settings, setDialogue s' "prompt" (.value (.string s.prompt) l₁) =
      .ok { s' with prompt := s.prompt } := fun _ => rfl
  have hcontinuation : ∀ s' : Settings,
      setDialogue s' "continuation" (.value (.string s.continuation) l₂) =
        .ok { s' with continuation := s.continuation } := fun _ => rfl
  have hhistory : ∀ s' : Settings, setDialogue s' "history" (.value (.string s.history) l₃) =
      .ok { s' with history := s.history } := fun _ => rfl
  show setAll setDialogue before [("prompt", .value (.string s.prompt) l₁),
    ("continuation", .value (.string s.continuation) l₂),
    ("history", .value (.string s.history) l₃)] = _
  rw [setAll, hprompt, ok_bind, setAll, hcontinuation, ok_bind, setAll, hhistory, ok_bind, setAll]

/-- **Entries that stand for settings give these settings.** -/
theorem setAll_of_holds {s : Settings} (h : s.Loaded) {line : Nat} {tables : Fields}
    (htables : HoldsTables [s.javaTable, s.dialogueTable] tables) :
    setAll setTop {} ((s.topLine.key, .value s.topLine.value line) :: tables) = .ok s := by
  obtain _ | @⟨_, _, l₁, java, _, hjava, _ | @⟨_, _, l₂, dialogue, _, hdialogue, _ | _⟩⟩ := htables
  have hcolor : setTop {} "color" (.value (.boolean s.color) line) = .ok { color := s.color } := rfl
  have hgroups : ∀ s' : Settings,
      setTop s' "generator" (.table l₁ true java) = setAll setJava s' java ∧
        setTop s' "repl" (.table l₂ true dialogue) = setAll setDialogue s' dialogue :=
    fun _ => ⟨rfl, rfl⟩
  show setAll setTop {} [("color", .value (.boolean s.color) line),
    ("generator", .table l₁ true java), ("repl", .table l₂ true dialogue)] = _
  rw [setAll, hcolor, ok_bind, setAll, (hgroups _).1, setAll_javaTable h hjava, ok_bind, setAll,
    (hgroups _).2, setAll_dialogueTable hdialogue, ok_bind, setAll]

/-! ## Texts that can be read back -/

/-- Whether the texts of settings can be read back: quoting writes some control characters in a form
that TOML does not have. -/
def isSpellable (s : Settings) : Bool :=
  s.dialogueTexts.all fun p => p.2.toList.all Toml.isSpellable

theorem isBare_dialogueTexts (s : Settings) : ∀ p ∈ s.dialogueTexts, isBare p.1 = true := by
  rintro p (_ | ⟨_, _ | ⟨_, _ | ⟨_, ⟨⟩⟩⟩⟩)
  · exact (by decide : isBare "prompt" = true)
  · exact (by decide : isBare "continuation" = true)
  · exact (by decide : isBare "history" = true)

/-- Texts that can be spelled make lines that can be read. -/
theorem good_textLines {texts : List (String × String)} (hkeys : ∀ p ∈ texts, isBare p.1 = true)
    (htexts : ∀ p ∈ texts, p.2.toList.all Toml.isSpellable = true) :
    ∀ l ∈ texts.map fun p => textLine p.1 p.2, l.Good := by
  intro l hl
  obtain ⟨⟨key, text⟩, hmem, rfl⟩ := List.mem_map.mp hl
  exact good_textLine (hkeys _ hmem) (List.all_eq_true.mp (htexts _ hmem))

/-- **A dump that can be spelled is loaded as the settings.** -/
theorem ofText_dump {s : Settings} (h : s.Loaded) (hspell : s.isSpellable = true) :
    ofText s.dump = .ok s := by
  have hdialogue : s.dialogueTable.Good :=
    ⟨(by decide : isBare "repl" = true),
      good_textLines s.isBare_dialogueTexts (List.all_eq_true.mp hspell)⟩
  have htables : ∀ t ∈ [s.javaTable, s.dialogueTable], t.Good := by
    rintro t (_ | ⟨_, _ | ⟨_, ⟨⟩⟩⟩)
    · exact good_javaTable h
    · exact hdialogue
  have hnames : ["color", "generator", "repl"].Nodup := by decide
  have hkeys : ∀ t ∈ [s.javaTable, s.dialogueTable], (t.lines.map Line.key).Nodup := by
    rintro t (_ | ⟨_, _ | ⟨_, ⟨⟩⟩⟩)
    · exact (by decide : ["class_name", "indent"].Nodup)
    · exact (by decide : ["prompt", "continuation", "history"].Nodup)
  obtain ⟨line, tables, hholds, hread⟩ := read_document s.good_topLine htables hnames hkeys
  rw [← dump_eq, String.ofList_toList] at hread
  exact ofText_eq_ok hread (setAll_of_holds h hholds) (invalid?_of_loaded h)

/-- Of texts that cannot all be spelled, one is the first that cannot. -/
theorem exists_unspellable {texts : List (String × String)}
    (h : (texts.all fun p => p.2.toList.all Toml.isSpellable) = false) :
    ∃ front bad back, texts = front ++ bad :: back ∧
      (∀ p ∈ front, p.2.toList.all Toml.isSpellable = true) ∧
      bad.2.toList.all Toml.isSpellable = false := by
  induction texts with
  | nil => cases h
  | cons p texts ih =>
      by_cases hp : p.2.toList.all Toml.isSpellable = true
      · rw [List.all_cons, hp, Bool.true_and] at h
        obtain ⟨front, bad, back, rfl, hfront, hbad⟩ := ih h
        exact ⟨p :: front, bad, back, rfl, List.forall_mem_cons.mpr ⟨hp, hfront⟩, hbad⟩
      · exact ⟨[], p, texts, rfl, nofun, Bool.eq_false_iff.mpr hp⟩

/-- A line with a text that cannot be spelled is no pair. -/
theorem topPair?_textLine {key text : String} (hkey : isBare key = true)
    (hbad : text.toList.all Toml.isSpellable = false) (breaks : Nat) (rest : List Char) :
    topPair? breaks ((textLine key text).chars ++ rest) = none := by
  have hsome : ∃ c ∈ text.toList, Toml.isSpellable c = false := by
    simpa only [List.all_eq_false, Bool.not_eq_true] using hbad
  have htext : (textLine key text).text = '"' :: (spelled text.toList ++ ['"']) := by
    rw [textLine, toList_quoted]
  refine topPair?_unreadable (l := textLine key text) hkey htext ?_ breaks
  rw [List.append_assoc]
  exact literal?_unspellable hsome _

/-- **A dump that cannot be spelled is refused.** -/
theorem ofText_dump_unspellable {s : Settings} (h : s.Loaded) (hspell : s.isSpellable = false) :
    ofText s.dump = .error .malformed := by
  obtain ⟨front, bad, back, htexts, hfront, hbad⟩ := exists_unspellable hspell
  have hkeys := s.isBare_dialogueTexts
  rw [htexts] at hkeys
  obtain ⟨hfrontKeys, hbackKeys⟩ := List.forall_mem_append.mp hkeys
  have hkey : isBare bad.1 = true := hbackKeys bad List.mem_cons_self
  -- the document ends for the reader in front of the line of `bad`
  let lines := front.map fun p => textLine p.1 p.2
  let rest := block (back.map fun p => textLine p.1 p.2) ++ ['\n']
  have hdump : s.dump.toList = documentText s.topLine [s.javaTable, { name := "repl", lines }]
      ('\n' :: ((textLine bad.1 bad.2).chars ++ rest)) := by
    have hlines : s.dialogueLines = lines ++ textLine bad.1 bad.2 ::
        back.map fun p => textLine p.1 p.2 := by
      rw [dialogueLines, htexts, List.map_append, List.map_cons]
    rw [dump_eq, documentText, dialogueTable, hlines, tablesText_cut]
    rfl
  have htables : ∀ t ∈ [s.javaTable, { name := "repl", lines }], t.Good := by
    rintro t (_ | ⟨_, _ | ⟨_, ⟨⟩⟩⟩)
    · exact good_javaTable h
    · exact ⟨(by decide : isBare "repl" = true), good_textLines hfrontKeys hfront⟩
  have hread := read_unreadable s.good_topLine htables (textLine bad.1 bad.2) hkey
    fun breaks => topPair?_textLine hkey hbad breaks rest
  rw [← hdump, String.ofList_toList] at hread
  rw [ofText, hread]

/-- An input with a text is loaded as the text. -/
theorem ofInput_utf8Bytes (t : String) : ofInput { bytes := utf8Bytes t } = ofText t := by
  show ofText (shownText (utf8Bytes t)) = ofText t
  rw [Glyph.shownText_utf8Bytes]

/--
**Settings are loaded as they were written, if they can be spelled.** Let settings that were loaded
from some input be written and loaded again. If every character of their texts can be spelled, the
same settings are loaded. Otherwise nothing is loaded: what was written is no TOML document, since
it has an escape that TOML does not know in place of a control character.
-/
theorem ofInput_dump {input : Input} {s : Settings} (h : ofInput input = .ok s) :
    ofInput { bytes := utf8Bytes s.dump } =
      if s.isSpellable then .ok s else .error .malformed := by
  have hloaded : s.Loaded := loaded_of_ofInput h
  rw [ofInput_utf8Bytes]
  split
  · next hspell => exact ofText_dump hloaded hspell
  · next hspell => exact ofText_dump_unspellable hloaded (Bool.eq_false_iff.mpr hspell)

/-- A prompt with a tab is loaded again from its dump. One with an escape character, as every colour
of a terminal needs it, is not. -/
theorem ofInput_dump_prompts :
    let tabbed : Settings := { prompt := "\u03bb\t> " }
    let coloured : Settings := { prompt := "\x1b> " }
    (ofInput { bytes := utf8Bytes "[repl]\nprompt = \"\u03bb\\t> \"\n" } = .ok tabbed ∧
        ofInput { bytes := utf8Bytes tabbed.dump } = .ok tabbed) ∧
      ofInput { bytes := utf8Bytes "[repl]\nprompt = \"\\u001b> \"\n" } = .ok coloured ∧
        ofInput { bytes := utf8Bytes coloured.dump } = .error .malformed := by
  intro tabbed coloured
  have htabbed : ofInput { bytes := utf8Bytes "[repl]\nprompt = \"\u03bb\\t> \"\n" } =
      .ok tabbed := by
    rw [ofInput_utf8Bytes]
    exact eq_ok_of_toOption (by decide +kernel)
  have hcoloured : ofInput { bytes := utf8Bytes "[repl]\nprompt = \"\\u001b> \"\n" } =
      .ok coloured := by
    rw [ofInput_utf8Bytes]
    exact eq_ok_of_toOption (by decide +kernel)
  exact ⟨⟨htabbed, (ofInput_dump htabbed).trans (if_pos (by decide))⟩,
    hcoloured, (ofInput_dump hcoloured).trans (if_neg (by decide))⟩

end LetWhile.Settings
