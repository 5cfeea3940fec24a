import LetWhile.Dialogue
import LetWhile.Proofs.Sessions
import Mathlib.Data.List.DropRight
import Mathlib.Data.List.TakeWhile

/-!
# A dialogue takes every line once

A dialogue holds lines back until they make a piece, and with each line that comes it compiles all
that it has held back once more. This module says what it makes of an input as if nothing were ever
held back or tried: the lines are cut into *parts*, one behind the other, and each part is answered
once.

A part is a command, a blank line, or a chunk of program text. Which lines make a chunk is told by
the texts alone: the first of them is neither a command nor blank, every shorter run of them is a
text that more text could mend, and the chunk itself is not, unless the input ends with it. `Cut`
says so, and no lines have two cuts (`Cut.unique`).

The invariant of a run is `Waiting`: the lines held back are the front of a chunk. A line either
ends a part, which is answered, or waits with the others (`Dialogue.feed_fed`).
-/

namespace LetWhile

/-! ## White space and commands -/

/-- A text of white space only. -/
def IsBlankText (text : List UInt8) : Prop :=
  ∀ g ∈ Glyph.decode text, g.isBlank = true

theorem trimmedGlyphs_eq (text : List UInt8) :
    trimmedGlyphs text = ((Glyph.decode text).dropWhile Glyph.isBlank).rdropWhile Glyph.isBlank :=
  rfl

theorem isBlankText_iff {text : List UInt8} : isBlankText text = true ↔ IsBlankText text := by
  rw [isBlankText, List.isEmpty_iff, trimmedGlyphs_eq, List.rdropWhile_eq_nil_iff, IsBlankText]
  constructor
  · intro h g hg
    rw [← List.takeWhile_append_dropWhile (p := Glyph.isBlank) (l := Glyph.decode text)] at hg
    rcases List.mem_append.mp hg with hfront | hrest
    · exact List.mem_takeWhile_imp hfront
    · exact h g hrest
  · intro h g hg
    exact h g ((List.dropWhile_sublist _).subset hg)

/-- The word that gives a command. -/
def Command.word : Command → String
  | .program => ":program"
  | .reset => ":reset"

/-- A line that gives a command: its word, with nothing but white space around it. -/
def Command.GivenBy (c : Command) (line : List UInt8) : Prop :=
  ∃ front back, (∀ g ∈ front ++ back, g.isBlank = true) ∧
    Glyph.decode line = front ++ c.word.toList.map .char ++ back

theorem dropWhile_word {word : List Glyph} (hne : word ≠ [])
    (hword : ∀ g ∈ word, g.isBlank = false) (rest : List Glyph) :
    (word ++ rest).dropWhile Glyph.isBlank = word ++ rest := by
  obtain ⟨g, more, rfl⟩ := List.exists_cons_of_ne_nil hne
  have hg : ¬ g.isBlank = true := Bool.eq_false_iff.mp (hword g List.mem_cons_self)
  rw [List.cons_append]
  exact List.dropWhile_cons_of_neg hg

/-- What is left of a line without white space at its ends is a word if and only if there is white
space around the word, and nothing else. -/
theorem trimmedGlyphs_eq_iff {line : List UInt8} {word : List Glyph} (hne : word ≠ [])
    (hword : ∀ g ∈ word, g.isBlank = false) :
    trimmedGlyphs line = word ↔ ∃ front back, (∀ g ∈ front ++ back, g.isBlank = true) ∧
      Glyph.decode line = front ++ word ++ back := by
  rw [trimmedGlyphs_eq]
  constructor
  · -- the white space around the word is what was dropped at either end
    rintro rfl
    refine ⟨(Glyph.decode line).takeWhile Glyph.isBlank,
      ((Glyph.decode line).dropWhile Glyph.isBlank).rtakeWhile Glyph.isBlank, ?_, ?_⟩
    · intro g hg
      rcases List.mem_append.mp hg with hfront | hback
      · exact List.mem_takeWhile_imp hfront
      · exact List.mem_rtakeWhile_imp hback
    · rw [List.append_assoc, List.rdropWhile_append_rtakeWhile, List.takeWhile_append_dropWhile]
  · rintro ⟨front, back, hblank, hline⟩
    have hfront : ∀ g ∈ front, g.isBlank = true := fun g hg => hblank g (List.mem_append_left _ hg)
    have hback : ∀ g ∈ back.reverse, g.isBlank = true :=
      fun g hg => hblank g (List.mem_append_right _ (List.mem_reverse.mp hg))
    have hend : (word.reverse ++ []).dropWhile Glyph.isBlank = word.reverse ++ [] :=
      dropWhile_word (mt List.reverse_eq_nil_iff.mp hne)
        (fun g hg => hword g (List.mem_reverse.mp hg)) []
    rw [List.append_nil] at hend
    rw [hline, List.append_assoc, List.dropWhile_append_of_pos hfront, dropWhile_word hne hword,
      List.rdropWhile, List.reverse_append, List.dropWhile_append_of_pos hback, hend,
      List.reverse_reverse]

theorem Command.givenBy_iff (c : Command) (line : List UInt8) :
    c.GivenBy line ↔ trimmedGlyphs line = c.word.toList.map .char := by
  refine (trimmedGlyphs_eq_iff ?_ ?_).symm
  · cases c <;> decide
  · cases c <;> decide

/-- **A line gives the command whose word stands on it.** -/
theorem Command.ofLine?_eq_some_iff {line : List UInt8} {c : Command} :
    Command.ofLine? line = some c ↔ c.GivenBy line := by
  rw [givenBy_iff, ofLine?]
  cases c with
  | program =>
      constructor
      · intro h
        split at h
        · assumption
        · split at h <;> cases h
      · exact fun h => if_pos h
  | reset =>
      constructor
      · intro h
        split at h
        · cases h
        · split at h
          · assumption
          · cases h
      · -- the words differ, so it does not matter which of them is looked for first
        intro h
        have hother : Command.reset.word.toList.map Glyph.char ≠ ":program".toList.map .char := by
          decide
        rw [h]
        exact (if_neg hother).trans (if_pos rfl)

theorem Command.ofLine?_eq_none_iff {line : List UInt8} :
    Command.ofLine? line = none ↔ ∀ c : Command, ¬ c.GivenBy line := by
  rw [Option.eq_none_iff_forall_ne_some]
  exact forall_congr' fun _ => not_congr ofLine?_eq_some_iff

theorem Command.GivenBy.unique {line : List UInt8} {c c' : Command} (h : c.GivenBy line)
    (h' : c'.GivenBy line) : c = c' :=
  Option.some.inj ((ofLine?_eq_some_iff.mpr h).symm.trans (ofLine?_eq_some_iff.mpr h'))

theorem IsBlankText.not_givenBy {line : List UInt8} (h : IsBlankText line) (c : Command) :
    ¬ c.GivenBy line := by
  rw [← isBlankText_iff, isBlankText, List.isEmpty_iff] at h
  rw [Command.givenBy_iff, h]
  cases c <;> decide

/-! ## Lines -/

/-- Behind a line with its line feed nothing can become a part of it, so it is as blank as ever. -/
theorem IsLine.isBlankText_append {line : List UInt8} (h : IsLine 0x0A line) {more : List UInt8}
    (hblank : IsBlankText (line ++ more)) : IsBlankText line := by
  obtain ⟨body, -, rfl⟩ := h
  have hascii : (0x0A : UInt8).toNat < 0x80 := by decide
  have hfeed := Glyph.decode_ascii (c := '\n') hascii rfl
  rw [IsBlankText, List.append_assoc, List.singleton_append, Glyph.decode_append_ascii hascii,
    hfeed] at hblank
  rw [IsBlankText, Glyph.decode_append_ascii hascii, hfeed, Glyph.decode]
  intro g hg
  refine hblank g ?_
  rcases List.mem_append.mp hg with hbody | hend
  · exact List.mem_append_left _ hbody
  · rw [List.mem_singleton.mp hend]
    exact List.mem_append_right _ List.mem_cons_self

/-- The lines of a text: all but the last have their line feed, and the last has none. -/
structure Lines (text : List UInt8) (lines : List (List UInt8)) : Prop where
  text_eq : lines.flatten = text
  ended : ∀ line ∈ lines.dropLast, IsLine 0x0A line
  last : ∃ last, lines.getLast? = some last ∧ 0x0A ∉ last

theorem Lines.ne_nil {text : List UInt8} {lines : List (List UInt8)} (h : Lines text lines) :
    lines ≠ [] := by
  rintro rfl
  obtain ⟨last, hlast, -⟩ := h.last
  cases hlast

/-- A line feed in front of a text is a line by itself. -/
theorem Lines.cons_feed {text : List UInt8} {lines : List (List UInt8)} (h : Lines text lines) :
    Lines (0x0A :: text) ([0x0A] :: lines) := by
  obtain ⟨first, rest, rfl⟩ := List.exists_cons_of_ne_nil h.ne_nil
  obtain ⟨last, hlast, hfeed⟩ := h.last
  refine ⟨by rw [List.flatten_cons, h.text_eq]; rfl, ?_, last, ?_, hfeed⟩
  · intro line hline
    rw [List.dropLast_cons_cons] at hline
    rcases List.mem_cons.mp hline with rfl | hline
    · exact ⟨[], List.not_mem_nil, rfl⟩
    · exact h.ended line hline
  · rw [List.getLast?_cons_cons]
    exact hlast

/-- Any other byte in front of a text joins the first line. -/
theorem Lines.cons_byte {b : UInt8} (hb : b ≠ 0x0A) {text first : List UInt8}
    {rest : List (List UInt8)} (h : Lines text (first :: rest)) :
    Lines (b :: text) ((b :: first) :: rest) := by
  obtain ⟨last, hlast, hfeed⟩ := h.last
  have hended := h.ended
  refine ⟨by rw [← h.text_eq]; rfl, ?_, ?_⟩
  · cases rest with
    | nil => intro line hline; cases hline
    | cons second rest =>
        rw [List.dropLast_cons_cons] at hended ⊢
        intro line hline
        rcases List.mem_cons.mp hline with rfl | hline
        · obtain ⟨body, hbody, rfl⟩ := hended first List.mem_cons_self
          exact ⟨b :: body, List.not_mem_cons_of_ne_of_not_mem hb.symm hbody, rfl⟩
        · exact hended line (List.mem_cons_of_mem _ hline)
  · cases rest with
    | nil =>
        cases hlast
        exact ⟨b :: first, rfl, List.not_mem_cons_of_ne_of_not_mem hb.symm hfeed⟩
    | cons second rest => exact ⟨last, hlast, hfeed⟩

theorem Dialogue.lines_cutLines (text : List UInt8) : Lines text (cutLines 0x0A text) := by
  induction text with
  | nil => exact ⟨rfl, by simp [cutLines], [], rfl, List.not_mem_nil⟩
  | cons b text ih =>
      rw [cutLines]
      split
      · next hb =>
        subst hb
        exact ih.cons_feed
      · next hb =>
        obtain ⟨first, rest, hcut⟩ := List.exists_cons_of_ne_nil ih.ne_nil
        rw [hcut] at ih ⊢
        exact ih.cons_byte hb

/-! ## Parts -/

/-- Whether a text fails to be a program, and more text could mend it. -/
def Unfinished (source : List UInt8) : Prop :=
  ∃ e, Program.parse source = .error e ∧ e.incomplete = true

/-- Lines that a dialogue takes together. -/
inductive Part where
  | command (c : Command) (line : List UInt8)
  | blank (line : List UInt8)
  | chunk (lines : List (List UInt8))

namespace Part

/-- The lines of a part. -/
def lines : Part → List (List UInt8)
  | .command _ line => [line]
  | .blank line => [line]
  | .chunk lines => lines

/-- What makes lines a part of its kind. -/
inductive Fits : Part → Prop where
  | command {c : Command} {line : List UInt8} (hc : c.GivenBy line) : Fits (.command c line)
  | blank {line : List UInt8} (hblank : IsBlankText line) : Fits (.blank line)
  | chunk {first : List UInt8} {more : List (List UInt8)} (hc : ∀ c : Command, ¬ c.GivenBy first)
      (hblank : ¬ IsBlankText first)
      (hfront : ∀ front back, first :: more = front ++ back → front ≠ [] → back ≠ [] →
        Unfinished front.flatten) :
      Fits (.chunk (first :: more))

/-- Whether a part needs no more lines. -/
def Finished : Part → Prop
  | .chunk lines => ¬ Unfinished lines.flatten
  | _ => True

theorem Fits.lines_ne_nil {p : Part} (h : p.Fits) : p.lines ≠ [] := by
  cases h <;> exact List.cons_ne_nil _ _

end Part

/-- Lines cut into parts, without gap or overlap. Only the last part can be unfinished. -/
structure Cut (lines : List (List UInt8)) (parts : List Part) : Prop where
  lines_eq : parts.flatMap Part.lines = lines
  fits : ∀ p ∈ parts, p.Fits
  finished : ∀ p ∈ parts.dropLast, p.Finished

theorem Cut.single {p : Part} (h : p.Fits) : Cut p.lines [p] := by
  refine ⟨List.flatMap_singleton .., ?_, ?_⟩
  · rintro q (_ | ⟨_, hq⟩)
    · exact h
    · cases hq
  · rintro q hq
    cases hq

theorem Cut.cons {p : Part} {lines : List (List UInt8)} {parts : List Part} (hfits : p.Fits)
    (hfinished : p.Finished) (h : Cut lines parts) : Cut (p.lines ++ lines) (p :: parts) := by
  refine ⟨by rw [List.flatMap_cons, h.lines_eq], ?_, ?_⟩
  · rintro q (_ | ⟨_, hq⟩)
    · exact hfits
    · exact h.fits q hq
  · intro q hq
    cases parts with
    | nil => cases hq
    | cons first parts =>
        rw [List.dropLast_cons_cons] at hq
        rcases List.mem_cons.mp hq with rfl | hq
        · exact hfinished
        · exact h.finished q hq

theorem Cut.tail {p : Part} {lines : List (List UInt8)} {parts : List Part}
    (h : Cut lines (p :: parts)) : Cut (parts.flatMap Part.lines) parts := by
  refine ⟨rfl, fun q hq => h.fits q (List.mem_cons_of_mem _ hq), ?_⟩
  intro q hq
  cases parts with
  | nil => cases hq
  | cons first parts =>
      refine h.finished q ?_
      rw [List.dropLast_cons_cons]
      exact List.mem_cons_of_mem _ hq

/-- A part that lines are left behind is finished. -/
theorem Cut.finished_head {p : Part} {lines : List (List UInt8)} {parts : List Part}
    (h : Cut lines (p :: parts)) (hne : parts.flatMap Part.lines ≠ []) : p.Finished := by
  cases parts with
  | nil => exact absurd rfl hne
  | cons first parts =>
      refine h.finished p ?_
      rw [List.dropLast_cons_cons]
      exact List.mem_cons_self

/-- A finished chunk is not the front of a longer one. -/
theorem Part.Fits.chunk_unique {short long more rest : List (List UInt8)}
    (hlong : (Part.chunk long).Fits) (hshort : (Part.chunk short).Fits)
    (hlines : long = short ++ more) (hfinished : more ++ rest ≠ [] → (Part.chunk short).Finished) :
    Part.chunk short = Part.chunk long := by
  by_cases hmore : more = []
  · rw [hlines, hmore, List.append_nil]
  · have hne : short ≠ [] := hshort.lines_ne_nil
    have hrest : more ++ rest ≠ [] := fun h => hmore (List.append_eq_nil_iff.mp h).1
    cases hlong with
    | chunk _ _ hfront => exact absurd (hfront short more hlines hne hmore) (hfinished hrest)

/-- The first part of lines is told by the lines. -/
theorem Part.Fits.eq_of_lines {p q : Part} {ps qs : List (List UInt8)} (hp : p.Fits) (hq : q.Fits)
    (hlines : p.lines ++ ps = q.lines ++ qs) (hpfin : ps ≠ [] → p.Finished)
    (hqfin : qs ≠ [] → q.Finished) : p = q := by
  -- parts of two kinds differ in their first line
  cases hp with
  | command hc =>
      cases hq with
      | command hc' =>
          cases hlines
          rw [hc.unique hc']
      | blank hblank =>
          cases hlines
          exact absurd hc (hblank.not_givenBy _)
      | chunk hc' _ _ =>
          cases hlines
          exact absurd hc (hc' _)
  | blank hblank =>
      cases hq with
      | command hc =>
          cases hlines
          exact absurd hc (hblank.not_givenBy _)
      | blank _ =>
          cases hlines
          rfl
      | chunk _ hblank' _ =>
          cases hlines
          exact absurd hblank hblank'
  | @chunk first more hc hblank hfront =>
      cases hq with
      | command hc' =>
          cases hlines
          exact absurd hc' (hc _)
      | blank hblank' =>
          cases hlines
          exact absurd hblank' hblank
      | @chunk first' more' hc' hblank' hfront' =>
          have hp := Fits.chunk hc hblank hfront
          have hq := Fits.chunk hc' hblank' hfront'
          -- one of the two chunks is the front of the other
          rcases List.append_eq_append_iff.mp hlines with ⟨rest, hmore, rfl⟩ | ⟨rest, hmore, rfl⟩
          · exact hq.chunk_unique hp hmore hpfin
          · exact (hp.chunk_unique hq hmore hqfin).symm

theorem Cut.eq_nil {parts : List Part} (h : Cut [] parts) : parts = [] := by
  cases parts with
  | nil => rfl
  | cons p parts =>
      have hempty : p.lines ++ parts.flatMap Part.lines = [] := h.lines_eq
      exact absurd (List.append_eq_nil_iff.mp hempty).1 (h.fits p List.mem_cons_self).lines_ne_nil

/-- **No lines have two cuts.** -/
theorem Cut.unique {lines : List (List UInt8)} {ps qs : List Part} (hp : Cut lines ps)
    (hq : Cut lines qs) : ps = qs := by
  induction ps generalizing lines qs with
  | nil =>
      cases hp.lines_eq
      exact hq.eq_nil.symm
  | cons p ps ih =>
      cases qs with
      | nil =>
          cases hq.lines_eq
          exact hp.eq_nil
      | cons q qs =>
          have hlines : p.lines ++ ps.flatMap Part.lines = q.lines ++ qs.flatMap Part.lines :=
            hp.lines_eq.trans hq.lines_eq.symm
          have hpq : p = q := (hp.fits p List.mem_cons_self).eq_of_lines
            (hq.fits q List.mem_cons_self) hlines hp.finished_head hq.finished_head
          subst hpq
          have hrest := List.append_cancel_left hlines
          have hps : Cut (qs.flatMap Part.lines) ps := hrest ▸ hp.tail
          rw [ih hps hq.tail]

/-! ## Answers -/

/-- How a session answers a part: what is shown, and the session behind it. -/
inductive Part.Answered (color : Bool) : Session → Part → List Event → Session → Prop where
  | program {s : Session} {line : List UInt8} {text : String} (h : s.program = .ok text) :
      Answered color s (.command .program line) [{ channel := .out, text }] s
  | reset {s : Session} {line : List UInt8} : Answered color s (.command .reset line) [] s.reset
  | blank {s : Session} {line : List UInt8} : Answered color s (.blank line) [] s
  | accepted {s s' : Session} {lines : List (List UInt8)} {java : String}
      (h : s.add lines.flatten = (.ok java, s')) :
      Answered color s (.chunk lines) [{ channel := .out, text := java }] s'
  | rejected {s : Session} {lines : List (List UInt8)} {e : CompileError}
      (h : s.add lines.flatten = (.error e, s)) :
      Answered color s (.chunk lines)
        [{ channel := .err,
            text := (if color then "\x1b[31;1mplc:\x1b[0m" else "plc:") ++ " " ++ e.message ++
              "\n" }]
        s

/-- How a session answers parts one after the other. -/
inductive Held (color : Bool) : Session → List Part → List Event → Session → Prop where
  | nil {s : Session} : Held color s [] [] s
  | cons {s₁ s₂ s₃ : Session} {p : Part} {parts : List Part} {events more : List Event}
      (hp : p.Answered color s₁ events s₂) (hparts : Held color s₂ parts more s₃) :
      Held color s₁ (p :: parts) (events ++ more) s₃

theorem Held.single {color : Bool} {s s' : Session} {p : Part} {events : List Event}
    (h : p.Answered color s events s') : Held color s [p] events s' := by
  rw [← List.append_nil events]
  exact .cons h .nil

/-- A part is answered by a session that agrees with the compiler, and leaves one. -/
theorem Part.Answered.agrees {color : Bool} {s s' : Session} {p : Part} {events : List Event}
    (h : p.Answered color s events s') {o : CompileOptions} {inputs : List (List UInt8)}
    (hs : s.Agrees o inputs) : ∃ inputs', s'.Agrees o inputs' := by
  cases h with
  | program _ => exact ⟨inputs, hs⟩
  | reset => exact ⟨_, hs.step .reset⟩
  | blank => exact ⟨inputs, hs⟩
  | @accepted _ lines _ hadd =>
      have hstep := hs.step (.add lines.flatten)
      rw [Session.handle, hadd] at hstep
      exact ⟨_, hstep⟩
  | rejected _ => exact ⟨inputs, hs⟩

/-! ## What one line does -/

namespace Dialogue

/-- Where a piece was read, no reason to refuse it is one that more text could mend. -/
theorem not_incomplete_of_parse {s s' : Session} {source : List UInt8} {piece : Program}
    {e : CompileError} (hparse : Program.parse source = .ok piece)
    (h : s.add source = (.error e, s')) : e.incomplete = false := by
  rw [Session.add, hparse] at h
  dsimp only at h
  split at h
  · next err hcheck =>
    cases h
    rw [Program.checkAlone] at hcheck
    split at hcheck <;> cases hcheck
    rfl
  next typed _ =>
  split at h
  · next err hjava =>
    cases h
    unfold javaText at hjava
    split at hjava <;> cases hjava
    rfl
  · cases h

/-- A piece is refused for a reason that more text could mend if and only if it is unfinished. -/
theorem incomplete_iff_unfinished {s s' : Session} {source : List UInt8} {e : CompileError}
    (h : s.add source = (.error e, s')) : e.incomplete = true ↔ Unfinished source := by
  cases hparse : Program.parse source with
  | error err =>
      rw [Session.add, hparse] at h
      cases h
      constructor
      · exact fun hinc => ⟨e, hparse, hinc⟩
      · rintro ⟨err, herr, hinc⟩
        cases hparse.symm.trans herr
        exact hinc
  | ok piece =>
      rw [not_incomplete_of_parse hparse h]
      constructor
      · intro hinc
        cases hinc
      · rintro ⟨err, herr, -⟩
        cases hparse.symm.trans herr

/-- What a run keeps true of the lines held back: there are none, or they are a chunk that is
unfinished. -/
inductive Waiting : List (List UInt8) → Prop where
  | nil : Waiting []
  | chunk {lines : List (List UInt8)} (hended : ∀ line ∈ lines, IsLine 0x0A line)
      (hfits : (Part.chunk lines).Fits) (hsource : Unfinished lines.flatten) : Waiting lines

namespace Waiting

variable {waiting : List (List UInt8)} {line : List UInt8}

theorem eq_nil (h : Waiting waiting) (hflat : waiting.flatten = []) : waiting = [] := by
  cases h with
  | nil => rfl
  | chunk _ _ hsource =>
      obtain ⟨e, he, -⟩ := hsource
      rw [hflat, Session.parse_nil] at he
      cases he

/-- Lines that wait are not blank, and no line makes them so. -/
theorem not_isBlankText_append (h : Waiting waiting) (hne : waiting ≠ []) (more : List UInt8) :
    ¬ IsBlankText (waiting.flatten ++ more) := by
  cases h with
  | nil => exact absurd rfl hne
  | chunk hended hfits _ =>
      cases hfits with
      | @chunk first rest _ hblank _ =>
          have hline : IsLine 0x0A first := hended first List.mem_cons_self
          rw [List.flatten_cons, List.append_assoc]
          exact fun hall => hblank (hline.isBlankText_append hall)

theorem fits_snoc (h : Waiting waiting)
    (hstart : waiting = [] → (∀ c : Command, ¬ c.GivenBy line) ∧ ¬ IsBlankText line) :
    (Part.chunk (waiting ++ [line])).Fits := by
  cases h with
  | nil =>
      obtain ⟨hc, hblank⟩ := hstart rfl
      refine .chunk hc hblank fun front back hlines hfront hback => ?_
      -- one line has no two parts
      have hlength := congrArg List.length hlines
      have := List.length_pos_iff.mpr hfront
      have := List.length_pos_iff.mpr hback
      simp only [List.length_cons, List.length_nil, List.length_append] at hlength
      omega
  | chunk _ hfits hsource =>
      cases hfits with
      | @chunk first more hc hblank hshorter =>
          refine .chunk hc hblank fun front back hlines hfront hback => ?_
          -- what is in front of the new line are the lines that wait, or fewer
          obtain ⟨back, last, rfl⟩ := (List.eq_nil_or_concat back).resolve_left hback
          rw [List.concat_eq_append, ← List.append_assoc] at hlines
          have hinit : first :: more = front ++ back := List.append_inj_left' hlines rfl
          by_cases hrest : back = []
          · rw [hrest, List.append_nil] at hinit
            rw [← hinit]
            exact hsource
          · exact hshorter front back hinit hfront hrest

theorem snoc (h : Waiting waiting) (hline : IsLine 0x0A line)
    (hfits : (Part.chunk (waiting ++ [line])).Fits)
    (hsource : Unfinished (waiting ++ [line]).flatten) : Waiting (waiting ++ [line]) := by
  refine .chunk (fun l hl => ?_) hfits hsource
  rcases List.mem_append.mp hl with hwaiting | hnew
  · cases h with
    | nil => cases hwaiting
    | chunk hended _ _ => exact hended l hwaiting
  · rw [List.mem_singleton.mp hnew]
    exact hline

end Waiting

/-- What one line does behind lines that wait: it ends a part, which is answered, or it waits with
them. -/
inductive Fed (d : Dialogue) (waiting : List (List UInt8)) (line : List UInt8) (last : Bool) :
    List Event → Dialogue → Prop where
  | part {p : Part} {events : List Event} {s' : Session} (hlines : p.lines = waiting ++ [line])
      (hfits : p.Fits) (hfinished : last = false → p.Finished)
      (hanswered : p.Answered d.color d.session events s') :
      Fed d waiting line last events { d with session := s', pending := [] }
  | waits (hlast : last = false) (hwaiting : Waiting (waiting ++ [line])) :
      Fed d waiting line last [] { d with pending := (waiting ++ [line]).flatten }

theorem command_fed {d : Dialogue} {line : List UInt8} {c : Command} {o : CompileOptions}
    {inputs : List (List UInt8)} (hs : d.session.Agrees o inputs) (hpending : d.pending = [])
    (hc : c.GivenBy line) (last : Bool) :
    Fed d [] line last (d.command c).1 (d.command c).2 := by
  have hd : d = { d with pending := [] } := by rw [← hpending]
  cases c with
  | program =>
      obtain ⟨c, -, hprogram⟩ := hs.program_eq
      rw [command, hprogram]
      have hfed : Fed d [] line last _ { d with session := d.session, pending := [] } :=
        .part rfl (.command hc) (fun _ => trivial) (.program hprogram)
      rw [← hd] at hfed
      exact hfed
  | reset =>
      have hfed : Fed d [] line last _ { d with session := d.session.reset, pending := [] } :=
        .part rfl (.command hc) (fun _ => trivial) .reset
      rw [← hpending] at hfed
      exact hfed

/-- **A line ends a part or waits.** -/
theorem feed_fed {d : Dialogue} {waiting : List (List UInt8)} {o : CompileOptions}
    {inputs : List (List UInt8)} (hs : d.session.Agrees o inputs) (hwaiting : Waiting waiting)
    (hpending : d.pending = waiting.flatten) (line : List UInt8) (last : Bool)
    (hline : last = false → IsLine 0x0A line) :
    Fed d waiting line last (d.feed line last).2.1 (d.feed line last).2.2 := by
  unfold feed
  split
  · next c hcommand =>
    -- a command is looked for where no lines wait
    split at hcommand
    · next hempty =>
      have hnone : d.pending = [] := List.isEmpty_iff.mp hempty
      have hnil : waiting = [] := hwaiting.eq_nil (hpending ▸ hnone)
      subst hnil
      exact command_fed hs hnone (Command.ofLine?_eq_some_iff.mp hcommand) last
    · cases hcommand
  · next hcommand =>
    have hc : waiting = [] → ∀ c : Command, ¬ c.GivenBy line := by
      rintro rfl
      rw [hpending] at hcommand
      exact Command.ofLine?_eq_none_iff.mp hcommand
    have hsource : d.pending ++ line = (waiting ++ [line]).flatten := by
      rw [hpending, List.flatten_append, List.flatten_singleton]
    dsimp only
    split
    · next hblank =>
      rw [hpending, isBlankText_iff] at hblank
      have hnil : waiting = [] := by
        by_contra hne
        exact hwaiting.not_isBlankText_append hne line hblank
      subst hnil
      exact .part (p := .blank line) rfl (.blank hblank) (fun _ => trivial) .blank
    · next hblank =>
      have hfits : (Part.chunk (waiting ++ [line])).Fits := by
        refine hwaiting.fits_snoc fun hnil => ⟨hc hnil, ?_⟩
        rw [hpending, hnil, isBlankText_iff] at hblank
        exact hblank
      rw [hsource]
      rcases d.session.add_cases (waiting ++ [line]).flatten with
        ⟨e, hadd⟩ | ⟨piece, typed, java, hparse, _, hadd⟩
      · rw [hadd]
        dsimp only
        split
        · next hwaits =>
          rw [Bool.and_eq_true, Bool.not_eq_true'] at hwaits
          have hunfinished := (incomplete_iff_unfinished hadd).mp hwaits.1
          exact .waits hwaits.2 (hwaiting.snoc (hline hwaits.2) hfits hunfinished)
        · next hdone =>
          refine .part (p := .chunk (waiting ++ [line])) rfl hfits ?_ (.rejected hadd)
          intro hlast hunfinished
          rw [(incomplete_iff_unfinished hadd).mpr hunfinished, hlast] at hdone
          exact hdone rfl
      · rw [hadd]
        refine .part (p := .chunk (waiting ++ [line])) rfl hfits ?_ (.accepted hadd)
        rintro - ⟨e, he, -⟩
        cases hparse.symm.trans he

/-! ## What an input does -/

/-- **Lines are cut into parts, and each part is answered once.** The lines that wait at the start
are the front of the first part. -/
theorem feedAll_held {d : Dialogue} {waiting lines : List (List UInt8)} {o : CompileOptions}
    {inputs : List (List UInt8)} (hs : d.session.Agrees o inputs) (hwaiting : Waiting waiting)
    (hpending : d.pending = waiting.flatten) (hne : lines ≠ [])
    (hended : ∀ line ∈ lines.dropLast, IsLine 0x0A line) :
    ∃ parts, Cut (waiting ++ lines) parts ∧
      Held d.color d.session parts (d.feedAll none lines).1 (d.feedAll none lines).2.session ∧
      (d.feedAll none lines).2.pending = [] := by
  induction lines generalizing d waiting inputs with
  | nil => exact absurd rfl hne
  | cons line rest ih =>
      cases rest with
      | nil =>
          -- the last line ends a part whatever it is
          have hfed := feed_fed hs hwaiting hpending line true nofun
          rw [feedAll]
          generalize (d.feed line true).2.1 = events at hfed ⊢
          generalize (d.feed line true).2.2 = d' at hfed ⊢
          cases hfed with
          | @part p _ s' hlines hfits _ hanswered =>
              exact ⟨[p], hlines ▸ .single hfits, .single hanswered, rfl⟩
          | waits hlast _ => cases hlast
      | cons next rest =>
          rw [List.dropLast_cons_cons] at hended
          have hline : IsLine 0x0A line := hended line List.mem_cons_self
          have hended' : ∀ l ∈ (next :: rest).dropLast, IsLine 0x0A l :=
            fun l hl => hended l (List.mem_cons_of_mem _ hl)
          have hne' : next :: rest ≠ [] := List.cons_ne_nil _ _
          have hfed := feed_fed hs hwaiting hpending line false fun _ => hline
          rw [feedAll]
          dsimp only
          generalize (d.feed line false).2.1 = events at hfed ⊢
          generalize (d.feed line false).2.2 = d' at hfed ⊢
          cases hfed with
          | @part p _ s' hlines hfits hfinished hanswered =>
              obtain ⟨inputs', hs'⟩ := hanswered.agrees hs
              obtain ⟨parts, hcut, hheld, hend⟩ :=
                ih (d := { d with session := s', pending := [] }) hs' .nil rfl hne' hended'
              refine ⟨p :: parts, ?_, .cons hanswered hheld, hend⟩
              have hall := Cut.cons hfits (hfinished rfl) hcut
              rw [hlines, List.append_assoc] at hall
              exact hall
          | waits _ hwaiting' =>
              obtain ⟨parts, hcut, hheld, hend⟩ :=
                ih (d := { d with pending := (waiting ++ [line]).flatten }) hs hwaiting' rfl hne'
                  hended'
              rw [List.append_assoc, List.singleton_append] at hcut
              exact ⟨parts, hcut, hheld, hend⟩

/-- Lines of every kind: a chunk of one line, white space, a chunk of two lines, the two commands,
a chunk that is rejected, and one that the input ends in. -/
def mixedInput : List UInt8 :=
  utf8Bytes "x = 5\n \t\nWHILE x == 6 DO\nEND\n :program\n:reset \nPRINT(x)\nPRINT("

/-- A dialogue that knows a variable already. -/
def startedDialogue : Dialogue :=
  { session := (Session.run { options := {} } [] [.add (utf8Bytes "LET x : INTEGER")]).1 }

/-- What it answers to these lines. -/
def mixedAnswers : List Event :=
  [{ channel := .out, text := "x = 5;\n" },
    { channel := .out, text := "while (x == 6) \x7b\n\x7d\n" },
    { channel := .out,
      text := "public class Main \x7b\n\n    public static void main(String[] args) \x7b\n" ++
        "        int x;\n        x = 5;\n        while (x == 6) \x7b\n        \x7d\n" ++
        "    \x7d\n\n\x7d\n" },
    { channel := .err, text := "plc: input:1:7: variable x is not defined\n" },
    { channel := .err, text := "plc: input:1:7: expected expression, found end of input\n" }]

end Dialogue

end LetWhile
