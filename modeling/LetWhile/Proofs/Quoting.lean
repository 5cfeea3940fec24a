import LetWhile.Text.Quoted
import LetWhile.Toml.Text

/-!
# Quoted texts in TOML

Quoting is one rule for messages and for settings. TOML reads a text between double quotes by rules
of its own: where the text ends is settled by the shape of its escapes, and what it denotes by
their meaning. This module compares the two character by character. A *spelling* is what quoting
writes for a character and TOML reads as that character. Every character has one but for the
controls that TOML has no short escape for: quoting writes these as `\a`, `\v` or `\x` with two
digits, which end a text in the middle.
-/

namespace LetWhile

namespace Toml

/-- Whether TOML reads what quoting writes for a character. -/
def isSpellable (c : Char) : Bool :=
  ['\x08', '\t', '\n', '\x0c', '\r'].contains c || (!(c < ' ') && c ≠ '\x7f')

/-! ## Hexadecimal digits -/

/-- The number that a hexadecimal digit denotes. -/
def hexDigit (c : Char) : Nat :=
  if c.isDigit then c.toNat - 48 else if 'a' ≤ c then c.toNat - 87 else c.toNat - 55

theorem hexValue_snoc (ds : List Char) (c : Char) :
    hexValue (ds ++ [c]) = 16 * hexValue ds + hexDigit c := by
  rw [hexValue, List.foldl_append]
  rfl

theorem hexDigit_digitChar {d : Nat} (h : d < 16) :
    isHex (Nat.digitChar d) = true ∧ hexDigit (Nat.digitChar d) = d := by
  have hall : ∀ k < 16, isHex (Nat.digitChar k) = true ∧ hexDigit (Nat.digitChar k) = k := by decide
  exact hall d h

theorem toDigits_hex (n : Nat) :
    (∀ c ∈ Nat.toDigits 16 n, isHex c = true) ∧ hexValue (Nat.toDigits 16 n) = n := by
  induction n using Nat.strongRecOn with
  | ind n ih =>
      by_cases hn : n < 16
      · rw [Nat.toDigits_of_lt_base hn]
        obtain ⟨hhex, hvalue⟩ := hexDigit_digitChar hn
        refine ⟨fun c hc => List.mem_singleton.mp hc ▸ hhex, ?_⟩
        rw [← List.nil_append [_], hexValue_snoc, hvalue]
        exact Nat.zero_add n
      · obtain ⟨hhex, hvalue⟩ := hexDigit_digitChar (Nat.mod_lt n (by decide : 0 < 16))
        obtain ⟨ihhex, ihvalue⟩ := ih (n / 16) (by omega)
        rw [Nat.toDigits_of_base_le (by decide) (by omega)]
        refine ⟨fun c hc => ?_, ?_⟩
        · rcases List.mem_append.mp hc with hfront | hlast
          · exact ihhex c hfront
          · exact List.mem_singleton.mp hlast ▸ hhex
        · rw [hexValue_snoc, ihvalue, hvalue]
          omega

/-- **Padded digits denote the number**, and there are as many of them as wanted. -/
theorem hex_spec {width n : Nat} (hwidth : 0 < width) (hn : n < Nat.pow 16 width) :
    (Quoted.hex width n).length = width ∧ (∀ c ∈ Quoted.hex width n, isHex c = true) ∧
      hexValue (Quoted.hex width n) = n := by
  obtain ⟨hhex, hvalue⟩ := toDigits_hex n
  have hlength := (Nat.length_toDigits_le_iff (by decide) hwidth).mpr hn
  refine ⟨?_, ?_, ?_⟩
  · rw [Quoted.hex, List.length_append, List.length_replicate]
    omega
  · intro c hc
    rcases List.mem_append.mp hc with hzero | hdigit
    · rw [List.eq_of_mem_replicate hzero]
      decide
    · exact hhex c hdigit
  · -- zeros in front leave the number as it is
    have hzeros : ∀ k, hexValue (List.replicate k '0') = 0 := by
      intro k
      induction k with
      | zero => rfl
      | succ k ih => rw [List.replicate_succ', hexValue_snoc, ih]; rfl
    rw [Quoted.hex, hexValue, List.foldl_append]
    show List.foldl _ (hexValue (List.replicate _ '0')) _ = n
    rw [hzeros]
    exact hvalue

/-! ## Spellings -/

/-- The escapes of one letter, each behind the character that it denotes. -/
def shortEscapes : List (Char × Char) :=
  [('"', '"'), ('\\', '\\'), ('\x08', 'b'), ('\x0c', 'f'), ('\n', 'n'), ('\r', 'r'), ('\t', 't')]

/-- What stands for a character between double quotes. -/
inductive Spelling : Char → List Char → Prop where
  | plain {c : Char} (hcontrol : ¬ c < ' ') (hquote : c ≠ '"') (hslash : c ≠ '\\') : Spelling c [c]
  | short {c e : Char} (h : (c, e) ∈ shortEscapes) : Spelling c ['\\', e]
  | four {c : Char} {ds : List Char} (hlength : ds.length = 4) (hhex : ∀ d ∈ ds, isHex d = true)
      (hvalue : hexValue ds = c.toNat) : Spelling c ('\\' :: 'u' :: ds)
  | eight {c : Char} {ds : List Char} (hlength : ds.length = 8) (hhex : ∀ d ∈ ds, isHex d = true)
      (hvalue : hexValue ds = c.toNat) : Spelling c ('\\' :: 'U' :: ds)

theorem isSpellable_iff (c : Char) :
    isSpellable c = true ↔
      c ∈ ['\x08', '\t', '\n', '\x0c', '\r'] ∨ 0x20 ≤ c.toNat ∧ c.toNat ≠ 0x7F := by
  have hspace : c < ' ' ↔ c.toNat < 0x20 := Iff.rfl
  have hdelete : c = '\x7f' ↔ c.toNat = 0x7F := Char.toNat_inj.symm
  rw [isSpellable, Bool.or_eq_true, List.contains_iff_mem, Bool.and_eq_true, Bool.not_eq_true',
    decide_eq_false_iff_not, decide_eq_true_eq, hspace, Nat.not_lt, ne_eq, hdelete]

theorem isPrintable_iff_of_ascii {c : Char} (h : c.toNat < 0x80) :
    isPrintable c = true ↔ 0x20 ≤ c.toNat ∧ c.toNat ≠ 0x7F := by
  rw [isPrintable, if_pos h, Bool.and_eq_true, decide_eq_true_eq, decide_eq_true_eq]
  omega

/-- **Quoting spells the characters that can be spelled, and no others.** For the others it writes
an escape that TOML does not have. -/
theorem char_spelling (c : Char) :
    isSpellable c = true ∧ Spelling c (Quoted.char c) ∨
      isSpellable c = false ∧
        ∃ e more, Quoted.char c = '\\' :: e :: more ∧ e ∈ ['a', 'v', 'x'] := by
  unfold Quoted.char
  split
  · exact .inl ⟨by decide, .short (by decide)⟩
  · exact .inl ⟨by decide, .short (by decide)⟩
  · exact .inr ⟨by decide, 'a', [], rfl, by decide⟩
  · exact .inl ⟨by decide, .short (by decide)⟩
  · exact .inl ⟨by decide, .short (by decide)⟩
  · exact .inl ⟨by decide, .short (by decide)⟩
  · exact .inl ⟨by decide, .short (by decide)⟩
  · exact .inl ⟨by decide, .short (by decide)⟩
  · exact .inr ⟨by decide, 'v', [], rfl, by decide⟩
  · next hquote hslash _ hback hform hfeed hreturn htab _ =>
    have hlisted : c ∉ ['\x08', '\t', '\n', '\x0c', '\r'] := by
      simp only [List.mem_cons, List.not_mem_nil, or_false, not_or]
      exact ⟨hback, htab, hfeed, hform, hreturn⟩
    have hspellable := isSpellable_iff c
    by_cases hascii : c.toNat < 0x80
    · by_cases hprintable : isPrintable c = true
      · have hrange := (isPrintable_iff_of_ascii hascii).mp hprintable
        rw [if_pos hprintable]
        exact .inl ⟨hspellable.mpr (.inr hrange), .plain (Nat.not_lt.mpr hrange.1) hquote hslash⟩
      · rw [if_neg hprintable, if_pos hascii]
        refine .inr ⟨?_, 'x', _, rfl, by decide⟩
        rw [Bool.eq_false_iff, ne_eq, hspellable]
        rintro (hmem | hrange)
        · exact hlisted hmem
        · exact hprintable ((isPrintable_iff_of_ascii hascii).mpr hrange)
    · have hrange : 0x20 ≤ c.toNat ∧ c.toNat ≠ 0x7F := by omega
      refine .inl ⟨hspellable.mpr (.inr hrange), ?_⟩
      by_cases hprintable : isPrintable c = true
      · rw [if_pos hprintable]
        exact .plain (Nat.not_lt.mpr hrange.1) hquote hslash
      rw [if_neg hprintable, if_neg hascii]
      by_cases hsmall : c.toNat < 0x10000
      · obtain ⟨hlength, hhex, hvalue⟩ := hex_spec (by decide : 0 < 4) hsmall
        rw [if_pos hsmall]
        exact .four hlength hhex hvalue
      · have hlarge : c.toNat < Nat.pow 16 8 := by
          have hmax : c.toNat < 0x100000000 := c.val.toNat_lt
          exact hmax
        obtain ⟨hlength, hhex, hvalue⟩ := hex_spec (by decide : 0 < 8) hlarge
        rw [if_neg hsmall]
        exact .eight hlength hhex hvalue

/-! ## Reading a spelling -/

theorem afterBasic_skip {front : List Char} {skip : Nat} (h : front.length = skip)
    (cs : List Char) : afterBasic skip (front ++ cs) = afterBasic 0 cs := by
  induction front generalizing skip with
  | nil => subst h; rfl
  | cons c front ih => subst h; exact ih rfl

/-- An escape of four or eight digits is found whatever stands behind it. -/
theorem escapeLength_hex {letter : Char} {ds : List Char}
    (h : letter = 'u' ∧ ds.length = 4 ∨ letter = 'U' ∧ ds.length = 8)
    (hhex : ∀ d ∈ ds, isHex d = true) (cs : List Char) :
    escapeLength (letter :: (ds ++ cs)) = ds.length + 1 := by
  have htake : (ds ++ cs).take ds.length = ds := List.take_left
  have hlong : ds.length ≤ (ds ++ cs).length := by rw [List.length_append]; omega
  have hall : ds.all isHex = true := List.all_eq_true.mpr hhex
  rw [escapeLength]
  rcases h with ⟨rfl, hlength⟩ | ⟨rfl, hlength⟩
  · rw [hlength] at htake hlong ⊢
    rw [htake, hall, decide_eq_true hlong]
    rfl
  · rw [hlength] at htake hlong ⊢
    rw [htake, hall, decide_eq_true hlong]
    rfl

/-- A text goes on behind an escape. -/
theorem afterBasic_escape (front : List Char) {cs : List Char} {length : Nat}
    (hlength : front.length = length + 1) (h : escapeLength (front ++ cs) = length + 1) :
    afterBasic 0 ('\\' :: front ++ cs) = afterBasic 0 cs := by
  rw [List.cons_append, afterBasic, if_pos rfl, h]
  exact afterBasic_skip hlength cs

/-- A text goes on behind a spelling. -/
theorem Spelling.afterBasic_eq {c : Char} {w : List Char} (h : Spelling c w) (cs : List Char) :
    afterBasic 0 (w ++ cs) = afterBasic 0 cs := by
  cases h with
  | plain hcontrol hquote hslash =>
      rw [List.singleton_append, afterBasic, if_neg hslash, if_neg]
      simp [hcontrol, hquote]
  | @short e hmem =>
      have hknown : ∀ p ∈ shortEscapes, ['b', 't', 'n', 'f', 'r', '"', '/', '\\'].contains p.2 := by
        decide
      refine afterBasic_escape [e] rfl ?_
      rw [List.singleton_append, escapeLength, if_pos (hknown _ hmem)]
      rfl
  | four hlength hhex _ =>
      exact afterBasic_escape _ rfl (escapeLength_hex (.inl ⟨rfl, hlength⟩) hhex cs)
  | eight hlength hhex _ =>
      exact afterBasic_escape _ rfl (escapeLength_hex (.inr ⟨rfl, hlength⟩) hhex cs)

theorem codePoint?_toNat (c : Char) : codePoint? c.toNat = some c := by
  have hvalid : c.toNat.isValidChar := c.valid
  rw [codePoint?, dif_pos hvalid]
  exact congrArg some (Char.toNat_inj.mp rfl)

theorem bind_cons (c : Char) (rest : Option (List Char)) :
    (rest >>= fun cs => pure (c :: cs)) = rest.map (c :: ·) := by
  cases rest <;> rfl

/-- A spelling denotes its character. -/
theorem Spelling.unescape?_eq {c : Char} {w : List Char} (h : Spelling c w) (cs : List Char) :
    unescape? (w ++ cs) = (unescape? cs).map (c :: ·) := by
  cases h with
  | plain _ _ hslash =>
      -- none of the equations for escapes applies
      rw [List.singleton_append, unescape?]
      all_goals
        intros
        exact hslash (by assumption)
  | @short e hmem =>
      simp only [shortEscapes, List.mem_cons, Prod.mk.injEq, List.not_mem_nil, or_false] at hmem
      rcases hmem with ⟨rfl, rfl⟩ | ⟨rfl, rfl⟩ | ⟨rfl, rfl⟩ | ⟨rfl, rfl⟩ | ⟨rfl, rfl⟩ | ⟨rfl, rfl⟩ |
        ⟨rfl, rfl⟩
      all_goals
        rw [List.cons_append, List.singleton_append, unescape?]
        exact bind_cons _ _
  | @four ds hlength _ hvalue =>
      obtain ⟨x₁, x₂, x₃, x₄, rfl⟩ : ∃ x₁ x₂ x₃ x₄, ds = [x₁, x₂, x₃, x₄] := by
        rcases ds with _ | ⟨x₁, _ | ⟨x₂, _ | ⟨x₃, _ | ⟨x₄, _ | ⟨x₅, ds⟩⟩⟩⟩⟩ <;> cases hlength
        exact ⟨x₁, x₂, x₃, x₄, rfl⟩
      show unescape? ('\\' :: 'u' :: x₁ :: x₂ :: x₃ :: x₄ :: cs) = _
      rw [unescape?, hvalue, codePoint?_toNat]
      exact bind_cons _ _
  | @eight ds hlength _ hvalue =>
      obtain ⟨x₁, x₂, x₃, x₄, x₅, x₆, x₇, x₈, rfl⟩ : ∃ x₁ x₂ x₃ x₄ x₅ x₆ x₇ x₈,
          ds = [x₁, x₂, x₃, x₄, x₅, x₆, x₇, x₈] := by
        rcases ds with _ | ⟨x₁, _ | ⟨x₂, _ | ⟨x₃, _ | ⟨x₄, _ | ⟨x₅, _ | ⟨x₆, _ | ⟨x₇, _ | ⟨x₈,
          _ | ⟨x₉, ds⟩⟩⟩⟩⟩⟩⟩⟩⟩ <;> cases hlength
        exact ⟨x₁, x₂, x₃, x₄, x₅, x₆, x₇, x₈, rfl⟩
      show unescape? ('\\' :: 'U' :: x₁ :: x₂ :: x₃ :: x₄ :: x₅ :: x₆ :: x₇ :: x₈ :: cs) = _
      rw [unescape?, hvalue, codePoint?_toNat]
      exact bind_cons _ _

/-! ## Reading a text -/

theorem consumed_append (front rest : List Char) : consumed (front ++ rest) rest = front := by
  rw [consumed, List.length_append, Nat.add_sub_cancel, List.take_left]

/-- A quoted text without its quotes. -/
def spelled (cs : List Char) : List Char := cs.flatMap Quoted.char

theorem spelled_cons (c : Char) (cs : List Char) :
    spelled (c :: cs) = Quoted.char c ++ spelled cs :=
  List.flatMap_cons

theorem spelling_char {c : Char} (h : isSpellable c = true) : Spelling c (Quoted.char c) := by
  rcases char_spelling c with ⟨-, hspelling⟩ | ⟨hnot, -⟩
  · exact hspelling
  · rw [h] at hnot
    cases hnot

theorem afterBasic_spelled {cs : List Char} (h : ∀ c ∈ cs, isSpellable c = true)
    (rest : List Char) : afterBasic 0 (spelled cs ++ '"' :: rest) = '"' :: rest := by
  induction cs with
  | nil => rfl
  | cons c cs ih =>
      obtain ⟨hc, hcs⟩ := List.forall_mem_cons.mp h
      rw [spelled_cons, List.append_assoc, (spelling_char hc).afterBasic_eq, ih hcs]

theorem unescape?_spelled {cs : List Char} (h : ∀ c ∈ cs, isSpellable c = true) :
    unescape? (spelled cs) = some cs := by
  induction cs with
  | nil => rfl
  | cons c cs ih =>
      obtain ⟨hc, hcs⟩ := List.forall_mem_cons.mp h
      rw [spelled_cons, (spelling_char hc).unescape?_eq, ih hcs, Option.map_some]

/-- A text with a character that cannot be spelled ends at a backslash. -/
theorem afterBasic_unspellable {cs : List Char} (h : ∃ c ∈ cs, isSpellable c = false)
    (rest : List Char) : ∃ more, afterBasic 0 (spelled cs ++ rest) = '\\' :: more := by
  induction cs with
  | nil =>
      obtain ⟨c, hc, -⟩ := h
      cases hc
  | cons c cs ih =>
      rw [spelled_cons, List.append_assoc]
      rcases char_spelling c with ⟨hgood, hspelling⟩ | ⟨-, e, more, hchar, hescape⟩
      · -- the first character is read, so it is not the one
        rw [hspelling.afterBasic_eq]
        refine ih ?_
        obtain ⟨d, hd, hbad⟩ := h
        rcases List.mem_cons.mp hd with rfl | hd
        · rw [hgood] at hbad
          cases hbad
        · exact ⟨d, hd, hbad⟩
      · have hnone : ∀ e ∈ ['a', 'v', 'x'], ∀ cs, escapeLength (e :: cs) = 0 := by
          simp [escapeLength]
        rw [hchar, List.cons_append, List.cons_append, afterBasic, if_pos rfl, hnone e hescape]
        exact ⟨_, rfl⟩

/-- No character is written with a quote at its front. -/
theorem char_head (c : Char) : ∃ d ds, Quoted.char c = d :: ds ∧ d ≠ '"' := by
  rcases char_spelling c with ⟨-, hspelling⟩ | ⟨-, e, more, hchar, -⟩
  · generalize Quoted.char c = w at hspelling
    cases hspelling with
    | plain _ hquote _ => exact ⟨c, [], rfl, hquote⟩
    | short _ => exact ⟨'\\', _, rfl, by decide⟩
    | four _ _ _ => exact ⟨'\\', _, rfl, by decide⟩
    | eight _ _ _ => exact ⟨'\\', _, rfl, by decide⟩
  · exact ⟨'\\', _, hchar, by decide⟩

/-- A text that does not start with three quotes is read up to its next quote. -/
theorem literal?_of_single {inside : List Char} (h : ∀ more, inside ≠ '"' :: '"' :: more) :
    literal? ('"' :: inside) =
      match afterBasic 0 inside with
      | '"' :: rest => some (.basic (consumed inside ('"' :: rest)), rest)
      | _ => none := by
  unfold literal?
  dsimp only
  split
  · next r hlines =>
    -- three quotes in front would contradict what is known of `inside`
    split at hlines
    · next hcs => cases hcs
    · next more hcs => exact absurd (List.cons.inj hcs).2 (h _)
    · cases hlines
  · rfl

theorem spelled_append_ne {cs rest : List Char}
    (hrest : cs = [] → ∀ more, rest ≠ '"' :: '"' :: more) (more : List Char) :
    spelled cs ++ rest ≠ '"' :: '"' :: more := by
  cases cs with
  | nil => exact hrest rfl more
  | cons c cs =>
      obtain ⟨d, ds, hchar, hd⟩ := char_head c
      rw [spelled_cons, hchar]
      intro h
      exact hd (List.cons.inj h).1

/-- **A quoted text is read back**, where no quote follows it. -/
theorem literal?_spelled {cs : List Char} (h : ∀ c ∈ cs, isSpellable c = true) {rest : List Char}
    (hrest : ∀ more, rest ≠ '"' :: more) :
    literal? ('"' :: (spelled cs ++ '"' :: rest)) = some (.basic (spelled cs), rest) := by
  have hsingle : ∀ more, spelled cs ++ '"' :: rest ≠ '"' :: '"' :: more :=
    spelled_append_ne fun _ more hmore => hrest more (List.cons.inj hmore).2
  rw [literal?_of_single hsingle, afterBasic_spelled h]
  show some (Literal.basic (consumed _ ('"' :: rest)), rest) = _
  rw [consumed_append]

/-- **A text with a character that cannot be spelled is no text.** -/
theorem literal?_unspellable {cs : List Char} (h : ∃ c ∈ cs, isSpellable c = false)
    (rest : List Char) : literal? ('"' :: (spelled cs ++ rest)) = none := by
  have hsingle : ∀ more, spelled cs ++ rest ≠ '"' :: '"' :: more := by
    refine spelled_append_ne fun hnil => ?_
    obtain ⟨c, hc, -⟩ := h
    rw [hnil] at hc
    cases hc
  obtain ⟨more, hmore⟩ := afterBasic_unspellable h rest
  rw [literal?_of_single hsingle, hmore]
  rfl

end Toml

end LetWhile
