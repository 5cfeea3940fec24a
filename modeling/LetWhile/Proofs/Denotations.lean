import Mathlib.Algebra.Order.Field.Rat
import Mathlib.Data.Nat.Digits.Defs
import Mathlib.Tactic.FieldSimp
import Mathlib.Tactic.Ring
import LetWhile.Proofs.Complaints
import LetWhile.Proofs.Pipeline

/-!
# What literals denote

Two readers go over the text of a literal. The lexer finds out where the literal ends, and the
parser what it denotes, each with its own idea of a digit, of a sign and of an escape. `Denotes` is
what both should mean by it: digits have their value in the decimal system, each digit behind the
point counts a tenth of the one before it, and inside a string literal the seven escapes stand for
one character each and every other character for itself.

The lexer takes a literal only if it denotes something, and the parser gives it just that value. So
a literal of a program text is never refused, and the two ways out that the decoder of string
literals has for texts that cannot be decoded are never taken.
-/

namespace LetWhile

open Lexer

/-! ## Denotations -/

/-- The number that decimal digits spell, the most significant one first. -/
def spelledNumber (ds : List Char) : Nat :=
  Nat.ofDigits 10 (ds.map fun d => d.toNat - '0'.toNat).reverse

/-- The number with the factor `s` for its sign, the whole part `ds` and the fraction `fs`. -/
def spelledRatio (s : Int) (ds fs : List Char) : ℚ :=
  s * (spelledNumber ds + spelledNumber fs / 10 ^ fs.length)

/-- A sign as it is written, and the factor that it stands for. -/
inductive SignSpelling : List Char → Int → Prop where
  | absent : SignSpelling [] 1
  | plus : SignSpelling ['+'] 1
  | minus : SignSpelling ['-'] (-1)

/-- The seven escapes: what stands behind the backslash, and what the two stand for. -/
def escapePairs : List (Char × Char) :=
  [('"', '"'), ('\'', '\''), ('\\', '\\'), ('r', '\r'), ('n', '\n'), ('t', '\t'), ('b', '\x08')]

/-- The inside of a string literal, and the text that it stands for. There is no rule for a
backslash that starts none of the escapes, nor for one at the end. -/
inductive Unquotes : List Char → List Char → Prop where
  | nil : Unquotes [] []
  | escape {e c : Char} {cs ds : List Char} :
      (e, c) ∈ escapePairs → Unquotes cs ds → Unquotes ('\\' :: e :: cs) (c :: ds)
  | plain {c : Char} {cs ds : List Char} :
      c ≠ '\\' → c ≠ '"' → Unquotes cs ds → Unquotes (c :: cs) (c :: ds)

/-- The text of a literal of each kind, and the value that it denotes. -/
inductive Denotes : Kind → List Char → Constant → Prop where
  | integer {sign ds : List Char} {s : Int} :
      SignSpelling sign s → Digits ds →
      Denotes .integer (sign ++ ds) (.integer (s * spelledNumber ds))
  | decimal {sign ds fs : List Char} {s : Int} :
      SignSpelling sign s → Digits ds → Digits fs →
      Denotes .decimal (sign ++ ds ++ '.' :: fs) (.ratio (spelledRatio s ds fs))
  | string {body value : List Char} :
      Unquotes body value → Denotes .string ('"' :: body ++ ['"']) (.text (String.ofList value))

/-! ## Numbers -/

theorem spelledNumber_append (ds es : List Char) :
    spelledNumber (ds ++ es) = spelledNumber ds * 10 ^ es.length + spelledNumber es := by
  unfold spelledNumber
  rw [List.map_append, List.reverse_append, Nat.ofDigits_append, List.length_reverse,
    List.length_map]
  ring

theorem ofDigitChars_eq_spelledNumber (ds : List Char) (acc : Nat) :
    Nat.ofDigitChars 10 ds acc = acc * 10 ^ ds.length + spelledNumber ds := by
  induction ds generalizing acc with
  | nil => simp [spelledNumber]
  | cons d ds ih =>
      have hfirst : spelledNumber [d] = d.toNat - '0'.toNat := Nat.ofDigits_singleton
      have hsplit := spelledNumber_append [d] ds
      rw [List.singleton_append, hfirst] at hsplit
      rw [Nat.ofDigitChars_cons, ih, hsplit, List.length_cons]
      ring

/-- The parser reads digits as the number that they spell. -/
theorem natural?_eq_spelledNumber {ds : List Char} (h : ∀ d ∈ ds, isDigit d = true) (acc : Nat) :
    Numeral.natural? acc ds = some (acc * 10 ^ ds.length + spelledNumber ds) := by
  rw [natural?_of_digits h, ofDigitChars_eq_spelledNumber]

theorem sign_of_spelling {sign : List Char} {s : Int} (hsign : SignSpelling sign s)
    {ds : List Char} (hds : Digits ds) (more : List Char) :
    Numeral.sign (sign ++ ds ++ more) = (s, ds ++ more) := by
  cases hsign with
  | plus => rfl
  | minus => rfl
  | absent =>
      -- the first digit is not taken for a sign
      cases ds with
      | nil => exact absurd rfl hds.ne_nil
      | cons d ds =>
          have hd : isDigit d = true := hds.all d List.mem_cons_self
          rw [List.nil_append, List.cons_append]
          unfold Numeral.sign
          split
          · next h => cases h; cases hd
          · next h => cases h; cases hd
          · rfl

theorem Lexer.Whole.exists_sign {cs : List Char} (h : Whole cs) :
    ∃ sign ds s, cs = sign ++ ds ∧ SignSpelling sign s ∧ Digits ds := by
  cases h with
  | digits hds => exact ⟨[], cs, 1, rfl, .absent, hds⟩
  | @signed c ds hc hds =>
      unfold isSign at hc
      rcases Bool.or_eq_true_iff.mp hc with h | h
      · rw [of_decide_eq_true h]
        exact ⟨['+'], ds, 1, rfl, .plus, hds⟩
      · rw [of_decide_eq_true h]
        exact ⟨['-'], ds, -1, rfl, .minus, hds⟩

/-- **An integer denotes its digits with its sign.** -/
theorem integer?_of_spelling {text : String} {sign ds : List Char} {s : Int}
    (htext : text.toList = sign ++ ds) (hsign : SignSpelling sign s) (hds : Digits ds) :
    Numeral.integer? text = some (s * spelledNumber ds) := by
  have hsplit := sign_of_spelling hsign hds []
  have hne : ds.isEmpty = false := List.isEmpty_eq_false_iff.mpr hds.ne_nil
  rw [List.append_nil, List.append_nil] at hsplit
  unfold Numeral.integer?
  rw [htext, hsplit]
  dsimp only
  rw [hne, if_neg Bool.false_ne_true, natural?_eq_spelledNumber hds.all, Nat.zero_mul,
    Nat.zero_add]
  rfl

namespace Notation.Digits

/-- What is known of digits when one more was read. -/
def push (d : Notation.Digits) (c : Char) : Notation.Digits where
  value := 10 * d.value + (c.toNat - '0'.toNat)
  count := d.count + 1
  fraction := d.fraction.map (· + 1)
  last := .digit
  misplaced := d.misplaced

theorem read_cons {c : Char} (hc : isDigit c = true) (point : Bool) (d : Notation.Digits)
    (cs : List Char) : d.read 10 point (c :: cs) = (d.push c).read 10 point cs := by
  obtain ⟨hpoint, hunder⟩ : c ≠ '.' ∧ c ≠ '_' := by
    constructor <;> rintro rfl <;> cases hc
  have hdigit : Notation.digit? c = some (c.toNat - '0'.toNat) := if_pos hc
  have hsmall : c.toNat - '0'.toNat < 10 := by
    have hrange : 48 ≤ c.toNat ∧ c.toNat ≤ 57 := Char.isDigit_iff_toNat.mp hc
    have hzero : '0'.toNat = 48 := rfl
    omega
  rw [read, if_neg (by simp [hpoint]), if_neg hunder, hdigit]
  exact if_pos hsmall

theorem read_append {ds : List Char} (h : ∀ d ∈ ds, isDigit d = true) (point : Bool)
    (d : Notation.Digits) (cs : List Char) :
    d.read 10 point (ds ++ cs) = (ds.foldl push d).read 10 point cs := by
  induction ds generalizing d with
  | nil => rfl
  | cons c ds ih =>
      rw [List.forall_mem_cons] at h
      rw [List.cons_append, read_cons h.1, ih h.2, List.foldl_cons]

theorem foldl_push (ds : List Char) (d : Notation.Digits) :
    ds.foldl push d =
      { value := Nat.ofDigitChars 10 ds d.value
        count := d.count + ds.length
        fraction := d.fraction.map (· + ds.length)
        last := if ds.isEmpty then d.last else .digit
        misplaced := d.misplaced } := by
  induction ds generalizing d with
  | nil => cases d; simp
  | cons c ds ih =>
      have hcount : ∀ n, n + 1 + ds.length = n + (ds.length + 1) := fun n => by omega
      rw [List.foldl_cons, ih, Nat.ofDigitChars_cons]
      simp [push, Function.comp_def, hcount]

/-- Digits, a point and digits are read to the end, whatever digits were read before. -/
theorem read_pointed {ds fs : List Char} (hds : ∀ d ∈ ds, isDigit d = true) (hfs : Lexer.Digits fs)
    {d : Notation.Digits} (hfraction : d.fraction = none) (hlast : d.last ≠ .underscore)
    (htidy : d.misplaced = false) :
    d.read 10 true (ds ++ '.' :: fs) =
      ({ value := Nat.ofDigitChars 10 (ds ++ fs) d.value
         count := d.count + ds.length + fs.length
         fraction := some fs.length
         last := .digit
         misplaced := false }, []) := by
  have hnext : (if ds = [] then d.last else Last.digit) ≠ .underscore := by
    split
    · exact hlast
    · decide
  have hfs' : fs.isEmpty = false := List.isEmpty_eq_false_iff.mpr hfs.ne_nil
  -- the digits in front of the point, the point, and the digits behind it
  rw [read_append hds, foldl_push, hfraction, htidy, read, if_pos (by rfl),
    ← List.append_nil fs, read_append hfs.all, foldl_push, List.append_nil, read, hfs']
  simp [hnext, Nat.ofDigitChars_append]

end Notation.Digits

/-- A leading zero is a digit like the others, unless a letter behind it says which base follows. -/
theorem digits?_pointed {ds fs : List Char} (hds : Digits ds) (hfs : Digits fs) :
    Notation.digits? true (ds ++ '.' :: fs) = some
      ({ value := spelledNumber (ds ++ fs)
         count := ds.length + fs.length
         fraction := some fs.length
         last := .digit }, 10, []) := by
  have hvalue : spelledNumber (ds ++ fs) = Nat.ofDigitChars 10 (ds ++ fs) 0 := by
    rw [ofDigitChars_eq_spelledNumber, Nat.zero_mul, Nat.zero_add]
  rw [hvalue]
  obtain ⟨c, cs, rfl⟩ := List.exists_cons_of_ne_nil hds.ne_nil
  by_cases hzero : c = '0'
  · subst hzero
    have hcs := (List.forall_mem_cons.mp hds.all).2
    obtain ⟨e, more, hmore, he⟩ : ∃ e more, cs ++ '.' :: fs = e :: more ∧
        (e = '.' ∨ isDigit e = true) := by
      cases cs with
      | nil => exact ⟨'.', fs, rfl, .inl rfl⟩
      | cons e cs => exact ⟨e, _, rfl, .inr (hcs e List.mem_cons_self)⟩
    -- so none of the letters for a base stands behind the zero
    have hletter : ∀ l ∈ ['b', 'B', 'o', 'O', 'x', 'X'], e ≠ l := by
      intro l hl hel
      rw [hel] at he
      simp only [List.mem_cons, List.not_mem_nil, or_false] at hl
      rcases hl with rfl | rfl | rfl | rfl | rfl | rfl <;> rcases he with h | h <;> cases h
    simp only [List.forall_mem_cons] at hletter
    have hread := Notation.Digits.read_pointed hcs hfs
      (d := { last := .digit, count := 1 }) rfl (by decide) rfl
    rw [hmore] at hread
    rw [List.cons_append, hmore, Notation.digits?]
    simp only [hletter, decide_false, Bool.or_self, Bool.false_eq_true, if_false, if_true, hread]
    simp [Notation.Digits.isTidy, Nat.add_comm]
    rfl
  · have hread := Notation.Digits.read_pointed hds.all hfs (d := {}) rfl (by decide) rfl
    unfold Notation.digits?
    split
    · next h => exact absurd (List.cons.inj h).1 hzero
    · simp only [hread]
      simp [Notation.Digits.isTidy]

theorem scaled_neg (n : Int) (k : Nat) :
    Notation.scaled n (-k) (-k) = mkRat n (Nat.pow 10 k) := by
  have hpow : 5 ^ k * 2 ^ k = 10 ^ k := (Nat.mul_pow 5 2 k).symm
  unfold Notation.scaled
  simp [hpow]

/-- With the point left out, the digits spell the number times a power of ten. -/
theorem mkRat_spelledNumber (s : Int) (ds fs : List Char) :
    mkRat (s * (spelledNumber (ds ++ fs) : Int)) (Nat.pow 10 fs.length) = spelledRatio s ds fs := by
  have hpow : ((Nat.pow 10 fs.length : Nat) : ℚ) = 10 ^ fs.length := Nat.cast_pow 10 fs.length
  rw [Rat.mkRat_eq_div, hpow, spelledNumber_append, spelledRatio]
  push_cast
  field_simp

/-- **A decimal denotes its whole part and its fraction with its sign.** -/
theorem decimal?_of_spelling {text : String} {sign ds fs : List Char} {s : Int}
    (htext : text.toList = sign ++ ds ++ '.' :: fs) (hsign : SignSpelling sign s)
    (hds : Digits ds) (hfs : Digits fs) :
    Notation.decimal? text = some (spelledRatio s ds fs) := by
  have hslash : text.toList.contains '/' = false := by
    have hno : ∀ cs, Digits cs → '/' ∉ cs := fun cs hcs hmem => by cases hcs.all _ hmem
    have hsign' : '/' ∉ sign := by cases hsign <;> decide
    rw [htext]
    simp [hsign', hno ds hds, hno fs hfs]
  have hratio := mkRat_spelledNumber s ds fs
  rw [Notation.decimal?, hslash, if_neg Bool.false_ne_true, Notation.pointed?, htext,
    sign_of_spelling hsign hds]
  dsimp only
  rw [digits?_pointed hds hfs]
  by_cases hnone : spelledNumber (ds ++ fs) = 0
  · simp [Notation.exponent?, hnone, ← hratio]
  · simp [Notation.exponent?, hnone, scaled_neg, ← hratio]

/-! ## String literals -/

theorem escaped?_of_mem {e c : Char} (h : (e, c) ∈ escapePairs) : escaped? e = some c := by
  simp only [escapePairs, List.mem_cons, Prod.mk.injEq, List.not_mem_nil, or_false] at h
  rcases h with ⟨rfl, rfl⟩ | ⟨rfl, rfl⟩ | ⟨rfl, rfl⟩ | ⟨rfl, rfl⟩ | ⟨rfl, rfl⟩ | ⟨rfl, rfl⟩ |
    ⟨rfl, rfl⟩
  all_goals rfl

/-- What the lexer takes as the inside of a string literal can be decoded. -/
theorem Lexer.Quoted.unquotes {body : List Char} (h : Quoted body) :
    ∃ value, Unquotes body value := by
  induction h with
  | nil => exact ⟨[], .nil⟩
  | @escape e cs he _ ih =>
      obtain ⟨value, hvalue⟩ := ih
      have hpair : ∃ p ∈ escapePairs, p.1 = e := List.mem_map.mp (he : e ∈ escapePairs.map Prod.fst)
      obtain ⟨⟨e, c⟩, hc, rfl⟩ := hpair
      exact ⟨c :: value, .escape hc hvalue⟩
  | @plain c cs hc hq _ ih =>
      obtain ⟨value, hvalue⟩ := ih
      exact ⟨c :: value, .plain hc hq hvalue⟩

/-- **The decoder finds what a string literal stands for.** -/
theorem Unquotes.unescape_eq {body value : List Char} (h : Unquotes body value) :
    unescape body = value := by
  induction h with
  | nil => rfl
  | escape hpair _ ih => rw [unescape, escaped?_of_mem hpair, ih]; rfl
  | plain hc _ _ ih => rw [unescape_cons hc, ih]

/-! ## Literals of a text -/

/-- The parser gives a literal the value that it denotes. -/
theorem Denotes.primary_eq {t : Token} {value : Constant}
    (h : Denotes t.kind t.text.toList value) (rest : List Token) :
    (Parser.primary (t :: rest)).outcome = .ok (.literal value t.pos, rest) := by
  rw [Parser.outcome_primary_cons]
  generalize hkind : t.kind = kind at h
  generalize htext : t.text.toList = text at h
  cases h with
  | integer hsign hds => dsimp only; rw [integer?_of_spelling htext hsign hds]
  | decimal hsign hds hfs => dsimp only; rw [decimal?_of_spelling htext hsign hds hfs]
  | @string body value hvalue =>
      dsimp only
      rw [if_neg (two_le_of_quoted htext), literalText_quoted htext, hvalue.unescape_eq,
        Constant.ofBytes_utf8Bytes]

/-- What denotes something is no reason to complain. -/
theorem Denotes.complaint?_eq_none {t : Token} {value : Constant}
    (h : Denotes t.kind t.text.toList value) : t.complaint? = none := by
  unfold Token.complaint?
  generalize hkind : t.kind = kind at h
  generalize htext : t.text.toList = text at h
  cases h with
  | integer hsign hds => dsimp only; rw [integer?_of_spelling htext hsign hds]; rfl
  | decimal hsign hds hfs => dsimp only; rw [decimal?_of_spelling htext hsign hds hfs]; rfl
  | @string body value hvalue => dsimp only; rw [if_neg (two_le_of_quoted htext)]

/-- What has the shape of a literal denotes something. -/
theorem Lexer.Shape.exists_value {kind : Kind} {text : List Char} {rest : List Glyph}
    (h : Shape kind text rest) (hkind : kind ∈ [Kind.integer, .decimal, .string]) :
    ∃ value, Denotes kind text value := by
  cases h with
  | identifier => simp at hkind
  | symbols => simp at hkind
  | mark => simp at hkind
  | integer hwhole =>
      obtain ⟨sign, ds, s, rfl, hsign, hds⟩ := hwhole.exists_sign
      exact ⟨_, .integer hsign hds⟩
  | decimal hwhole hfs =>
      obtain ⟨sign, ds, s, rfl, hsign, hds⟩ := hwhole.exists_sign
      exact ⟨_, .decimal hsign hds hfs⟩
  | string hbody =>
      obtain ⟨value, hvalue⟩ := hbody.unquotes
      exact ⟨_, .string hvalue⟩

/-- **Every literal of a text denotes something.** -/
theorem Token.denotes_of_lex {source : List UInt8} {ts : List Token}
    (h : Token.lex source = .ok ts) {t : Token} (ht : t ∈ ts)
    (hkind : t.kind ∈ [Kind.integer, .decimal, .string]) :
    ∃ value, Denotes t.kind t.text.toList value := by
  obtain ⟨rest, hshape⟩ := Lexer.shape_of_mem_tokens h t ht
  exact hshape.exists_value hkind

/-- No literal of a text is a reason to complain. -/
theorem Program.not_complaint {source : List UInt8} {e : ParseError}
    (h : Program.parse source = .error (.parse e)) :
    (Parser.Obstacle.fault e.fault).isComplaint = false := by
  obtain ⟨ts, hts, hrefused⟩ := Program.parse_eq_refused.mp h
  obtain ⟨rest, fault, hs, rfl⟩ := Program.ofTokens_eq_refused.mp hrefused
  refine Bool.eq_false_iff.mpr fun hcomplaint => ?_
  obtain ⟨t, ht, hfault⟩ := Parser.exists_complaint hs hcomplaint
  by_cases hkind : t.kind ∈ [Kind.integer, .decimal, .string]
  · obtain ⟨value, hvalue⟩ := Token.denotes_of_lex hts ht hkind
    rw [hvalue.complaint?_eq_none] at hfault
    cases hfault
  · -- only literals are complained about
    unfold Token.complaint? at hfault
    split at hfault
    · next hk => exact hkind (by rw [hk]; decide)
    · next hk => exact hkind (by rw [hk]; decide)
    · next hk => exact hkind (by rw [hk]; decide)
    · cases hfault

/--
**The lexer and the parser agree on every literal.** A literal of a text denotes a value, and the
parser reads it as that value whatever stands behind it. A string literal has two quotes with
something between them that can be decoded, and it makes no difference whether the decoder goes over
it or sees that there is nothing to decode. So no text is refused for a literal in it.
-/
theorem literals_denote (source : List UInt8) :
    (∀ ts, Token.lex source = .ok ts →
      ∀ t ∈ ts, t.kind ∈ [Kind.integer, .decimal, .string] →
        ∃ value, Denotes t.kind t.text.toList value ∧
          ∀ rest, ∃ fits, Parser.primary (t :: rest) = .ok ⟨.literal value t.pos, rest, fits⟩) ∧
    (∀ ts, Token.lex source = .ok ts → ∀ t ∈ ts, t.kind = .string →
      2 ≤ t.text.utf8ByteSize ∧
        ∃ body value, t.text.toList = '"' :: body ++ ['"'] ∧ Unquotes body value ∧
          unescape body = value ∧ literalText t.text = utf8Bytes (String.ofList value) ∧
          ('\\' ∉ body → value = body)) ∧
    (∀ e, Program.parse source = .error (.parse e) →
      ∀ text, e.fault ≠ .invalidInteger text ∧ e.fault ≠ .invalidDecimal text) := by
  refine ⟨fun ts hts t ht hkind => ?_, fun ts hts t ht hkind => ?_, fun e he text => ?_⟩
  · obtain ⟨value, hvalue⟩ := Token.denotes_of_lex hts ht hkind
    exact ⟨value, hvalue, fun rest => Parser.eq_of_outcome (hvalue.primary_eq rest)⟩
  · obtain ⟨value, hvalue⟩ := Token.denotes_of_lex hts ht (by rw [hkind]; decide)
    rw [hkind] at hvalue
    generalize htext : t.text.toList = text at hvalue
    cases hvalue with
    | @string body value hbody =>
        have hdecoded := hbody.unescape_eq
        refine ⟨Nat.not_lt.mp (two_le_of_quoted htext), body, value, rfl, hbody, hdecoded, ?_, ?_⟩
        · rw [literalText_quoted htext, hdecoded]
        · intro hplain
          rw [← hdecoded, unescape_eq_self hplain]
  · have hcomplaint := Program.not_complaint he
    constructor
    · intro hfault
      rw [hfault] at hcomplaint
      cases hcomplaint
    · intro hfault
      rw [hfault] at hcomplaint
      cases hcomplaint

/-- The text `+07 -1.50 "\"\\`, a line feed and `é"`: one literal of each kind. -/
def mixedLiterals : List UInt8 :=
  [0x2B, 0x30, 0x37, 0x20, 0x2D, 0x31, 0x2E, 0x35, 0x30, 0x20, 0x22, 0x5C, 0x22, 0x5C, 0x5C, 0x0A,
    0xC3, 0xA9, 0x22]

/-- The last literal of that text, which goes over two lines. -/
def mixedString : String := "\"\\\"\\\\\né\""

/-- The tokens of that text. -/
def mixedTokens : List Token :=
  [⟨.integer, "+07", ⟨0, 1, 1⟩⟩, ⟨.decimal, "-1.50", ⟨4, 1, 5⟩⟩,
    ⟨.string, mixedString, ⟨10, 1, 11⟩⟩]

/-- Its error: an expression does not go on with a literal. -/
def mixedError : ParseError :=
  { pos := ⟨4, 1, 5⟩, index := 1, fault := .expectedExpressionEnd (.token .decimal "-1.50"),
    incomplete := false }

theorem literals_denote_mixed :
    Token.lex mixedLiterals = .ok mixedTokens ∧
    Program.parse mixedLiterals = .error (.parse mixedError) ∧
    (∀ t ∈ mixedTokens, ∃ value, Denotes t.kind t.text.toList value ∧
      ∀ rest, ∃ fits, Parser.primary (t :: rest) = .ok ⟨.literal value t.pos, rest, fits⟩) ∧
    (∃ body value, mixedString.toList = '"' :: body ++ ['"'] ∧ Unquotes body value ∧
      literalText mixedString = utf8Bytes (String.ofList value)) ∧
    ∀ text, mixedError.fault ≠ .invalidInteger text ∧ mixedError.fault ≠ .invalidDecimal text := by
  have hlex : Token.lex mixedLiterals = .ok mixedTokens := by with_unfolding_all rfl
  have hparse : Program.parse mixedLiterals = .error (.parse mixedError) := by
    with_unfolding_all rfl
  obtain ⟨hvalues, hstrings, herrors⟩ := literals_denote mixedLiterals
  refine ⟨hlex, hparse, fun t ht => ?_, ?_, herrors mixedError hparse⟩
  · have hkinds : ∀ t ∈ mixedTokens, t.kind ∈ [Kind.integer, .decimal, .string] := by decide
    exact hvalues mixedTokens hlex t ht (hkinds t ht)
  · obtain ⟨-, body, value, htext, hbody, -, hvalue, -⟩ :=
      hstrings mixedTokens hlex ⟨.string, mixedString, ⟨10, 1, 11⟩⟩ (by simp [mixedTokens]) rfl
    exact ⟨body, value, htext, hbody, hvalue⟩

end LetWhile
