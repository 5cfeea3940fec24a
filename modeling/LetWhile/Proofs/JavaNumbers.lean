import LetWhile.Proofs.Denotations
import LetWhile.Proofs.ShortestDecimals
import LetWhile.Java.Printer

/-!
# Number literals in Java

Java has more than one kind of number literal, and which kind a text is shows only in its
characters. Digits alone are an integer, in base eight if the first of them is a zero and there are
more. With a point or an exponent they are a double. A literal has no sign: a minus in front of it
is an operator that turns the number round.

`Integral` and `Floating` are these literals with the numbers that they spell. An integer is printed
without a zero in front, and a double is printed in one of three layouts, of which the one for whole
numbers of a moderate size has neither a point nor an exponent; the printer adds a point there. In
each of them the digits keep their places, so what is spelled is the decimal that was printed.
-/

namespace LetWhile

open Lexer Binary64

namespace Java

/-! ## What Java reads -/

/-- **An integer as Java reads it in base ten.** There is no sign but a minus, and no zero in
front. -/
inductive Integral : List Char → Int → Prop where
  | zero : Integral ['0'] 0
  | positive {d : Char} {ds : List Char} :
      d ≠ '0' → Digits (d :: ds) → Integral (d :: ds) (spelledNumber (d :: ds))
  | negative {d : Char} {ds : List Char} :
      d ≠ '0' → Digits (d :: ds) → Integral ('-' :: d :: ds) (-spelledNumber (d :: ds))

/-- An exponent, and the power of ten that it stands for. -/
inductive Exponent : List Char → Int → Prop where
  | mk {sign ds : List Char} {s : Int} :
      SignSpelling sign s → Digits ds → Exponent ('e' :: sign ++ ds) (s * spelledNumber ds)

/-- **A double literal**, and the number that it spells. It has a point with digits on both sides,
or an exponent, or both. -/
inductive Floating : List Char → ℚ → Prop where
  | point {ds fs : List Char} :
      Digits ds → Digits fs → Floating (ds ++ '.' :: fs) (spelledRatio 1 ds fs)
  | exponent {ds es : List Char} {e : Int} :
      Digits ds → Exponent es e → Floating (ds ++ es) (spelledNumber ds * 10 ^ e)
  | pointExponent {ds fs es : List Char} {e : Int} :
      Digits ds → Digits fs → Exponent es e →
      Floating (ds ++ '.' :: fs ++ es) (spelledRatio 1 ds fs * 10 ^ e)

/-- A double literal with or without a minus in front. -/
inductive SignedFloating : List Char → ℚ → Prop where
  | plain {cs : List Char} {r : ℚ} : Floating cs r → SignedFloating cs r
  | minus {cs : List Char} {r : ℚ} : Floating cs r → SignedFloating ('-' :: cs) (-r)

/-- A double literal cannot be taken for an integer. -/
theorem Floating.marked {cs : List Char} {r : ℚ} (h : Floating cs r) : '.' ∈ cs ∨ 'e' ∈ cs := by
  cases h with
  | point => exact .inl (by simp)
  | exponent _ he => cases he; exact .inr (by simp)
  | pointExponent => exact .inl (by simp)

theorem SignedFloating.marked {cs : List Char} {r : ℚ} (h : SignedFloating cs r) :
    '.' ∈ cs ∨ 'e' ∈ cs := by
  cases h with
  | plain h => exact h.marked
  | minus h => exact h.marked.imp (List.mem_cons_of_mem _) (List.mem_cons_of_mem _)

/-! ## Digits -/

theorem digits_toDigits (n : Nat) : Digits (Nat.toDigits 10 n) :=
  ⟨Nat.toDigits_ne_nil, fun _ hc => isDigit_of_mem_toDigits hc⟩

theorem spelledNumber_toDigits (n : Nat) : spelledNumber (Nat.toDigits 10 n) = n := by
  have h := ofDigitChars_eq_spelledNumber (Nat.toDigits 10 n) 0
  rwa [Nat.zero_mul, Nat.zero_add, Nat.ofDigitChars_ten_toDigits, eq_comm] at h

theorem spelledNumber_zeros (k : Nat) : spelledNumber (List.replicate k '0') = 0 := by
  induction k with
  | zero => rfl
  | succ k ih =>
      rw [List.replicate_succ', spelledNumber_append, ih]
      rfl

/-- Zeros in front do not count. -/
theorem spelledNumber_zeros_append (k : Nat) (ds : List Char) :
    spelledNumber (List.replicate k '0' ++ ds) = spelledNumber ds := by
  rw [spelledNumber_append, spelledNumber_zeros, Nat.zero_mul, Nat.zero_add]

theorem isDigit_zeros (k : Nat) : ∀ c ∈ List.replicate k '0', isDigit c = true :=
  fun _ hc => List.eq_of_mem_replicate hc ▸ rfl

theorem digits_zero : Digits ['0'] :=
  ⟨List.cons_ne_nil _ _, isDigit_zeros 1⟩

theorem digits_zeros_append (k : Nat) {ds : List Char} (h : Digits ds) :
    Digits (List.replicate k '0' ++ ds) :=
  ⟨List.append_ne_nil_of_right_ne_nil _ h.ne_nil,
    List.forall_mem_append.mpr ⟨isDigit_zeros k, h.all⟩⟩

/-- Zeros behind are powers of ten. -/
theorem spelledNumber_append_zeros (ds : List Char) (k : Nat) :
    spelledNumber (ds ++ List.replicate k '0') = spelledNumber ds * 10 ^ k := by
  rw [spelledNumber_append, spelledNumber_zeros, List.length_replicate, Nat.add_zero]

theorem digits_append_zeros {ds : List Char} (h : Digits ds) (k : Nat) :
    Digits (ds ++ List.replicate k '0') :=
  ⟨List.append_ne_nil_of_left_ne_nil h.ne_nil _,
    List.forall_mem_append.mpr ⟨h.all, isDigit_zeros k⟩⟩

/-- Digits with a point among them spell the number that they would spell without it, shifted. -/
theorem spelledRatio_one (ds fs : List Char) :
    spelledRatio 1 ds fs = spelledNumber (ds ++ fs) * (10 : ℚ) ^ (-(fs.length : Int)) := by
  rw [spelledRatio, spelledNumber_append, zpow_neg, zpow_natCast]
  push_cast
  field_simp

/-! ## Integers -/

/-- The first digit of a positive number is not zero. -/
theorem exists_toDigits_cons {n : Nat} (hn : 0 < n) :
    ∃ d ds, Nat.toDigits 10 n = d :: ds ∧ d ≠ '0' := by
  induction n using Nat.strongRecOn with
  | ind n ih =>
    by_cases hlt : n < 10
    · have hall : ∀ k < 10, 0 < k → Nat.digitChar k ≠ '0' := by decide
      exact ⟨n.digitChar, [], Nat.toDigits_of_lt_base hlt, hall n hlt hn⟩
    · obtain ⟨d, ds, hds, hd⟩ := ih (n / 10) (by omega) (by omega)
      refine ⟨d, ds ++ [(n % 10).digitChar], ?_, hd⟩
      rw [Nat.toDigits_of_base_le (by decide) (not_lt.mp hlt), hds, List.cons_append]

/-- **An integer is printed as Java reads it in base ten.** -/
theorem integral_toString (n : Int) : Integral (toString n).toList n := by
  rw [toList_toString]
  by_cases hzero : n = 0
  · subst hzero
    exact .zero
  · obtain ⟨d, ds, hds, hd⟩ := exists_toDigits_cons (Int.natAbs_pos.mpr hzero)
    have hdigits : Digits (d :: ds) := hds ▸ digits_toDigits n.natAbs
    have hvalue : spelledNumber (d :: ds) = n.natAbs := by rw [← hds, spelledNumber_toDigits]
    rw [hds]
    split
    · next hneg =>
      have hn : n = -(spelledNumber (d :: ds) : Int) := by rw [hvalue]; omega
      rw [hn]
      exact .negative hd hdigits
    · next hpos =>
      have hn : n = (spelledNumber (d :: ds) : Int) := by rw [hvalue]; omega
      rw [hn]
      exact .positive hd hdigits

/-! ## Doubles -/

/-- An exponent is written with its sign, and with a zero in front if it would have one digit
only. -/
theorem exponent_spells (e : Int) : Exponent (Scientific.exponent e) e := by
  unfold Scientific.exponent Scientific.digits
  dsimp only
  generalize hpadded : (if (Nat.toDigits 10 e.natAbs).length < 2 then
    '0' :: Nat.toDigits 10 e.natAbs else Nat.toDigits 10 e.natAbs) = ds
  obtain ⟨hds, hvalue⟩ : Digits ds ∧ spelledNumber ds = e.natAbs := by
    have hdigits := digits_toDigits e.natAbs
    have hnumber := spelledNumber_toDigits e.natAbs
    rw [← hpadded]
    split
    · exact ⟨digits_zeros_append 1 hdigits, (spelledNumber_zeros_append 1 _).trans hnumber⟩
    · exact ⟨hdigits, hnumber⟩
  split
  · next hneg =>
    have hexponent := Exponent.mk .minus hds
    rwa [hvalue, show -1 * (e.natAbs : Int) = e by omega] at hexponent
  · next hpos =>
    have hexponent := Exponent.mk .plus hds
    rwa [hvalue, show 1 * (e.natAbs : Int) = e by omega] at hexponent

theorem fraction_nil : Scientific.fraction [] = [] := rfl

theorem fraction_of_ne_nil {ds : List Char} (h : ds ≠ []) : Scientific.fraction ds = '.' :: ds :=
  if_neg (by simpa using h)

/-- With the exponent written out, the point stands behind the first digit. -/
theorem floating_withExponent {ds : List Char} (h : Digits ds) (e : Int) :
    Floating (Scientific.withExponent ds e)
      (spelledNumber ds * (10 : ℚ) ^ (e + 1 - ds.length)) := by
  obtain ⟨d, fs, rfl⟩ := List.exists_cons_of_ne_nil h.ne_nil
  obtain ⟨hd, hfs⟩ := List.forall_mem_cons.mp h.all
  have hfirst : Digits [d] := ⟨List.cons_ne_nil _ _, by simpa using hd⟩
  have hexponent := exponent_spells e
  unfold Scientific.withExponent
  cases fs with
  | nil => simpa [fraction_nil] using Floating.exponent hfirst hexponent
  | cons f fs =>
      have hfloating := Floating.pointExponent hfirst ⟨List.cons_ne_nil f fs, hfs⟩ hexponent
      rw [spelledRatio_one, mul_assoc, ← zpow_add₀ (by norm_num)] at hfloating
      have hshift : -((f :: fs).length : Int) + e = e + 1 - (d :: f :: fs).length := by
        simp only [List.length_cons]
        omega
      rw [hshift] at hfloating
      exact hfloating

/-- A point among digits. -/
theorem floating_split {ds : List Char} (h : Digits ds) {n : Nat} (hlong : n + 1 < ds.length) :
    Floating (ds.take (n + 1) ++ '.' :: ds.drop (n + 1))
      (spelledNumber ds * (10 : ℚ) ^ ((n : Int) + 1 - ds.length)) := by
  have hwhole : Digits (ds.take (n + 1)) :=
    ⟨by simpa using h.ne_nil, fun c hc => h.all c (List.mem_of_mem_take hc)⟩
  have hfraction : Digits (ds.drop (n + 1)) :=
    ⟨by simpa using hlong, fun c hc => h.all c (List.mem_of_mem_drop hc)⟩
  have hfloating := Floating.point hwhole hfraction
  rwa [spelledRatio_one, List.take_append_drop, List.length_drop,
    show -((ds.length - (n + 1) : Nat) : Int) = n + 1 - ds.length by omega] at hfloating

/-- A point in front of digits, and perhaps zeros between them. -/
theorem floating_zeros {ds : List Char} (h : Digits ds) (k : Nat) :
    Floating ('0' :: '.' :: List.replicate k '0' ++ ds)
      (spelledNumber ds * (10 : ℚ) ^ (-((k + ds.length : Nat) : Int))) := by
  have hfloating := Floating.point digits_zero (digits_zeros_append k h)
  have hvalue : spelledNumber (['0'] ++ (List.replicate k '0' ++ ds)) = spelledNumber ds :=
    (spelledNumber_zeros_append 1 _).trans (spelledNumber_zeros_append k ds)
  rwa [spelledRatio_one, hvalue, List.length_append, List.length_replicate] at hfloating

/-- Written plainly, a decimal has a point, or it is a whole number. -/
theorem plain_spells {ds : List Char} (h : Digits ds) (e : Int) :
    Floating (Scientific.plain ds e) (spelledNumber ds * (10 : ℚ) ^ (e + 1 - ds.length)) ∨
      Digits (Scientific.plain ds e) ∧
        (spelledNumber (Scientific.plain ds e) : ℚ) =
          spelledNumber ds * (10 : ℚ) ^ (e + 1 - ds.length) := by
  unfold Scientific.plain
  split
  · next he =>
    obtain ⟨n, rfl⟩ := Int.eq_ofNat_of_zero_le he
    dsimp only
    rw [Int.toNat_natCast]
    by_cases hlong : ds.length ≤ n + 1
    · -- zeros are filled in up to the place of the ones, and there is no fraction
      right
      rw [List.take_of_length_le hlong, List.drop_of_length_le hlong, fraction_nil,
        List.append_nil, spelledNumber_append_zeros,
        show (n : Int) + 1 - ds.length = (n + 1 - ds.length : Nat) by omega, zpow_natCast]
      exact ⟨digits_append_zeros h _, by push_cast; rfl⟩
    · -- nothing is filled in, and the other digits are the fraction
      left
      rw [Nat.sub_eq_zero_of_le (by omega), List.replicate_zero, List.append_nil,
        fraction_of_ne_nil (by simpa using hlong)]
      exact floating_split h (not_le.mp hlong)
  · next he =>
    left
    have hfloating := floating_zeros h ((-e).toNat - 1)
    rwa [show -(((-e).toNat - 1 + ds.length : Nat) : Int) = e + 1 - ds.length by omega] at hfloating

/-- **A decimal is spelled by its text**, as a double literal or as a whole number. -/
theorem decimal_spells (d : Decimal) :
    Floating (Scientific.decimal d) d.toRat ∨
      Digits (Scientific.decimal d) ∧ (spelledNumber (Scientific.decimal d) : ℚ) = d.toRat := by
  have hds := digits_toDigits d.digits
  have hvalue : d.toRat = spelledNumber (Nat.toDigits 10 d.digits) *
      (10 : ℚ) ^ (d.exponent + (Nat.toDigits 10 d.digits).length - 1 + 1 -
        (Nat.toDigits 10 d.digits).length) := by
    rw [Shortest.toRat_eq, spelledNumber_toDigits, sub_add_cancel, add_sub_cancel_right]
  unfold Scientific.decimal Scientific.digits
  dsimp only
  rw [hvalue]
  split
  · exact .inl (floating_withExponent hds _)
  · exact plain_spells hds _

/-- The test for a point or an exponent. -/
theorem any_marked_iff {cs : List Char} :
    (cs.any fun c => decide (c = '.') || decide (c = 'e')) = true ↔ '.' ∈ cs ∨ 'e' ∈ cs := by
  simp only [List.any_eq_true, Bool.or_eq_true, decide_eq_true_eq]
  constructor
  · rintro ⟨c, hc, rfl | rfl⟩
    · exact .inl hc
    · exact .inr hc
  · rintro (h | h)
    · exact ⟨_, h, .inl rfl⟩
    · exact ⟨_, h, .inr rfl⟩

/-- Digits have neither a point nor an exponent, with or without a minus in front. -/
theorem not_marked_of_digits {ds : List Char} (h : Digits ds) (negative : Bool) :
    ¬ ('.' ∈ (if negative then ['-'] else []) ++ ds ∨
      'e' ∈ (if negative then ['-'] else []) ++ ds) := by
  have hpoint : '.' ∉ ds := fun hc => absurd (h.all _ hc) (by decide)
  have hexponent : 'e' ∉ ds := fun hc => absurd (h.all _ hc) (by decide)
  cases negative with
  | false => simp [hpoint, hexponent]
  | true => simp [hpoint, hexponent]

/-- A point and a zero behind digits change nothing but the kind of the literal. -/
theorem floating_of_digits {ds : List Char} (h : Digits ds) :
    Floating (ds ++ ['.', '0']) (spelledNumber ds) := by
  have hfloating := Floating.point h digits_zero
  rw [spelledRatio_one, show ds ++ ['0'] = ds ++ List.replicate 1 '0' from rfl,
    spelledNumber_append_zeros] at hfloating
  simpa using hfloating

theorem Floating.signed {cs : List Char} {r : ℚ} (h : Floating cs r) (negative : Bool) :
    SignedFloating ((if negative then ['-'] else []) ++ cs) (if negative then -r else r) := by
  cases negative with
  | false => exact .plain h
  | true => exact .minus h

theorem toList_text {x : Binary64} (h : x.code < infinityCode) :
    x.text.toList =
      (if x.negative then ['-'] else []) ++ Scientific.decimal (Shortest.decimal x.code) := by
  have hnan : x.isNaN = false := by simpa [isNaN] using h.le
  have hinfinite : x.isInfinite = false := by simpa [isInfinite] using h.ne
  rw [Binary64.text, hnan, hinfinite, if_neg Bool.false_ne_true, if_neg Bool.false_ne_true,
    String.toList_ofList]

/-- **A finite double is printed as a double literal** that spells its shortest decimal. -/
theorem doubleLiteral_spells {x : Binary64} (h : x.code < infinityCode) :
    SignedFloating (doubleLiteral x).toList x.shortest := by
  unfold doubleLiteral shortest
  dsimp only
  rw [toList_text h]
  rcases decimal_spells (Shortest.decimal x.code) with hfloating | ⟨hdigits, hvalue⟩
  · -- the test finds the point or the exponent, so nothing is added
    have hsigned := hfloating.signed x.negative
    rw [if_pos (any_marked_iff.mpr hsigned.marked), toList_text h]
    exact hsigned
  · rw [if_neg (any_marked_iff.not.mpr (not_marked_of_digits hdigits x.negative)),
      String.toList_append, toList_text h, List.append_assoc, ← hvalue]
    exact (floating_of_digits hdigits).signed x.negative

end Java

end LetWhile
