import Mathlib.Data.Sign.Basic
import LetWhile.Proofs.Rounding

/-!
# Which decimal literals are accepted

The checker rounds a decimal literal first and then looks at the double: an infinite one is an
overflow, and one below the least normal number is an underflow, unless the literal is zero. So the
literals that it accepts end where rounding crosses over to one of these, which is halfway between
two doubles. Below infinity and below the normal numbers the double next to the boundary has an odd
code, so the halfway point itself is rounded up: it is the first overflow at the upper end, and the
first literal that is accepted at the lower one.
-/

namespace LetWhile

namespace Binary64

/-- The least magnitude that is rounded to a normal number. -/
def normalBound : ℚ := 2 ^ (-1022 : Int) - 2 ^ (-1075 : Int)

/-- The least magnitude that is rounded to infinity. -/
def finiteBound : ℚ := 2 ^ (1024 : Int) - 2 ^ (970 : Int)

/-! ## Where rounding crosses a boundary -/

/-- Half a unit below a power of two, in units of another one. -/
theorem half_below (k e : Int) :
    ((2 : ℚ) ^ k - 1 / 2) * 2 ^ e = 2 ^ (k + e) - 2 ^ (e - 1) := by
  rw [sub_mul, ← zpow_add₀ two_ne_zero, zpow_sub_one₀ two_ne_zero, mul_comm (1 / 2 : ℚ), one_div]

section Rounded

variable {x : ℚ} {e : Int} {m code : Nat}

/-- **A significand stays below an even one** up to halfway below it; from there on it is rounded
up. -/
theorem Rounded.significand_lt_iff (h : Rounded x e m code) {b : Nat} (hb : b % 2 = 0) :
    m < b ↔ x / 2 ^ e < b - 1 / 2 := by
  obtain ⟨hlow, hhigh⟩ := abs_le.mp h.close
  constructor
  · intro hm
    by_contra hx
    have hx : (b : ℚ) - 1 / 2 ≤ x / 2 ^ e := not_lt.mp hx
    have hsucc : (m : ℚ) + 1 ≤ b := by exact_mod_cast hm
    -- the quotient lies halfway between the significand and the bound, which differ by one
    have hhalf : |(m : ℚ) - x / 2 ^ e| = 1 / 2 := by
      rw [abs_sub_comm, abs_of_nonneg (by linarith)]
      linarith
    have hbound : (b : ℚ) = m + 1 := by linarith
    have hbound : b = m + 1 := by exact_mod_cast hbound
    have heven := h.even hhalf
    omega
  · intro hx
    have hm : (m : ℚ) < b := by linarith
    exact_mod_cast hm

/-- A code is below the normal ones exactly if the magnitude is below their bound. -/
theorem Rounded.code_lt_binade_iff (h : Rounded x e m code) : code < binade ↔ x < normalBound := by
  have hcode := h.code_eq
  by_cases hmin : minExponent < e
  · -- in a higher binade, both the code and the magnitude are large enough
    have hone : 1 ≤ (e - minExponent).toNat := by omega
    have hlarge : binade ≤ code := by
      rw [hcode]
      exact (Nat.le_mul_of_pos_left binade hone).trans (Nat.le_add_right _ _)
    have habove : normalBound ≤ x := by
      calc normalBound ≤ 2 ^ (-1022 : Int) := sub_le_self _ (by positivity)
        _ ≤ 2 ^ ((52 : Int) + e) := by
          rw [minExponent] at hmin
          exact zpow_le_zpow_right₀ one_le_two (by omega)
        _ = binade * 2 ^ e := by rw [zpow_add₀ two_ne_zero, binade_eq]
        _ ≤ x := h.above hmin
    exact ⟨fun hlt => absurd hlt (not_lt.mpr hlarge), fun hlt => absurd hlt (not_lt.mpr habove)⟩
  · have he : e = minExponent := by
      have := h.least
      omega
    have hsame : code = m := by
      rw [hcode, he, Int.sub_self, Int.toNat_zero, Nat.zero_mul, Nat.zero_add]
    have hbound : ((binade : ℚ) - 1 / 2) * 2 ^ minExponent = normalBound := by
      rw [binade_eq, half_below]
      rfl
    rw [hsame, h.significand_lt_iff (by decide), he, div_lt_iff₀ (by positivity), hbound]

theorem two_mul_binade : 2 * (binade : ℚ) = 2 ^ (53 : Int) := by
  rw [binade_eq, ← zpow_one_add₀ two_ne_zero]
  rfl

theorem le_finiteBound : (2 : ℚ) ^ (1023 : Int) ≤ finiteBound := by
  have hdouble : (2 : ℚ) ^ (1024 : Int) = 2 ^ (1023 : Int) + 2 ^ (1023 : Int) := by
    rw [← two_mul, ← zpow_one_add₀ two_ne_zero]
    rfl
  rw [finiteBound, hdouble, le_sub_iff_add_le]
  exact add_le_add_right (zpow_le_zpow_right₀ one_le_two (by decide)) _

/-- A code is below infinity exactly if the magnitude is below the bound of the finite ones. -/
theorem Rounded.code_lt_infinityCode_iff (h : Rounded x e m code) :
    code < infinityCode ↔ x < finiteBound := by
  have hcode := h.code_eq
  have hbinade : 0 < binade := by decide
  have htop : minExponent + 2045 = 971 := by decide
  have hbound : ((2 * binade : Nat) - 1 / 2 : ℚ) * 2 ^ (971 : Int) = finiteBound := by
    rw [Nat.cast_mul, Nat.cast_two, two_mul_binade, half_below]
    rfl
  rcases lt_trichotomy e 971 with he | he | he
  · -- below the highest binade, rounding up does not reach infinity
    have hm := h.le_two_binade
    have hexp : (e - minExponent).toNat ≤ 2044 := by omega
    have hfinite : code < infinityCode := by
      have := Nat.mul_le_mul_right binade hexp
      rw [infinityCode]
      omega
    have hbelow : x < finiteBound := by
      calc x < 2 * binade * 2 ^ e := h.below
        _ = 2 ^ ((53 : Int) + e) := by rw [two_mul_binade, zpow_add₀ two_ne_zero]
        _ ≤ 2 ^ (1023 : Int) := zpow_le_zpow_right₀ one_le_two (by omega)
        _ ≤ finiteBound := le_finiteBound
    exact ⟨fun _ => hbelow, fun _ => hfinite⟩
  · have hexp : (e - minExponent).toNat = 2045 := by omega
    have hsplit : code < infinityCode ↔ m < 2 * binade := by
      rw [hcode, hexp, infinityCode]
      omega
    rw [hsplit, h.significand_lt_iff (by decide), he, div_lt_iff₀ (by positivity), hbound]
  · have hmin : minExponent < e := by omega
    have hm := h.binade_le hmin
    have hexp : 2046 ≤ (e - minExponent).toNat := by omega
    have hinfinite : infinityCode ≤ code := by
      have := Nat.mul_le_mul_right binade hexp
      rw [infinityCode]
      omega
    have habove : finiteBound ≤ x := by
      calc finiteBound ≤ 2 ^ (1024 : Int) := sub_le_self _ (by positivity)
        _ ≤ 2 ^ ((52 : Int) + e) := zpow_le_zpow_right₀ one_le_two (by omega)
        _ = binade * 2 ^ e := by rw [zpow_add₀ two_ne_zero, binade_eq]
        _ ≤ x := h.above hmin
    exact ⟨fun hlt => absurd hlt (not_lt.mpr hinfinite),
      fun hlt => absurd hlt (not_lt.mpr habove)⟩

end Rounded

theorem normalBound_pos : 0 < normalBound :=
  sub_pos.mpr (zpow_lt_zpow_right₀ one_lt_two (by decide))

theorem finiteBound_pos : 0 < finiteBound :=
  lt_of_lt_of_le (by positivity) le_finiteBound

theorem normalBound_lt_finiteBound : normalBound < finiteBound :=
  calc normalBound < 2 ^ (-1022 : Int) := sub_lt_self _ (by positivity)
    _ ≤ 2 ^ (1023 : Int) := zpow_le_zpow_right₀ one_le_two (by decide)
    _ ≤ finiteBound := le_finiteBound

/-! ## Doubles -/

theorem code_ofRat_zero : (ofRat 0).code = 0 := by
  rw [code_ofRat]
  rfl

/-- How the double of a rational was found; zero has no size to find it by. -/
theorem exists_rounded_ofRat {q : ℚ} (hq : q ≠ 0) :
    ∃ e m code, Rounded |q| e m code ∧ (ofRat q).code = min infinityCode code := by
  have hnum : q.num.natAbs ≠ 0 := Int.natAbs_ne_zero.mpr (Rat.num_ne_zero.mpr hq)
  rw [abs_eq_num_div_den, code_ofRat]
  exact exists_rounded hnum q.den_ne_zero

theorem code_ofRat_lt_binade_iff (q : ℚ) : (ofRat q).code < binade ↔ |q| < normalBound := by
  by_cases hq : q = 0
  · rw [hq, code_ofRat_zero, abs_zero]
    exact iff_of_true (by decide) normalBound_pos
  · obtain ⟨e, m, code, h, hcode⟩ := exists_rounded_ofRat hq
    have hbinade : binade < infinityCode := by decide
    rw [← h.code_lt_binade_iff, hcode]
    omega

theorem code_ofRat_lt_infinityCode_iff (q : ℚ) :
    (ofRat q).code < infinityCode ↔ |q| < finiteBound := by
  by_cases hq : q = 0
  · rw [hq, code_ofRat_zero, abs_zero]
    exact iff_of_true (by decide) finiteBound_pos
  · obtain ⟨e, m, code, h, hcode⟩ := exists_rounded_ofRat hq
    rw [← h.code_lt_infinityCode_iff, hcode]
    omega

/-- **What an accepted literal stands for.** The double is the nearest one, it is zero or a normal
number, and it has the sign of the literal. The literal zero has no sign. -/
structure Represents (x : Binary64) (q : ℚ) : Prop where
  nearest : NearestTo x q
  zero_or_normal : x.toRat = 0 ∧ x.code = 0 ∨ binade ≤ x.code ∧ x.code < infinityCode
  sign_eq : SignType.sign x.toRat = SignType.sign q
  negative_iff : x.negative = true ↔ q < 0

theorem magnitude_pos {code : Nat} (h : binade ≤ code) : 0 < magnitude code := by
  have hsignificand : 0 < significand code := by
    unfold significand
    rw [if_neg (by omega)]
    exact Nat.add_pos_left (by decide) _
  rw [magnitude_eq]
  positivity

theorem negative_ofRat (q : ℚ) : (ofRat q).negative = true ↔ q < 0 := by
  have hsign : (ofRat q).negative = decide (q.num < 0) :=
    negative_ofCode _ (Typing.roundCode_le _ _)
  rw [hsign, decide_eq_true_eq, Rat.num_neg]

theorem toRat_ofRat_zero : (ofRat 0).toRat = 0 := by
  rw [toRat_ofRat, code_ofRat_zero, if_neg (lt_irrefl 0), magnitude_eq]
  simp [significand, binade]

theorem sign_toRat_ofRat {q : ℚ} (h : binade ≤ (ofRat q).code) (hq : q ≠ 0) :
    SignType.sign (ofRat q).toRat = SignType.sign q := by
  have hpos := magnitude_pos h
  rw [toRat_ofRat]
  rcases lt_or_gt_of_ne hq with hneg | hgt
  · rw [if_pos hneg, sign_neg hneg, sign_neg (neg_neg_of_pos hpos)]
  · rw [if_neg hgt.not_gt, sign_pos hgt, sign_pos hpos]

/-- The rationals whose double is finite, and normal unless they are zero. -/
theorem represents_ofRat {q : ℚ} (h : q = 0 ∨ normalBound ≤ |q| ∧ |q| < finiteBound) :
    Represents (ofRat q) q := by
  rcases h with rfl | ⟨hlow, hhigh⟩
  · have hcode := code_ofRat_zero
    refine ⟨nearestTo_ofRat (by rw [hcode]; decide), .inl ⟨toRat_ofRat_zero, hcode⟩, ?_,
      negative_ofRat 0⟩
    rw [toRat_ofRat_zero]
  · have hfinite := (code_ofRat_lt_infinityCode_iff q).mpr hhigh
    have hnormal : binade ≤ (ofRat q).code :=
      not_lt.mp fun hlt => not_lt.mpr hlow ((code_ofRat_lt_binade_iff q).mp hlt)
    have hq : q ≠ 0 := abs_pos.mp (lt_of_lt_of_le normalBound_pos hlow)
    exact ⟨nearestTo_ofRat hfinite, .inr ⟨hnormal, hfinite⟩, sign_toRat_ofRat hnormal hq,
      negative_ofRat q⟩

end Binary64

/-! ## Literals -/

open Binary64

/-- The checker's tests of a decimal literal, as tests of the rational. -/
theorem Check.literal_ratio (pos : Position) (q : ℚ) :
    literal pos (.ratio q) =
      if finiteBound ≤ |q| then reject pos .decimalOverflow
      else if q ≠ 0 ∧ |q| < normalBound then reject pos .decimalUnderflow
      else .ok (.literal .decimal (.double (ofRat q)) pos) := by
  have hinfinite : (ofRat q).isInfinite = true ↔ finiteBound ≤ |q| := by
    rw [← not_lt, ← code_ofRat_lt_infinityCode_iff, ← Typing.isInfinite_ofRat_iff,
      Bool.not_eq_false]
  unfold literal
  simp only [hinfinite, code_ofRat_lt_binade_iff]

/--
**Decimal literals are accepted on an exact interval.** The checker turns the decimal literal `q`
into a double exactly if `q` is zero or its magnitude lies between the two bounds, the lower one
included and the upper one not. The double is the nearest one, it is zero or a normal number, and it
has the sign of `q`. From the upper bound on, a literal is refused as an overflow, and below the
lower one as an underflow.
-/
theorem decimalLiteral_accepted_iff (lib : Library) (scope : Scope) (pos : Position) (q : ℚ) :
    ((∃ x, Check.expr lib scope (.literal (.ratio q) pos) =
          .ok (.literal .decimal (.double x) pos) ∧ x.Represents q) ↔
        q = 0 ∨ normalBound ≤ |q| ∧ |q| < finiteBound) ∧
      (Check.expr lib scope (.literal (.ratio q) pos) = .error ⟨pos, .decimalOverflow⟩ ↔
        finiteBound ≤ |q|) ∧
      (Check.expr lib scope (.literal (.ratio q) pos) = .error ⟨pos, .decimalUnderflow⟩ ↔
        q ≠ 0 ∧ |q| < normalBound) := by
  rw [Check.expr, Check.literal_ratio]
  by_cases hover : finiteBound ≤ |q|
  · have hq : q ≠ 0 := abs_pos.mp (lt_of_lt_of_le finiteBound_pos hover)
    have hnormal : normalBound ≤ |q| := normalBound_lt_finiteBound.le.trans hover
    rw [if_pos hover]
    refine ⟨iff_of_false ?_ ?_, iff_of_true rfl hover, iff_of_false ?_ ?_⟩
    · rintro ⟨x, h, -⟩
      cases h
    · rintro (rfl | ⟨-, hlt⟩)
      · exact hq rfl
      · exact not_lt.mpr hover hlt
    · intro h
      cases h
    · exact fun h => not_lt.mpr hnormal h.2
  rw [if_neg hover]
  by_cases hunder : q ≠ 0 ∧ |q| < normalBound
  · rw [if_pos hunder]
    refine ⟨iff_of_false ?_ ?_, iff_of_false ?_ hover, iff_of_true rfl hunder⟩
    · rintro ⟨x, h, -⟩
      cases h
    · rintro (h | ⟨hle, -⟩)
      · exact hunder.1 h
      · exact not_lt.mpr hle hunder.2
    · intro h
      cases h
  · have hrange : q = 0 ∨ normalBound ≤ |q| ∧ |q| < finiteBound := by
      by_cases hq : q = 0
      · exact .inl hq
      · exact .inr ⟨not_lt.mp fun hlt => hunder ⟨hq, hlt⟩, not_le.mp hover⟩
    rw [if_neg hunder]
    refine ⟨iff_of_true ⟨_, rfl, represents_ofRat hrange⟩ hrange, iff_of_false ?_ hover,
      iff_of_false ?_ hunder⟩
    · intro h
      cases h
    · intro h
      cases h

end LetWhile
